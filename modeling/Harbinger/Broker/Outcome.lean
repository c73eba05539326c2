import Harbinger.Broker.Fencing

/-! The outcome law of settlement: what a settle call answers and does is decided by the
retained record of its token and by the live attempt of its message, and these two never
compete. -/

namespace Harbinger
open Container Ledger Deliveries

namespace Broker
variable {σ : Type} {cfg : HarbingerConfig} {b : Broker σ} {call : Call} {r : SettleReadings}

/-- One transition of an attempt: its message is handed on as `kind` and the readings decide,
and the attempt becomes a completion record. -/
def Performs (cfg : HarbingerConfig) (b : Broker σ) (id : Bytes) (entry : InFlightEntry) (kind : Settlement)
    (r : SettleReadings) (after : Broker σ) : Prop :=
  ∃ levelCost handed, HandOff b levelCost entry.message kind r.finish
      (System.fate entry.message kind r.finish.expiryAt) handed ∧
    after = { handed with deliveries := b.deliveries.finishClose cfg id entry kind r.doneAt r.pruneAt }

inductive SettleCase where
  | replayed | settled | lapsed | refused
  deriving DecidableEq

/-- When a settle call ends this way, and what it then answers and does. -/
def Outcome (cfg : HarbingerConfig) (b : Broker σ) (call : Call) (r : SettleReadings) : SettleCase → Prop
  | .replayed => ∃ record, b.deliveries.Remembers cfg call.token call.id r.recordAt record ∧
      (b.settle cfg call r).2 = ⟨b, none, none⟩ ∧
      (record.owner = call.owner → record.kind = call.kind → (b.settle cfg call r).1 = .ok) ∧
      (record.owner ≠ call.owner → (b.settle cfg call r).1.code = .permissionDenied) ∧
      (record.owner = call.owner → record.kind ≠ call.kind → (b.settle cfg call r).1.code = .failedPrecondition)
  | .settled => ∃ entry, b.deliveries.Owns call entry ∧ ¬b.deliveries.leaseOver entry r.leaseAt ∧
      (b.settle cfg call r).1 = .ok ∧ Performs cfg b call.id entry call.kind r (b.settle cfg call r).2.broker
  | .lapsed => ∃ entry, b.deliveries.Owns call entry ∧ b.deliveries.leaseOver entry r.leaseAt ∧
      (b.settle cfg call r).1.code = .failedPrecondition ∧
      Performs cfg b call.id entry .expired r (b.settle cfg call r).2.broker
  | .refused => (¬∃ record, b.deliveries.Remembers cfg call.token call.id r.recordAt record) ∧
      (¬∃ entry, b.deliveries.Owns call entry) ∧
      ((b.settle cfg call r).1.code = .notFound ∨ (b.settle cfg call r).1.code = .permissionDenied ∨
        (b.settle cfg call r).1.code = .failedPrecondition) ∧
      ∃ d, Forgets cfg b.deliveries call.token r.recordAt d ∧
        (b.settle cfg call r).2 = ⟨{ b with deliveries := d }, none, none⟩

theorem finishLocked_performs (cfg : HarbingerConfig) (b : Broker σ) (id : Bytes) (entry : InFlightEntry)
    (kind : Settlement) (reason : Bytes) (measurement : Option Int) (r : SettleReadings) :
    Performs cfg b id entry kind r
      (b.finishLocked cfg id entry kind reason measurement r.finish r.doneAt r.pruneAt).broker := by
  obtain ⟨levelCost, handed⟩ := finishHand_handOff cfg b entry kind reason measurement r.finish
  refine ⟨levelCost, _, handed, ?_⟩
  rw [finishLocked, handed.deliveries]

theorem settle_reply (admitted : b.settleRefused call = none) {d : Deliveries} {status : Status}
    (decided : b.deliveries.settleLocked cfg call r.recordAt r.leaseAt = (d, .reply status)) :
    b.settle cfg call r = (status, ⟨{ b with deliveries := d }, none, none⟩) := by
  simp only [settle, admitted, decided]

theorem settle_finish (admitted : b.settleRefused call = none) {d : Deliveries} {entry : InFlightEntry}
    {kind : Settlement} {reason : Bytes} {measurement : Option Int} {status : Status}
    (decided : b.deliveries.settleLocked cfg call r.recordAt r.leaseAt =
      (d, .finish entry kind reason measurement status)) :
    b.settle cfg call r = (status, { b with deliveries := d }.finishLocked cfg call.id entry kind reason measurement
      r.finish r.doneAt r.pruneAt) := by
  simp only [settle, admitted, decided]

theorem settleRefused_eq_none (registered : call.owner ∈ b.consumers)
    (wellFormed : wellFormedToken call.token = true) : b.settleRefused call = none := by
  rw [settleRefused, if_neg (not_not.mpr registered), if_neg (not_not.mpr wellFormed)]

section Tables
variable {cap : Nat} {clock : Time} (tables : b.deliveries.Consistent cap clock)
include tables

theorem owns_unrecorded {entry : InFlightEntry} (owns : b.deliveries.Owns call entry) :
    call.token ∉ b.deliveries.completed :=
  owns.2.2 ▸ tables.apart call.id entry owns.1

theorem owns_not_remembers {entry : InFlightEntry} (owns : b.deliveries.Owns call entry) {now : Time}
    {record : Completion} : ¬b.deliveries.Remembers cfg call.token call.id now record := by
  intro ⟨⟨slot, member, same⟩, token, _⟩
  have indexed := tables.recorded slot member
  rw [same, token] at indexed
  exact owns_unrecorded tables owns (AList.lookup_isSome.mp (Option.isSome_of_eq_some indexed))

theorem owns_forgets {entry : InFlightEntry} (owns : b.deliveries.Owns call entry) {now : Time} {d : Deliveries}
    (forgets : Forgets cfg b.deliveries call.token now d) : d = b.deliveries := by
  cases forgets with
  | nothing => rfl
  | expired handle record known =>
    exact absurd (AList.lookup_isSome.mp (Option.isSome_of_eq_some known)) (owns_unrecorded tables owns)

/-- One of the four cases applies. -/
theorem exists_outcome (cfg : HarbingerConfig) (admitted : b.settleRefused call = none) (r : SettleReadings) :
    ∃ ending, Outcome cfg b call r ending := by
  rcases settleLocked_cases tables cfg call r.recordAt r.leaseAt with
    ⟨record, remembered, decided⟩ | ⟨forgotten, d, forgets, decided⟩
  · refine ⟨.replayed, record, remembered, ?_⟩
    rw [settle_reply admitted decided]
    refine ⟨rfl, fun owner kind => ?_, fun owner => ?_, fun owner kind => ?_⟩
    · simp [replay, owner, kind]
    · simp [replay, owner]
    · simp [replay, owner, kind]
  · rcases b.deliveries.settleLive_cases call r.leaseAt with
      ⟨entry, owns, ⟨past, verdict⟩ | ⟨ahead, verdict⟩⟩ | ⟨nobody, status, verdict, code⟩
    · rw [verdict, owns_forgets tables owns forgets] at decided
      refine ⟨.lapsed, entry, owns, past, ?_⟩
      rw [settle_finish admitted decided]
      exact ⟨rfl, finishLocked_performs cfg b call.id entry .expired _ none r⟩
    · rw [verdict, owns_forgets tables owns forgets] at decided
      refine ⟨.settled, entry, owns, ahead, ?_⟩
      rw [settle_finish admitted decided]
      exact ⟨rfl, finishLocked_performs cfg b call.id entry call.kind _ _ r⟩
    · rw [verdict] at decided
      refine ⟨.refused, forgotten, nobody, ?_⟩
      rw [settle_reply admitted decided]
      exact ⟨code, d, forgets, rfl⟩

/-- No two of them do. -/
theorem outcome_unique {first second : SettleCase} (one : Outcome cfg b call r first)
    (two : Outcome cfg b call r second) : first = second := by
  have live : ∀ {entry other}, b.deliveries.Owns call entry → b.deliveries.Owns call other → other = entry :=
    fun owns owned => Option.some.inj (owned.1.symm.trans owns.1)
  cases first with
  | replayed =>
    obtain ⟨record, remembered, _⟩ := one
    cases second with
    | replayed => rfl
    | settled => exact absurd remembered (owns_not_remembers tables two.choose_spec.1)
    | lapsed => exact absurd remembered (owns_not_remembers tables two.choose_spec.1)
    | refused => exact absurd ⟨record, remembered⟩ two.1
  | settled =>
    obtain ⟨entry, owns, ahead, _⟩ := one
    cases second with
    | replayed => exact absurd two.choose_spec.1 (owns_not_remembers tables owns)
    | settled => rfl
    | lapsed =>
      obtain ⟨other, owned, past, _⟩ := two
      exact absurd (live owns owned ▸ past) ahead
    | refused => exact absurd ⟨entry, owns⟩ two.2.1
  | lapsed =>
    obtain ⟨entry, owns, past, _⟩ := one
    cases second with
    | replayed => exact absurd two.choose_spec.1 (owns_not_remembers tables owns)
    | settled =>
      obtain ⟨other, owned, ahead, _⟩ := two
      exact absurd past (live owns owned ▸ ahead)
    | lapsed => rfl
    | refused => exact absurd ⟨entry, owns⟩ two.2.1
  | refused =>
    obtain ⟨forgotten, nobody, _⟩ := one
    cases second with
    | replayed => exact absurd ⟨_, two.choose_spec.1⟩ forgotten
    | settled => exact absurd ⟨_, two.choose_spec.1⟩ nobody
    | lapsed => exact absurd ⟨_, two.choose_spec.1⟩ nobody
    | refused => rfl

end Tables

end Broker

namespace System
variable {σ : Type} {cfg : HarbingerConfig} {s : System σ}

theorem settled_unique (lawful : Lawful s.ledger) {owner owner' token id id' : Bytes} {kind kind' : Settlement}
    (here : .settled owner token id kind ∈ s.history) (there : .settled owner' token id' kind' ∈ s.history) :
    owner = owner' ∧ id = id' ∧ kind = kind' := by
  have pairs := List.pairwise_filterMap.mp (settled_once lawful).1
  have symmetric : Std.Symm fun first second : Event =>
      ∀ b, first.settled? = some b → ∀ b', second.settled? = some b' → b ≠ b' :=
    ⟨fun first second differ b one b' two => (differ b' two b one).symm⟩
  have apart := pairs.forall here there
  by_contra different
  refine apart (fun same => different ?_) token rfl token rfl rfl
  injection same with owners _ ids kinds
  exact ⟨owners, ids, kinds⟩

theorem answered_not_owned (reached : Reached cfg s) (free : s.holder = none) {call : Call}
    (answered : .answered call .ok ∈ s.history) : ¬∃ entry, s.broker.deliveries.Owns call entry := by
  intro ⟨entry, known, _, token⟩
  have unheld : s.pending = none := by
    rw [pending, free]
    rfl
  have found : s.live.lookup call.id = some entry := by rw [live_of_free unheld, known]
  refine (live_unsettled reached.lawful found).2 (List.mem_filterMap.mpr ⟨_, reached.lawful.final.grounded call answered, ?_⟩)
  rw [token]
  rfl

/-- A record that answers a request already answered `OK` agrees with it. -/
theorem answered_replay (reached : Reached cfg s) {call : Call} (answered : .answered call .ok ∈ s.history)
    {now : Time} {record : Completion}
    (remembered : s.broker.deliveries.Remembers cfg call.token call.id now record) :
    record.owner = call.owner ∧ record.kind = call.kind := by
  obtain ⟨⟨slot, member, rfl⟩, token, _⟩ := remembered
  have recorded := reached.sound.recorded slot member
  rw [Completion.event, token] at recorded
  obtain ⟨owner, _, kind⟩ := settled_unique reached.lawful recorded (reached.lawful.final.grounded call answered)
  exact ⟨owner, kind⟩

/-- The two parts of a settle call, taken without interruption, are the call. -/
theorem settle_uninterrupted [Ml.Inference σ] {started ended : System σ} {call : Call}
    (admitted : s.broker.settleRefused call = none) (r : Broker.SettleReadings)
    (first : s.step cfg (.settle call r.recordAt r.leaseAt r.finish) = some started) :
    (started.holder = none → started.broker = (s.broker.settle cfg call r).2.broker ∧
      started.history = s.history ++ [.answered call (s.broker.settle cfg call r).1]) ∧
    (started.step cfg (.close r.doneAt r.pruneAt) = some ended →
      ended.broker = (s.broker.settle cfg call r).2.broker ∧
        ended.history = started.history ++ [.answered call (s.broker.settle cfg call r).1]) := by
  simp only [step, admitted] at first
  split at first
  next order =>
    have free : s.holder = none := Option.isNone_iff_eq_none.mp order.1
    rw [settleFor] at first
    split at first
    next deliveries status decided =>
      rw [Broker.settle_reply admitted decided, ← Option.some.inj first]
      refine ⟨fun _ => ⟨rfl, rfl⟩, fun second => ?_⟩
      simp only [step, log, free] at second
      cases second
    next deliveries entry kind reason measurement status decided =>
      rw [Broker.settle_finish admitted decided, ← Option.some.inj first]
      refine ⟨fun idle => absurd idle (Option.some_ne_none _), fun second => ?_⟩
      simp only [step] at second
      split at second
      · rw [← Option.some.inj second]
        exact ⟨rfl, rfl⟩
      · cases second
  · cases first

end System

/-- A settle call by a registered owner with a well-formed token ends in exactly one of the
four ways. Repeating a request that was answered `OK` leaves the broker as it is, up to a
stale record, and is answered `OK` as long as its record is retained. -/
theorem settlement_outcome {σ : Type} [Ml.Inference σ] {cfg : HarbingerConfig} {s : System σ}
    (reachable : s.Reachable cfg) {call : Call}
    (registered : call.owner ∈ s.broker.consumers) (wellFormed : wellFormedToken call.token = true)
    (r : Broker.SettleReadings) :
    (∃! ending, Broker.Outcome cfg s.broker call r ending) ∧
    (s.holder = none → .answered call .ok ∈ s.history →
      ((s.broker.settle cfg call r).1 = .ok ↔
        ∃ record, s.broker.deliveries.Remembers cfg call.token call.id r.recordAt record) ∧
      ∃ d, Forgets cfg s.broker.deliveries call.token r.recordAt d ∧
        (s.broker.settle cfg call r).2 = ⟨{ s.broker with deliveries := d }, none, none⟩) := by
  have reached := reachable.reached
  have tables := reached.sound.tables
  obtain ⟨ending, outcome⟩ := Broker.exists_outcome tables cfg
    (Broker.settleRefused_eq_none registered wellFormed) r
  refine ⟨⟨ending, outcome, fun other possible => Broker.outcome_unique tables possible outcome⟩, fun free answered => ?_⟩
  have nobody := System.answered_not_owned reached free answered
  cases ending with
  | replayed =>
    obtain ⟨record, remembered, same, accepted, _⟩ := outcome
    obtain ⟨owner, kind⟩ := System.answered_replay reached answered remembered
    exact ⟨⟨fun _ => ⟨record, remembered⟩, fun _ => accepted owner kind⟩, s.broker.deliveries, .nothing, same⟩
  | settled => exact absurd ⟨_, outcome.choose_spec.1⟩ nobody
  | lapsed => exact absurd ⟨_, outcome.choose_spec.1⟩ nobody
  | refused =>
    obtain ⟨forgotten, _, code, unchanged⟩ := outcome
    refine ⟨⟨fun ok => ?_, fun remembered => absurd remembered forgotten⟩, unchanged⟩
    rw [ok] at code
    simp [Status.ok] at code

section Sample
open Ml

theorem settlement_outcome_sample : ∃ s : System (PerKeyPredictor .plain), s.Reachable {} ∧
    .answered sampleAck .ok ∈ s.history ∧
    (∃! ending, Broker.Outcome {} s.broker sampleAck ⟨0, 0, sampleReadings 0, 0, 0⟩ ending) ∧
    ∃ d, Forgets {} s.broker.deliveries sampleAck.token 0 d ∧
      (s.broker.settle {} sampleAck ⟨0, 0, sampleReadings 0, 0, 0⟩).2 =
        ⟨{ s.broker with deliveries := d }, none, none⟩ := by
  have known : (Transition.run (System.step {}) sampleSettled (System.initial sampleBroker 0)).map (fun s =>
      (s.holder.isNone, s.broker.consumers, answers s.history)) =
      some (true, [ascii "consumer-0"], [(sampleAck, .ok), (sampleAck, .ok)]) := rfl
  obtain ⟨s, ran, facts⟩ := Option.map_eq_some_iff.mp known
  obtain ⟨free, consumers, replies⟩ := by simpa only [Prod.mk.injEq] using facts
  have answered : .answered sampleAck .ok ∈ s.history := by
    rw [← mem_answers, replies]
    exact List.mem_cons_self ..
  have registered : sampleAck.owner ∈ s.broker.consumers := by
    rw [consumers]
    exact List.mem_cons_self ..
  have law := settlement_outcome (sample_reachable ran) registered (by decide)
    ⟨0, 0, sampleReadings 0, 0, 0⟩
  exact ⟨s, sample_reachable ran, answered, law.1, (law.2 (Option.isNone_iff_eq_none.mp free) answered).2⟩

end Sample

end Harbinger
