import Harbinger.Broker.Conservation

/-! Attempt fencing: a token takes effect at most once, a request with one token leaves every
message alone whose live attempt has another, and an acknowledged message is never delivered
again. -/

namespace Harbinger
open Container Ledger

/-- The list grows at its end by elements of one key. -/
def Grown {α : Type} (key : α → Bytes) (id : Bytes) (list later : List α) : Prop :=
  ∃ added, later = list ++ added ∧ ∀ item ∈ added, key item = id

namespace Grown
variable {α : Type} {key : α → Bytes} {id other : Bytes} {list later : List α}

theorem refl (key : α → Bytes) (id : Bytes) (list : List α) : Grown key id list list :=
  ⟨[], (List.append_nil list).symm, fun _ impossible => by cases impossible⟩

theorem push (list : List α) {item : α} (named : key item = id) : Grown key id list (list ++ [item]) :=
  ⟨[item], rfl, List.forall_mem_singleton.mpr named⟩

theorem filter (grown : Grown key id list later) (different : id ≠ other) :
    (later.filter fun item => key item = other) = list.filter fun item => key item = other := by
  obtain ⟨added, rfl, named⟩ := grown
  have none : (added.filter fun item => key item = other) = [] :=
    List.filter_eq_nil_iff.mpr fun item member => by simpa [named item member] using different
  rw [List.filter_append, none, List.append_nil]

theorem zipIdx (grown : Grown key id list later) :
    Grown (fun item : α × Nat => key item.1) id list.zipIdx later.zipIdx := by
  obtain ⟨added, rfl, named⟩ := grown
  refine ⟨added.zipIdx list.length, ?_, fun item member => named item.1 (List.fst_mem_of_mem_zipIdx member)⟩
  rw [List.zipIdx_append, Nat.zero_add]

end Grown

theorem MultiLevelQueue.enqueue_frame {q q' : MultiLevelQueue} {cost : CostFunction} {msg : Message} {now : Time}
    (placed : q.enqueue cost msg now = some q') : q'.numLevels = q.numLevels ∧
      ∀ level, Grown (fun node => node.message.id) msg.id (q.queues level) (q'.queues level) := by
  have core := placeMessage_core placed
  refine ⟨congrArg (fun core => core.1) core, fun level => ?_⟩
  have queues : q'.queues level = (q.linkNode (stamped msg false now) false).queues level :=
    congrFun (congrArg (fun core => core.2.1) core) level
  rw [queues]
  by_cases here : level = msg.priority
  · subst here
    simp only [linkNode, stamped, Function.update_self, Bool.false_eq_true, ↓reduceIte]
    exact .push _ rfl
  · have untouched : level ≠ (stamped msg false now).priority := here
    simp only [linkNode, Function.update_of_ne untouched]
    exact .refl _ _ _

theorem Broker.HandOff.frame {σ : Type} {b after : Broker σ} {levelCost : Nat → ℚ} {msg : Message}
    {kind : Settlement} {r : FinishReadings} {fate : Fate} (handed : HandOff b levelCost msg kind r fate after) :
    after.queue.numLevels = b.queue.numLevels ∧
      (∀ level, Grown (fun node => node.message.id) msg.id (b.queue.queues level) (after.queue.queues level)) ∧
      Grown (fun entry => entry.message.id) msg.id b.dlq after.dlq := by
  cases handed with
  | expired => exact ⟨rfl, fun level => .refl _ _ _, .push _ rfl⟩
  | acknowledged => exact ⟨rfl, fun level => .refl _ _ _, .refl _ _ _⟩
  | exhausted => exact ⟨rfl, fun level => .refl _ _ _, .push _ rfl⟩
  | retried =>
    dsimp only
    cases placed : b.queue.enqueue (levelShareCost { b with levelCost })
        { failOnce msg with priority := msg.originalPriority } r.placeAt with
    | none => exact ⟨rfl, fun level => .refl _ _ _, .refl _ _ _⟩
    | some queue =>
      obtain ⟨levels, queues⟩ := MultiLevelQueue.enqueue_frame placed
      exact ⟨levels, queues, .refl _ _ _⟩

namespace System
variable {σ : Type} {cfg : HarbingerConfig} {s s' : System σ}

/-- Everything the broker holds about a message: its places and its delivery attempt. -/
def stateOf (s : System σ) (id : Bytes) : List (Place × Message) × Option InFlightEntry :=
  (s.whereabouts.filter fun item => item.2.id = id, s.broker.deliveries.inFlight.lookup id)

/-- A step that acts for one token at most: it settles no other attempt, records no other
settlement, and leaves every message alone whose live attempt has another token. -/
structure Spares (token : Bytes) (s s' : System σ) : Prop where
  settlements : ∀ other ∈ settled s'.history, other = token ∨ other ∈ settled s.history
  records : ∀ slot ∈ s'.broker.deliveries.completions.slots,
    slot.value.token = token ∨ slot ∈ s.broker.deliveries.completions.slots
  others : ∀ id, (∀ entry, s.broker.deliveries.inFlight.lookup id = some entry → entry.attemptToken ≠ token) →
    s'.stateOf id = s.stateOf id

theorem whereabouts_frame {id other : Bytes} (different : id ≠ other) (tasks : s'.tasks = s.tasks)
    (levels : s'.broker.queue.numLevels = s.broker.queue.numLevels)
    (queues : ∀ level, Grown (fun node => node.message.id) id (s.broker.queue.queues level)
      (s'.broker.queue.queues level))
    (live : (s'.live.entries.filter fun item => item.2.message.id = other) =
      s.live.entries.filter fun item => item.2.message.id = other)
    (dead : Grown (fun entry => entry.message.id) id s.broker.dlq s'.broker.dlq)
    (finished : Grown Message.id id s.finished s'.finished) :
    (s'.whereabouts.filter fun item => item.2.id = other) = s.whereabouts.filter fun item => item.2.id = other := by
  have level := fun index => (queues index).filter different
  have buried := dead.zipIdx.filter different
  have done := finished.zipIdx.filter different
  simp only [whereabouts, List.filter_append, List.filter_flatMap, List.filter_map, Function.comp_def, tasks, levels,
    level, live, buried, done]

theorem filter_kerase {entries : List (Sigma fun _ : Bytes => InFlightEntry)} {key id : Bytes}
    (named : ∀ item ∈ entries, item.2.message.id = item.1) (different : key ≠ id) :
    ((entries.kerase key).filter fun item => item.2.message.id = id) =
      entries.filter fun item => item.2.message.id = id := by
  induction entries with
  | nil => rfl
  | cons item rest ih =>
    obtain ⟨here, later⟩ := List.forall_mem_cons.mp named
    by_cases same : key = item.1
    · have dropped : item.2.message.id ≠ id := by
        rw [here, ← same]
        exact different
      rw [List.kerase_cons_eq same, List.filter_cons_of_neg (by simpa using dropped)]
    · rw [List.kerase_cons_ne same, List.filter_cons, List.filter_cons, ih later]

/-- The hand-off of the attempt that the request names. -/
theorem Spares.finish {cap : Nat} {clock : Time} (tables : s.broker.deliveries.Consistent cap clock)
    (free : s.holder = none) {call : Deliveries.Call} {entry : InFlightEntry}
    (owns : s.broker.deliveries.Owns call entry) {recordAt : Time} {d : Deliveries}
    (forgets : Deliveries.Forgets cfg s.broker.deliveries call.token recordAt d) (kind : Settlement)
    (reason : Bytes) (measurement : Option Int) (r : Broker.FinishReadings) (status : Status)
    (update : Option PredictorUpdate) :
    Spares call.token s { s.handOff (Broker.finishHand cfg { s.broker with deliveries := d } entry kind reason
      measurement r) entry kind r with holder := some (.settling call entry kind status update) } := by
  obtain ⟨known, owner, token⟩ := owns
  obtain ⟨levelCost, handed⟩ := Broker.finishHand_handOff cfg { s.broker with deliveries := d } entry kind reason
    measurement r
  set after := (Broker.finishHand cfg { s.broker with deliveries := d } entry kind reason measurement r).broker
  have deliveries : after.deliveries = d := handed.deliveries
  obtain ⟨levels, queues, dead⟩ := handed.frame
  have named := tables.keyed call.id entry known
  constructor
  · intro other member
    rw [handOff, settled_append, List.mem_append] at member
    rcases member with old | new
    · exact Or.inr old
    · exact Or.inl ((List.mem_singleton.mp new).trans token)
  · intro slot member
    change slot ∈ after.deliveries.completions.slots at member
    rw [deliveries] at member
    exact Or.inr (forgets.completions member)
  · intro id apart
    have different : call.id ≠ id := fun same => apart entry (same ▸ known) token
    refine Prod.ext ?_ ?_
    · refine whereabouts_frame (named.trans_ne different) rfl levels queues ?_ dead ?_
      · change (((after.deliveries.inFlight.erase call.id).entries.filter _)) = _
        rw [deliveries, forgets.inFlight, live_of_free (by rw [pending, free]; rfl)]
        exact filter_kerase (fun item member => tables.keyed item.1 item.2
          ((AList.mem_lookup_iff).mpr member)) different
      · simp only [handOff]
        split
        · exact .push _ rfl
        · exact .refl _ _ _
    · change after.deliveries.inFlight.lookup id = _
      rw [deliveries, forgets.inFlight]
      rfl

theorem Spares.reply {token : Bytes} {recordAt : Time} {d : Deliveries}
    (forgets : Deliveries.Forgets cfg s.broker.deliveries token recordAt d) (leaseAt : Time)
    (call : Deliveries.Call) (status : Status) : Spares token s
      (log { s with broker := { s.broker with deliveries := d }, lockClock := leaseAt } [.answered call status]) := by
  have live : (log { s with broker := { s.broker with deliveries := d }, lockClock := leaseAt }
      [.answered call status]).live = s.live := by
    cases forgets <;> rfl
  constructor
  · intro other member
    rw [log, settled_append, List.mem_append] at member
    exact Or.inr (member.resolve_right fun new => by cases new)
  · exact fun slot member => Or.inr (forgets.completions member)
  · intro id _
    refine Prod.ext ?_ (congrArg (AList.lookup id) forgets.inFlight)
    simp only [stateOf, whereabouts, live]
    rfl

section Steps
variable [Ml.Inference σ]

/-- The first part of a settle call. -/
theorem settle_spares (sound : Sound cfg s) {call : Deliveries.Call} {recordAt leaseAt : Time}
    {r : Broker.FinishReadings} (moved : s.step cfg (.settle call recordAt leaseAt r) = some s') :
    Spares call.token s s' := by
  have unchanged : Deliveries.Forgets cfg s.broker.deliveries call.token recordAt s.broker.deliveries := .nothing
  simp only [step] at moved
  split at moved
  · rw [← Option.some.inj moved]
    exact Spares.reply unchanged s.lockClock call _
  · split at moved
    next order =>
      rw [← Option.some.inj moved, settleFor]
      have free : s.holder = none := Option.isNone_iff_eq_none.mp order.1
      rcases Deliveries.settleLocked_cases sound.tables cfg call recordAt leaseAt with
        ⟨record, _, same⟩ | ⟨_, d, forgets, same⟩
      · rw [same]
        exact Spares.reply unchanged leaseAt call _
      · rw [same]
        rcases s.broker.deliveries.settleLive_cases call leaseAt with
          ⟨entry, owns, ⟨_, verdict⟩ | ⟨_, verdict⟩⟩ | ⟨_, status, verdict, _⟩
        · rw [verdict]
          exact Spares.finish sound.tables free owns forgets .expired _ none r _ _
        · rw [verdict]
          exact Spares.finish sound.tables free owns forgets call.kind _ _ r _ _
        · rw [verdict]
          exact Spares.reply forgets leaseAt call status
    · cases moved

/-- The second part, after the hand-off. -/
theorem close_spares (sound : Sound cfg s) {call : Deliveries.Call} {entry : InFlightEntry} {kind : Settlement}
    {status : Status} {update : Option PredictorUpdate} {doneAt pruneAt : Time}
    (held : s.holder = some (.settling call entry kind status update))
    (moved : s.step cfg (.close doneAt pruneAt) = some s') : Spares call.token s s' := by
  obtain ⟨known, _, _, token, _⟩ := sound.holding _ held
  simp only [step, held] at moved
  split at moved
  · obtain ⟨inFlight, _, completions⟩ := Deliveries.prune_tables cfg pruneAt 1
      (s.broker.deliveries.record call.id entry kind doneAt)
    have pending : s.pending = some call.id := by
      rw [System.pending, held]
      rfl
    rw [← Option.some.inj moved]
    constructor
    · intro other member
      simp only [log, closeEntry, settled_append, List.mem_append] at member
      exact Or.inr (member.resolve_right fun new => by cases new)
    · intro slot member
      rcases List.mem_append.mp (completions member) with old | new
      · exact Or.inr old
      · rw [List.mem_singleton.mp new]
        exact Or.inl token
    · intro id apart
      have different : id ≠ call.id := fun same => apart entry (same ▸ known) token
      refine Prod.ext ?_ ?_
      · have live : s.live = s.broker.deliveries.inFlight.erase call.id := by rw [System.live, pending]
        simp only [stateOf, whereabouts, live]
        simp only [log, closeEntry, System.live, System.pending, Option.bind_none, Deliveries.finishClose, inFlight]
        rfl
      · change (Deliveries.pruneCompletionsLocked cfg pruneAt 1 _).inFlight.lookup id = _
        rw [inFlight]
        exact AList.lookup_erase_ne different
  · cases moved

end Steps

theorem live_unsettled (lawful : Lawful s.ledger) {id : Bytes} {entry : InFlightEntry}
    (found : s.live.lookup id = some entry) :
    entry.attemptToken ∈ issued s.history ∧ entry.attemptToken ∉ settled s.history := by
  have spread : s.ledger.leased.map Lease.token + ↑(settled s.history) = ↑(issued s.history) := lawful.fenced.spread
  have leased : entry.attemptToken ∈ s.ledger.leased.map Lease.token :=
    Multiset.mem_map.mpr ⟨entry.lease, Multiset.mem_coe.mpr
      (List.mem_map.mpr ⟨⟨id, entry⟩, AList.mem_lookup_iff.mp found, rfl⟩), rfl⟩
  have apart : (s.ledger.leased.map Lease.token + ↑(settled s.history)).Nodup := by
    rw [spread]
    exact Multiset.coe_nodup.mpr lawful.fenced.distinct
  refine ⟨?_, fun settled => Multiset.disjoint_left.mp (Multiset.nodup_add.mp apart).2.2 leased settled⟩
  exact Multiset.mem_coe.mp (spread ▸ Multiset.mem_add.mpr (Or.inl leased))

theorem settled_once (lawful : Lawful s.ledger) : (settled s.history).Nodup ∧ settled s.history ⊆ issued s.history := by
  have fenced := lawful.fenced
  have included : (↑(settled s.history) : Multiset Bytes) ≤ ↑(issued s.history) :=
    fenced.spread ▸ Multiset.le_add_left _ _
  exact ⟨Multiset.coe_nodup.mp (Multiset.nodup_of_le included (Multiset.coe_nodup.mpr fenced.distinct)),
    fun token member => Multiset.subset_of_le included member⟩

/-- After an accepted Ack the message is finished or dead by expiry, and no event delivers it. -/
theorem acked_final (lawful : Lawful s.ledger) {before after : List Event} {call : Deliveries.Call}
    (split : s.history = before ++ .answered call .ok :: after) (kind : call.kind = .ack) :
    ((∃ msg ∈ s.finished, msg.id = call.id) ∨
      ∃ entry ∈ s.broker.dlq, entry.message.id = call.id ∧ entry.reason = .ttlExpired) ∧
    ∀ owner token msg, .delivered owner token msg ∈ after → msg.id ≠ call.id := by
  have final := lawful.final
  have answered : .answered call .ok ∈ s.ledger.history := by
    change _ ∈ s.history
    rw [split]
    exact List.mem_append_right _ (List.mem_cons_self ..)
  have settled := final.grounded call answered
  rw [kind] at settled
  constructor
  · rcases final.acked call.owner call.token call.id settled with ⟨entry, member, named, reason⟩ | ⟨msg, member, named⟩
    · obtain ⟨dead, there, rfl⟩ := List.mem_map.mp member
      exact Or.inr ⟨dead, there, named, reason⟩
    · obtain ⟨done, there, rfl⟩ := List.mem_map.mp member
      exact Or.inl ⟨done, there, named⟩
  · intro owner token msg later same
    have quiet : (before ++ .answered call .ok :: after).Pairwise Quiet := split ▸ final.quiet
    have silent := (List.pairwise_cons.mp (List.pairwise_append.mp quiet).2.1).1 _ later call.id
    exact silent (by simp [Event.closes?, kind]) (congrArg some same)

end System

/-- In every reachable state the settled tokens are distinct issued ones and no live attempt is
among them; a settle call acts for its own token at most, in both of its parts; and after an
Ack that was answered `OK` the message is finished or dead by expiry and never delivered. -/
theorem attempt_fencing {σ : Type} [Ml.Inference σ] {cfg : HarbingerConfig} {s : System σ}
    (reachable : s.Reachable cfg) :
    ((settled s.history).Nodup ∧ settled s.history ⊆ issued s.history ∧ (issued s.history).Nodup ∧
      ∀ id entry, s.live.lookup id = some entry →
        entry.attemptToken ∈ issued s.history ∧ entry.attemptToken ∉ settled s.history) ∧
    (∀ call recordAt leaseAt r s', s.step cfg (.settle call recordAt leaseAt r) = some s' →
      System.Spares call.token s s') ∧
    (∀ call entry kind status update doneAt pruneAt s', s.holder = some (.settling call entry kind status update) →
      s.step cfg (.close doneAt pruneAt) = some s' → System.Spares call.token s s') ∧
    ∀ before call after, s.history = before ++ .answered call .ok :: after → call.kind = .ack →
      ((∃ msg ∈ s.finished, msg.id = call.id) ∨
        ∃ entry ∈ s.broker.dlq, entry.message.id = call.id ∧ entry.reason = .ttlExpired) ∧
      ∀ owner token msg, .delivered owner token msg ∈ after → msg.id ≠ call.id := by
  have sound := reachable.reached.sound
  have lawful := reachable.reached.lawful
  have once := System.settled_once lawful
  exact ⟨⟨once.1, once.2, lawful.fenced.distinct, fun id entry found => System.live_unsettled lawful found⟩,
    fun call recordAt leaseAt r s' moved => System.settle_spares sound moved,
    fun call entry kind status update doneAt pruneAt s' held moved => System.close_spares sound held moved,
    fun before call after split kind => System.acked_final lawful split kind⟩

section Sample
open Ml

def sampleReadings (reading : Time) : Broker.FinishReadings := ⟨reading, ⟨reading, reading⟩, reading⟩

/-- The acknowledgement of the first delivery. -/
def sampleAck : Deliveries.Call where
  owner := ascii "consumer-0"
  id := ascii "0-0"
  token := ascii "-0-2"
  kind := .ack
  reason := []
  processingTimeMs := 0

/-- The first message is acknowledged, the second delivered, and a late copy of the first
request comes in. -/
def sampleSettled : List Action :=
  sampleRun ++ [.settle sampleAck 0 0 (sampleReadings 0), .close 0 0] ++ samplePull 0 ++
    [.settle sampleAck 0 0 (sampleReadings 0)]

theorem attempt_fencing_sample : ∃ s : System (PerKeyPredictor .plain), s.Reachable {} ∧
    settled s.history = [ascii "-0-2"] ∧ issued s.history = [ascii "-0-2", ascii "-0-3"] ∧
    (settled s.history).Nodup ∧ s.finished.map Message.id = [sampleAck.id] := by
  have known : (Transition.run (System.step {}) sampleSettled (System.initial sampleBroker 0)).map (fun s =>
      (settled s.history, issued s.history, s.finished.map Message.id)) =
      some ([ascii "-0-2"], [ascii "-0-2", ascii "-0-3"], [sampleAck.id]) := rfl
  obtain ⟨s, ran, facts⟩ := Option.map_eq_some_iff.mp known
  obtain ⟨settlements, tokens, finished⟩ := by simpa only [Prod.mk.injEq] using facts
  exact ⟨s, sample_reachable ran, settlements, tokens, (attempt_fencing (sample_reachable ran)).1.1, finished⟩

end Sample

end Harbinger
