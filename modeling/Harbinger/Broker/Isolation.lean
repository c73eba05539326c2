import Harbinger.Broker.Conservation
import Harbinger.Broker.Traffic
import Harbinger.Ml.Invariant
import Harbinger.Ml.Quantile

/-! Producers do not share predictor keys: a key starts with the id of its producer and a
separator that no id contains. What the predictor knows under the keys of a producer depends
on the traffic of the others only through the time of the first boundary snapshot. -/

namespace Harbinger
open Ml

section Registered
variable {σ : Type}

/-- The id and the counter of the next producer stay as they are. -/
def SameProducers (b b' : Broker σ) : Prop := b'.producers = b.producers ∧ b'.producerCounter = b.producerCounter

theorem finishHand_producers (cfg : HarbingerConfig) (b : Broker σ) (entry : InFlightEntry) (kind : Settlement) (reason : Bytes)
    (measurement : Option Int) (r : Broker.FinishReadings) :
    SameProducers b (b.finishHand cfg entry kind reason measurement r).broker := by
  obtain ⟨levelCost, handed⟩ := b.finishHand_handOff cfg entry kind reason measurement r
  generalize (b.finishHand cfg entry kind reason measurement r).broker = after at handed ⊢
  generalize System.fate entry.message kind r.expiryAt = fate at handed
  cases handed <;> exact ⟨rfl, rfl⟩

variable {cfg : HarbingerConfig} {s s' : System σ}

theorem settleFor_producers (s : System σ) (call : Deliveries.Call) (recordAt leaseAt : Time) (r : Broker.FinishReadings) :
    SameProducers s.broker (s.settleFor cfg call recordAt leaseAt r).broker := by
  unfold System.settleFor
  split
  · exact ⟨rfl, rfl⟩
  · exact finishHand_producers ..

theorem installFor_producers (s : System σ) (consumer : Bytes) (msg : Message) (token : Bytes) (cancelled : Bool)
    (fault : Deliveries.Fault) (leaseAt pullAt : Time) :
    SameProducers s.broker (s.installFor cfg consumer msg token cancelled fault leaseAt pullAt).broker := by
  simp only [System.installFor]
  split <;> exact ⟨rfl, rfl⟩

variable [Inference σ]

theorem routeMessage_producers (b : Broker σ) (msg : Message) (r : Broker.PredictReadings) :
    SameProducers b (b.routeMessage cfg msg r).2 := by
  obtain ⟨predictor, same⟩ := b.routeMessage_eq cfg msg r
  exact same ▸ ⟨rfl, rfl⟩

theorem learn_producers (b : Broker σ) (update : PredictorUpdate) (first second : Time) :
    SameProducers b (b.learn update first second) := by
  obtain ⟨predictor, same⟩ := b.learn_eq update first second
  exact same ▸ ⟨rfl, rfl⟩

/-- Only a registration changes the registered producers. -/
theorem step_producers {action : Action} (moved : s.step cfg action = some s') :
    SameProducers s.broker s'.broker ∨ s'.broker = s.broker.registerProducer := by
  cases action with
  | registerProducer => exact .inr (Option.some.inj moved ▸ rfl)
  | route task r =>
    simp only [System.step] at moved
    split at moved
    · obtain rfl := Option.some.inj moved
      exact .inl (routeMessage_producers ..)
    · cases moved
  | install task cancelled fault leaseAt pullAt =>
    simp only [System.step] at moved
    split at moved
    · split at moved
      · obtain rfl := Option.some.inj moved
        exact .inl (installFor_producers ..)
      · cases moved
    · cases moved
  | settle call recordAt leaseAt r =>
    simp only [System.step] at moved
    split at moved
    · exact .inl (Option.some.inj moved ▸ ⟨rfl, rfl⟩)
    · split at moved
      · obtain rfl := Option.some.inj moved
        exact .inl (settleFor_producers ..)
      · cases moved
  | reclaim r =>
    simp only [System.step] at moved
    repeat' split at moved
    all_goals first
      | cases moved; done
      | (obtain rfl := Option.some.inj moved; exact .inl (finishHand_producers ..))
  | learn lesson first second =>
    simp only [System.step] at moved
    split at moved
    · cases moved
    · obtain rfl := Option.some.inj moved
      exact .inl (learn_producers ..)
  | _ =>
    simp only [System.step] at moved
    repeat' split at moved
    all_goals first
      | cases moved; done
      | (obtain rfl := Option.some.inj moved; exact .inl ⟨rfl, rfl⟩)

/-- The id that `RegisterProducer` assigns with this counter value. -/
def producerName (counter : Nat) : Bytes := ascii "producer-" ++ decimal counter

theorem System.Reachable.producers (reachable : s.Reachable cfg) :
    ∀ id ∈ s.broker.producers, ∃ counter < s.broker.producerCounter, id = producerName counter := by
  obtain ⟨config, predictor, token, counter, b, now, actions, valid, made, ran⟩ := reachable
  refine Transition.run_invariant
    (fun s : System σ => ∀ id ∈ s.broker.producers, ∃ counter < s.broker.producerCounter, id = producerName counter) ?_ ?_ ran
  · intro s action s' known moved id member
    rcases step_producers moved with ⟨same, counted⟩ | registered
    · rw [same] at member
      rw [counted]
      exact known id member
    · rw [registered] at member ⊢
      rcases List.mem_cons.mp member with rfl | earlier
      · exact ⟨_, Nat.lt_succ_self _, rfl⟩
      · obtain ⟨counter, before, named⟩ := known id earlier
        exact ⟨counter, before.trans (Nat.lt_succ_self _), named⟩
  · obtain ⟨queue, created, same⟩ := bind_ok.mp made
    obtain rfl := Except.ok.inj same
    exact fun id member => absurd member List.not_mem_nil

end Registered

section Keys

/-- The key belongs to the producer. -/
def BelongsTo (id key : Bytes) : Prop := key = id ∨ ∃ rest, key = id ++ unitSeparator :: rest

theorem BelongsTo.more {id key : Bytes} (belongs : BelongsTo id key) (label : Bytes) :
    BelongsTo id (key ++ unitSeparator :: label) := by
  rcases belongs with rfl | ⟨rest, rfl⟩
  · exact .inr ⟨label, rfl⟩
  · exact .inr ⟨rest ++ unitSeparator :: label, by simp⟩

theorem BelongsTo.unique {first second key : Bytes} (plain : unitSeparator ∉ first) (plain' : unitSeparator ∉ second)
    (belongs : BelongsTo first key) (belongs' : BelongsTo second key) : first = second := by
  have before : ∀ {id : Bytes}, unitSeparator ∉ id → BelongsTo id key → key.takeWhile (· ≠ unitSeparator) = id := by
    intro id plain belongs
    have own : ∀ c ∈ id, (c ≠ unitSeparator : Bool) = true := fun c member => decide_eq_true fun same => plain (same ▸ member)
    rcases belongs with rfl | ⟨rest, rfl⟩
    · exact List.takeWhile_eq_self_iff.mpr own
    · rw [List.takeWhile_append_of_pos own]
      simp
  rw [← before plain belongs, before plain' belongs']

theorem producerName_plain (counter : Nat) : unitSeparator ∉ producerName counter := by
  intro member
  rcases List.mem_append.mp member with fixed | digit
  · revert fixed
    decide +kernel
  · exact absurd (digit_of_mem_decimal digit).1 (by decide)

theorem producerName_short {counter : Nat} (small : counter < 2 ^ 64) : (producerName counter).length ≤ 29 := by
  have digits : (decimal counter).length ≤ 20 := decimal_length_le (by decide) (small.trans (by decide))
  rw [producerName, List.length_append]
  have fixed : (ascii "producer-").length = 9 := by decide +kernel
  omega

theorem producerName_ne_nil (counter : Nat) : producerName counter ≠ [] := by
  intro empty
  have fixed : (ascii "producer-") = [] := (List.append_eq_nil_iff.mp empty).1
  revert fixed
  decide +kernel

variable {policy : PredictorKeyPolicy} {headers : Headers}

/-- The key of a message with a registered producer, whatever its other headers are. -/
theorem derivePredictorKey_scoped (perProducer : policy.scopeByProducer = true)
    (reserved : policy.producerHeader = ascii "__producer_id") {counter : Nat} (small : counter < 2 ^ 64)
    (sent : headers.lookup (ascii "__producer_id") = some (producerName counter)) :
    ∃ key, derivePredictorKey headers policy = some key ∧ BelongsTo (producerName counter) key := by
  have named : headerText headers policy.producerHeader = some (producerName counter) := by
    have used : ¬ascii "__producer_id" = [] := by decide +kernel
    rw [headerText, reserved, if_neg used, sent]
    exact if_neg (producerName_ne_nil counter)
  have short := producerName_short small
  simp only [derivePredictorKey, perProducer, named, if_true]
  cases usable : (headerText headers policy.jobHeader).filter usableJob with
  | none =>
    refine ⟨_, Option.filter_eq_some_iff.mpr ⟨rfl, ?_⟩, .inl rfl⟩
    exact decide_eq_true (short.trans (by decide))
  | some job =>
    have limited : job.length ≤ maxJobKeyBytes := by
      have checked := (Option.filter_eq_some_iff.mp usable).2
      exact of_decide_eq_true (Bool.and_eq_true_iff.mp checked).1
    refine ⟨_, Option.filter_eq_some_iff.mpr ⟨rfl, ?_⟩, .inr ⟨job, rfl⟩⟩
    rw [decide_eq_true_eq, List.length_append, List.length_cons]
    have limits : maxJobKeyBytes + 30 ≤ maxPredictorKeyBytes := by decide
    omega

theorem derivePredictorKeys_scoped (σ : Type) [Inference σ] (perProducer : policy.scopeByProducer = true)
    (reserved : policy.producerHeader = ascii "__producer_id") {counter : Nat} (small : counter < 2 ^ 64)
    (sent : headers.lookup (ascii "__producer_id") = some (producerName counter)) (payloadSize : Nat) :
    ∃ keys, derivePredictorKeys σ headers policy payloadSize = some keys ∧ keys.Usable ∧
      ∀ key, keys.Own key → BelongsTo (producerName counter) key := by
  obtain ⟨base, derived, belongs⟩ := derivePredictorKey_scoped perProducer reserved small sent
  have accepted := derivePredictorKey_usable derived
  rcases derivePredictorKeys_cases σ derived payloadSize with alone | ⟨label, split, usable⟩
  · refine ⟨_, alone, ⟨accepted, fun parent none => nomatch none⟩, ?_⟩
    rintro key (rfl | none)
    · exact belongs
    · cases none
  · refine ⟨_, split, ⟨usable, ?_⟩, ?_⟩
    · intro parent named
      obtain rfl := Option.some.inj named
      exact ⟨accepted, by simp⟩
    · rintro key (rfl | named)
      · exact belongs.more label
      · exact Option.some.inj named ▸ belongs

end Keys

/-- An encounter without its duration, except whether a duration is accepted at all. -/
def Encounter.shape : Encounter → Encounter
  | .label duration => .label (if duration < 0 then -1 else 0)
  | encounter => encounter

variable {platform : Platform}

namespace Ml.Book
variable {b b' : Book platform} {now : Time}

theorem observeGlobal_rest (b : Book platform) (duration : ℚ) : (b.observeGlobal duration).config = b.config ∧
    (b.observeGlobal duration).layout = b.layout ∧ (b.observeGlobal duration).globalObservations = b.globalObservations + 1 := by
  simp only [observeGlobal]
  split <;> exact ⟨rfl, rfl, rfl⟩

/-- Books that differ in their histories and in the durations behind their boundaries only. -/
structure SameRest (b b' : Book platform) : Prop where
  config : b'.config = b.config
  layout : b'.layout = b.layout
  observations : b'.globalObservations = b.globalObservations
  published : b'.boundaries.isSome ↔ b.boundaries.isSome
  healthy : b.Healthy
  healthy' : b'.Healthy

theorem SameRest.histories (same : SameRest b b') (history history' : Bytes → Option History) :
    SameRest ({ b with history } : Book platform) ({ b' with history := history' } : Book platform) where
  config := same.config
  layout := same.layout
  observations := same.observations
  published := same.published
  healthy := ⟨same.healthy.global, same.healthy.decay, same.healthy.exact⟩
  healthy' := ⟨same.healthy'.global, same.healthy'.decay, same.healthy'.exact⟩

theorem SameRest.observeGlobal (same : SameRest b b') {duration duration' : ℚ} (measured : 0 ≤ duration)
    (measured' : 0 ≤ duration') : SameRest (b.observeGlobal duration) (b'.observeGlobal duration') := by
  obtain ⟨config, layout, observations⟩ := b.observeGlobal_rest duration
  obtain ⟨config', layout', observations'⟩ := b'.observeGlobal_rest duration'
  obtain ⟨healthy, published⟩ := same.healthy.observeGlobal measured
  obtain ⟨healthy', published'⟩ := same.healthy'.observeGlobal measured'
  exact {
    config := by rw [config, config', same.config]
    layout := by rw [layout, layout', same.layout]
    observations := by rw [observations, observations', same.observations]
    published := by rw [published, published', same.published, same.config, same.observations]
    healthy, healthy' }

theorem SameRest.absorb (same : SameRest b b') {encounter encounter' : Encounter}
    (alike : encounter'.shape = encounter.shape) : SameRest (b.absorb encounter) (b'.absorb encounter') := by
  cases encounter with
  | label duration =>
    cases encounter' with
    | label duration' =>
      have accepted : duration' < 0 ↔ duration < 0 := by
        have marks : (if duration' < 0 then (-1 : ℚ) else 0) = if duration < 0 then -1 else 0 := Encounter.label.inj alike
        constructor
        · intro negative
          by_contra accepted
          rw [if_pos negative, if_neg accepted] at marks
          norm_num at marks
        · intro negative
          by_contra accepted
          rw [if_pos negative, if_neg accepted] at marks
          norm_num at marks
      simp only [Book.absorb, accepted]
      split
      · exact same
      next measured => exact same.observeGlobal (not_lt.mp measured) (not_lt.mp fun below => measured (accepted.mp below))
    | arrival => cases alike
    | expiry => cases alike
  | arrival =>
    cases encounter' with
    | arrival => exact same
    | label duration' => cases alike
    | expiry => cases alike
  | expiry =>
    cases encounter' with
    | expiry => exact same
    | label duration' => cases alike
    | arrival => cases alike

/-- Books that know the same under the owned keys. -/
structure Agree (owned : Bytes → Prop) (b b' : Book platform) : Prop where
  rest : SameRest b b'
  evidence : ∀ key, owned key → b'.evidence key = b.evidence key

variable {owned : Bytes → Prop} {keys keys' : PredictorKeys} {encounter encounter' : Encounter}

theorem SameRest.attend (same : SameRest b b') (usable : keys.Usable) (usable' : keys'.Usable)
    (alike : encounter'.shape = encounter.shape) (now now' : Time) :
    SameRest (b.attend now (some keys) encounter) (b'.attend now' (some keys') encounter') := by
  obtain ⟨history, after⟩ := b.attend_rest now usable encounter
  obtain ⟨history', after'⟩ := b'.attend_rest now' usable' encounter'
  rw [after, after']
  exact (same.absorb alike).histories history history'

theorem Agree.foreign (agree : Agree owned b b') (usable : keys.Usable) (usable' : keys'.Usable)
    (alike : encounter'.shape = encounter.shape) (apart : ∀ key, owned key → ¬keys.Own key)
    (apart' : ∀ key, owned key → ¬keys'.Own key) (now now' : Time) :
    Agree owned (b.attend now (some keys) encounter) (b'.attend now' (some keys') encounter') where
  rest := agree.rest.attend usable usable' alike now now'
  evidence := fun key mine => by
    rw [evidence_attend_other usable (apart key mine), evidence_attend_other usable' (apart' key mine), agree.evidence key mine]

theorem SameRest.stale (same : SameRest b b') (h : History) (now : Time) : b'.stale h now ↔ b.stale h now := by
  unfold Book.stale
  rw [same.config]

theorem SameRest.teach (same : SameRest b b') (lesson : DecayingHistogram → DecayingHistogram) (old : Option History) :
    b'.teach lesson now old = b.teach lesson now old := by
  have made : b'.setting.makeHistogram = b.setting.makeHistogram :=
    congrArg (fun c : PerKeyPredictorConfig => DecayingHistogram.create c.histogramBins c.decay) same.config
  have touched : b'.touch old now = b.touch old now := by
    simp only [Book.touch, Book.blank, Book.freshen, Book.decayed, same.stale, same.config, made]
  rw [Book.teach, Book.teach, touched]

/-- A lookup of an owned key answers the question of its coldness alike. -/
theorem Agree.predict (agree : Agree owned b b') {key : Bytes} (mine : owned key) (now : Time) :
    ((b'.predict now key).1.status = .coldKey ↔ (b.predict now key).1.status = .coldKey) ∧
      Agree owned (b.predict now key).2 (b'.predict now key).2 := by
  have refreshes : b'.Refreshes now key ↔ b.Refreshes now key := by
    simp only [Refreshes, agree.rest.published, agree.evidence key mine, agree.rest.stale]
  refine ⟨?_, ?_, fun other theirs => ?_⟩
  · rw [predict_cold, predict_cold]
    simp only [agree.rest.published, agree.evidence key mine, agree.rest.stale, agree.rest.config]
  · obtain ⟨history, after⟩ := b.predict_history now key
    obtain ⟨history', after'⟩ := b'.predict_history now key
    rw [after, after']
    exact agree.rest.histories history history'
  · by_cases same : other = key
    · subst same
      by_cases active : b.Refreshes now other
      · rw [evidence_predict_refreshed active, evidence_predict_refreshed (refreshes.mpr active), agree.evidence other mine]
      · rw [evidence_predict_idle active, evidence_predict_idle fun other => active (refreshes.mp other),
          agree.evidence other mine]
    · rw [evidence_predict_other same, evidence_predict_other same, agree.evidence other theirs]

theorem Agree.own (agree : Agree owned b b') (usable : keys.Usable) (mine : ∀ key, keys.Own key → owned key)
    (encounter : Encounter) (now : Time) :
    Agree owned (b.attend now (some keys) encounter) (b'.attend now (some keys) encounter) := by
  by_cases arrival : encounter = .arrival
  · subst arrival
    obtain ⟨cold, looked⟩ := agree.predict (mine keys.key (.inl rfl)) now
    simp only [attend, Option.elim, cold]
    split
    · cases known : keys.parent with
      | none => exact looked
      | some parent => exact (looked.predict (mine parent (.inr known)) now).2
    · exact looked
  · refine ⟨agree.rest.attend usable usable rfl now now, fun key theirs => ?_⟩
    by_cases here : keys.Own key
    · rw [evidence_attend_own usable here arrival, evidence_attend_own usable here arrival, agree.rest.layout,
        agree.evidence key theirs]
      simp only [agree.rest.teach]
    · rw [evidence_attend_other usable here, evidence_attend_other usable here, agree.evidence key theirs]

end Ml.Book

/-- The producer that the broker recorded for the message. -/
def Traffic.producer (item : Traffic) : Option Bytes := item.headers.lookup (ascii "__producer_id")

/-- The same item, or items of another producer that are both accepted or both not. -/
structure Alike (id : Bytes) (item item' : Traffic) : Prop where
  producer : item'.producer = item.producer
  shape : item'.encounter.shape = item.encounter.shape
  mine : item.producer = some id → item' = item

theorem agree_start {config : PerKeyPredictorConfig} {layout : Layout} {p : PerKeyPredictor platform}
    (fits : layout.Fits config) (made : PerKeyPredictor.create platform config layout = .ok p) (owned : Bytes → Prop) :
    Book.Agree owned p.book p.book := by
  have sound : p.Sound fun _ => True := .create fits made
  have exact : p.global.counts.sum = p.global.total := by
    simp only [PerKeyPredictor.create, bind_ok] at made
    obtain ⟨checked, _, made⟩ := made
    obtain rfl := Except.ok.inj made
    simp [DecayingHistogram.create]
  have healthy : p.book.Healthy := ⟨sound.fits.1 ▸ sound.global, sound.checked.globalDecay, exact⟩
  exact ⟨⟨rfl, rfl, rfl, .rfl, healthy, healthy⟩, fun _ _ => rfl⟩

section Runs
variable {policy : PredictorKeyPolicy} {p : PerKeyPredictor platform} {stream stream' : List Traffic} {counter : Nat}

theorem agree_along (perProducer : policy.scopeByProducer = true)
    (reserved : policy.producerHeader = ascii "__producer_id")
    (sent : ∀ item ∈ stream, ∃ other < 2 ^ 64, item.producer = some (producerName other))
    (alike : List.Forall₂ (Alike (producerName counter)) stream stream') (spared : Undisplaced policy p stream)
    (spared' : Undisplaced policy p stream') (start : Book.Agree (BelongsTo (producerName counter)) p.book p.book) (index : Nat) :
    Book.Agree (BelongsTo (producerName counter)) (serveAll policy p (stream.take index)).book
      (serveAll policy p (stream'.take index)).book := by
  obtain ⟨lengths, each⟩ := List.forall₂_iff_get.mp alike
  induction index with
  | zero => exact start
  | succ index known =>
    by_cases inside : index < stream.length
    · have inside' : index < stream'.length := lengths ▸ inside
      have here : stream[index]? = some (stream.get ⟨index, inside⟩) := List.getElem?_eq_getElem inside
      have here' : stream'[index]? = some (stream'.get ⟨index, inside'⟩) := List.getElem?_eq_getElem inside'
      have alike := each index inside inside'
      rw [book_serveAll_succ spared here, book_serveAll_succ spared' here']
      generalize stream.get ⟨index, inside⟩ = item at here alike
      generalize stream'.get ⟨index, inside'⟩ = item' at here' alike
      obtain ⟨other, small, named⟩ := sent item (List.mem_of_getElem? here)
      obtain ⟨keys, derived, usable, own⟩ :=
        derivePredictorKeys_scoped (PerKeyPredictor platform) perProducer reserved small named item.payloadSize
      obtain ⟨keys', derived', usable', own'⟩ :=
        derivePredictorKeys_scoped (PerKeyPredictor platform) perProducer reserved small (alike.producer.trans named)
          item'.payloadSize
      by_cases mine : producerName other = producerName counter
      · obtain rfl := alike.mine (named.trans (congrArg some mine))
        rw [derived]
        exact known.own usable (fun key ours => mine ▸ own key ours) ..
      · rw [derived, derived']
        have apart : ∀ key, BelongsTo (producerName counter) key → ¬BelongsTo (producerName other) key :=
          fun key ours theirs => mine (BelongsTo.unique (producerName_plain other) (producerName_plain counter) theirs ours)
        exact known.foreign usable usable' alike.shape (fun key ours theirs => apart key ours (own key theirs))
          (fun key ours theirs => apart key ours (own' key theirs)) ..
    · have done := not_lt.mp inside
      rw [List.take_of_length_le (Nat.le_succ_of_le done), List.take_of_length_le (Nat.le_succ_of_le (lengths ▸ done)),
        ← List.take_of_length_le done, ← List.take_of_length_le (lengths ▸ done : stream'.length ≤ index)]
      exact known

end Runs

/-- Messages of different producers have no key in common, and what is known under the keys of a
producer depends on the others' traffic only through which of their durations are accepted. -/
theorem producers_isolated {cfg : HarbingerConfig} {s : System (PerKeyPredictor platform)} (reachable : s.Reachable cfg)
    (counted : s.broker.producerCounter ≤ 2 ^ 64) {policy : PredictorKeyPolicy} (perProducer : policy.scopeByProducer = true)
    (reserved : policy.producerHeader = ascii "__producer_id") :
    (∀ (first second : SubmitRequest) (idAt arrivalAt idAt' arrivalAt' : Time), first.producerId ∈ s.broker.producers →
      second.producerId ∈ s.broker.producers → first.producerId ≠ second.producerId →
      ∀ keys ∈ derivePredictorKeys (PerKeyPredictor platform) (s.broker.accept first idAt arrivalAt).headers policy
        first.payload.length,
      ∀ keys' ∈ derivePredictorKeys (PerKeyPredictor platform) (s.broker.accept second idAt' arrivalAt').headers policy
        second.payload.length,
      ∀ key, keys.Own key → ¬keys'.Own key) ∧
    ∀ (config : PerKeyPredictorConfig) (layout : Layout) (p : PerKeyPredictor platform), layout.Fits config →
      PerKeyPredictor.create platform config layout = .ok p → ∀ id ∈ s.broker.producers, ∀ stream stream' : List Traffic,
      (∀ item ∈ stream, ∃ other ∈ s.broker.producers, item.producer = some other) → List.Forall₂ (Alike id) stream stream' →
      Undisplaced policy p stream → Undisplaced policy p stream' → ∀ (index : Nat), ∀ item ∈ stream, item.producer = some id →
      ∀ keys ∈ derivePredictorKeys (PerKeyPredictor platform) item.headers policy item.payloadSize, ∀ key, keys.Own key →
        (serveAll policy p (stream'.take index)).book.evidence key = (serveAll policy p (stream.take index)).book.evidence key := by
  have assigned : ∀ id ∈ s.broker.producers, ∃ counter < 2 ^ 64, id = producerName counter := fun id member => by
    obtain ⟨counter, before, named⟩ := reachable.producers id member
    exact ⟨counter, before.trans_le counted, named⟩
  constructor
  · intro first second idAt arrivalAt idAt' arrivalAt' registered registered' different keys derived keys' derived' key own own'
    obtain ⟨counter, small, named⟩ := assigned _ registered
    obtain ⟨counter', small', named'⟩ := assigned _ registered'
    have sent : (s.broker.accept first idAt arrivalAt).headers.lookup (ascii "__producer_id") = some (producerName counter) :=
      named ▸ AList.lookup_insert _
    have sent' : (s.broker.accept second idAt' arrivalAt').headers.lookup (ascii "__producer_id") = some (producerName counter') :=
      named' ▸ AList.lookup_insert _
    obtain ⟨_, again, -, belongs⟩ :=
      derivePredictorKeys_scoped (PerKeyPredictor platform) perProducer reserved small sent first.payload.length
    obtain ⟨_, again', -, belongs'⟩ :=
      derivePredictorKeys_scoped (PerKeyPredictor platform) perProducer reserved small' sent' second.payload.length
    obtain rfl := Option.some.inj (again.symm.trans derived)
    obtain rfl := Option.some.inj (again'.symm.trans derived')
    refine different ?_
    rw [named, named']
    exact BelongsTo.unique (producerName_plain counter) (producerName_plain counter') (belongs key own) (belongs' key own')
  · intro config layout p fits made id registered stream stream' sent alike spared spared' index item listed mine keys derived key own
    obtain ⟨counter, small, rfl⟩ := assigned id registered
    obtain ⟨_, again, -, belongs⟩ :=
      derivePredictorKeys_scoped (PerKeyPredictor platform) perProducer reserved small mine item.payloadSize
    obtain rfl := Option.some.inj (again.symm.trans derived)
    have sent' : ∀ item ∈ stream, ∃ other < 2 ^ 64, item.producer = some (producerName other) := fun item member => by
      obtain ⟨other, known, named⟩ := sent item member
      obtain ⟨counter, small, rfl⟩ := assigned other known
      exact ⟨counter, small, named⟩
    exact (agree_along perProducer reserved sent' alike spared spared' (agree_start fits made _) index).evidence key (belongs key own)

section Sample

/-- Two samples make boundaries; a key is stale after half an hour. -/
def samplePair : PerKeyPredictor .plain :=
  { samplePredictor with config := { samplePredictorConfig with timeHalfLife := 0, globalMinSamples := 2 } }

def sampleSent (producer : Nat) (seconds : Int) (encounter : Encounter) : Traffic where
  now := seconds * 1000000000
  headers := AList.insert (ascii "__producer_id") (producerName producer) ∅
  payloadSize := 0
  encounter := encounter

/-- A message of the second producer with the given duration, among the traffic of the first. -/
def sampleNeighbours (duration : ℚ) : List Traffic :=
  [sampleSent 0 0 (.label 10), sampleSent 1 0 (.label duration), sampleSent 0 1000 .arrival, sampleSent 0 2000 (.label 10)]

theorem samplePair_created : PerKeyPredictor.create .plain samplePair.config sampleLayout = .ok samplePair := by
  have valid : validated samplePair.config = .ok samplePair.config := by decide +kernel
  rw [PerKeyPredictor.create, valid]
  rfl

/-- If the duration of the other producer's message is refused, there are no boundaries at 1000 s,
the first producer's key is not refreshed then and starts afresh at 2000 s. -/
theorem refused_duration_interferes :
    PerKeyPredictor.create .plain samplePair.config sampleLayout = .ok samplePair ∧
      Undisplaced {} samplePair (sampleNeighbours 10) ∧ Undisplaced {} samplePair (sampleNeighbours (-1)) ∧
      (serveAll {} samplePair (sampleNeighbours (-1))).book.evidence (producerName 0) ≠
        (serveAll {} samplePair (sampleNeighbours 10)).book.evidence (producerName 0) := by
  refine ⟨samplePair_created, along_of_fin (by decide +kernel), along_of_fin (by decide +kernel), fun same => ?_⟩
  have counts := congrArg (Option.map fun h => h.histogram.observations) same
  revert counts
  decide +kernel

/-- Two producers have registered. -/
def sampleRegistered : System (PerKeyPredictor .plain) :=
  System.initial sampleBroker.registerProducer.registerProducer 0

/-- The first producer imitates the second one's id. -/
def sampleForgery : SubmitRequest :=
  { producerId := producerName 0, headers := AList.insert (ascii "__producer_id") (producerName 1) ∅ }

/-- An accepted duration of the other producer, short or long, makes no difference. -/
theorem producers_isolated_pair :
    (∀ keys ∈ derivePredictorKeys (PerKeyPredictor .plain) (sampleRegistered.broker.accept sampleForgery 0 0).headers {} 0,
      ∀ keys' ∈ derivePredictorKeys (PerKeyPredictor .plain)
        (sampleRegistered.broker.accept { producerId := producerName 1 } 0 0).headers {} 0,
      ∀ key, keys.Own key → ¬keys'.Own key) ∧
    (serveAll {} samplePair (sampleNeighbours 100)).book.evidence (producerName 0) =
      (serveAll {} samplePair (sampleNeighbours 10)).book.evidence (producerName 0) := by
  have ran : Transition.run (System.step {}) [.registerProducer, .registerProducer] (System.initial sampleBroker 0) =
      some sampleRegistered := rfl
  have perProducer : ({} : PredictorKeyPolicy).scopeByProducer = true := rfl
  obtain ⟨disjoint, isolated⟩ := producers_isolated (sample_reachable ran) (by decide +kernel) perProducer rfl
  have first : producerName 0 ∈ sampleRegistered.broker.producers := by decide +kernel
  have second : producerName 1 ∈ sampleRegistered.broker.producers := by decide +kernel
  refine ⟨disjoint sampleForgery { producerId := producerName 1 } 0 0 0 0 first second (by decide +kernel), ?_⟩
  have sent : ∀ item ∈ sampleNeighbours 10, ∃ other ∈ sampleRegistered.broker.producers, item.producer = some other := by
    decide +kernel
  have alike : List.Forall₂ (Alike (producerName 0)) (sampleNeighbours 10) (sampleNeighbours 100) := by
    have same : ∀ item, Alike (producerName 0) item item := fun item => ⟨rfl, rfl, fun _ => rfl⟩
    have other : Alike (producerName 0) (sampleSent 1 0 (.label 10)) (sampleSent 1 0 (.label 100)) :=
      ⟨rfl, by decide +kernel, fun mine => absurd mine (by decide +kernel)⟩
    exact .cons (same _) (.cons other (.cons (same _) (.cons (same _) .nil)))
  exact isolated samplePair.config sampleLayout samplePair ⟨rfl, rfl, rfl⟩ samplePair_created _ first _ _ sent alike
    (along_of_fin (by decide +kernel)) (along_of_fin (by decide +kernel)) 4 (sampleSent 0 0 (.label 10)) List.mem_cons_self
    (by decide +kernel) ⟨producerName 0, none⟩ (by decide +kernel) (producerName 0) (.inl rfl)

end Sample

end Harbinger
