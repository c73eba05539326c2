import Harbinger.Broker.Basic
import Harbinger.Ml.Evidence

/-! The traffic of a broker as its predictor sees it: each message is looked up when it arrives,
and taught when its duration is measured or its lease expires. -/

namespace Harbinger
open Ml

/-- Why a message comes to the predictor. -/
inductive Encounter where
  | arrival
  | label (duration : ℚ)
  | expiry
  deriving DecidableEq

structure Traffic where
  now : Time
  headers : Headers
  payloadSize : Nat
  encounter : Encounter

variable {platform : Platform}

namespace Ml.PerKeyPredictor
variable {p : PerKeyPredictor platform}

/-- The calls for a message with the given keys, at one reading of the clock. -/
def attend (p : PerKeyPredictor platform) (now : Time) (keys : Option PredictorKeys) : Encounter → PerKeyPredictor platform
  | .arrival => (Broker.lookupPrediction p.config.defaultPriority.toNat p keys ⟨now, now, 0⟩).2
  | .label duration => keys.elim p fun keys => (p.observe now keys.key (keys.parent.getD []) duration).2
  | .expiry => keys.elim p fun keys =>
    keys.parent.elim (p.observeCensored now keys.key).2 fun parent => ((p.observeCensored now keys.key).2.observeCensored now parent).2

/-- The calls displace no key and none overflows. -/
def Spares (p : PerKeyPredictor platform) (now : Time) : Option PredictorKeys → Encounter → Prop
  | none, _ | some _, .arrival => True
  | some keys, .label duration => p.Accommodates now keys.key (keys.parent.getD []) duration
  | some keys, .expiry => (!usableKey keys.key ∨ p.HasRoom keys.key) ∧
      ∀ parent ∈ keys.parent, !usableKey parent ∨ (p.observeCensored now keys.key).2.HasRoom parent

instance (now : Time) : (keys : Option PredictorKeys) → (encounter : Encounter) → Decidable (p.Spares now keys encounter)
  | none, .arrival | none, .label _ | none, .expiry | some _, .arrival => inferInstanceAs (Decidable True)
  | some keys, .label duration => inferInstanceAs (Decidable (p.Accommodates now keys.key (keys.parent.getD []) duration))
  | some keys, .expiry => inferInstanceAs (Decidable (_ ∧ ∀ parent ∈ keys.parent, _))

end Ml.PerKeyPredictor

namespace Ml.Book

/-- Attendance as the book sees it. -/
def attend (b : Book platform) (now : Time) (keys : Option PredictorKeys) : Encounter → Book platform
  | .arrival => keys.elim b fun keys =>
    if (b.predict now keys.key).1.status = .coldKey then
      keys.parent.elim (b.predict now keys.key).2 fun parent => ((b.predict now keys.key).2.predict now parent).2
    else (b.predict now keys.key).2
  | .label duration => keys.elim b fun keys => b.observe now keys.key (keys.parent.getD []) duration
  | .expiry => keys.elim b fun keys =>
    keys.parent.elim (b.observeCensored now keys.key) fun parent =>
      (b.observeCensored now keys.key).observeCensored now parent

end Ml.Book

/-- What an encounter teaches the keys of its message. -/
def Encounter.lesson (layout : Layout) : Encounter → Option (DecayingHistogram → DecayingHistogram)
  | .arrival => none
  | .label duration => if duration < 0 then none else some fun h => (h.add layout duration).1
  | .expiry => some DecayingHistogram.addCensored

/-- Keys that the predictor accepts. -/
structure Ml.PredictorKeys.Usable (keys : PredictorKeys) : Prop where
  key : usableKey keys.key = true
  parent : ∀ parent, keys.parent = some parent → usableKey parent = true ∧ parent ≠ keys.key

def Ml.PredictorKeys.Own (keys : PredictorKeys) (key : Bytes) : Prop := key = keys.key ∨ keys.parent = some key

namespace Ml.Book
variable {b : Book platform} {now : Time} {keys : PredictorKeys} {key : Bytes}

/-- What becomes of the rest of a book, apart from the histories. -/
def absorb (b : Book platform) : Encounter → Book platform
  | .label duration => if duration < 0 then b else b.observeGlobal duration
  | _ => b

theorem observeGlobal_history (history : Bytes → Option History) (duration : ℚ) :
    ({ b with history } : Book platform).observeGlobal duration = { b.observeGlobal duration with history } := by
  simp only [observeGlobal]
  split <;> rfl

theorem usableKey_ne_nil {key : Bytes} (usable : usableKey key = true) : key ≠ [] := by
  rintro rfl
  cases usable

theorem observe_usable (usable : keys.Usable) (duration : ℚ) : b.observe now keys.key (keys.parent.getD []) duration =
    if duration < 0 then b
    else (keys.parent.elim (b.recordKey keys.key duration now) fun parent =>
      (b.recordKey keys.key duration now).recordKey parent duration now).observeGlobal duration := by
  obtain ⟨key, parent⟩ := keys
  unfold observe
  cases parent with
  | none =>
    simp [usable.key]
  | some parent =>
    have known := (usable.parent parent rfl).1
    have named : parent ≠ [] := usableKey_ne_nil known
    simp [usable.key, known, named]

theorem attend_rest (b : Book platform) (now : Time) (usable : keys.Usable) (encounter : Encounter) :
    ∃ history, b.attend now (some keys) encounter = { b.absorb encounter with history } := by
  cases encounter with
  | arrival =>
    simp only [attend, Option.elim, absorb]
    obtain ⟨first, after⟩ := b.predict_history now keys.key
    split
    · cases keys.parent with
      | none => exact ⟨first, after⟩
      | some parent =>
        obtain ⟨second, after'⟩ := (b.predict now keys.key).2.predict_history now parent
        refine ⟨second, after'.trans ?_⟩
        rw [after]
    · exact ⟨first, after⟩
  | label duration =>
    simp only [attend, Option.elim, absorb, observe_usable usable]
    split
    · exact ⟨b.history, rfl⟩
    · cases keys.parent with
      | none => exact ⟨_, observeGlobal_history (b := b) ..⟩
      | some parent =>
        exact ⟨((b.recordKey keys.key duration now).recordKey parent duration now).history,
          observeGlobal_history (b := b) ..⟩
  | expiry =>
    simp only [attend, Option.elim, absorb, observeCensored_usable usable.key]
    cases known : keys.parent with
    | none => exact ⟨_, rfl⟩
    | some parent =>
      dsimp only
      rw [observeCensored_usable (usable.parent parent known).1]
      exact ⟨_, rfl⟩

/-- Other keys are left alone. -/
theorem evidence_attend_other (usable : keys.Usable) (foreign : ¬keys.Own key) (encounter : Encounter) :
    (b.attend now (some keys) encounter).evidence key = b.evidence key := by
  have different : key ≠ keys.key := fun same => foreign (.inl same)
  have elsewhere : ∀ parent, keys.parent = some parent → key ≠ parent := fun parent known same =>
    foreign (.inr (same ▸ known))
  cases encounter with
  | arrival =>
    simp only [attend, Option.elim]
    split
    · cases known : keys.parent with
      | none => exact evidence_predict_other different
      | some parent => rw [evidence_predict_other (elsewhere parent known), evidence_predict_other different]
    · exact evidence_predict_other different
  | label duration =>
    simp only [attend, Option.elim, observe_usable usable]
    split
    · rfl
    · cases known : keys.parent with
      | none => rw [evidence_observeGlobal, evidence_recordKey, if_neg different]
      | some parent =>
        rw [evidence_observeGlobal, evidence_recordKey, if_neg (elsewhere parent known), evidence_recordKey, if_neg different]
  | expiry =>
    simp only [attend, Option.elim]
    cases known : keys.parent with
    | none => rw [evidence_observeCensored usable.key, if_neg different]
    | some parent =>
      rw [evidence_observeCensored (usable.parent parent known).1, if_neg (elsewhere parent known),
        evidence_observeCensored usable.key, if_neg different]

/-- The key and its parent are taught alike. -/
theorem evidence_attend_own (usable : keys.Usable) (own : keys.Own key) {encounter : Encounter} (later : encounter ≠ .arrival) :
    (b.attend now (some keys) encounter).evidence key =
      (encounter.lesson b.layout).elim (b.evidence key) fun lesson => some (b.teach lesson now (b.evidence key)) := by
  cases encounter with
  | arrival => exact absurd rfl later
  | label duration =>
    simp only [attend, Option.elim, observe_usable usable, Encounter.lesson]
    split
    · rfl
    · rw [evidence_observeGlobal]
      cases known : keys.parent with
      | none =>
        obtain rfl : key = keys.key := own.resolve_right fun named => by rw [known] at named; cases named
        exact (evidence_recordKey duration).trans (if_pos rfl)
      | some parent =>
        have different := (usable.parent parent known).2
        dsimp only
        rw [evidence_recordKey, evidence_recordKey, evidence_recordKey, if_neg different]
        rcases own with rfl | named
        · rw [if_neg different.symm, if_pos rfl]
        · obtain rfl := Option.some.inj (known.symm.trans named)
          rw [if_pos rfl]
          rfl
  | expiry =>
    simp only [attend, Option.elim, Encounter.lesson]
    cases known : keys.parent with
    | none =>
      obtain rfl : key = keys.key := own.resolve_right fun named => by rw [known] at named; cases named
      exact (evidence_observeCensored usable.key).trans (if_pos rfl)
    | some parent =>
      obtain ⟨accepted, different⟩ := usable.parent parent known
      dsimp only
      rw [evidence_observeCensored accepted, evidence_observeCensored usable.key, evidence_observeCensored usable.key,
        if_neg different]
      rcases own with rfl | named
      · rw [if_neg different.symm, if_pos rfl]
      · obtain rfl := Option.some.inj (known.symm.trans named)
        rw [if_pos rfl, observeCensored_usable usable.key]
        rfl

end Ml.Book

theorem headerText_ne_nil {headers : Headers} {name value : Bytes} (found : headerText headers name = some value) :
    value ≠ [] := by
  unfold headerText at found
  split at found
  · cases found
  · split at found
    · cases found
    · split at found
      · cases found
      next nonempty => exact Option.some.inj found ▸ nonempty

theorem derivePredictorKey_usable {headers : Headers} {policy : PredictorKeyPolicy} {key : Bytes}
    (derived : derivePredictorKey headers policy = some key) : usableKey key = true := by
  unfold derivePredictorKey at derived
  obtain ⟨chosen, short⟩ := Option.filter_eq_some_iff.mp derived
  have nonempty : key ≠ [] := by
    split at chosen
    · split at chosen
      · cases chosen
      next producer known _ => exact Option.some.inj chosen ▸ headerText_ne_nil known
      next producer job known _ =>
        obtain rfl := Option.some.inj chosen
        simp
    · split at chosen
      next job known =>
        obtain rfl := Option.some.inj chosen
        exact headerText_ne_nil (Option.filter_eq_some_iff.mp known).1
      next producer _ known => exact Option.some.inj chosen ▸ headerText_ne_nil known
      · cases chosen
  simpa [usableKey, nonempty] using short

theorem binPredictorKey_cases (key : Bytes) (size : Option ℚ) : binPredictorKey key size = ⟨key, none⟩ ∨
    ∃ label, binPredictorKey key size = ⟨key ++ unitSeparator :: label, some key⟩ ∧
      usableKey (key ++ unitSeparator :: label) = true := by
  cases size with
  | none => exact .inl rfl
  | some size =>
    simp only [binPredictorKey]
    split
    next short => exact .inr ⟨_, rfl, by simpa [usableKey] using short⟩
    · exact .inl rfl

theorem derivePredictorKeys_cases (σ : Type) [Inference σ] {headers : Headers} {policy : PredictorKeyPolicy} {base : Bytes}
    (derived : derivePredictorKey headers policy = some base) (payloadSize : Nat) :
    derivePredictorKeys σ headers policy payloadSize = some ⟨base, none⟩ ∨
      ∃ label, derivePredictorKeys σ headers policy payloadSize = some ⟨base ++ unitSeparator :: label, some base⟩ ∧
        usableKey (base ++ unitSeparator :: label) = true := by
  rw [derivePredictorKeys, derived, Option.map_some]
  rcases binPredictorKey_cases base _ with alone | ⟨label, binned, usable⟩
  · exact .inl (congrArg some alone)
  · exact .inr ⟨label, congrArg some binned, usable⟩

theorem derivePredictorKeys_none (σ : Type) [Inference σ] {headers : Headers} {policy : PredictorKeyPolicy}
    (underived : derivePredictorKey headers policy = none) (payloadSize : Nat) :
    derivePredictorKeys σ headers policy payloadSize = none := by
  rw [derivePredictorKeys, underived, Option.map_none]

theorem book_attend {p : PerKeyPredictor platform} {now : Time} {keys : Option PredictorKeys} {encounter : Encounter}
    (spared : p.Spares now keys encounter) : (p.attend now keys encounter).book = p.book.attend now keys encounter := by
  cases keys with
  | none => cases encounter <;> rfl
  | some keys =>
    cases encounter with
    | label duration => exact PerKeyPredictor.book_observe spared
    | expiry =>
      obtain ⟨key, parent⟩ := keys
      have first := PerKeyPredictor.book_observeCensored spared.1 now
      cases parent with
      | none => exact first
      | some parent =>
        refine (PerKeyPredictor.book_observeCensored (spared.2 parent rfl) now).trans ?_
        rw [first]
        rfl
    | arrival =>
      obtain ⟨prediction, after⟩ := PerKeyPredictor.book_predict (p := p) now keys.key
      simp only [PerKeyPredictor.attend, Book.attend, Broker.lookupPrediction, Option.elim, Inference.predict]
      rw [prediction]
      split
      next parent cold known =>
        rw [if_pos cold, known, (PerKeyPredictor.book_predict _ _).2, after]
      next other =>
        split
        next cold =>
          cases known : keys.parent with
          | none => exact after
          | some parent => exact absurd known (other parent cold)
        · exact after

/-- The traffic of one message under a key policy. -/
def serve (policy : PredictorKeyPolicy) (p : PerKeyPredictor platform) (item : Traffic) : PerKeyPredictor platform :=
  p.attend item.now (derivePredictorKeys (PerKeyPredictor platform) item.headers policy item.payloadSize) item.encounter

def serveAll (policy : PredictorKeyPolicy) (p : PerKeyPredictor platform) (stream : List Traffic) : PerKeyPredictor platform :=
  stream.foldl (serve policy) p

/-- A condition on each item of a stream and the items before it. -/
def AlongStream (stream : List Traffic) (condition : List Traffic → Traffic → Prop) : Prop :=
  ∀ index item, stream[index]? = some item → condition (stream.take index) item

theorem along_of_fin {stream : List Traffic} {condition : List Traffic → Traffic → Prop}
    (each : ∀ index : Fin stream.length, condition (stream.take index) (stream.get index)) : AlongStream stream condition := by
  intro index item here
  obtain ⟨inside, rfl⟩ := List.getElem?_eq_some_iff.mp here
  exact each ⟨index, inside⟩

/-- No key is evicted in the run, and none overflows. -/
def Undisplaced (policy : PredictorKeyPolicy) (p : PerKeyPredictor platform) (stream : List Traffic) : Prop :=
  AlongStream stream fun before item => (serveAll policy p before).Spares item.now
    (derivePredictorKeys (PerKeyPredictor platform) item.headers policy item.payloadSize) item.encounter

theorem serveAll_take_succ {policy : PredictorKeyPolicy} {p : PerKeyPredictor platform} {stream : List Traffic}
    {index : Nat} {item : Traffic} (here : stream[index]? = some item) :
    serveAll policy p (stream.take (index + 1)) = serve policy (serveAll policy p (stream.take index)) item := by
  rw [List.take_add_one, here, serveAll, List.foldl_append]
  rfl

theorem book_serveAll_succ {policy : PredictorKeyPolicy} {p : PerKeyPredictor platform} {stream : List Traffic}
    (spared : Undisplaced policy p stream) {index : Nat} {item : Traffic} (here : stream[index]? = some item) :
    (serveAll policy p (stream.take (index + 1))).book = (serveAll policy p (stream.take index)).book.attend item.now
      (derivePredictorKeys (PerKeyPredictor platform) item.headers policy item.payloadSize) item.encounter := by
  rw [serveAll_take_succ here]
  exact book_attend (spared index item here)

theorem along_induction {stream : List Traffic} {motive : List Traffic → Prop} (start : motive [])
    (step : ∀ index item, stream[index]? = some item → motive (stream.take index) → motive (stream.take (index + 1)))
    (index : Nat) : motive (stream.take index) := by
  induction index with
  | zero => exact start
  | succ index known =>
    cases here : stream[index]? with
    | none =>
      have done : stream.length ≤ index := List.getElem?_eq_none_iff.mp here
      rwa [List.take_of_length_le (Nat.le_succ_of_le done), ← List.take_of_length_le done]
    | some item => exact step index item here known

theorem earlier_of_take {stream : List Traffic} {relation : Traffic → Traffic → Prop} (ordered : stream.Pairwise relation)
    {index : Nat} {item : Traffic} (here : stream[index]? = some item) : ∀ earlier ∈ stream.take index, relation earlier item := by
  obtain ⟨inside, rfl⟩ := List.getElem?_eq_some_iff.mp here
  rw [← List.take_append_drop index stream, List.pairwise_append] at ordered
  intro earlier member
  refine ordered.2.2 earlier member _ ?_
  rw [List.drop_eq_getElem_cons inside]
  exact List.mem_cons_self

end Harbinger
