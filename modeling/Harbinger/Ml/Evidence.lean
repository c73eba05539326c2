import Harbinger.Ml.Book

/-! What a book knows of a key apart from the tier it holds, and how each call changes it. The
tier depends on the boundaries, that is on the durations of all keys; the evidence does not. -/

namespace Harbinger.Ml

/-- A history without its tier. -/
def History.evidence (h : History) : History := { h with tier := none }

theorem PerKeyPredictor.evaluate_cold {platform : Platform} (p : PerKeyPredictor platform) (entry : Entry)
    (snapshot : BoundarySnapshot) :
    (p.evaluate entry snapshot).1.status = .coldKey ↔ entry.histogram.observations < p.config.minSamples := by
  unfold evaluate
  dsimp only
  by_cases few : entry.histogram.observations < p.config.minSamples
  · rw [if_pos few]
    exact iff_of_true rfl few
  · rw [if_neg few]
    refine iff_of_false ?_ few
    split_ifs <;> exact fun cold => nomatch cold

namespace Book
variable {platform : Platform} {b : Book platform} {key other : Bytes} {now : Time}

def evidence (b : Book platform) (key : Bytes) : Option History := (b.history key).map History.evidence

/-- A prediction for the key refreshes its last activity. -/
def Refreshes (b : Book platform) (now : Time) (key : Bytes) : Prop :=
  usableKey key = true ∧ b.boundaries.isSome ∧ ∃ h, b.evidence key = some h ∧ ¬b.stale h now

theorem freshen_evidence (h : History) : (b.freshen h now).evidence = b.freshen h.evidence now := by
  unfold freshen
  by_cases old : b.stale h now
  · rw [if_pos old, if_pos (show b.stale h.evidence now from old)]
    rfl
  · rw [if_neg old, if_neg (show ¬b.stale h.evidence now from old)]
    have same : h.evidence.lastDecay = h.lastDecay := rfl
    rw [same]
    split
    · rfl
    · dsimp only
      split <;> rfl

theorem teach_evidence (lesson : DecayingHistogram → DecayingHistogram) (old : Option History) :
    (b.teach lesson now old).evidence = b.teach lesson now (old.map History.evidence) := by
  have touched : (b.touch old now).evidence = b.touch (old.map History.evidence) now := by
    cases old with
    | none => rfl
    | some h => exact freshen_evidence h
  have histogram := congrArg History.histogram touched
  have decay := congrArg History.lastDecay touched
  have tier := congrArg History.tier touched
  exact History.ext (congrArg lesson histogram) rfl decay tier

theorem evidence_put (h : History) : (b.put key h).evidence other = if other = key then some h.evidence else b.evidence other := by
  change (Function.update b.history key (some h) other).map History.evidence = _
  rw [Function.update_apply]
  split <;> rfl

theorem evidence_recordKey (duration : ℚ) : (b.recordKey key duration now).evidence other =
    if other = key then some (b.teach (fun h => (h.add b.layout duration).1) now (b.evidence key)) else b.evidence other := by
  rw [recordKey, evidence_put, teach_evidence]
  rfl

theorem evidence_observeGlobal (duration : ℚ) : (b.observeGlobal duration).evidence = b.evidence := by
  simp only [observeGlobal]
  split <;> rfl

theorem observeCensored_usable (usable : usableKey key = true) :
    b.observeCensored now key = b.put key (b.teach DecayingHistogram.addCensored now (b.history key)) := by
  rw [observeCensored, usable]
  rfl

theorem evidence_observeCensored (usable : usableKey key = true) : (b.observeCensored now key).evidence other =
    if other = key then some (b.teach DecayingHistogram.addCensored now (b.evidence key)) else b.evidence other := by
  rw [observeCensored_usable usable, evidence_put, teach_evidence]
  rfl

/-- A prediction changes nothing, or it refreshes its key. -/
theorem predict_cases (b : Book platform) (now : Time) (key : Bytes) :
    (¬b.Refreshes now key ∧ (b.predict now key).2 = b) ∨
      (b.Refreshes now key ∧ ∃ h tier, b.history key = some h ∧
        (b.predict now key).2 = b.put key { h with lastActivity := now, tier }) := by
  unfold predict
  by_cases usable : usableKey key = true
  · rw [if_neg (by simpa using usable)]
    cases published : b.boundaries with
    | none => exact .inl ⟨fun refreshes => by simpa [published] using refreshes.2.1, rfl⟩
    | some boundariesMs =>
      cases known : b.history key with
      | none =>
        refine .inl ⟨fun ⟨_, _, h, found, _⟩ => ?_, rfl⟩
        rw [evidence, known] at found
        cases found
      | some h =>
        have recorded : b.evidence key = some h.evidence := congrArg (Option.map _) known
        dsimp only
        by_cases old : b.stale h now
        · refine .inl ⟨fun ⟨_, _, h', found, fresh⟩ => ?_, by rw [if_pos old]⟩
          obtain rfl := Option.some.inj (recorded.symm.trans found)
          exact fresh old
        · refine .inr ⟨⟨usable, by rw [published]; rfl, _, recorded, old⟩, h,
            (b.evaluate { h with lastActivity := now } boundariesMs).2.tier, rfl, ?_⟩
          rw [if_neg old]
          rfl
  · refine .inl ⟨fun refreshes => usable refreshes.1, ?_⟩
    rw [if_pos (by simpa using usable)]

theorem evidence_predict_other (different : other ≠ key) : (b.predict now key).2.evidence other = b.evidence other := by
  rcases b.predict_cases now key with ⟨-, same⟩ | ⟨-, h, tier, -, changed⟩
  · rw [same]
  · rw [changed, evidence_put, if_neg different]

theorem evidence_predict_idle (idle : ¬b.Refreshes now key) : (b.predict now key).2.evidence other = b.evidence other := by
  rcases b.predict_cases now key with ⟨-, same⟩ | ⟨refreshes, -⟩
  · rw [same]
  · exact absurd refreshes idle

theorem evidence_predict_refreshed (refreshes : b.Refreshes now key) :
    (b.predict now key).2.evidence key = (b.evidence key).map fun h => { h with lastActivity := now } := by
  rcases b.predict_cases now key with ⟨idle, -⟩ | ⟨-, h, tier, known, changed⟩
  · exact absurd refreshes idle
  · rw [changed, evidence_put, if_pos rfl, evidence, known]
    rfl

theorem predict_history (b : Book platform) (now : Time) (key : Bytes) :
    ∃ history, (b.predict now key).2 = { b with history } := by
  rcases b.predict_cases now key with ⟨-, same⟩ | ⟨-, h, tier, -, changed⟩
  · exact ⟨b.history, same⟩
  · exact ⟨_, changed⟩

theorem predict_cold : (b.predict now key).1.status = .coldKey ↔ usableKey key = true ∧ b.boundaries.isSome ∧
    ∀ h, b.evidence key = some h → ¬b.stale h now ∧ h.histogram.observations < b.config.minSamples := by
  unfold predict
  by_cases usable : usableKey key = true
  · rw [if_neg (by simpa using usable)]
    cases published : b.boundaries with
    | none => simp [PerKeyPredictor.fallback]
    | some boundariesMs =>
      cases known : b.history key with
      | none => simp [PerKeyPredictor.fallback, usable, evidence, known]
      | some h =>
        have recorded : b.evidence key = some h.evidence := congrArg (Option.map _) known
        dsimp only
        simp only [usable, recorded, Option.some.injEq, forall_eq', Option.isSome_some, true_and]
        by_cases old : b.stale h now
        · rw [if_pos old]
          exact iff_of_false (by simp [PerKeyPredictor.fallback]) fun fresh => fresh.1 old
        · rw [if_neg old]
          exact (PerKeyPredictor.evaluate_cold ..).trans (iff_and_self.mpr fun _ => old)
  · rw [if_pos (by simpa using usable)]
    simp [PerKeyPredictor.fallback, usable]

end Book

end Harbinger.Ml
