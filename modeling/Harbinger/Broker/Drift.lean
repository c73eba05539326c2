import Harbinger.Arithmetic.Checked
import Harbinger.Broker.Basic
import Harbinger.Ml.Predictor

/-! The drift window of `learn`: how the predictions of the last scored updates agreed with their
durations, and the alerts about it. -/

namespace Harbinger
open Ml

/-- The size of the window. -/
def windowSlots : Nat := 512

/-- What `drift_mutex` guards, apart from the average error. -/
structure Drift where
  scored : Nat := 0
  hits : Nat := 0
  driftAlerts : Nat := 0
  window : List Bool := List.replicate windowSlots false
  windowNext : Nat := 0
  windowSize : Nat := 0
  windowHits : Nat := 0
  driftLatched : Bool := false

/-- One call of `learn`: the predictor before it, and the snapshot that it reads after its observation. -/
structure Learned (platform : Platform) where
  predictor : PerKeyPredictor platform
  update : PredictorUpdate
  reading : Time
  snapshot : Option BoundarySnapshot

/-- Whether the prediction matches, if the update is scored. -/
def Learned.score? {platform : Platform} (call : Learned platform) : Option Bool :=
  if call.update.censored then none
  else match call.update.durationMs with
    | none => none
    | some duration =>
      if !(call.predictor.observe call.reading call.update.key (call.update.parent.getD []) duration).1 then none
      else match call.update.predictedMs, call.update.predictedBucket with
        | some _, some bucket => some (call.snapshot.any fun s => tierOf s.boundariesMs duration == bucket)
        | _, _ => none

namespace Drift

/-- The alert, once the window is full. The agreement is a multiple of 1/512, so it is exact. -/
def watch (d : Drift) : Drift :=
  if d.windowSize = windowSlots then
    let agreement : ℚ := d.windowHits / d.windowSize
    if !d.driftLatched && agreement < 1 / 2 then { d with driftLatched := true, driftAlerts := d.driftAlerts + 1 }
    else if d.driftLatched && 3 / 5 < agreement then { d with driftLatched := false }
    else d
  else d

/-- A score enters the window, and the oldest one leaves it. -/
def slide (d : Drift) (hit : Bool) : Drift :=
  let full := d.windowSize = windowSlots
  { d with
    scored := d.scored + 1
    hits := d.hits + hit.toNat
    window := d.window.set d.windowNext hit
    windowNext := (d.windowNext + 1) % windowSlots
    windowSize := if full then d.windowSize else d.windowSize + 1
    windowHits := (if full then sizeSub d.windowHits (d.window.getD d.windowNext false).toNat else d.windowHits) +
      hit.toNat }

/-- The part of `learn` under `drift_mutex`. -/
def score (d : Drift) (hit : Bool) : Drift := (d.slide hit).watch

def learn {platform : Platform} (d : Drift) (call : Learned platform) : Drift :=
  match call.score? with
  | none => d
  | some hit => d.score hit

end Drift

/-- How a full window that starts with the given update agreed. -/
def agreement (scores : List Bool) (start : Nat) : ℚ := ((scores.drop start).take windowSlots).count true / windowSlots

/-- The value is below one half, and after every earlier alert it was above three fifths. -/
def Alert (values : Nat → ℚ) (place : Nat) : Prop :=
  values place < 1 / 2 ∧ ∀ earlier < place, Alert values earlier → ∃ between < place, earlier < between ∧ 3 / 5 < values between
termination_by place

/-- The last alert is not over. -/
def Latched (values : Nat → ℚ) (count : Nat) : Prop :=
  ∃ place < count, Alert values place ∧ ∀ later < count, place < later → values later ≤ 3 / 5

section Alerts
variable {values others : Nat → ℚ} {count : Nat}

theorem alert_congr {place : Nat} (same : ∀ earlier ≤ place, values earlier = others earlier) :
    Alert values place ↔ Alert others place := by
  induction place using Nat.strong_induction_on with
  | h place ih =>
    have before : ∀ earlier < place, (Alert values earlier ↔ Alert others earlier) := fun earlier order =>
      ih earlier order fun k small => same k (small.trans order.le)
    rw [Alert, Alert, same place le_rfl]
    refine and_congr_right fun _ => forall₂_congr fun earlier order => ?_
    rw [before earlier order]
    refine imp_congr_right fun _ => exists_congr fun between => and_congr_right fun inside => ?_
    rw [same between inside.le]

theorem alert_iff : Alert values count ↔ values count < 1 / 2 ∧ ¬Latched values count := by
  rw [Alert]
  refine and_congr_right fun _ => ?_
  simp only [Latched, not_exists, not_and, not_forall, not_le]
  refine forall₃_congr fun earlier order alert => exists_congr fun between => ?_
  tauto

/-- The latch after one more value. -/
theorem latched_succ : Latched values (count + 1) ↔
    values count < 1 / 2 ∨ Latched values count ∧ values count ≤ 3 / 5 := by
  constructor
  · rintro ⟨place, small, alert, quiet⟩
    rcases Nat.lt_succ_iff_lt_or_eq.mp small with earlier | rfl
    · exact .inr ⟨⟨place, earlier, alert, fun later inside => quiet later (inside.trans (Nat.lt_succ_self _))⟩,
        quiet count (Nat.lt_succ_self _) earlier⟩
    · exact .inl (alert_iff.mp alert).1
  · rintro (low | ⟨⟨place, small, alert, quiet⟩, high⟩)
    · by_cases latched : Latched values count
      · obtain ⟨place, small, alert, quiet⟩ := latched
        refine ⟨place, small.trans (Nat.lt_succ_self _), alert, fun later inside after => ?_⟩
        rcases Nat.lt_succ_iff_lt_or_eq.mp inside with earlier | rfl
        · exact quiet later earlier after
        · exact low.le.trans (by norm_num)
      · exact ⟨count, Nat.lt_succ_self _, alert_iff.mpr ⟨low, latched⟩, fun later inside after => by omega⟩
    · refine ⟨place, small.trans (Nat.lt_succ_self _), alert, fun later inside after => ?_⟩
      rcases Nat.lt_succ_iff_lt_or_eq.mp inside with earlier | rfl
      · exact quiet later earlier after
      · exact high

end Alerts

/-! ### The window -/

theorem count_singleton (hit : Bool) : [hit].count true = hit.toNat := by cases hit <;> rfl

/-- The last scores, as many as the window holds. -/
def lastScores (scores : List Bool) : List Bool := scores.drop (scores.length - windowSlots)

section Windows
variable {scores : List Bool} {hit : Bool}

theorem agreement_append {start : Nat} (inside : start + windowSlots ≤ scores.length) :
    agreement (scores ++ [hit]) start = agreement scores start := by
  unfold agreement
  rw [List.drop_append_of_le_length (by omega), List.take_append_of_le_length (by rw [List.length_drop]; omega)]

theorem agreement_last (full : windowSlots ≤ scores.length) :
    agreement scores (scores.length - windowSlots) = (lastScores scores).count true / windowSlots := by
  unfold agreement lastScores
  rw [List.take_of_length_le (by rw [List.length_drop]; omega)]

/-- One window more, with another score at its end. -/
theorem lastScores_append : (lastScores (scores ++ [hit])).count true + (if windowSlots ≤ scores.length then
    (scores.getD (scores.length - windowSlots) false).toNat else 0) = (lastScores scores).count true + hit.toNat := by
  have positive : 0 < windowSlots := by decide
  unfold lastScores
  rw [List.length_append, List.length_singleton, List.drop_append_of_le_length (by omega), List.count_append, count_singleton]
  split
  next full =>
    have inside : scores.length - windowSlots < scores.length := by omega
    have rest : scores.length + 1 - windowSlots = scores.length - windowSlots + 1 := by omega
    rw [List.drop_eq_getElem_cons inside, List.getD_eq_getElem _ _ inside, ← List.singleton_append, List.count_append,
      count_singleton, rest]
    omega
  next short =>
    rw [show scores.length + 1 - windowSlots = 0 by omega, show scores.length - windowSlots = 0 by omega]
    omega

end Windows

/-- What the window says about the scores so far. -/
structure Drift.Windowed (d : Drift) (scores : List Bool) : Prop where
  scored : d.scored = scores.length
  hits : d.hits = scores.count true
  slots : d.window.length = windowSlots
  next : d.windowNext = scores.length % windowSlots
  size : d.windowSize = min scores.length windowSlots
  kept : ∀ place < scores.length, scores.length ≤ place + windowSlots →
    d.window.getD (place % windowSlots) false = scores.getD place false
  windowHits : d.windowHits = (lastScores scores).count true

namespace Drift.Windowed
variable {d : Drift} {scores : List Bool}

/-- The slot that is overwritten is the oldest one, and it was counted. -/
theorem oldest (windowed : d.Windowed scores) (full : windowSlots ≤ scores.length) :
    d.window.getD d.windowNext false = scores.getD (scores.length - windowSlots) false ∧
      (d.window.getD d.windowNext false).toNat ≤ d.windowHits := by
  have positive : 0 < windowSlots := by decide
  have same : d.window.getD d.windowNext false = scores.getD (scores.length - windowSlots) false := by
    rw [windowed.next, ← windowed.kept _ (by omega) (by omega), ← Nat.mod_eq_sub_mod full]
  refine ⟨same, ?_⟩
  have inside : scores.length - windowSlots < scores.length := by omega
  rw [windowed.windowHits, same, lastScores, List.drop_eq_getElem_cons inside, List.getD_eq_getElem _ _ inside,
    ← List.singleton_append, List.count_append, count_singleton]
  omega

theorem full_iff (windowed : d.Windowed scores) : d.windowSize = windowSlots ↔ windowSlots ≤ scores.length := by
  rw [windowed.size]
  omega

theorem slide (windowed : d.Windowed scores) (hit : Bool) : (d.slide hit).Windowed (scores ++ [hit]) := by
  have positive : 0 < windowSlots := by decide
  have length : (scores ++ [hit]).length = scores.length + 1 := List.length_append
  have here : scores.length % windowSlots < windowSlots := Nat.mod_lt _ positive
  refine ⟨?_, ?_, ?_, ?_, ?_, ?_, ?_⟩
  · rw [length, ← windowed.scored]
    rfl
  · rw [List.count_append, count_singleton, ← windowed.hits]
    rfl
  · exact List.length_set.trans windowed.slots
  · change (d.windowNext + 1) % windowSlots = _
    rw [windowed.next, length, Nat.mod_add_mod]
  · change (if d.windowSize = windowSlots then d.windowSize else d.windowSize + 1) = _
    rw [length, windowed.size]
    split <;> omega
  · intro place inside recent
    change (d.window.set d.windowNext hit).getD _ _ = _
    rw [length] at inside recent
    rw [windowed.next, List.getD_eq_getElem?_getD, List.getD_eq_getElem?_getD]
    rcases Nat.lt_succ_iff_lt_or_eq.mp inside with old | rfl
    · -- the oldest slot of a full round is the only one that changes
      have other : scores.length % windowSlots ≠ place % windowSlots := by
        intro same
        have divides := (Nat.modEq_iff_dvd' old.le).mp (show place ≡ scores.length [MOD windowSlots] from same.symm)
        exact absurd (Nat.le_of_dvd (by omega) divides) (by omega)
      rw [List.getElem?_set_ne other, List.getElem?_append_left old, ← List.getD_eq_getElem?_getD,
        ← List.getD_eq_getElem?_getD]
      exact windowed.kept place old (by omega)
    · rw [List.getElem?_set_self (windowed.slots ▸ here), List.getElem?_concat_length]
  · change (if d.windowSize = windowSlots then sizeSub _ _ else d.windowHits) + hit.toNat = _
    have moved := @lastScores_append scores hit
    by_cases full : windowSlots ≤ scores.length
    · obtain ⟨same, counted⟩ := windowed.oldest full
      rw [if_pos (windowed.full_iff.mpr full), sizeSub_of_le counted]
      rw [if_pos full, ← same, ← windowed.windowHits] at moved
      omega
    · rw [if_neg fun size => full (windowed.full_iff.mp size)]
      rw [if_neg full, ← windowed.windowHits] at moved
      omega

theorem watch (windowed : d.Windowed scores) : d.watch.Windowed scores := by
  unfold Drift.watch
  split
  · dsimp only
    split
    · exact ⟨windowed.scored, windowed.hits, windowed.slots, windowed.next, windowed.size, windowed.kept, windowed.windowHits⟩
    · split
      · exact ⟨windowed.scored, windowed.hits, windowed.slots, windowed.next, windowed.size, windowed.kept, windowed.windowHits⟩
      · exact windowed
  · exact windowed

end Drift.Windowed

/-! ### The alerts -/

/-- How many full windows there have been. -/
def windows (scores : List Bool) : Nat := scores.length + 1 - windowSlots

open Classical in
/-- The alerts and the latch are those of the agreements so far. -/
structure Drift.Alarmed (d : Drift) (values : Nat → ℚ) (count : Nat) : Prop where
  alerts : d.driftAlerts = Nat.count (Alert values) count
  latched : d.driftLatched = true ↔ Latched values count

section Alarmed
variable {d : Drift} {values others : Nat → ℚ} {count : Nat}

open Classical in
theorem Drift.Alarmed.congr (alarmed : d.Alarmed values count) (same : ∀ place < count, values place = others place) :
    d.Alarmed others count := by
  have alert : ∀ place < count, (Alert values place ↔ Alert others place) := fun place inside =>
    alert_congr fun earlier small => same earlier (small.trans_lt inside)
  refine ⟨?_, alarmed.latched.trans (exists_congr fun place => and_congr_right fun inside => ?_)⟩
  · rw [alarmed.alerts, Nat.count_eq_card_filter_range, Nat.count_eq_card_filter_range,
      Finset.filter_congr fun place inside => alert place (Finset.mem_range.mp inside)]
  · rw [alert place inside]
    refine and_congr_right fun _ => forall₂_congr fun later earlier => ?_
    rw [same later earlier]

open Classical in
theorem Drift.Alarmed.watch (alarmed : d.Alarmed values count) (full : d.windowSize = windowSlots)
    (value : (d.windowHits / d.windowSize : ℚ) = values count) : d.watch.Alarmed values (count + 1) := by
  have latched := @latched_succ values count
  unfold Drift.watch
  rw [if_pos full]
  dsimp only
  rw [value]
  by_cases before : d.driftLatched = true
  · have alert : ¬Alert values count := fun alert => (alert_iff.mp alert).2 (alarmed.latched.mp before)
    have alerts : d.driftAlerts = Nat.count (Alert values) (count + 1) := by
      rw [Nat.count_succ, if_neg alert, alarmed.alerts, Nat.add_zero]
    rw [before, Bool.not_true, Bool.false_and, if_neg Bool.false_ne_true]
    split
    next high =>
      have high : 3 / 5 < values count := by simpa using high
      refine ⟨alerts, ?_⟩
      rw [latched]
      refine ⟨nofun, ?_⟩
      rintro (low | ⟨_, quiet⟩)
      · exact absurd (high.trans low) (by norm_num)
      · exact absurd high (not_lt.mpr quiet)
    next quiet =>
      have quiet : values count ≤ 3 / 5 := by simpa using quiet
      refine ⟨alerts, ?_⟩
      rw [latched, before]
      exact ⟨fun _ => .inr ⟨alarmed.latched.mp before, quiet⟩, fun _ => rfl⟩
  · have none : ¬Latched values count := fun latched => before (alarmed.latched.mpr latched)
    have before : d.driftLatched = false := by simpa using before
    rw [before, Bool.not_false, Bool.true_and, Bool.false_and, if_neg Bool.false_ne_true]
    split
    next low =>
      have low : values count < 1 / 2 := by simpa using low
      refine ⟨?_, ?_⟩
      · rw [Nat.count_succ, if_pos (alert_iff.mpr ⟨low, none⟩), alarmed.alerts]
      · rw [latched]
        exact ⟨fun _ => .inl low, fun _ => rfl⟩
    next high =>
      have high : ¬values count < 1 / 2 := by simpa using high
      refine ⟨?_, ?_⟩
      · rw [Nat.count_succ, if_neg fun alert => high (alert_iff.mp alert).1, alarmed.alerts, Nat.add_zero]
      · rw [latched, before]
        exact ⟨nofun, fun held => (held.elim high fun held => none held.1).elim⟩

end Alarmed

/-- The fields agree with the scores so far. -/
structure Drift.Tracks (d : Drift) (scores : List Bool) : Prop extends d.Windowed scores where
  alarmed : d.Alarmed (agreement scores) (windows scores)

theorem Drift.Tracks.initial : Drift.Tracks {} [] where
  scored := rfl
  hits := rfl
  slots := List.length_replicate
  next := rfl
  size := rfl
  kept := fun _ inside => absurd inside (Nat.not_lt_zero _)
  windowHits := rfl
  alarmed := ⟨rfl, nofun, fun ⟨_, inside, _⟩ => absurd inside (Nat.not_lt_zero _)⟩

theorem Drift.Tracks.score {d : Drift} {scores : List Bool} (tracks : d.Tracks scores) (hit : Bool) :
    (d.score hit).Tracks (scores ++ [hit]) := by
  have windowed := tracks.toWindowed.slide hit
  have length : (scores ++ [hit]).length = scores.length + 1 := List.length_append
  have before : (d.slide hit).Alarmed (agreement (scores ++ [hit])) (windows scores) := by
    have kept : (d.slide hit).Alarmed (agreement scores) (windows scores) := ⟨tracks.alarmed.alerts, tracks.alarmed.latched⟩
    refine kept.congr fun place inside => (agreement_append ?_).symm
    unfold windows at inside
    omega
  refine ⟨windowed.watch, ?_⟩
  by_cases full : windowSlots ≤ (scores ++ [hit]).length
  · have size := windowed.full_iff.mpr full
    have last : (scores ++ [hit]).length - windowSlots = windows scores := by rw [length, windows]
    have count : windows (scores ++ [hit]) = windows scores + 1 := by
      unfold windows
      omega
    rw [count]
    refine before.watch size ?_
    rw [size, windowed.windowHits, ← agreement_last full, last]
  · have same : windows (scores ++ [hit]) = windows scores := by
      unfold windows
      omega
    rw [same, Drift.score, Drift.watch, if_neg fun size => full (windowed.full_iff.mp size)]
    exact before

open Classical in
/-- The window holds the last scores, and an alert is raised each time that the agreement of a full window falls below one
half after it was above three fifths. -/
theorem drift_window {platform : Platform} (calls : List (Learned platform)) :
    let scores := calls.filterMap Learned.score?
    let d := calls.foldl Drift.learn {}
    d.scored = scores.length ∧ d.windowSize = min d.scored windowSlots ∧
      d.windowHits = (scores.drop (scores.length - d.windowSize)).count true ∧
      (d.windowSize = windowSlots → (d.window.getD d.windowNext false).toNat ≤ d.windowHits) ∧
      d.hits = scores.count true ∧ d.driftAlerts = Nat.count (Alert (agreement scores)) (windows scores) := by
  have tracks : (calls.foldl Drift.learn {}).Tracks (calls.filterMap Learned.score?) := by
    induction calls using List.reverseRecOn with
    | nil => exact Drift.Tracks.initial
    | append_singleton calls call ih =>
      rw [List.foldl_append, List.filterMap_append]
      cases scored : call.score? with
      | none => simpa [Drift.learn, scored] using ih
      | some hit => simpa [Drift.learn, scored] using ih.score hit
  intro scores d
  have last : scores.drop (scores.length - d.windowSize) = lastScores scores := by
    have start : scores.length - min scores.length windowSlots = scores.length - windowSlots := by omega
    rw [tracks.size, lastScores, start]
  refine ⟨tracks.scored, ?_, ?_, fun full => ?_, tracks.hits, tracks.alarmed.alerts⟩
  · rw [tracks.scored]
    exact tracks.size
  · rw [last]
    exact tracks.windowHits
  · exact (tracks.oldest (tracks.full_iff.mp full)).2

end Harbinger
