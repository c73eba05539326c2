import Mathlib

/-! Fair sharing by virtual clocks. Each class of work has a clock; the active class with the
smallest clock is served and its clock advances by the normalised cost, and a class that
becomes active again joins at the floor, which is the clock of the last class served. -/

namespace Schedule

section Least
variable {K : Type*} [LinearOrder K]

/-- The active index with the smallest key, the first one on ties. -/
def leastActive (idle : Nat → Bool) (key : Nat → K) (n : Nat) : Option Nat :=
  (List.range n).foldl (fun best index =>
    if idle index then best
    else match best with
      | none => some index
      | some held => if key index < key held then some index else best) none

theorem leastActive_succ (idle : Nat → Bool) (key : Nat → K) (n : Nat) : leastActive idle key (n + 1) =
    if idle n then leastActive idle key n
    else match leastActive idle key n with
      | none => some n
      | some held => if key n < key held then some n else some held := by
  simp only [leastActive, List.range_succ, List.foldl_append, List.foldl_cons, List.foldl_nil]
  generalize (List.range n).foldl _ none = best
  cases best <;> rfl

variable {idle : Nat → Bool} {key : Nat → K} {n : Nat}

theorem leastActive_eq_none : leastActive idle key n = none ↔ ∀ index < n, idle index = true := by
  induction n with
  | zero => exact ⟨fun _ index below => absurd below (Nat.not_lt_zero index), fun _ => rfl⟩
  | succ n ih =>
    rw [leastActive_succ]
    cases last : idle n with
    | true =>
      simp only [↓reduceIte, ih]
      refine ⟨fun known index below => ?_, fun known index below => known index (by omega)⟩
      rcases Nat.lt_succ_iff_lt_or_eq.mp below with earlier | rfl
      · exact known index earlier
      · exact last
    | false =>
      refine ⟨fun impossible => ?_, fun known => ?_⟩
      · simp only [Bool.false_eq_true, ↓reduceIte] at impossible
        split at impossible
        · cases impossible
        · split at impossible <;> cases impossible
      · exact absurd (known n (Nat.lt_succ_self n)) (by rw [last]; exact Bool.false_ne_true)

/-- The chosen index is active, and no active index has a smaller key. -/
theorem leastActive_spec {best : Nat} (chosen : leastActive idle key n = some best) :
    best < n ∧ idle best = false ∧ ∀ index < n, idle index = false → key best ≤ key index := by
  induction n generalizing best with
  | zero => cases chosen
  | succ n ih =>
    rw [leastActive_succ] at chosen
    cases last : idle n with
    | true =>
      simp only [last, ↓reduceIte] at chosen
      obtain ⟨below, active, least⟩ := ih chosen
      refine ⟨by omega, active, fun index inside here => ?_⟩
      rcases Nat.lt_succ_iff_lt_or_eq.mp inside with earlier | rfl
      · exact least index earlier here
      · rw [last] at here
        cases here
    | false =>
      simp only [last, Bool.false_eq_true, ↓reduceIte] at chosen
      cases found : leastActive idle key n with
      | none =>
        rw [found] at chosen
        obtain rfl := Option.some.inj chosen
        refine ⟨Nat.lt_succ_self n, last, fun index inside here => ?_⟩
        rcases Nat.lt_succ_iff_lt_or_eq.mp inside with earlier | rfl
        · rw [leastActive_eq_none.mp found index earlier] at here
          cases here
        · exact le_rfl
      | some held =>
        obtain ⟨below, active, least⟩ := ih found
        rw [found] at chosen
        by_cases smaller : key n < key held
        · simp only [smaller, ↓reduceIte] at chosen
          obtain rfl := Option.some.inj chosen
          refine ⟨Nat.lt_succ_self n, last, fun index inside here => ?_⟩
          rcases Nat.lt_succ_iff_lt_or_eq.mp inside with earlier | rfl
          · exact smaller.le.trans (least index earlier here)
          · exact le_rfl
        · simp only [smaller, ↓reduceIte] at chosen
          obtain rfl := Option.some.inj chosen
          refine ⟨by omega, active, fun index inside here => ?_⟩
          rcases Nat.lt_succ_iff_lt_or_eq.mp inside with earlier | rfl
          · exact least index earlier here
          · exact not_lt.mp smaller

theorem leastActive_isSome (idle : Nat → Bool) (key : Nat → K) {index : Nat} (inside : index < n) (active : idle index = false) :
    (leastActive idle key n).isSome := by
  cases found : leastActive idle key n with
  | some best => rfl
  | none =>
    rw [leastActive_eq_none.mp found index inside] at active
    cases active

end Least

/-- The clocks of all classes, and the floor at which a returning class joins. -/
structure Clocks (ι K : Type*) where
  clock : ι → K
  floor : K

namespace Clocks
variable {ι K : Type*} [DecidableEq ι] [Field K] [LinearOrder K] [IsStrictOrderedRing K]

def activate (c : Clocks ι K) (i : ι) : Clocks ι K :=
  { c with clock := Function.update c.clock i (max (c.clock i) c.floor) }

def serve (c : Clocks ι K) (i : ι) (amount : K) : Clocks ι K where
  clock := Function.update c.clock i (c.clock i + amount)
  floor := max c.floor (c.clock i)

/-- No clock is more than one charge above the floor, and no active clock is below it. -/
structure Fair (span : ι → K) (active : ι → Prop) (c : Clocks ι K) : Prop where
  upper : ∀ i, c.clock i ≤ c.floor + span i
  lower : ∀ i, active i → c.floor ≤ c.clock i

namespace Fair
variable {span : ι → K} {active : ι → Prop} {c d : Clocks ι K}

omit [DecidableEq ι] [IsStrictOrderedRing K] in
theorem mono (fair : Fair span active c) {fewer : ι → Prop} (subset : ∀ i, fewer i → active i) : Fair span fewer c :=
  ⟨fair.upper, fun i here => fair.lower i (subset i here)⟩

theorem serve (fair : Fair span active c) {i : ι} (here : active i) (least : ∀ j, active j → c.clock i ≤ c.clock j)
    {amount : K} (positive : 0 ≤ amount) (bounded : amount ≤ span i) : Fair span active (c.serve i amount) := by
  have floor : max c.floor (c.clock i) = c.clock i := max_eq_right (fair.lower i here)
  refine ⟨fun j => ?_, fun j busy => ?_⟩
  · by_cases same : j = i
    · subst same
      simp only [Clocks.serve, Function.update_self, floor]
      exact add_le_add_right bounded _
    · simp only [Clocks.serve, Function.update_of_ne same, floor]
      exact (fair.upper j).trans (by have := fair.lower i here; gcongr)
  · by_cases same : j = i
    · subst same
      simp only [Clocks.serve, Function.update_self, floor]
      exact le_add_of_nonneg_right positive
    · simp only [Clocks.serve, Function.update_of_ne same, floor]
      exact least j busy

omit [DecidableEq ι] in
theorem gap (fair : Fair span active c) (i : ι) {j : ι} (busy : active j) : c.clock i - c.clock j ≤ span i := by
  have above := fair.upper i
  have below := fair.lower j busy
  linarith

omit [DecidableEq ι] in
theorem drift {later : ι → Prop} (before : Fair span active c) (after : Fair span later d) {i j : ι} (here : active i)
    (there : active j) (stays : later i) (remains : later j) :
    |(d.clock i - c.clock i) - (d.clock j - c.clock j)| ≤ span i + span j := by
  have first := before.gap i there
  have second := before.gap j here
  have third := after.gap i remains
  have fourth := after.gap j stays
  rw [abs_le]
  constructor <;> linarith

end Fair

/-- Between two charges: the floor stays, a clock is only ever raised to the floor, and a class that
has become active is not below it. -/
structure Lifts (active later : ι → Prop) (c d : Clocks ι K) : Prop where
  floor : d.floor = c.floor
  raised : ∀ i, d.clock i = c.clock i ∨ d.clock i = max (c.clock i) c.floor
  joined : ∀ i, later i → active i ∨ c.floor ≤ d.clock i

namespace Lifts
variable {active later last : ι → Prop} {c d e : Clocks ι K}

omit [DecidableEq ι] [Field K] [IsStrictOrderedRing K]

theorem of_subset (c : Clocks ι K) (fewer : ∀ i, later i → active i) : Lifts active later c c :=
  ⟨rfl, fun _ => Or.inl rfl, fun i here => Or.inl (fewer i here)⟩

theorem clock_le (lifts : Lifts active later c d) (i : ι) : c.clock i ≤ d.clock i := by
  rcases lifts.raised i with same | raised
  · exact same.ge
  · exact raised ▸ le_max_left _ _

theorem trans (first : Lifts active later c d) (second : Lifts later last d e) : Lifts active last c e where
  floor := second.floor.trans first.floor
  raised i := by
    have once := first.raised i
    have twice := second.raised i
    rw [first.floor] at twice
    rcases twice with same | raised
    · exact same ▸ once
    · rcases once with start | start
      · exact Or.inr (by rw [raised, start])
      · exact Or.inr (by rw [raised, start, max_assoc, max_self])
  joined i here := by
    rcases second.joined i here with before | above
    · rcases first.joined i before with start | above
      · exact Or.inl start
      · exact Or.inr (above.trans (second.clock_le i))
    · exact Or.inr (first.floor ▸ above)

theorem activate [DecidableEq ι] (c : Clocks ι K) (i : ι) (joins : ∀ j, later j → active j ∨ j = i) :
    Lifts active later c (c.activate i) where
  floor := rfl
  raised j := by
    by_cases same : j = i
    · subst same
      exact Or.inr (Function.update_self ..)
    · exact Or.inl (Function.update_of_ne same ..)
  joined j here := by
    refine (joins j here).imp_right fun same => ?_
    subst same
    simp only [Clocks.activate, Function.update_self]
    exact le_max_right _ _

theorem clock_eq [Field K] [IsStrictOrderedRing K] {span : ι → K} (fair : Fair span active c)
    (lifts : Lifts active later c d) {i : ι} (here : active i) : d.clock i = c.clock i := by
  rcases lifts.raised i with same | raised
  · exact same
  · rw [raised, max_eq_left (fair.lower i here)]

end Lifts

omit [DecidableEq ι] in
theorem Fair.lift {span : ι → K} {active later : ι → Prop} {c d : Clocks ι K} (fair : Fair span active c)
    (lifts : Lifts active later c d) (room : ∀ i, 0 ≤ span i) : Fair span later d := by
  refine ⟨fun i => ?_, fun i here => ?_⟩
  · rw [lifts.floor]
    rcases lifts.raised i with same | raised
    · exact same ▸ fair.upper i
    · exact raised ▸ max_le (fair.upper i) (le_add_of_nonneg_right (room i))
  · rw [lifts.floor]
    rcases lifts.joined i here with before | above
    · exact (fair.lower i before).trans (lifts.clock_le i)
    · exact above

end Clocks

end Schedule
