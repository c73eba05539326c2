import Mathlib

/-! Serving in turn. A cursor goes round `n` classes of work; a turn serves the first active class
from the cursor on, and the cursor moves behind it. A class that is always active is passed by at
most once by each other class. -/

namespace Schedule

/-- How many places `index` lies ahead of `cursor`, going round. -/
def ahead (n cursor index : Nat) : Nat := if cursor ≤ index then index - cursor else index + n - cursor

/-- The first active index from the cursor on. -/
def nextActive (n cursor : Nat) (active : Nat → Bool) : Option Nat :=
  ((List.range n).map fun offset => (cursor + offset) % n).find? active

/-- The indices that are served, one for each turn in which any is active. -/
def serveTurns (n : Nat) : Nat → List (Nat → Bool) → List Nat
  | _, [] => []
  | cursor, active :: rest =>
    match nextActive n cursor active with
    | none => serveTurns n cursor rest
    | some index => index :: serveTurns n ((index + 1) % n) rest

section Distance
variable {n cursor index target : Nat}

theorem ahead_lt (inside : index < n) (start : cursor < n) : ahead n cursor index < n := by
  unfold ahead
  split <;> omega

theorem ahead_split (inside : index < n) (start : cursor < n) (goal : target < n)
    (order : ahead n cursor index ≤ ahead n cursor target) :
    ahead n cursor index + ahead n index target = ahead n cursor target := by
  unfold ahead at *
  split_ifs at * <;> omega

theorem ahead_le_of_le (inside : index < n) (start : cursor < n)
    (order : ahead n index target ≤ ahead n cursor target) : ahead n cursor index ≤ ahead n cursor target := by
  unfold ahead at *
  split_ifs at * <;> omega

theorem ahead_eq_zero (inside : index < n) : ahead n index target = 0 ↔ index = target := by
  unfold ahead
  split <;> omega

theorem succ_mod_lt (inside : index < n) : (index + 1) % n < n := Nat.mod_lt _ (by omega)

theorem ahead_succ (inside : index < n) (goal : target < n) (different : index ≠ target) :
    ahead n ((index + 1) % n) target + 1 = ahead n index target := by
  rcases Nat.lt_or_ge (index + 1) n with low | high
  · rw [Nat.mod_eq_of_lt low]
    unfold ahead
    split <;> split <;> omega
  · have last : index + 1 = n := by omega
    rw [last, Nat.mod_self]
    unfold ahead
    split <;> split <;> omega

theorem ahead_behind (goal : target < n) : ahead n ((target + 1) % n) target + 1 = n := by
  rcases Nat.lt_or_ge (target + 1) n with low | high
  · rw [Nat.mod_eq_of_lt low]
    unfold ahead
    split <;> omega
  · have last : target + 1 = n := by omega
    rw [last, Nat.mod_self]
    unfold ahead
    split <;> omega

end Distance

section Turn
variable {n cursor index target : Nat} {active : Nat → Bool}

theorem add_ahead (inside : index < n) (start : cursor < n) : (cursor + ahead n cursor index) % n = index := by
  unfold ahead
  split
  · rw [show cursor + (index - cursor) = index by omega, Nat.mod_eq_of_lt inside]
  · rw [show cursor + (index + n - cursor) = index + n by omega, Nat.add_mod_right, Nat.mod_eq_of_lt inside]

theorem ahead_add {offset : Nat} (inside : offset < n) (start : cursor < n) : ahead n cursor ((cursor + offset) % n) = offset := by
  rcases Nat.lt_or_ge (cursor + offset) n with low | high
  · rw [Nat.mod_eq_of_lt low]
    unfold ahead
    split <;> omega
  · rw [Nat.mod_eq_sub_mod high, Nat.mod_eq_of_lt (by omega)]
    unfold ahead
    split <;> omega

theorem nextActive_spec (start : cursor < n) (served : nextActive n cursor active = some index) :
    index < n ∧ active index = true ∧ ∀ other < n, active other = true → ahead n cursor index ≤ ahead n cursor other := by
  rw [nextActive, List.find?_map, Option.map_eq_some_iff] at served
  obtain ⟨offset, found, rfl⟩ := served
  obtain ⟨here, inside, first⟩ := List.find?_range_eq_some.mp found
  have below : offset < n := List.mem_range.mp inside
  refine ⟨Nat.mod_lt _ (by omega), here, fun other within busy => ?_⟩
  rw [ahead_add below start]
  by_contra earlier
  have skipped := first (ahead n cursor other) (not_le.mp earlier)
  simp [Function.comp_apply, add_ahead within start, busy] at skipped

theorem nextActive_isSome (start : cursor < n) (inside : index < n) (here : active index = true) :
    ∃ served, nextActive n cursor active = some served := by
  cases found : nextActive n cursor active with
  | some served => exact ⟨served, rfl⟩
  | none =>
    have idle := List.find?_eq_none.mp found index
      (List.mem_map.mpr ⟨ahead n cursor index, List.mem_range.mpr (ahead_lt inside start), add_ahead inside start⟩)
    exact absurd here idle

theorem turn_closer (start : cursor < n) (goal : target < n) (busy : active target = true)
    (served : nextActive n cursor active = some index) (different : index ≠ target) :
    ahead n index target ≤ ahead n cursor target ∧ ahead n ((index + 1) % n) target < ahead n index target := by
  obtain ⟨inside, -, least⟩ := nextActive_spec start served
  have split := ahead_split inside start goal (least target goal busy)
  have next := ahead_succ inside goal different
  omega

end Turn

section Runs
variable {n cursor target : Nat} {turns : List (Nat → Bool)}

theorem mem_take_serveTurns {count : Nat} (start : cursor < n) (goal : target < n)
    (busy : ∀ active ∈ turns, active target = true) (near : ahead n cursor target < count)
    (many : count ≤ (serveTurns n cursor turns).length) : target ∈ (serveTurns n cursor turns).take count := by
  induction turns generalizing cursor count with
  | nil => exact absurd (near.trans_le many) (Nat.not_lt_zero _)
  | cons active rest ih =>
    have here := busy active (List.mem_cons_self ..)
    obtain ⟨index, served⟩ := nextActive_isSome start goal here
    simp only [serveTurns, served, List.length_cons] at many ⊢
    obtain ⟨count, rfl⟩ := Nat.exists_eq_succ_of_ne_zero (Nat.ne_of_gt (Nat.zero_lt_of_lt near))
    rw [List.take_succ_cons]
    by_cases same : index = target
    · exact same ▸ List.mem_cons_self ..
    · obtain ⟨order, closer⟩ := turn_closer start goal here served same
      exact List.mem_cons_of_mem _ (ih (succ_mod_lt (nextActive_spec start served).1)
        (fun other member => busy other (List.mem_cons_of_mem _ member)) (by omega) (Nat.le_of_succ_le_succ many))

theorem drop_serveTurns (turns : List (Nat → Bool)) (start : cursor < n) (skip : Nat) : ∃ cursor' turns', cursor' < n ∧ turns' ⊆ turns ∧
    (serveTurns n cursor turns).drop skip = serveTurns n cursor' turns' := by
  induction turns generalizing cursor skip with
  | nil => exact ⟨cursor, [], start, List.Subset.refl _, List.drop_nil⟩
  | cons active rest ih =>
    cases skip with
    | zero => exact ⟨cursor, active :: rest, start, List.Subset.refl _, rfl⟩
    | succ skip =>
      cases served : nextActive n cursor active with
      | none =>
        obtain ⟨cursor', turns', inside, fewer, same⟩ := ih start (skip + 1)
        refine ⟨cursor', turns', inside, fun turn member => List.mem_cons_of_mem _ (fewer member), ?_⟩
        rw [serveTurns, served]
        exact same
      | some index =>
        obtain ⟨cursor', turns', inside, fewer, same⟩ := ih (succ_mod_lt (nextActive_spec start served).1) skip
        refine ⟨cursor', turns', inside, fun turn member => List.mem_cons_of_mem _ (fewer member), ?_⟩
        rw [serveTurns, served]
        exact same

/-- Any `n` turns in a row serve an index that is active in all of them. -/
theorem bounded_bypass (start : cursor < n) (goal : target < n) (busy : ∀ active ∈ turns, active target = true)
    {skip : Nat} (many : skip + n ≤ (serveTurns n cursor turns).length) :
    target ∈ ((serveTurns n cursor turns).drop skip).take n := by
  obtain ⟨cursor', turns', inside, fewer, same⟩ := drop_serveTurns turns start skip
  have rest : n ≤ ((serveTurns n cursor turns).drop skip).length := by rw [List.length_drop]; omega
  rw [same] at rest ⊢
  exact mem_take_serveTurns inside goal (fun active member => busy active (fewer member)) (ahead_lt goal inside) rest

/-- While the target is passed by, what is served comes closer and closer to it, and nothing that is always active is
left out. -/
theorem passing_spec {passed : List Nat} (start : cursor < n) (goal : target < n)
    (busy : ∀ active ∈ turns, active target = true) (served : serveTurns n cursor turns = passed ++ [target])
    (unserved : target ∉ passed) :
    (passed.Pairwise fun first second => ahead n second target < ahead n first target) ∧
      (∀ index ∈ passed, ahead n index target ≤ ahead n cursor target) ∧
      ∀ other < n, other ≠ target → (∀ active ∈ turns, active other = true) →
        ahead n other target ≤ ahead n cursor target → other ∈ passed := by
  induction turns generalizing cursor passed with
  | nil => exact absurd served (by simp [serveTurns])
  | cons active rest ih =>
    have here := busy active (List.mem_cons_self ..)
    obtain ⟨index, chosen⟩ := nextActive_isSome start goal here
    obtain ⟨inside, -, least⟩ := nextActive_spec start chosen
    simp only [serveTurns, chosen] at served
    cases passed with
    | nil =>
      obtain rfl : index = target := (List.cons.inj served).1
      refine ⟨List.Pairwise.nil, fun _ member => absurd member List.not_mem_nil, ?_⟩
      intro other within different always near
      -- the other index would have been served before the target
      have order := least other within (always active (List.mem_cons_self ..))
      have split := ahead_split within start goal (ahead_le_of_le within start near)
      exact absurd ((ahead_eq_zero within).mp (by omega)) different
    | cons head passed =>
      obtain ⟨rfl, later⟩ := List.cons.inj served
      have passing : index ≠ target := fun same => unserved (same ▸ List.mem_cons_self ..)
      obtain ⟨order, closer⟩ := turn_closer start goal here chosen passing
      obtain ⟨falling, bounded, all⟩ := ih (succ_mod_lt inside) (fun other member => busy other (List.mem_cons_of_mem _ member))
        later fun member => unserved (List.mem_cons_of_mem _ member)
      refine ⟨List.pairwise_cons.mpr ⟨fun other member => (bounded other member).trans_lt closer, falling⟩, ?_, ?_⟩
      · intro other member
        rcases List.mem_cons.mp member with rfl | rest
        · exact order
        · exact (bounded other rest).trans (closer.le.trans order)
      · intro other within different always near
        by_cases same : other = index
        · exact same ▸ List.mem_cons_self ..
        · refine List.mem_cons_of_mem _ (all other within different (fun turn member => always turn (List.mem_cons_of_mem _ member)) ?_)
          have first := least other within (always active (List.mem_cons_self ..))
          have apart : ahead n cursor index ≠ ahead n cursor other := fun equal => same (by
            rw [← add_ahead within start, ← equal, add_ahead inside start])
          have split := ahead_split inside start goal (least target goal here)
          have split' := ahead_split within start goal (ahead_le_of_le within start near)
          have next := ahead_succ inside goal passing
          omega

theorem between_turns {passed : List Nat} (goal : target < n) (busy : ∀ active ∈ turns, active target = true)
    (served : serveTurns n ((target + 1) % n) turns = passed ++ [target]) (unserved : target ∉ passed) :
    passed.Nodup ∧ ∀ other < n, other ≠ target → (∀ active ∈ turns, active other = true) → passed.count other = 1 := by
  obtain ⟨falling, -, all⟩ := passing_spec (succ_mod_lt goal) goal busy served unserved
  have distinct : passed.Nodup := falling.imp fun closer same => absurd closer (by rw [same]; exact lt_irrefl _)
  refine ⟨distinct, fun other inside different always => List.count_eq_one_of_mem distinct (all other inside different always ?_)⟩
  have far := ahead_behind goal
  have near := ahead_lt goal inside
  omega

end Runs

end Schedule
