import Harbinger.Schedule.VirtualClock

/-! `tools/trace_sim.cpp`: the levels of `simulate` with `place`, one round of `dispatch` and the
aging loop. Rows are known by their index; times are milliseconds, as exact rationals. -/

namespace Harbinger.Simulator

/-- Without weights, strict priority. -/
structure Policy where
  weights : List ℚ
  aging : Bool := true
  pausing : Bool := false

def Policy.weighted (policy : Policy) : Bool := !policy.weights.isEmpty

/-- The arguments of `simulate` that scheduling reads. -/
structure Setting (ι : Type) where
  levels : Nat
  threshold : ℚ
  policy : Policy
  arrival : ι → ℚ

structure Waiting (ι : Type) where
  index : ι
  placed : ℚ
  promoted : Bool := false

/-- The locals of `simulate` that its closures share. -/
@[ext] structure Levels (ι : Type) where
  queues : Nat → List (Waiting ι) := fun _ => []
  promotedIn : Nat → Nat := fun _ => 0
  vclock : Nat → ℚ := fun _ => 0
  vfloor : ℚ := 0

namespace Levels
variable {ι : Type}

@[simps] def place (policy : Policy) (s : Levels ι) (level : Nat) (w : Waiting ι) : Levels ι :=
  { s with
    vclock := if policy.weighted && (s.queues level).isEmpty
      then Function.update s.vclock level (max (s.vclock level) s.vfloor) else s.vclock
    promotedIn := Function.update s.promotedIn level (s.promotedIn level + w.promoted.toNat)
    queues := Function.update s.queues level (s.queues level ++ [w]) }

/-- The front of a level leaves it. -/
@[simps] def pop (s : Levels ι) (level : Nat) (w : Waiting ι) (rest : List (Waiting ι)) : Levels ι :=
  { s with
    queues := Function.update s.queues level rest
    promotedIn := Function.update s.promotedIn level (s.promotedIn level - w.promoted.toNat) }

/-- The non-empty level with the smallest clock. -/
def best (s : Levels ι) (levels : Nat) : Option Nat :=
  (List.range levels).foldl (fun best level =>
    if (s.queues level).isEmpty then best
    else match best with
      | none => some level
      | some held => if s.vclock level < s.vclock held then some level else best) none

/-- One round of the loop of `dispatch`, which charges `cost`. -/
def dispatch (setting : Setting ι) (s : Levels ι) (cost : ℚ) : Option (Waiting ι × Levels ι) :=
  if setting.policy.weighted then
    match s.best setting.levels with
    | none => none
    | some level =>
      match s.queues level with
      | [] => none
      | w :: rest =>
        some (w, { s.pop level w rest with
          vfloor := max s.vfloor (s.vclock level)
          vclock := Function.update s.vclock level
            (s.vclock level + max cost 1 / setting.policy.weights.getD level 1) })
  else
    match (List.range setting.levels).find? fun level => !(s.queues level).isEmpty with
    | none => none
    | some level =>
      match s.queues level with
      | [] => none
      | w :: rest => some (w, s.pop level w rest)

/-- The level above still holds promoted messages and its head arrived a threshold ago. -/
def behind (setting : Setting ι) (s : Levels ι) (level : Nat) (now : ℚ) : Bool :=
  setting.policy.pausing && s.promotedIn (level - 1) != 0 &&
    match s.queues (level - 1) with
    | [] => false
    | head :: _ => setting.threshold ≤ now - setting.arrival head.index

/-- The `while` loop over the front of a level, which holds `todo`. -/
def ageHead (setting : Setting ι) (now : ℚ) (level : Nat) : List (Waiting ι) → Levels ι → Levels ι
  | [], s => s
  | w :: rest, s =>
    if setting.threshold ≤ now - w.placed then
      let moved := (s.pop level w rest).place setting.policy (level - 1) { w with placed := now, promoted := true }
      if setting.policy.pausing then moved else ageHead setting now level rest moved
    else s

def ageLevel (setting : Setting ι) (now : ℚ) (level : Nat) (s : Levels ι) : Levels ι :=
  if s.behind setting level now then s else ageHead setting now level (s.queues level) s

/-- The aging loop: levels `level`, `level - 1`, ..., 1. -/
def ageLevels (setting : Setting ι) (now : ℚ) : Nat → Levels ι → Levels ι
  | 0, s => s
  | level + 1, s => ageLevels setting now level (s.ageLevel setting now (level + 1))

/-- One aging pass; without aging there is none. -/
def age (setting : Setting ι) (now : ℚ) (s : Levels ι) : Levels ι :=
  if setting.policy.aging then s.ageLevels setting now (setting.levels - 1) else s

/-- Every level is sorted by placement, and nothing was placed later than now. -/
structure Timely (now : ℚ) (s : Levels ι) : Prop where
  sorted : ∀ level, (s.queues level).Pairwise fun first second => first.placed ≤ second.placed
  past : ∀ level, ∀ w ∈ s.queues level, w.placed ≤ now

section Timely
variable {now : ℚ} {s : Levels ι} {policy : Policy} {level : Nat} {w : Waiting ι} {rest : List (Waiting ι)}

theorem Timely.mono {later : ℚ} (timely : s.Timely now) (order : now ≤ later) : s.Timely later :=
  ⟨timely.sorted, fun level w member => (timely.past level w member).trans order⟩

theorem Timely.pop (timely : s.Timely now) (here : s.queues level = w :: rest) : (s.pop level w rest).Timely now := by
  have kept : ∀ other, ((s.pop level w rest).queues other).Sublist (s.queues other) := by
    intro other
    by_cases same : other = level
    · subst same
      rw [here, pop_queues, Function.update_self]
      exact List.sublist_cons_self w rest
    · rw [pop_queues, Function.update_of_ne same]
  exact ⟨fun other => (timely.sorted other).sublist (kept other),
    fun other x member => timely.past other x ((kept other).subset member)⟩

theorem Timely.place (timely : s.Timely now) (fresh : w.placed = now) : (s.place policy level w).Timely now := by
  have queues : ∀ other, (s.place policy level w).queues other =
      if other = level then s.queues level ++ [w] else s.queues other := by
    intro other
    by_cases same : other = level
    · subst same
      rw [place_queues, Function.update_self, if_pos rfl]
    · rw [place_queues, Function.update_of_ne same, if_neg same]
  constructor
  · intro other
    rw [queues]
    split
    · refine List.pairwise_append.mpr ⟨timely.sorted level, List.pairwise_singleton .., fun x member y last => ?_⟩
      rw [List.mem_singleton.mp last, fresh]
      exact timely.past level x member
    · exact timely.sorted other
  · intro other x member
    rw [queues] at member
    split at member
    · rcases List.mem_append.mp member with old | last
      · exact timely.past level x old
      · exact (List.mem_singleton.mp last) ▸ fresh.le
    · exact timely.past other x member

variable {setting : Setting ι}

theorem queues_promoted (positive : 1 ≤ level) (moved : Waiting ι) :
    ((s.pop level w rest).place policy (level - 1) moved).queues level = rest := by
  have different : level ≠ level - 1 := by omega
  rw [place_queues, Function.update_of_ne different, pop_queues, Function.update_self]

theorem Timely.ageHead (positive : 1 ≤ level) {todo : List (Waiting ι)} (timely : s.Timely now)
    (here : s.queues level = todo) : (ageHead setting now level todo s).Timely now := by
  induction todo generalizing s with
  | nil => exact timely
  | cons w rest ih =>
    unfold Levels.ageHead
    split
    · have promoted : ((s.pop level w rest).place setting.policy (level - 1)
          { w with placed := now, promoted := true }).Timely now := (timely.pop here).place rfl
      dsimp only
      split
      · exact promoted
      · exact ih promoted (queues_promoted positive _)
    · exact timely

theorem Timely.ageLevel (positive : 1 ≤ level) (timely : s.Timely now) :
    (s.ageLevel setting now level).Timely now := by
  unfold Levels.ageLevel
  split
  · exact timely
  · exact timely.ageHead positive rfl

theorem Timely.ageLevels (timely : s.Timely now) : (s.ageLevels setting now level).Timely now := by
  induction level generalizing s with
  | zero => exact timely
  | succ level ih => exact ih (timely.ageLevel (Nat.succ_pos level))

theorem Timely.age (timely : s.Timely now) : (s.age setting now).Timely now := by
  unfold Levels.age
  split
  · exact timely.ageLevels
  · exact timely

theorem Timely.dispatch {cost : ℚ} {s' : Levels ι} (timely : s.Timely now)
    (served : s.dispatch setting cost = some (w, s')) : s'.Timely now := by
  unfold Levels.dispatch at served
  split at served
  · split at served
    · cases served
    · split at served
      · cases served
      next w rest here =>
        cases served
        exact ⟨(timely.pop here).sorted, (timely.pop here).past⟩
  · split at served
    · cases served
    · split at served
      · cases served
      next w rest here =>
        cases served
        exact timely.pop here

end Timely

end Levels

end Harbinger.Simulator
