import Harbinger.Queue.Operations

/-! The aging pass. `Scanning` is the invariant of its inner loop: the visited part of
the level is covered by the new cached deadline, the unvisited part by the old one. -/

namespace Harbinger.MultiLevelQueue
open Container

theorem DueAt.of_cache {q q' : MultiLevelQueue} {now : Time} {level : Nat} {nodes : List Node}
    (due : q.DueAt now level nodes) (aging : q'.aging = q.aging)
    (cache : q'.nextAging level = q.nextAging level) : q'.DueAt now level nodes := by
  intro cfg known node member live deadline found
  rw [cache]
  exact due cfg (aging ▸ known) node member live deadline found

section Promote
variable (q : MultiLevelQueue) (level : Nat) (node : Node) (now : Time)

theorem promote_queues : (q.promote level node now).queues =
    Function.update (Function.update q.queues level
      ((q.queues level).eraseP fun other => other.handle = node.handle)) (level - 1)
      (q.queues (level - 1) ++ [promotedNode node level now]) :=
  congrArg (fun core => core.2.1) (promote_core q level node now)

theorem promote_params : (q.promote level node now).params = q.params := by
  unfold promote
  rw [noteAgingDeadline_params]
  split <;> rfl

theorem promote_aging : (q.promote level node now).aging = q.aging :=
  congrArg (fun params => params.2.2.1) (promote_params q level node now)

theorem DueAt.promote {q : MultiLevelQueue} {later : Time} {other : Nat} {nodes : List Node}
    (due : q.DueAt later other nodes) (level : Nat) (node : Node) (now : Time) :
    (q.promote level node now).DueAt later other nodes := by
  apply DueAt.note
  split <;> exact due.of_cache rfl rfl

theorem promote_dueAt {level : Nat} (above : 1 ≤ level - 1) (later : Time) :
    (q.promote level node now).DueAt later (level - 1) [promotedNode node level now] :=
  DueAt.note_self later above (promotedNode node level now)

theorem promote_level {level : Nat} {kept rest : List Node} (structured : q.Structured)
    (positive : 1 ≤ level) (here : q.queues level = kept ++ node :: rest) :
    (q.promote level node now).queues level = kept ++ rest := by
  have member : node ∈ q.queues level := by simp [here]
  have distinct := structured.level_distinct (structured.level_lt member)
  have above : level ≠ level - 1 := by omega
  have absent : ∀ other ∈ kept, ¬(decide (other.handle = node.handle) = true) := by
    intro other present same
    rw [here, List.map_append, List.map_cons] at distinct
    have apart := List.disjoint_of_nodup_append distinct (List.mem_map_of_mem present)
    exact apart (by simp [of_decide_eq_true same])
  rw [promote_queues, Function.update_of_ne above, Function.update_self, here,
    List.eraseP_append_right _ absent, List.eraseP_cons_of_pos (by simp)]

theorem promote_above : (q.promote level node now).queues (level - 1) =
    q.queues (level - 1) ++ [promotedNode node level now] := by
  rw [promote_queues, Function.update_self]

theorem promote_elsewhere {level other : Nat} (source : other ≠ level) (target : other ≠ level - 1) :
    (q.promote level node now).queues other = q.queues other := by
  rw [promote_queues, Function.update_of_ne target, Function.update_of_ne source]

theorem promote_messages {q : MultiLevelQueue} {level : Nat} {node : Node} (structured : q.Structured)
    (positive : 1 ≤ level) (member : node ∈ q.queues level) (now : Time) :
    ((q.promote level node now).messages.map Message.frozen).Perm (q.messages.map Message.frozen) := by
  obtain ⟨rest, before, after⟩ := splice_nodes structured positive member now
  rw [messages, messages, nodes_of_core (promote_core q level node now)]
  exact ((after.map Node.message).map Message.frozen).trans ((before.map Node.message).map Message.frozen).symm

end Promote

structure Scanning (cfg : AgingConfig) (later : Time) (level : Nat) (dueBefore : Time)
    (q : MultiLevelQueue) (kept todo : List Node) : Prop where
  structured : q.Structured
  aging : q.aging = some cfg
  here : q.queues level = kept ++ todo
  noted : q.DueAt later level kept
  others : ∀ other, 1 ≤ other → other ≠ level → q.DueAt later other (q.queues other)
  bound : ∀ node ∈ kept ++ todo, ¬node.message.isExpired later →
    ∀ due, agingDeadline cfg node.message.enqueueTime = some due → dueBefore ≤ due

namespace Scanning
variable {cfg : AgingConfig} {now later : Time} {level : Nat} {dueBefore : Time} {q : MultiLevelQueue}
  {kept todo rest : List Node} {node : Node}

theorem skip (scanning : Scanning cfg later level dueBefore q kept (node :: rest))
    (expired : node.message.isExpired later) :
    Scanning cfg later level dueBefore q (kept ++ [node]) rest where
  structured := scanning.structured
  aging := scanning.aging
  here := by rw [scanning.here, List.append_assoc]; rfl
  noted := by
    apply scanning.noted.append
    intro _ _ other member live
    rw [List.mem_singleton.mp member] at live
    exact absurd expired live
  others := scanning.others
  bound := by simpa only [List.append_assoc, List.singleton_append] using scanning.bound

theorem note (scanning : Scanning cfg later level dueBefore q kept (node :: rest)) (positive : 1 ≤ level) :
    Scanning cfg later level dueBefore (q.noteAgingDeadline level node.message.enqueueTime)
      (kept ++ [node]) rest where
  structured := scanning.structured.of_core (core_noteAgingDeadline ..)
  aging := (noteAgingDeadline_aging ..).trans scanning.aging
  here := by rw [noteAgingDeadline_queues, scanning.here, List.append_assoc]; rfl
  noted := (scanning.noted.note _ _).append (DueAt.note_self later positive node)
  others := fun other inner different => by
    rw [noteAgingDeadline_queues]
    exact (scanning.others other inner different).note _ _
  bound := by simpa only [List.append_assoc, List.singleton_append] using scanning.bound

theorem promote (scanning : Scanning cfg later level dueBefore q kept (node :: rest)) (positive : 1 ≤ level)
    (now : Time) : Scanning cfg later level dueBefore (q.promote level node now) kept rest where
  structured := scanning.structured.promote positive (by simp [scanning.here]) now
  aging := (promote_aging ..).trans scanning.aging
  here := promote_level q node now scanning.structured positive scanning.here
  noted := scanning.noted.promote level node now
  others := fun other inner different => by
    have old := (scanning.others other inner different).promote level node now
    by_cases target : other = level - 1
    · subst target
      rw [promote_above]
      exact old.append (promote_dueAt q node now inner later)
    · rwa [promote_elsewhere q node now different target]
  bound := fun other member => scanning.bound other (by
    rcases List.mem_append.mp member with left | right
    · exact List.mem_append_left _ left
    · exact List.mem_append_right _ (List.mem_cons_of_mem _ right))

theorem finish (scanning : Scanning cfg later level dueBefore q kept []) : q.Valid later := by
  refine ⟨scanning.structured, fun other inner => ?_⟩
  by_cases same : other = level
  · subst same
    rw [scanning.here, List.append_nil]
    exact scanning.noted
  · exact scanning.others other inner same

theorem stop (scanning : Scanning cfg later level dueBefore q kept todo) :
    Valid { q with nextAging := Function.update q.nextAging level (some dueBefore) } later := by
  refine ⟨scanning.structured.of_core rfl, fun other inner => ?_⟩
  by_cases same : other = level
  · subst same
    intro held aging node member live due found
    have config : held = cfg := Option.some.inj (aging.symm.trans scanning.aging)
    subst config
    exact ⟨dueBefore, Function.update_self .., scanning.bound node (scanning.here ▸ member) live due found⟩
  · exact (scanning.others other inner same).of_cache rfl (Function.update_of_ne same _ _)

end Scanning

/-- What a part of the aging pass keeps: the invariant at the later clock, the parameters,
and every message up to its level and enqueue time. -/
def Kept (later : Time) (q q' : MultiLevelQueue) : Prop :=
  q'.Valid later ∧ q'.params = q.params ∧ (q'.messages.map Message.frozen).Perm (q.messages.map Message.frozen)

theorem Kept.trans {later : Time} {first second third : MultiLevelQueue} (left : Kept later first second)
    (right : Kept later second third) : Kept later first third :=
  ⟨right.1, right.2.1.trans left.2.1, right.2.2.trans left.2.2⟩

theorem ageScan_kept {cfg : AgingConfig} (now : Time) {later : Time} {reading : Nat → Time}
    (readings : ∀ visit, reading visit ≤ later) {level : Nat} (positive : 1 ≤ level) {dueBefore : Time}
    {kept todo : List Node} {q : MultiLevelQueue} (visited : Nat)
    (scanning : Scanning cfg later level dueBefore q kept todo) :
    Kept later q (ageScan cfg now reading level dueBefore todo (q, visited)).1 := by
  induction todo generalizing q kept visited with
  | nil => exact ⟨scanning.finish, rfl, List.Perm.refl _⟩
  | cons node rest ih =>
    unfold ageScan
    split
    next expired => exact ih _ (scanning.skip (Message.isExpired_mono (readings visited) expired))
    next =>
      split
      · have moved := promote_messages scanning.structured positive
          (show node ∈ q.queues level by simp [scanning.here]) now
        have next := scanning.promote positive now
        have params := promote_params q level node now
        split
        · exact ⟨next.stop, params, moved⟩
        · obtain ⟨valid, later, same⟩ := ih (visited + 1) next
          exact ⟨valid, later.trans params, same.trans moved⟩
      · obtain ⟨valid, params, same⟩ := ih (visited + 1) (scanning.note positive)
        refine ⟨valid, params.trans (noteAgingDeadline_params ..), ?_⟩
        rwa [messages, messages, nodes_of_core (core_noteAgingDeadline ..)] at same

theorem Valid.scanning {q : MultiLevelQueue} {later : Time} (valid : q.Valid later) {cfg : AgingConfig}
    (aging : q.aging = some cfg) {level : Nat} (positive : 1 ≤ level) {dueBefore : Time}
    (cached : q.nextAging level = some dueBefore) :
    Scanning cfg later level dueBefore { q with nextAging := Function.update q.nextAging level none }
      [] (q.queues level) where
  structured := valid.structured.of_core rfl
  aging := aging
  here := rfl
  noted := fun _ _ _ member => by cases member
  others := fun other inner different =>
    (valid.due other inner).of_cache rfl (Function.update_of_ne different _ _)
  bound := fun node member live due found => by
    obtain ⟨held, known, bound⟩ := valid.due level positive cfg aging node member live due found
    rw [cached] at known
    exact Option.some.inj known ▸ bound

theorem ageLevel_kept {cfg : AgingConfig} (now : Time) {later : Time} {reading : Nat → Time}
    (readings : ∀ visit, reading visit ≤ later) {level : Nat} (positive : 1 ≤ level)
    {q : MultiLevelQueue} (valid : q.Valid later) (aging : q.aging = some cfg) (visited : Nat) :
    Kept later q (ageLevel cfg now reading level (q, visited)).1 := by
  have unchanged : Kept later q q := ⟨valid, rfl, List.Perm.refl _⟩
  simp only [ageLevel]
  split
  · exact unchanged
  next dueBefore cached =>
    split
    · exact unchanged
    · split
      · exact unchanged
      · exact ageScan_kept now readings positive visited (valid.scanning aging positive cached)

theorem ageLevels_kept {cfg : AgingConfig} (now : Time) {later : Time} {reading : Nat → Time}
    (readings : ∀ visit, reading visit ≤ later) (level : Nat) {q : MultiLevelQueue}
    (valid : q.Valid later) (aging : q.aging = some cfg) (visited : Nat) :
    Kept later q (ageLevels cfg now reading level (q, visited)).1 := by
  induction level generalizing q visited with
  | zero => exact ⟨valid, rfl, List.Perm.refl _⟩
  | succ level ih =>
    have first := ageLevel_kept now readings (Nat.succ_pos level) valid aging visited
    have config : (ageLevel cfg now reading (level + 1) (q, visited)).1.aging = some cfg :=
      (congrArg (fun params => params.2.2.1) first.2.1).trans aging
    exact first.trans (ih first.1 config _)

theorem ageOnceLocked_spec {q : MultiLevelQueue} (now : Time) {later : Time} {reading : Nat → Time}
    (readings : ∀ visit, reading visit ≤ later) (valid : q.Valid later) :
    Kept later q (q.ageOnceLocked now reading).1 := by
  unfold ageOnceLocked
  split
  · exact ⟨valid, rfl, List.Perm.refl _⟩
  next cfg aging => exact ageLevels_kept now readings _ valid aging 0

end Harbinger.MultiLevelQueue
