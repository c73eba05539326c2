import Harbinger.Simulator.Events

/-! The schedule of `simulate`: the loop ends, every row is started once and not before its
arrival, no more rows run at any moment than there are workers, and no worker is idle while a
row waits. Aging may set the clock back, so the bounds are kept against `clock`, the time of the
last arrival or completion. -/

namespace Harbinger.Simulator.Sim
variable {σ : Type} {plan : Plan σ} {s s' : Sim σ}

/-- When a row was started. -/
def begins (plan : Plan σ) (s : Sim σ) (i : Nat) : ℚ := plan.arrival i + s.wait i

/-- The number of rows that run at the time `t`. -/
def busy (plan : Plan σ) (s : Sim σ) (t : ℚ) : Nat :=
  s.started.countP fun i => s.begins plan i ≤ t ∧ t < s.begins plan i + plan.duration i

/-- The invariant of the loop and of the dispatch. -/
structure Sound (plan : Plan σ) (s : Sim σ) : Prop where
  queued : s.queued = (s.levels.held plan.levels).card
  rows : s.levels.held plan.levels + s.started = Multiset.range s.next
  begun : s.started.Perm (s.running.map Prod.snd ++ s.finished)
  next : s.next ≤ plan.rows.length
  done : s.done = s.finished.length
  crew : s.idle + s.running.length = plan.workers
  ordered : s.running.Pairwise fun first second => first.1 ≤ second.1
  ends : ∀ c ∈ s.running, c.1 = s.begins plan c.2 + plan.duration c.2 ∧ s.clock ≤ c.1
  begins : ∀ i ∈ s.started, plan.arrival i ≤ s.begins plan i ∧ s.begins plan i ≤ s.clock
  ended : ∀ i ∈ s.finished, s.latency i = s.wait i + plan.duration i ∧ s.begins plan i + plan.duration i ≤ s.clock
  past : ∀ i ∈ s.levels.held plan.levels, plan.arrival i ≤ s.clock
  future : s.next < plan.rows.length → s.clock ≤ plan.arrival s.next
  busy : ∀ t < s.clock, s.busy plan t ≤ plan.workers

namespace Sound

/-- From the last arrival or completion on, only what is still running runs. -/
theorem busy_late (sound : s.Sound plan) {t : ℚ} (late : s.clock ≤ t) : s.busy plan t ≤ plan.workers := by
  have past : s.finished.countP (fun i => s.begins plan i ≤ t ∧ t < s.begins plan i + plan.duration i) = 0 := by
    refine List.countP_eq_zero.mpr fun i member => ?_
    simp only [decide_eq_true_eq, not_and, not_lt]
    exact fun _ => (sound.ended i member).2.trans late
  calc s.busy plan t
      = (s.running.map Prod.snd ++ s.finished).countP _ := sound.begun.countP_eq _
    _ ≤ (s.running.map Prod.snd).length := by
      rw [List.countP_append, past, add_zero]
      exact List.countP_le_length
    _ ≤ plan.workers := by
      rw [List.length_map]
      have crew := sound.crew
      omega

theorem busy_le (sound : s.Sound plan) (t : ℚ) : s.busy plan t ≤ plan.workers := by
  rcases lt_or_ge t s.clock with early | late
  · exact sound.busy t early
  · exact sound.busy_late late

/-- A row that waits has not been started. -/
theorem not_started (sound : s.Sound plan) {i : Nat} (waits : i ∈ s.levels.held plan.levels) : i ∉ s.started := by
  have distinct : (s.levels.held plan.levels + s.started : Multiset Nat).Nodup := sound.rows ▸ Multiset.nodup_range _
  exact fun begun => Multiset.disjoint_left.mp (Multiset.nodup_add.mp distinct).2.2 waits begun

theorem orderedInsert_ends {running : List Completion} (ordered : running.Pairwise fun first second => first.1 ≤ second.1)
    (c : Completion) :
    (running.orderedInsert Completion.before c).Pairwise fun first second => first.1 ≤ second.1 := by
  induction running with
  | nil => exact List.pairwise_singleton ..
  | cons first rest known =>
    obtain ⟨head, tail⟩ := List.pairwise_cons.mp ordered
    rw [List.orderedInsert]
    split
    next before =>
      have least : c.1 ≤ first.1 := before.elim le_of_lt fun tie => tie.1.le
      refine List.pairwise_cons.mpr ⟨fun other member => ?_, ordered⟩
      rcases List.mem_cons.mp member with rfl | later
      · exact least
      · exact least.trans (head other later)
    next after =>
      have least : first.1 ≤ c.1 := not_lt.mp fun less => after (.inl less)
      refine List.pairwise_cons.mpr ⟨fun other member => ?_, known tail⟩
      rcases List.mem_cons.mp ((List.perm_orderedInsert _ c rest).mem_iff.mp member) with rfl | later
      · exact least
      · exact head other later

theorem start (valid : plan.Valid) (sound : s.Sound plan) (punctual : s.now = s.clock) (free : s.idle ≠ 0)
    {levels : Levels Nat} {i : Nat} (taken : i ::ₘ levels.held plan.levels = s.levels.held plan.levels) (level : Nat) :
    (s.start plan levels level i).Sound plan := by
  have waits : i ∈ s.levels.held plan.levels := taken ▸ Multiset.mem_cons_self _ _
  have fresh := sound.not_started waits
  have wait : (s.start plan levels level i).begins plan i = s.clock := by
    change plan.arrival i + Function.update s.wait i (s.now - plan.arrival i) i = s.clock
    rw [Function.update_self, punctual]
    ring
  have others : ∀ j ∈ s.started, (s.start plan levels level i).begins plan j = s.begins plan j := by
    intro j member
    change plan.arrival j + Function.update s.wait i (s.now - plan.arrival i) j = plan.arrival j + s.wait j
    have other : j ≠ i := by
      rintro rfl
      exact fresh member
    rw [Function.update_of_ne other]
  have inserted := List.perm_orderedInsert Completion.before (s.now + plan.duration i, i) s.running
  have running : ∀ c ∈ s.running, c.2 ∈ s.started := fun c member =>
    sound.begun.mem_iff.mpr (List.mem_append_left _ (List.mem_map_of_mem member))
  have finished : ∀ j ∈ s.finished, j ∈ s.started := fun j member => sound.begun.mem_iff.mpr (List.mem_append_right _ member)
  refine {
    queued := ?_, rows := ?_, begun := ?_, next := sound.next, done := sound.done, crew := ?_
    ordered := orderedInsert_ends sound.ordered _, ends := ?_, begins := ?_, ended := ?_, past := ?_, future := sound.future
    busy := ?_ }
  · have count := congrArg Multiset.card taken
    rw [Multiset.card_cons, ← sound.queued] at count
    change s.queued - 1 = (levels.held plan.levels).card
    omega
  · change levels.held plan.levels + (i ::ₘ (s.started : Multiset Nat)) = Multiset.range s.next
    rw [← sound.rows, ← taken, Multiset.cons_add, Multiset.add_cons]
  · exact (sound.begun.cons i).trans ((inserted.map Prod.snd).symm.append_right s.finished)
  · have crew := sound.crew
    have count := inserted.length_eq
    rw [List.length_cons] at count
    change s.idle - 1 + (s.running.orderedInsert Completion.before _).length = plan.workers
    omega
  · intro c member
    rcases List.mem_cons.mp (inserted.mem_iff.mp member) with rfl | earlier
    · rw [wait, punctual]
      exact ⟨rfl, le_add_of_nonneg_right (valid.duration_nonneg i)⟩
    · rw [others c.2 (running c earlier)]
      exact sound.ends c earlier
  · intro j member
    rcases List.mem_cons.mp member with rfl | earlier
    · rw [wait]
      exact ⟨sound.past _ waits, le_rfl⟩
    · rw [others j earlier]
      exact sound.begins j earlier
  · intro j member
    have same : (s.start plan levels level i).wait j = s.wait j := add_left_cancel (others j (finished j member))
    rw [same, others j (finished j member)]
    exact sound.ended j member
  · exact fun j member => sound.past j (taken ▸ Multiset.mem_cons_of_mem member)
  · intro t early
    refine le_trans (le_of_eq ?_) (sound.busy t early)
    have later : ¬((s.start plan levels level i).begins plan i ≤ t ∧
        t < (s.start plan levels level i).begins plan i + plan.duration i) := by
      rw [wait]
      exact fun runs => absurd early (not_lt.mpr runs.1)
    rw [Sim.busy, Sim.busy]
    change (i :: s.started).countP _ = _
    rw [List.countP_cons_of_neg (by simpa using later)]
    exact List.countP_congr fun j member => by rw [others j member]

/-- The dispatch keeps the invariant and stops when no worker is idle or no row waits. -/
theorem dispatch (valid : plan.Valid) {count : Nat} (sound : s.Sound plan) (punctual : s.now = s.clock)
    (crew : s.idle = count) :
    (Sim.dispatch plan count s).Sound plan ∧
      ((Sim.dispatch plan count s).idle = 0 ∨ (Sim.dispatch plan count s).queued = 0) := by
  induction count generalizing s with
  | zero => exact ⟨sound, .inl crew⟩
  | succ count known =>
    unfold Sim.dispatch
    split
    next nothing => exact ⟨sound, .inr nothing⟩
    next waiting =>
      have held : s.levels.held plan.setting.levels ≠ 0 := fun empty =>
        waiting (sound.queued.trans (Multiset.card_eq_zero.mpr empty))
      obtain ⟨level, w, rest, picked, inside, here⟩ := Levels.pick_spec held
      obtain ⟨levels, served, changed⟩ := Levels.dispatch_of_pick picked here (s.cost level w)
      have started : s.serve plan = some (s.start plan levels level w.index) := by
        simp [serve, picked, here, served]
      have taken : w.index ::ₘ levels.held plan.levels = s.levels.held plan.levels := Levels.held_pop inside here changed
      simp only [started]
      have free : s.idle - 1 = count := by omega
      exact known (sound.start valid punctual (by omega) taken level) punctual free

theorem started_nodup (sound : s.Sound plan) : s.started.Nodup := by
  have distinct : (s.levels.held plan.levels + s.started : Multiset Nat).Nodup := sound.rows ▸ Multiset.nodup_range _
  exact (Multiset.nodup_add.mp distinct).2.1

/-- Everything that runs ends no earlier than the event that is due. -/
theorem running_late (sound : s.Sound plan) {now : ℚ} (due : Due plan s now) : ∀ c ∈ s.running, now ≤ c.1 := by
  intro c member
  have ordered := sound.ordered
  cases runs : s.running with
  | nil =>
    rw [runs] at member
    cases member
  | cons top rest =>
    have first := due.completions top rest runs
    rw [runs] at member ordered
    rcases List.mem_cons.mp member with rfl | later
    · exact first
    · exact first.trans ((List.pairwise_cons.mp ordered).1 c later)

theorem complete (sound : s.Sound plan) {now : ℚ} {i : Nat} {rest : List Completion} (due : Due plan s now)
    (top : s.running = (now, i) :: rest) : (Sim.complete plan { s with now }).Sound plan := by
  have late := sound.running_late due
  have begun := sound.begun
  have ordered := sound.ordered
  have crew := sound.crew
  have ends := sound.ends
  rw [top] at late begun ordered crew ends
  obtain ⟨finish, onward⟩ := ends (now, i) (List.mem_cons_self ..)
  have fresh : i ∉ s.finished := fun member =>
    (List.nodup_cons.mp (begun.nodup sound.started_nodup)).1 (List.mem_append_right _ member)
  simp only [Sim.complete, top]
  refine {
    queued := sound.queued, rows := sound.rows, begun := begun.trans List.perm_middle.symm, next := sound.next
    done := congrArg Nat.succ sound.done, crew := ?_, ordered := (List.pairwise_cons.mp ordered).2
    ends := fun c member => ⟨(ends c (List.mem_cons_of_mem _ member)).1, late c (List.mem_cons_of_mem _ member)⟩
    begins := fun j member => ⟨(sound.begins j member).1, (sound.begins j member).2.trans onward⟩
    ended := fun j member => ?_, past := fun j member => (sound.past j member).trans onward
    future := due.arrivals, busy := fun t _ => sound.busy_le t }
  · rw [List.length_cons] at crew
    dsimp only
    omega
  · rcases List.mem_cons.mp member with rfl | earlier
    · refine ⟨?_, finish.ge⟩
      dsimp only at finish ⊢
      rw [Function.update_self, finish, Sim.begins]
      ring
    · have other : j ≠ i := by
        rintro rfl
        exact fresh earlier
      dsimp only
      rw [Function.update_of_ne other]
      exact ⟨(sound.ended j earlier).1, (sound.ended j earlier).2.trans onward⟩

theorem arrive (valid : plan.Valid) (sound : s.Sound plan) {now : ℚ} (due : Due plan s now)
    (more : s.next < plan.rows.length) (when : now = plan.arrival s.next) :
    (Sim.arrive plan { s with now }).Sound plan := by
  have onward : s.clock ≤ now := (sound.future more).trans when.ge
  have held : (Sim.arrive plan { s with now }).levels.held plan.levels = s.next ::ₘ s.levels.held plan.levels :=
    Levels.held_place (valid.tiers _ _ _) _
  refine {
    queued := ?_, rows := ?_, begun := sound.begun, next := more, done := sound.done, crew := sound.crew
    ordered := sound.ordered, ends := fun c member => ⟨(sound.ends c member).1, sound.running_late due c member⟩
    begins := fun j member => ⟨(sound.begins j member).1, (sound.begins j member).2.trans onward⟩
    ended := fun j member => ⟨(sound.ended j member).1, (sound.ended j member).2.trans onward⟩
    past := fun j member => ?_, future := fun still => ?_, busy := fun t _ => sound.busy_le t }
  · rw [held, Multiset.card_cons, ← sound.queued]
    rfl
  · rw [held, Multiset.cons_add]
    exact (congrArg (s.next ::ₘ ·) sound.rows).trans (Multiset.range_succ _).symm
  · rw [held] at member
    rcases Multiset.mem_cons.mp member with rfl | earlier
    · exact when.ge
    · exact (sound.past j earlier).trans onward
  · exact when.le.trans (valid.arrival_mono (Nat.le_succ _) still)

theorem age (valid : plan.Valid) (sound : s.Sound plan) (now : ℚ) : (Sim.age plan { s with now }).Sound plan := by
  have held : (s.levels.age plan.setting now).held plan.levels = s.levels.held plan.levels :=
    Levels.held_age (valid.levels s.learner)
  exact { sound with
    queued := sound.queued.trans (congrArg Multiset.card held.symm)
    rows := (congrArg (· + (s.started : Multiset Nat)) held).trans sound.rows
    past := fun i member => sound.past i (held ▸ member) }

end Sound

theorem dispatch_frame (plan : Plan σ) (count : Nat) (s : Sim σ) :
    (dispatch plan count s).next = s.next ∧ (dispatch plan count s).done = s.done ∧
      (dispatch plan count s).now = s.now ∧ (dispatch plan count s).nextAging = s.nextAging ∧
      (dispatch plan count s).clock = s.clock := by
  induction count generalizing s with
  | zero => exact ⟨rfl, rfl, rfl, rfl, rfl⟩
  | succ count known =>
    unfold dispatch
    split
    · exact ⟨rfl, rfl, rfl, rfl, rfl⟩
    · split
      · exact ⟨rfl, rfl, rfl, rfl, rfl⟩
      next later served =>
        simp only [serve, Option.bind_eq_bind, Option.bind_eq_some_iff, Option.pure_def, Option.some.injEq] at served
        obtain ⟨level, _, head, _, ⟨w, levels⟩, _, rfl⟩ := served
        exact known _

/-- What holds after every iteration: a worker is idle only when no row waits. -/
structure Rested (plan : Plan σ) (s : Sim σ) : Prop extends Sound plan s where
  rested : s.idle = 0 ∨ s.queued = 0

theorem settle_rested (valid : plan.Valid) (sound : s.Sound plan) (punctual : s.idle = 0 ∨ s.now = s.clock) :
    (s.settle plan).Rested plan := by
  have settled : (dispatch plan s.idle s).Sound plan ∧
      ((dispatch plan s.idle s).idle = 0 ∨ (dispatch plan s.idle s).queued = 0) := by
    rcases punctual with none | same
    · rw [none]
      exact ⟨sound, .inl none⟩
    · exact sound.dispatch valid same rfl
  unfold settle
  dsimp only
  split
  · exact ⟨{ settled.1 with }, settled.2⟩
  · exact ⟨settled.1, settled.2⟩

theorem Rested.step (valid : plan.Valid) (rested : s.Rested plan) (moved : s.step plan = some s') : s'.Rested plan := by
  obtain ⟨now, handled, due, event, rfl⟩ := step_cases moved
  cases event with
  | completed i rest top =>
    refine settle_rested valid (rested.toSound.complete due top) (.inr ?_)
    simp only [complete, top]
  | arrived more when early => exact settle_rested valid (rested.toSound.arrive valid due more when) (.inr rfl)
  | aged waiting aging when early =>
    exact settle_rested valid (rested.toSound.age valid now) (.inl (rested.rested.resolve_right waiting))

theorem start_rested (plan : Plan σ) (learner : σ) : (plan.start learner).Rested plan := by
  have none : (plan.start learner).levels.held plan.levels = 0 := Finset.sum_eq_zero fun _ _ => rfl
  refine ⟨?_, .inr rfl⟩
  exact {
    queued := (congrArg Multiset.card none).symm, rows := by rw [none]; rfl, begun := List.Perm.refl _
    next := Nat.zero_le _, done := rfl, crew := rfl, ordered := List.Pairwise.nil
    ends := fun c member => (List.not_mem_nil member).elim, begins := fun i member => (List.not_mem_nil member).elim
    ended := fun i member => (List.not_mem_nil member).elim
    past := fun i member => absurd (none ▸ member) (Multiset.notMem_zero i)
    future := fun _ => (div_eq_zero_iff.mpr (.inl (sub_self _))).ge, busy := fun t _ => Nat.zero_le _ }

theorem after_rested (valid : plan.Valid) (learner : σ) {count : Nat} (reached : plan.after learner count = some s) :
    s.Rested plan := by
  induction count generalizing s with
  | zero => exact Option.some.inj reached ▸ start_rested plan learner
  | succ count known =>
    obtain ⟨before, earlier, moved⟩ := Option.bind_eq_some_iff.mp reached
    exact (known earlier).step valid (Option.ite_none_right_eq_some.mp moved).2

/-! ### Termination -/

theorem Sound.counts (sound : s.Sound plan) :
    s.queued + s.running.length + s.done = s.next ∧ s.next ≤ plan.rows.length := by
  have rows := congrArg Multiset.card sound.rows
  have begun := sound.begun.length_eq
  rw [Multiset.card_add, Multiset.card_range, ← sound.queued, Multiset.coe_card] at rows
  rw [List.length_append, List.length_map, ← sound.done] at begun
  exact ⟨by omega, sound.next⟩

theorem Rested.progress (valid : plan.Valid) (rested : s.Rested plan) (more : s.done < plan.rows.length) :
    ∃ s', s.step plan = some s' := by
  cases moved : s.step plan with
  | some s' => exact ⟨s', rfl⟩
  | none =>
    exfalso
    have counts := rested.counts
    have crew := rested.crew
    have workers := valid.workers
    unfold Sim.step at moved
    split at moved
    next never =>
      obtain ⟨arrivals, later⟩ := min_eq_top.mp never
      have all : plan.rows.length ≤ s.next := by
        rcases arrivalDue_cases plan s with ⟨_, due⟩ | ⟨all, _⟩
        · cases due.symm.trans arrivals
        · exact all
      have free : s.running = [] := by
        rcases completionDue_cases s with ⟨_, _, _, _, due⟩ | ⟨free, _⟩
        · cases due.symm.trans (min_eq_top.mp later).1
        · exact free
      rw [free, List.length_nil] at crew counts
      rcases rested.rested with none | none <;> omega
    · cases moved

/-- Arrivals and completions that are still to come. -/
def eventsLeft (plan : Plan σ) (s : Sim σ) : Nat := plan.rows.length - s.next + (plan.rows.length - s.done)

/-- A bound on the aging passes before the next completion. -/
def passesLeft (plan : Plan σ) (s : Sim σ) : Nat :=
  match s.running with
  | [] => 0
  | (ends, _) :: _ => ⌈(ends - s.nextAging) / plan.interval⌉₊

theorem settle_frame (plan : Plan σ) (s : Sim σ) : (s.settle plan).next = s.next ∧ (s.settle plan).done = s.done ∧
    (s.settle plan).now = s.now := by
  obtain ⟨next, done, now, _⟩ := dispatch_frame plan s.idle s
  unfold settle
  dsimp only
  split <;> exact ⟨next, done, now⟩

/-- An aging pass comes when no worker is idle, so nothing is dispatched after it. -/
theorem Rested.settle_age (rested : s.Rested plan) (waiting : s.queued ≠ 0) (now : ℚ) :
    (age plan { s with now }).settle plan = age plan { s with now } := by
  have idle : (age plan { s with now }).idle = 0 := rested.rested.resolve_right waiting
  rw [settle, idle]
  exact if_neg waiting

theorem Rested.decreases (valid : plan.Valid) (rested : s.Rested plan) (moved : s.step plan = some s') :
    s'.eventsLeft plan < s.eventsLeft plan ∨
      s'.eventsLeft plan = s.eventsLeft plan ∧ s'.passesLeft plan < s.passesLeft plan := by
  have counts := (rested.step valid moved).counts
  obtain ⟨now, handled, due, event, rfl⟩ := step_cases moved
  obtain ⟨next, done, _⟩ := settle_frame plan handled
  cases event with
  | completed i rest top =>
    left
    have one : (complete plan { s with now }).done = s.done + 1 := by simp only [complete, top]
    have same : (complete plan { s with now }).next = s.next := by simp only [complete, top]
    rw [one] at done
    rw [same] at next
    unfold eventsLeft
    omega
  | arrived more when early =>
    left
    have one : (arrive plan { s with now }).next = s.next + 1 := rfl
    have same : (arrive plan { s with now }).done = s.done := rfl
    unfold eventsLeft
    omega
  | aged waiting aging when early =>
    right
    rw [rested.settle_age waiting now]
    refine ⟨rfl, ?_⟩
    have busy : s.idle = 0 := rested.rested.resolve_right waiting
    have crew := rested.crew
    have workers := valid.workers
    cases top : s.running with
    | nil =>
      rw [top, List.length_nil] at crew
      omega
    | cons c rest =>
      have ahead : 0 < (c.1 - s.nextAging) / plan.interval :=
        div_pos (sub_pos.mpr (when ▸ early c rest top)) valid.interval
      have shorter : (c.1 - (now + plan.interval)) / plan.interval = (c.1 - s.nextAging) / plan.interval - 1 := by
        rw [when, sub_add_eq_sub_sub, sub_div, div_self valid.interval.ne']
      simp only [passesLeft, age, top, shorter]
      rw [Nat.ceil_sub_one]
      exact Nat.sub_lt (Nat.ceil_pos.mpr ahead) Nat.one_pos

/-- The loop ends, with every row completed. -/
theorem Rested.loop_ends (valid : plan.Valid) {s : Sim σ} (rested : s.Rested plan) :
    ∃ fuel final, loop plan fuel s = some final ∧ final.Rested plan ∧ plan.rows.length ≤ final.done := by
  by_cases more : s.done < plan.rows.length
  · obtain ⟨s', moved⟩ := rested.progress valid more
    have decreases := rested.decreases valid moved
    obtain ⟨fuel, final, ran, known⟩ := loop_ends valid (rested.step valid moved)
    refine ⟨fuel + 1, final, ?_, known⟩
    rw [loop, if_pos more, moved]
    exact ran
  · exact ⟨0, s, if_neg more, rested, not_lt.mp more⟩
termination_by (s.eventsLeft plan, s.passesLeft plan)
decreasing_by
  rcases decreases with fewer | ⟨same, fewer⟩
  · exact Prod.Lex.left _ _ fewer
  · rw [same]
    exact Prod.Lex.right _ fewer

/-- A run of `simulate` ends with a schedule: every row is started once, not before its arrival,
its latency is its wait and its duration, and at any moment at most `workers` rows run. After
every iteration no worker is idle or no row waits. -/
theorem simulation_schedules (valid : plan.Valid) (learner : σ) :
    (∃ fuel final, loop plan fuel (plan.start learner) = some final ∧
      final.started.Perm (List.range plan.rows.length) ∧
      (∀ i < plan.rows.length, plan.arrival i ≤ final.begins plan i ∧ final.latency i = final.wait i + plan.duration i) ∧
      ∀ t, final.busy plan t ≤ plan.workers) ∧
    ∀ count s, plan.after learner count = some s →
      s.running.length ≤ plan.workers ∧ (s.idle = 0 ∨ s.queued = 0) := by
  constructor
  · obtain ⟨fuel, final, ran, rested, all⟩ := (start_rested plan learner).loop_ends valid
    have counts := rested.counts
    have next : final.next = plan.rows.length := by omega
    have none : final.levels.held plan.levels = 0 := Multiset.card_eq_zero.mp (by rw [← rested.queued]; omega)
    have free : final.running = [] := List.length_eq_zero_iff.mp (by omega)
    have rows : final.started.Perm (List.range plan.rows.length) := by
      have rows := rested.rows
      rw [none, zero_add, next] at rows
      exact Multiset.coe_eq_coe.mp rows
    have finished : final.started.Perm final.finished := by
      have begun := rested.begun
      rwa [free] at begun
    refine ⟨fuel, final, ran, rows, fun i inside => ?_, rested.busy_le⟩
    have begun : i ∈ final.started := rows.mem_iff.mpr (List.mem_range.mpr inside)
    exact ⟨(rested.begins i begun).1, (rested.ended i (finished.mem_iff.mp begun)).1⟩
  · intro count s reached
    have rested := after_rested valid learner reached
    have crew := rested.crew
    exact ⟨by omega, rested.rested⟩

section Sample

/-- Two rows for one worker; the second one arrives while the first one runs. -/
def samplePlan (arrival : ℚ) : Plan Unit where
  rows := [⟨0, 0, 2000⟩, ⟨arrival, 0, 1⟩]
  compress := 1
  workers := 1
  levels := 2
  threshold := 5
  interval := 10
  policy := { weights := [] }
  route := fun _ _ _ => ((1, 0), ())
  learn := fun _ _ _ => ()

theorem samplePlan_valid {arrival : ℚ} (later : 0 ≤ arrival) : (samplePlan arrival).Valid where
  rows := by simp [samplePlan]
  sorted := by simpa [samplePlan] using later
  durations := by simp [samplePlan]
  compress := by simp [samplePlan]
  workers := le_rfl
  interval := by simp [samplePlan]
  tiers := fun _ _ _ => Nat.one_lt_two

theorem simulation_schedules_sample :
    ∃ fuel final, loop (samplePlan 1000) fuel ((samplePlan 1000).start ()) = some final ∧
      final.started.Perm [0, 1] ∧ ∀ t, final.busy (samplePlan 1000) t ≤ 1 := by
  have valid : (samplePlan 1000).Valid := samplePlan_valid (by norm_num)
  obtain ⟨fuel, final, ran, rows, _, busy⟩ := (simulation_schedules valid ()).1
  exact ⟨fuel, final, ran, rows, busy⟩

end Sample

end Harbinger.Simulator.Sim
