import Harbinger.Simulator.Schedule

/-! Simulated time. The next aging pass is set when nothing waits and is looked at again only
when a row waits, so after a quiet gap it may lie in the past, and the clock goes back to it.
Without such a gap the clock never goes back. -/

namespace Harbinger.Simulator.Sim
variable {σ : Type} {plan : Plan σ} {s s' : Sim σ}

/-- A row that arrives next, finds nothing waiting and no worker idle, arrives at most an
interval after the last event. -/
def Punctual (plan : Plan σ) (s : Sim σ) : Prop :=
  s.queued = 0 → s.idle = 0 → s.next < plan.rows.length →
    (∀ c rest, s.running = c :: rest → plan.arrival s.next < c.1) → plan.arrival s.next ≤ s.now + plan.interval

/-- Nothing that is still to come lies before now. -/
structure Timed (plan : Plan σ) (s : Sim σ) : Prop where
  clock : s.clock ≤ s.now
  running : ∀ c ∈ s.running, s.now ≤ c.1
  future : s.next < plan.rows.length → s.now ≤ plan.arrival s.next
  empty : s.queued = 0 → s.nextAging = s.now + plan.interval
  aging : s.queued ≠ 0 → s.now ≤ s.nextAging

theorem dispatch_empty (none : s.queued = 0) (count : Nat) : dispatch plan count s = s := by
  cases count with
  | zero => rfl
  | succ count => rw [dispatch, if_pos none]

theorem settle_empty (plan : Plan σ) (s : Sim σ) (none : (s.settle plan).queued = 0) :
    (s.settle plan).nextAging = (s.settle plan).now + plan.interval := by
  unfold settle at none ⊢
  dsimp only at none ⊢
  split
  · rfl
  next waiting =>
    rw [if_neg waiting] at none
    exact absurd none waiting

theorem settle_waiting (waiting : (s.settle plan).queued ≠ 0) :
    s.queued ≠ 0 ∧ (s.settle plan).nextAging = s.nextAging := by
  have queued : (dispatch plan s.idle s).queued ≠ 0 := by
    intro none
    refine waiting ?_
    rw [settle, if_pos none]
    exact none
  refine ⟨fun none => queued (by rw [dispatch_empty none]; exact none), ?_⟩
  rw [settle, if_neg queued]
  exact (dispatch_frame plan s.idle s).2.2.2.1

theorem settle_clock (plan : Plan σ) (s : Sim σ) : (s.settle plan).clock = s.clock := by
  have same := (dispatch_frame plan s.idle s).2.2.2.2
  unfold settle
  dsimp only
  split <;> exact same

/-- After an arrival or a completion everything to come lies behind it. -/
theorem Rested.timed (rested : s.Rested plan) (current : s.clock = s.now)
    (empty : s.queued = 0 → s.nextAging = s.now + plan.interval) (aging : s.queued ≠ 0 → s.now ≤ s.nextAging) :
    s.Timed plan :=
  ⟨current.le, fun c member => current ▸ (rested.ends c member).2, fun more => current ▸ rested.future more, empty, aging⟩

theorem Timed.step (valid : plan.Valid) (aging : plan.policy.aging) (rested : s.Rested plan) (timed : s.Timed plan)
    (punctual : s.Punctual plan) (moved : s.step plan = some s') : s'.Timed plan ∧ s.now ≤ s'.now := by
  have later := rested.step valid moved
  obtain ⟨now, handled, due, event, rfl⟩ := step_cases moved
  obtain ⟨_, _, when⟩ := settle_frame plan handled
  have clock := settle_clock plan handled
  have empty := settle_empty plan handled
  cases event with
  | completed i rest top =>
    have onward : s.now ≤ now := timed.running (now, i) (top ▸ List.mem_cons_self ..)
    have current : (complete plan { s with now }).now = now ∧ (complete plan { s with now }).clock = now ∧
        (complete plan { s with now }).queued = s.queued ∧ (complete plan { s with now }).nextAging = s.nextAging := by
      simp only [complete, top, and_self]
    rw [current.1] at when
    rw [current.2.1] at clock
    refine ⟨later.timed (clock.trans when.symm) empty fun waiting => ?_, onward.trans when.ge⟩
    obtain ⟨queued, same⟩ := settle_waiting waiting
    rw [when, same, current.2.2.2]
    exact due.aging (current.2.2.1 ▸ queued) aging
  | arrived more arrives early =>
    have onward : s.now ≤ now := (timed.future more).trans arrives.ge
    refine ⟨later.timed (clock.trans when.symm) empty fun waiting => ?_, onward.trans when.ge⟩
    obtain ⟨_, same⟩ := settle_waiting waiting
    rw [when, same]
    change now ≤ s.nextAging
    by_cases none : s.queued = 0
    · have busy : s.idle = 0 := by
        have counts := rested.counts
        have counts' := later.counts
        have crew := rested.crew
        have crew' := later.crew
        obtain ⟨next, done, _⟩ := settle_frame plan (arrive plan { s with now })
        have one : (arrive plan { s with now }).next = s.next + 1 := rfl
        have same : (arrive plan { s with now }).done = s.done := rfl
        have all := later.rested.resolve_right waiting
        omega
      rw [timed.empty none, arrives]
      exact punctual none busy more (arrives ▸ early)
    · exact due.aging none aging
  | aged waiting _ passes early =>
    have onward : s.now ≤ now := (timed.aging waiting).trans passes.ge
    rw [rested.settle_age waiting now]
    refine ⟨⟨timed.clock.trans onward, rested.running_late due, due.arrivals, fun none => absurd none waiting, fun _ => ?_⟩,
      onward⟩
    exact le_add_of_nonneg_right valid.interval.le

theorem start_timed (plan : Plan σ) (learner : σ) : (plan.start learner).Timed plan where
  clock := le_rfl
  running := fun _ member => (List.not_mem_nil member).elim
  future := fun _ => (div_eq_zero_iff.mpr (.inl (sub_self _))).ge
  empty := fun _ => (zero_add _).symm
  aging := fun waiting => absurd rfl waiting

/-- With aging on and every row punctual, the clock never goes back, and every event comes no
earlier than the arrival of any row that waits. -/
theorem simulated_time_monotone (valid : plan.Valid) (aging : plan.policy.aging) (learner : σ) {count : Nat}
    (reached : plan.after learner count = some s)
    (punctual : ∀ earlier ≤ count, ∀ state, plan.after learner earlier = some state → state.Punctual plan)
    (moved : s.step plan = some s') :
    s.now ≤ s'.now ∧ ∀ i ∈ s.levels.held plan.levels, plan.arrival i ≤ s'.now := by
  have timed : s.Timed plan := by
    clear moved
    induction count generalizing s with
    | zero => exact Option.some.inj reached ▸ start_timed plan learner
    | succ count known =>
      obtain ⟨before, earlier, moved⟩ := Option.bind_eq_some_iff.mp reached
      have timed := known earlier fun other order => punctual other (order.trans (Nat.le_succ count))
      exact (timed.step valid aging (after_rested valid learner earlier) (punctual count (Nat.le_succ count) before earlier)
        (Option.ite_none_right_eq_some.mp moved).2).1
  have rested := after_rested valid learner reached
  obtain ⟨_, onward⟩ := timed.step valid aging rested (punctual count le_rfl s reached) moved
  exact ⟨onward, fun i member => (rested.past i member).trans (timed.clock.trans onward)⟩

/-- The second row arrives 1 ms after the first one, before the aging pass at 10 ms. -/
theorem simulated_time_monotone_sample : ∃ s s', (samplePlan 1).after () 2 = some s ∧ s.step (samplePlan 1) = some s' ∧
    s'.now = 10 ∧ s.now ≤ s'.now := by
  have known : ((samplePlan 1).after () 2).map (fun s => (s.step (samplePlan 1)).map Sim.now) = some (some 10) := by
    decide +kernel
  have prompt : ∀ earlier ≤ 2, ((samplePlan 1).after () earlier).all
      (fun s => (samplePlan 1).arrival s.next ≤ s.now + (samplePlan 1).interval) = true := by
    decide +kernel
  obtain ⟨s, reached, stepped⟩ := Option.map_eq_some_iff.mp known
  obtain ⟨s', moved, now⟩ := Option.map_eq_some_iff.mp stepped
  have valid : (samplePlan 1).Valid := samplePlan_valid zero_le_one
  refine ⟨s, s', reached, moved, now, (simulated_time_monotone valid rfl () reached ?_ moved).1⟩
  intro earlier order state before _ _ _ _
  have soon := prompt earlier order
  rw [before] at soon
  simpa using soon

/-- The second row arrives after 1000 ms, when the first one still runs. Then the clock goes back
to the aging pass at 10 ms, before the arrival of the row that waits. -/
theorem clock_goes_back : (samplePlan 1000).Valid ∧ (samplePlan 1000).policy.aging ∧
    ∃ s s', (samplePlan 1000).after () 2 = some s ∧ s.step (samplePlan 1000) = some s' ∧ s'.now < s.now ∧
      ∃ i ∈ s.levels.held (samplePlan 1000).levels, s'.now < (samplePlan 1000).arrival i := by
  have known : ((samplePlan 1000).after () 2).map (fun s => (s.now, s.levels.held 2, (s.step (samplePlan 1000)).map Sim.now)) =
      some (1000, {1}, some 10) := by
    decide +kernel
  obtain ⟨s, reached, facts⟩ := Option.map_eq_some_iff.mp known
  obtain ⟨now, rest⟩ := Prod.mk.inj facts
  obtain ⟨held, stepped⟩ := Prod.mk.inj rest
  obtain ⟨s', moved, back⟩ := Option.map_eq_some_iff.mp stepped
  have waits : 1 ∈ s.levels.held 2 := held ▸ Multiset.mem_singleton_self 1
  have arrives : (samplePlan 1000).arrival 1 = 1000 := by decide +kernel
  refine ⟨samplePlan_valid (by norm_num), rfl, s, s', reached, moved, ?_, 1, waits, ?_⟩
  · rw [now, back]
    norm_num
  · rw [arrives, back]
    norm_num

end Harbinger.Simulator.Sim
