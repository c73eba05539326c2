import Harbinger.Broker.Delivery
import Harbinger.Queue.Deadlines

/-! The deadlines that the broker computes from its settings: those of a Pull, and the three timers of
the maintenance thread. Validation bounds the settings of maintenance, but not the longest wait of a
Pull nor the interval of predictor snapshots. -/

namespace Harbinger
open Transition

/-- `now + duration` on the 64-bit clock; `none` on overflow. -/
def Clock.deadline (now : Time) (duration : Millis) : Option Time := do
  let ticks ← Checked.mul 64 duration 1000000
  Checked.add 64 now ticks

/-- The lower half of the clock. -/
def Clock.Early (now : Time) : Prop := 0 ≤ now ∧ now ≤ Clock.max / 2

theorem Clock.deadline_eq {now : Time} {duration : Millis} (early : Clock.Early now) (low : 0 ≤ duration)
    (high : duration ≤ maxMaintenanceDuration) : Clock.deadline now duration = some (now + Clock.ofMillis duration) := by
  have bounds : ∀ n d : Int, 0 ≤ n → n ≤ 4611686018427387903 → 0 ≤ d → d ≤ 4611686018427 →
      0 ≤ n + d * 1000000 ∧ n + d * 1000000 ≤ 9223372036854775807 := by omega
  have range := bounds now duration early.1 early.2 low high
  have ticks := (Clock.convert low (high.trans_lt (by decide))).1
  rw [deadline, ticks, Option.bind_eq_bind, Option.bind_some]
  exact Checked.add_of_fits (Clock.fits_of_nonneg range.1 range.2)

section Pull
variable (cfg : HarbingerConfig)

/-- The wait of a Pull with the timeout that its client asks for. -/
def pullWait (timeoutMs : Millis) : Millis :=
  let requested := if 0 < timeoutMs then timeoutMs else cfg.maxPullWait
  min requested cfg.maxPullWait

def pullDeadline (timeoutMs : Millis) (now : Time) : Option Time := Clock.deadline now (pullWait cfg timeoutMs)

def leaseDeadline (now : Time) : Option Time := Clock.deadline now cfg.deliveryLease

end Pull

/-- The timers of `run_maintenance`. -/
structure Timers where
  nextLease : Time
  nextTtl : Time
  nextSnapshot : Time
  deriving DecidableEq

/-- The clock at the test of the timers, and after the work of each. -/
structure Readings where
  now : Time
  lease : Time
  ttl : Time
  snapshot : Time

/-- A timer that is set anew under a condition. -/
def renewed (due : Bool) (next : Option Time) (kept : Time) : Option Time := if due then next else some kept

theorem renewed_some {due : Bool} {next : Option Time} {kept : Time} (safe : due = true → ∃ time, next = some time) :
    ∃ time, renewed due next kept = some time := by
  cases due with
  | false => exact ⟨kept, rfl⟩
  | true => exact safe rfl

namespace Timers
variable (cfg : HarbingerConfig)

/-- The interval between two snapshots; without routing there is none. -/
def snapshotInterval : Option Millis := cfg.predictiveRouting.map (·.snapshotInterval)

def savesSnapshots : Bool := (cfg.predictiveRouting.bind (·.snapshotPath)).isSome

def start (r : Readings) : Option Timers := do
  let nextLease ← Clock.deadline r.lease cfg.leaseSweepInterval
  let nextTtl ← renewed (0 < cfg.ttlSweepInterval) (Clock.deadline r.ttl cfg.ttlSweepInterval) Clock.max
  let nextSnapshot ← renewed (savesSnapshots cfg) ((snapshotInterval cfg).bind (Clock.deadline r.snapshot)) Clock.max
  return ⟨nextLease, nextTtl, nextSnapshot⟩

/-- One round of the loop. -/
def turn (t : Timers) (r : Readings) : Option Timers := do
  let nextLease ← renewed (t.nextLease ≤ r.now) (Clock.deadline r.lease cfg.leaseSweepInterval) t.nextLease
  let nextTtl ← renewed (t.nextTtl ≤ r.now) (Clock.deadline r.ttl cfg.ttlSweepInterval) t.nextTtl
  let nextSnapshot ← renewed (t.nextSnapshot ≤ r.now) ((snapshotInterval cfg).bind (Clock.deadline r.snapshot)) t.nextSnapshot
  return ⟨nextLease, nextTtl, nextSnapshot⟩

end Timers

/-- What validation establishes for the durations of these deadlines. -/
structure HarbingerConfig.Paced (cfg : HarbingerConfig) : Prop where
  wait : 0 < cfg.maxPullWait
  delivery : 0 < cfg.deliveryLease ∧ cfg.deliveryLease ≤ maxMaintenanceDuration
  lease : 0 < cfg.leaseSweepInterval ∧ cfg.leaseSweepInterval ≤ maxMaintenanceDuration
  ttl : 0 ≤ cfg.ttlSweepInterval ∧ cfg.ttlSweepInterval ≤ maxMaintenanceDuration
  snapshot : ∀ routing ∈ cfg.predictiveRouting, routing.snapshotPath ≠ none → 0 < routing.snapshotInterval

theorem validateRouting_interval {numLevels defaultPriority : UInt8} {given routing : Ml.PredictiveRoutingConfig}
    (valid : validateRouting numLevels defaultPriority given = .ok routing) (saves : routing.snapshotPath ≠ none) :
    0 < routing.snapshotInterval := by
  simp only [validateRouting, bind_ok, reject_ok] at valid
  obtain ⟨_, _, _, _, _, interval, _, _, _, _, _, _, same⟩ := valid
  obtain rfl := Except.ok.inj same
  obtain ⟨path, known⟩ := Option.ne_none_iff_exists'.mp saves
  exact not_le.mp fun short => interval ⟨path, known, .inr short⟩

theorem HarbingerConfig.Paced.of_validateConfig {config cfg : HarbingerConfig} (valid : validateConfig config = .ok cfg) :
    cfg.Paced := by
  have snapshot : ∀ routing ∈ cfg.predictiveRouting, routing.snapshotPath ≠ none → 0 < routing.snapshotInterval := by
    intro routing member saves
    obtain ⟨_, _, checked⟩ := validateConfig_routing valid member
    exact validateRouting_interval checked saves
  obtain ⟨delivery, _, routing, routed, rfl⟩ := validateConfig_ok valid
  simp only [validateDelivery, bind_ok, reject_ok, not_or, not_lt, not_le] at delivery
  obtain ⟨_, _, _, _, _, _, _, _, _, wait, _, ttl, _, ⟨lease, sweep, _⟩, lease', sweep', _, ttl'⟩ := delivery
  exact ⟨wait, ⟨lease, lease'⟩, ⟨sweep, sweep'⟩, ⟨ttl, ttl'⟩, snapshot⟩

/-- Predictor snapshots, if there are any, are saved at intervals that validation would accept for maintenance. -/
def HarbingerConfig.SavesInTime (cfg : HarbingerConfig) : Prop :=
  ∀ routing ∈ cfg.predictiveRouting, routing.snapshotPath ≠ none → routing.snapshotInterval ≤ maxMaintenanceDuration

section Bounded
variable {cfg : HarbingerConfig} {now : Time}

theorem lt_deadline {duration : Millis} (positive : 0 < duration) : now < now + Clock.ofMillis duration :=
  lt_add_of_pos_right _ (mul_pos positive (by decide))

theorem pullDeadline_eq (paced : cfg.Paced) (early : Clock.Early now) {timeoutMs : Millis}
    (bounded : cfg.maxPullWait ≤ maxMaintenanceDuration ∨ 0 < timeoutMs ∧ timeoutMs ≤ maxMaintenanceDuration) :
    pullDeadline cfg timeoutMs now = some (now + Clock.ofMillis (pullWait cfg timeoutMs)) ∧
      0 < pullWait cfg timeoutMs := by
  have wait := paced.wait
  have positive : 0 < pullWait cfg timeoutMs := by
    unfold pullWait
    split
    next asked => exact lt_min asked wait
    · exact lt_min wait wait
  have short : pullWait cfg timeoutMs ≤ maxMaintenanceDuration := by
    unfold pullWait
    rcases bounded with capped | ⟨asked, requested⟩
    · exact (min_le_right _ _).trans capped
    · rw [if_pos asked]
      exact (min_le_left _ _).trans requested
  exact ⟨Clock.deadline_eq early positive.le short, positive⟩

def Readings.Early (r : Readings) : Prop :=
  Clock.Early r.now ∧ Clock.Early r.lease ∧ Clock.Early r.ttl ∧ Clock.Early r.snapshot

/-- The timer of the snapshots runs only if they are saved. -/
def Timers.Armed (cfg : HarbingerConfig) (t : Timers) : Prop := t.nextSnapshot = Clock.max ∨ savesSnapshots cfg = true

theorem Timers.snapshot_deadline (paced : cfg.Paced) (saves : cfg.SavesInTime) (saved : savesSnapshots cfg = true)
    (early : Clock.Early now) : ∃ time, (snapshotInterval cfg).bind (Clock.deadline now) = some time := by
  obtain ⟨path, known⟩ := Option.isSome_iff_exists.mp saved
  obtain ⟨routing, routed, named⟩ := Option.bind_eq_some_iff.mp known
  have exists_path : routing.snapshotPath ≠ none := by simp [named]
  refine ⟨now + Clock.ofMillis routing.snapshotInterval, ?_⟩
  rw [snapshotInterval, routed, Option.map_some, Option.bind_some]
  exact Clock.deadline_eq early (paced.snapshot routing routed exists_path).le (saves routing routed exists_path)

theorem Timers.start_armed (paced : cfg.Paced) (saves : cfg.SavesInTime) {r : Readings} (early : r.Early) :
    ∃ t, Timers.start cfg r = some t ∧ t.Armed cfg := by
  obtain ⟨_, lease, ttl, snapshot⟩ := early
  obtain ⟨nextTtl, swept⟩ : ∃ time, renewed (0 < cfg.ttlSweepInterval) (Clock.deadline r.ttl cfg.ttlSweepInterval) Clock.max =
      some time := renewed_some fun _ => ⟨_, Clock.deadline_eq ttl paced.ttl.1 paced.ttl.2⟩
  obtain ⟨nextSnapshot, saved⟩ : ∃ time, renewed (savesSnapshots cfg)
      ((snapshotInterval cfg).bind (Clock.deadline r.snapshot)) Clock.max = some time :=
    renewed_some fun on => snapshot_deadline paced saves on snapshot
  refine ⟨⟨r.lease + Clock.ofMillis cfg.leaseSweepInterval, nextTtl, nextSnapshot⟩, ?_, ?_⟩
  · simp only [start, Clock.deadline_eq lease paced.lease.1.le paced.lease.2, swept, saved, Option.bind_eq_bind,
      Option.bind_some, Option.pure_def]
  · cases on : savesSnapshots cfg with
    | true => exact .inr on
    | false =>
      rw [on] at saved
      exact .inl (Option.some.inj saved).symm

theorem Timers.turn_armed (paced : cfg.Paced) (saves : cfg.SavesInTime) {t : Timers} (armed : t.Armed cfg) {r : Readings}
    (early : r.Early) : ∃ next, Timers.turn cfg t r = some next ∧ next.Armed cfg := by
  obtain ⟨testing, lease, ttl, snapshot⟩ := early
  -- A timer at the end of the clock is never due.
  have half : ∀ n : Int, n ≤ 4611686018427387903 → ¬9223372036854775807 ≤ n := by omega
  have on : t.nextSnapshot ≤ r.now → savesSnapshots cfg = true := fun due =>
    armed.resolve_left fun never => half r.now testing.2 (show Clock.max ≤ r.now from never ▸ due)
  obtain ⟨nextLease, leased⟩ : ∃ time, renewed (t.nextLease ≤ r.now) (Clock.deadline r.lease cfg.leaseSweepInterval)
      t.nextLease = some time := renewed_some fun _ => ⟨_, Clock.deadline_eq lease paced.lease.1.le paced.lease.2⟩
  obtain ⟨nextTtl, swept⟩ : ∃ time, renewed (t.nextTtl ≤ r.now) (Clock.deadline r.ttl cfg.ttlSweepInterval) t.nextTtl =
      some time := renewed_some fun _ => ⟨_, Clock.deadline_eq ttl paced.ttl.1 paced.ttl.2⟩
  obtain ⟨nextSnapshot, saved⟩ : ∃ time, renewed (t.nextSnapshot ≤ r.now)
      ((snapshotInterval cfg).bind (Clock.deadline r.snapshot)) t.nextSnapshot = some time :=
    renewed_some fun due => snapshot_deadline paced saves (on (of_decide_eq_true due)) snapshot
  refine ⟨⟨nextLease, nextTtl, nextSnapshot⟩, ?_, ?_⟩
  · simp only [turn, leased, swept, saved, Option.bind_eq_bind, Option.bind_some, Option.pure_def]
  · by_cases due : t.nextSnapshot ≤ r.now
    · exact .inr (on due)
    · rw [decide_eq_false due] at saved
      exact armed.imp_left fun never => (Option.some.inj saved).symm.trans never

theorem Timers.run_armed (paced : cfg.Paced) (saves : cfg.SavesInTime) {t : Timers} (armed : t.Armed cfg)
    {rounds : List Readings} (early : ∀ r ∈ rounds, r.Early) : ∃ last, run (Timers.turn cfg) rounds t = some last := by
  induction rounds generalizing t with
  | nil => exact ⟨t, rfl⟩
  | cons r rest ih =>
    obtain ⟨here, later⟩ := List.forall_mem_cons.mp early
    obtain ⟨next, turned, still⟩ := Timers.turn_armed paced saves armed here
    obtain ⟨last, ran⟩ := ih still later
    exact ⟨last, run_cons.mpr ⟨next, turned, ran⟩⟩

end Bounded

end Harbinger
