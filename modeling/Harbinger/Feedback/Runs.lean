import Harbinger.Feedback.Writer

/-! Runs of the feedback writer: what holds between any two steps of publishers, worker and `close`. The pending counters
are given back outside the mutex, after the slot is free; what they count is said by the ring and the worker's phase. -/

namespace Harbinger.Feedback

variable {ρ : Type} {config : FeedbackConfig} {size : ρ → Nat}

/-- The record that the worker has neither written nor dropped. -/
def Phase.unsettled : Phase ρ → List ρ
  | .holding record | .writing record => record.toList
  | _ => []

/-- The record that the worker holds and that is still counted as pending. -/
def Phase.held : Phase ρ → List ρ
  | .releasing record => [record]
  | phase => phase.unsettled

def bytesOf (size : ρ → Nat) (records : List ρ) : Nat := (records.map size).sum

/-- The admitted records that are still in the ring. -/
def queue (admissions taken : List ρ) : List ρ := admissions.drop taken.length

/-- The ring holds the admitted records that have not been taken, in the order of their admission. -/
structure Ordered (config : FeedbackConfig) (ring : Container.Ring (Option ρ)) (admissions taken : List ρ) : Prop where
  slots : ring.slots.length = config.bufferRecords
  holds : ring.Holds none ((queue admissions taken).map some)
  order : admissions = taken ++ queue admissions taken

section Ring
variable {ring : Container.Ring (Option ρ)} {admissions taken : List ρ} (ordered : Ordered config ring admissions taken)
include ordered

theorem Ordered.push (free : ring.queued < config.bufferRecords) (record : ρ) :
    queue (admissions ++ [record]) taken = queue admissions taken ++ [record] ∧
      Ordered config (ring.push (some record)) (admissions ++ [record]) taken := by
  have known : taken.length ≤ admissions.length := by
    rw [ordered.order, List.length_append]
    omega
  have added : queue (admissions ++ [record]) taken = queue admissions taken ++ [record] :=
    List.drop_append_of_le_length known
  refine ⟨added, (List.length_set ..).trans ordered.slots, ?_, ?_⟩
  · rw [added, List.map_append]
    exact ordered.holds.push (by rwa [ordered.slots]) _
  · rw [added, ← List.append_assoc, ← ordered.order]

theorem Ordered.pop (nonempty : ring.queued ≠ 0) : ∃ record, ring.front none = some record ∧
    queue admissions taken = record :: queue admissions (taken ++ [record]) ∧
      Ordered config (ring.pop none) admissions (taken ++ [record]) := by
  have holds := ordered.holds
  cases known : queue admissions taken with
  | nil => exact absurd (known ▸ holds).queued nonempty
  | cons record rest =>
    have later : queue admissions (taken ++ [record]) = rest := by
      rw [queue, List.length_append, ← List.drop_drop]
      exact congrArg (List.drop 1) known
    rw [known, List.map_cons] at holds
    refine ⟨record, holds.pop.1, by rw [later], (List.length_set ..).trans ordered.slots, later ▸ holds.pop.2, ?_⟩
    rw [later, List.append_assoc]
    exact ordered.order.trans (congrArg _ known)

end Ring

/-- The files have a part of the settled records. While the worker runs, the storage is healthy or has no descriptor. -/
structure Stored (files : Files ρ) (settled : List ρ) (phase : Phase ρ) : Prop where
  sound : files.Sound
  ready : files.healthy = true → phase = .ended ∨ files.Ready
  closed : files.healthy = false → files.fd = false
  within : files.contents.Sublist settled

section Files
variable {files : Files ρ} {settled more : List ρ} {phase next : Phase ρ} (stored : Stored files settled phase)
include stored

/-- A `try` block of the worker that writes no record. -/
theorem Stored.guarded {result : Except (Files ρ) (Files ρ)} (renamed : Bool)
    (ends : Files.Ends result (fun g => g.Sound ∧ g.contents = files.contents ∧ g.healthy = true ∧ (next = .ended ∨ g.Ready))
      (Files.Keeps files)) :
    Stored (Writer.guarded renamed result) settled next ∧ (Writer.guarded renamed result).written = files.written := by
  cases result with
  | ok g =>
    obtain ⟨sound, contents, healthy, ready⟩ := ends
    exact ⟨⟨sound, fun _ => ready, fun ill => absurd (healthy.symm.trans ill) (by simp), contents ▸ stored.within⟩,
      by rw [Writer.guarded, sound.written, contents, stored.sound.written]⟩
  | error g =>
    obtain ⟨sound, contents, closed, ill⟩ := ends.1.abandon renamed
    rw [ends.2.1] at contents
    exact ⟨⟨sound, fun healthy => absurd (ill.symm.trans healthy) (by simp), fun _ => closed, contents ▸ stored.within⟩,
      by rw [Writer.guarded, sound.written, contents, stored.sound.written]⟩

/-- The worker goes on without the files; more records may be lost. -/
theorem Stored.turn (going : phase ≠ .ended) (grown : settled.Sublist more) : Stored files more next :=
  ⟨stored.sound, fun healthy => .inr ((stored.ready healthy).resolve_left going), stored.closed, stored.within.trans grown⟩

end Files

namespace Writer
variable {w v : Writer ρ}

structure Kept (config : FeedbackConfig) (size : ρ → Nat) (w : Writer ρ) : Prop where
  ordered : Ordered config w.ring w.admissions (w.settled ++ w.phase.unsettled)
  records : w.pendingRecords = w.ring.queued + w.phase.held.length
  bytes : w.pendingBytes = bytesOf size (queue w.admissions (w.settled ++ w.phase.unsettled)) + bytesOf size w.phase.held
  recordsFit : w.pendingRecords ≤ config.bufferRecords
  bytesFit : w.pendingBytes ≤ config.bufferBytes
  drained : w.phase = .sealing ∨ w.phase = .ended → w.closing = true ∧ w.ring.queued = 0
  /-- A captured event is before the mutex, in the ring, with the worker, written or dropped. -/
  counted : w.captured = w.calls + w.ring.queued + w.phase.unsettled.length + w.files.written + w.drops.length
  stored : Stored w.files w.settled w.phase

/-- `discard_locked` leaves the ring empty; what one round keeps is kept. -/
theorem discard_rule (invariant : Writer ρ → Prop)
    (round : ∀ w, invariant w → w.ring.queued ≠ 0 → invariant (discardOne size w)) :
    ∀ (queued : Nat) (w : Writer ρ), w.ring.queued = queued → invariant w →
      invariant (discard size queued w) ∧ (discard size queued w).ring.queued = 0
  | 0, _, empty, holds => ⟨holds, empty⟩
  | queued + 1, w, count, holds => by
    have next : (discardOne size w).ring.queued = queued := by
      change w.ring.queued - 1 = queued
      omega
    exact discard_rule invariant round queued _ next (round w holds (by omega))

section Steps
variable (kept : w.Kept config size)
include kept

theorem Kept.leave (reason : Drop) (called : w.calls ≠ 0) :
    (drop reason { w with calls := w.calls - 1 }).Kept config size := by
  have counted := kept.counted
  exact { kept with counted := by simp only [drop, List.length_cons]; omega }

theorem Kept.enter (healthy : Bool) (record : ρ) (called : w.calls ≠ 0) :
    (enter config size healthy record { w with calls := w.calls - 1 }).Kept config size := by
  obtain ⟨ordered, records, bytes, recordsFit, bytesFit, drained, counted, stored⟩ := id kept
  unfold Writer.enter
  split_ifs with closed ill crowded
  any_goals exact kept.leave _ called
  dsimp only at crowded
  rw [sizeSub_of_le bytesFit, not_or, not_le, not_lt] at crowded
  obtain ⟨added, ordered⟩ := ordered.push (by omega) record
  refine ⟨ordered, ?_, ?_, crowded.1, ?_, fun finished => absurd (drained finished).1 closed, ?_, stored⟩
  · simp only [Container.Ring.push]
    omega
  · simp only [added, bytes, bytesOf, List.map_append, List.sum_append, List.map_singleton, List.sum_singleton]
    omega
  · dsimp only
    omega
  · simp only [Container.Ring.push]
    omega

/-- The worker goes on with the same record. -/
theorem Kept.turn {files : Files ρ} {next : Phase ρ}
    (same : (next.unsettled, next.held) = (w.phase.unsettled, w.phase.held))
    (drained : next = .sealing ∨ next = .ended → w.closing = true ∧ w.ring.queued = 0)
    (stored : Stored files w.settled next ∧ files.written = w.files.written) :
    ({ w with files := files, phase := next } : Writer ρ).Kept config size := by
  obtain ⟨ordered, records, bytes, recordsFit, bytesFit, _, counted, _⟩ := kept
  obtain ⟨unsettled, held⟩ := Prod.mk.inj same
  rw [← unsettled] at ordered bytes counted
  rw [← held] at records bytes
  exact ⟨ordered, records, bytes, recordsFit, bytesFit, drained, stored.2 ▸ counted, stored.1⟩

/-- The record at the head of the ring is taken. -/
theorem Kept.take (idle : w.phase = .waiting) (nonempty : w.ring.queued ≠ 0) : ∃ record, w.ring.front none = some record ∧
    ({ w with ring := w.ring.pop none, phase := .holding (some record) } : Writer ρ).Kept config size := by
  obtain ⟨ordered, records, bytes, recordsFit, bytesFit, _, counted, stored⟩ := kept
  simp only [idle, Phase.held, Phase.unsettled, List.append_nil, List.length_nil] at ordered records bytes counted
  obtain ⟨record, front, known, ordered⟩ := ordered.pop nonempty
  refine ⟨record, front, ordered, ?_, ?_, recordsFit, bytesFit, by simp, ?_, stored.turn (by simp [idle]) (.refl _)⟩
  · simp only [records, Container.Ring.pop, Phase.held, Phase.unsettled, Option.toList_some, List.length_singleton]
    omega
  · simp [bytes, known, bytesOf, Phase.held, Phase.unsettled]
    omega
  · simp only [counted, Container.Ring.pop, Phase.unsettled, Option.toList_some, List.length_singleton]
    omega

/-- Its record is written or dropped. -/
theorem Kept.settle {record : ρ} (holding : (w.phase.unsettled, w.phase.held) = ([record], [record])) {files : Files ρ}
    {drops : List Drop} (one : files.written + drops.length = w.files.written + w.drops.length + 1)
    (stored : Stored files (w.settled ++ [record]) (.releasing record)) :
    ({ w with settled := w.settled ++ [record], phase := .releasing record, files := files, drops := drops } :
      Writer ρ).Kept config size := by
  obtain ⟨ordered, records, bytes, recordsFit, bytesFit, _, counted, _⟩ := kept
  obtain ⟨unsettled, held⟩ := Prod.mk.inj holding
  rw [unsettled] at ordered bytes counted
  rw [held] at records bytes
  refine ⟨?_, records, ?_, recordsFit, bytesFit, by simp, ?_, stored⟩
  · simpa only [Phase.unsettled, List.append_nil] using ordered
  · simpa only [Phase.unsettled, Phase.held, List.append_nil] using bytes
  · simp only [Phase.unsettled, List.length_nil, List.length_singleton] at counted ⊢
    omega

/-- Its record is counted no more: the counters do not wrap around. -/
theorem Kept.finishPending {record : ρ} (turn : w.phase = .releasing record) :
    ({ finishPending (size record) w with phase := .resting } : Writer ρ).Kept config size := by
  obtain ⟨ordered, records, bytes, recordsFit, bytesFit, _, counted, stored⟩ := kept
  rw [turn] at ordered records bytes counted stored
  simp only [Phase.held, bytesOf, List.map_singleton, List.sum_singleton, List.length_singleton] at records bytes
  have fewer : sizeSub w.pendingRecords 1 = w.ring.queued := by rw [sizeSub_of_le (by omega)]; omega
  have less : sizeSub w.pendingBytes (size record) = bytesOf size (queue w.admissions (w.settled ++ [])) := by
    rw [sizeSub_of_le (by omega), bytes, bytesOf]
    exact Nat.add_sub_cancel ..
  rw [Writer.finishPending, fewer, less]
  refine ⟨ordered, rfl, rfl, ?_, ?_, by simp, counted, stored.turn (by simp) (.refl _)⟩
  · dsimp only
    omega
  · exact (Nat.le_add_right ..).trans (bytes.symm.trans_le bytesFit)

/-- A round of `discard_locked` takes a record and drops it. -/
theorem Kept.discardOne (idle : w.phase = .waiting) (nonempty : w.ring.queued ≠ 0) : (discardOne size w).Kept config size := by
  obtain ⟨record, front, taken⟩ := kept.take idle nonempty
  have lost := @settle _ _ _ _ taken record rfl w.files (.shutdown :: w.drops) rfl
    (taken.stored.turn (by simp) (List.sublist_append_left ..))
  have done := @turn _ _ _ _ (lost.finishPending rfl) w.files .waiting rfl (by simp)
    ⟨lost.stored.turn (by simp) (.refl _), rfl⟩
  simpa [Writer.discardOne, Writer.finishPending, front, ← idle] using done

theorem Kept.serve (idle : w.phase = .waiting) : w.serve.Kept config size := by
  have going : ∀ next, Stored w.files w.settled next := fun next => kept.stored.turn (by simp [idle]) (.refl _)
  unfold Writer.serve
  split_ifs with finished empty
  · rw [Bool.and_eq_true, decide_eq_true_iff] at finished
    exact kept.turn (by rw [idle]; rfl) (fun _ => finished) ⟨going _, rfl⟩
  · exact kept.turn (by rw [idle]; rfl) (by simp) ⟨going _, rfl⟩
  · obtain ⟨record, front, taken⟩ := kept.take idle empty
    rwa [front]

theorem Kept.wake (idle : w.phase = .waiting) (late : Bool) : (wake size late w).Kept config size := by
  unfold Writer.wake
  split_ifs
  · obtain ⟨⟨kept, idle⟩, -⟩ := discard_rule (fun v => v.Kept config size ∧ v.phase = .waiting)
      (fun v ⟨kept, idle⟩ nonempty => ⟨kept.discardOne idle nonempty, idle⟩) _ w rfl ⟨kept, idle⟩
    exact kept.serve idle
  · exact kept.serve idle

theorem Kept.work {answer : Answer} (moved : work config size answer w = some v) : v.Kept config size := by
  unfold Writer.work at moved
  have stored := kept.stored
  split at moved <;> rename_i turn <;> rw [turn] at stored <;> (try cases moved)
  case h_1 => exact kept.wake turn _
  case h_2 =>
    -- the storage may be opened again
    refine kept.turn (by rw [turn]; rfl) (by simp) ?_
    split_ifs with broken
    · rw [Bool.and_eq_true, Bool.not_eq_true'] at broken
      exact stored.guarded _ (Files.ends_recover _ stored.sound (stored.closed broken.1))
    · exact ⟨stored.turn (by simp) (.refl _), rfl⟩
  case h_3 =>
    exact kept.turn (by rw [turn]; rfl) (by simp) ⟨stored.turn (by simp) (.refl _), rfl⟩
  case h_4 record =>
    -- written or dropped
    have grown := List.sublist_append_left w.settled [record]
    dsimp only at moved
    split_ifs at moved with ill
    · cases moved
      exact kept.settle (by rw [turn]; rfl) rfl (stored.turn (by simp) grown)
    · have healthy : w.files.healthy = true := by simpa using ill
      have ends := Files.ends_append answer.fault config.segmentBytes size record stored.sound
        ((stored.ready healthy).resolve_left (by simp))
      split at moved <;> rename_i result <;> rw [result] at ends <;> cases moved
      · obtain ⟨sound, ready, contents, same⟩ := ends
        refine kept.settle (by rw [turn]; rfl) ?_ ⟨sound, fun _ => .inr ready, fun ill => ?_, ?_⟩
        · rw [sound.written, contents, List.length_append, ← stored.sound.written, List.length_singleton]
          omega
        · exact absurd ((same.trans healthy).symm.trans ill) (by simp)
        · rw [contents]
          exact stored.within.append (.refl _)
      · obtain ⟨stored, written⟩ := @Stored.guarded _ _ _ _ (.releasing record) stored (.error _) answer.renamed ends
        rw [guarded] at written
        exact kept.settle (by rw [turn]; rfl) (by rw [written]; rfl) (stored.turn (by simp) grown)
  case h_5 => exact kept.finishPending turn
  case h_6 =>
    refine kept.turn (by rw [turn]; rfl) (by simp) ?_
    split_ifs with due
    · have healthy := (Bool.and_eq_true _ _ ▸ due).1
      exact stored.guarded _ ((Files.ends_syncActive _ stored.sound ((stored.ready healthy).resolve_left (by simp))).bind
        fun g ⟨kept, ready, _⟩ => Files.ends_call kept ⟨kept.1, kept.2.1, kept.2.2.trans healthy, .inr ready⟩)
    · exact ⟨stored.turn (by simp) (.refl _), rfl⟩
  case h_7 =>
    refine kept.turn (by rw [turn]; rfl) (fun _ => kept.drained (.inl turn)) ?_
    split_ifs with healthy
    · exact stored.guarded _ ((Files.ends_sealActive _ stored.sound ((stored.ready healthy).resolve_left (by simp))).bind
        fun g ⟨kept, _⟩ => Files.ends_call kept ⟨kept.1, kept.2.1, kept.2.2.trans healthy, .inl rfl⟩)
    · exact ⟨stored.turn (by simp) (.refl _), rfl⟩

theorem Kept.step {act : Act ρ} (moved : step config size w act = some v) : v.Kept config size := by
  cases act with
  | begin =>
    have counted := kept.counted
    exact Option.some.inj moved ▸ { kept with counted := by dsimp only; omega }
  | attempt outcome =>
    cases outcome <;> simp only [Writer.step] at moved <;> split_ifs at moved with none
    · exact Option.some.inj moved ▸ kept.leave _ none
    · exact Option.some.inj moved ▸ kept.enter _ _ none
  | work answer => exact kept.work moved
  | close => exact Option.some.inj moved ▸ { kept with drained := fun finished => ⟨rfl, (kept.drained finished).2⟩ }

end Steps

theorem kept_initial (slots : 0 < config.bufferRecords) : (initial config : Writer ρ).Kept config size := by
  refine ⟨⟨List.length_replicate .., Container.Ring.holds_replicate slots none, rfl⟩, rfl, rfl, Nat.zero_le _, Nat.zero_le _,
    by simp [initial], rfl, ⟨?_, fun _ => .inr ⟨rfl, {}, rfl, rfl⟩, by simp [initial], ?_⟩⟩
  · exact ⟨rfl, by simp [initial, Files.segments], rfl, by simp [initial]⟩
  · simp [initial, Files.contents, Files.segments]

theorem kept_run (slots : 0 < config.bufferRecords) {acts : List (Act ρ)}
    (ran : Transition.run (step config size) acts (initial config) = some w) : w.Kept config size :=
  Transition.run_invariant (Kept config size) (fun _ _ _ kept moved => kept.step moved) (kept_initial slots) ran

/-- How many steps a worker that is being closed has left. -/
def rank : Phase ρ → Nat
  | .ended => 0 | .sealing => 1 | .waiting => 2 | .resting => 3 | .releasing _ => 4 | .writing _ => 5 | .holding _ => 6

def distance (w : Writer ρ) : Nat := 5 * w.ring.queued + rank w.phase

def works : Act ρ → Bool
  | .work _ => true
  | _ => false

theorem distance_serve (closing : w.closing = true) (idle : w.phase = .waiting) :
    w.serve.closing = true ∧ w.serve.distance < w.distance := by
  unfold serve
  split_ifs with finished empty
  · exact ⟨closing, by simp [distance, rank, idle]⟩
  · simp [closing, empty] at finished
  · refine ⟨closing, ?_⟩
    simp only [distance, Container.Ring.pop, rank, idle]
    omega

/-- Once `close` has been called nothing is admitted, and each step of the worker brings it nearer to its end. -/
theorem closing_step (closing : w.closing = true) {act : Act ρ} (moved : step config size w act = some v) :
    v.closing = true ∧ v.distance + (works act).toNat ≤ w.distance := by
  cases act with
  | begin => exact Option.some.inj moved ▸ ⟨closing, le_rfl⟩
  | attempt outcome =>
    cases outcome <;> simp only [step, enter] at moved <;> split_ifs at moved <;> cases moved <;>
      exact ⟨closing, le_rfl⟩
  | close => exact Option.some.inj moved ▸ ⟨rfl, le_rfl⟩
  | work answer =>
    simp only [step, work] at moved
    split at moved <;> rename_i turn
    case h_1 =>
      cases moved
      unfold wake
      split_ifs with late
      · obtain ⟨⟨still, idle⟩, empty⟩ := @discard_rule _ size (fun v => v.closing = true ∧ v.phase = .waiting)
          (fun _ holds _ => holds) _ w rfl ⟨closing, turn⟩
        refine ⟨(distance_serve still idle).1, (distance_serve still idle).2.trans_le ?_⟩
        simp only [distance, empty, idle, turn]
        omega
      · exact distance_serve closing turn
    all_goals (try split_ifs at moved) <;> (try split at moved) <;> cases moved <;>
      exact ⟨closing, by simp [distance, turn, rank, works, drop, finishPending]⟩

theorem closing_run {acts : List (Act ρ)} (closing : w.closing = true)
    (ran : Transition.run (step config size) acts w = some v) : acts.countP works ≤ w.distance := by
  induction acts generalizing w with
  | nil => exact Nat.zero_le _
  | cons act rest ih =>
    obtain ⟨next, moved, later⟩ := Transition.run_cons.mp ran
    obtain ⟨still, less⟩ := closing_step closing moved
    have rest := ih still later
    rw [List.countP_cons]
    cases known : works act <;> simp [known] at less ⊢ <;> omega

section Results
variable {acts : List (Act ρ)} (slots : 0 < config.bufferRecords)
  (ran : Transition.run (step config size) acts (initial config) = some w)
include slots ran

theorem pending_bounded : w.pendingRecords ≤ config.bufferRecords ∧ w.pendingBytes ≤ config.bufferBytes ∧
    w.pendingRecords = w.ring.queued + w.phase.held.length ∧
    ∃ queue, w.admissions = w.settled ++ w.phase.unsettled ++ queue ∧ w.ring.Holds none (queue.map some) ∧
      w.pendingBytes = bytesOf size queue + bytesOf size w.phase.held := by
  have kept := kept_run slots ran
  exact ⟨kept.recordsFit, kept.bytesFit, kept.records, _, kept.ordered.order, kept.ordered.holds, kept.bytes⟩

theorem durability_counted : w.files.written = w.files.contents.length ∧ w.files.synced ≤ w.files.written ∧
    w.files.written + w.files.segments.countP Segment.failed = w.files.synced + w.files.unsynced + w.files.uncertain := by
  have sound := (kept_run slots ran).stored.sound
  obtain ⟨synced, exposed, total⟩ := Files.sum_weight sound.covered
  rw [← sound.totals, Prod.mk.injEq, Prod.mk.injEq] at total
  exact ⟨sound.written, by omega, by omega⟩

theorem disk_ordered : w.files.contents.Sublist w.admissions ∧
    ∀ s, (s, true) ∈ w.files.parted → s.synced = s.records.length ∧ s.failed = false := by
  have kept := kept_run slots ran
  refine ⟨kept.stored.within.trans ?_, kept.stored.sound.whole⟩
  rw [kept.ordered.order, List.append_assoc]
  exact List.sublist_append_left ..

end Results

theorem session_ended : ∃ w : Writer Nat, Transition.run (step { bufferRecords := 1 } id)
    ([.begin, .attempt (.ok (true, 3)), .close] ++ List.replicate 7 (.work {})) (initial { bufferRecords := 1 }) = some w ∧
      w.closing = true ∧ w.phase = .ended := ⟨_, rfl, rfl, rfl⟩

theorem pending_bounded_session : ∃ w : Writer Nat, w.phase = .ended ∧ w.pendingRecords ≤ 1 :=
  have ⟨w, ran, _, ended⟩ := session_ended
  ⟨w, ended, (pending_bounded (by decide) ran).1⟩

theorem durability_counted_session : ∃ w : Writer Nat, w.phase = .ended ∧ w.files.synced ≤ w.files.written :=
  have ⟨w, ran, _, ended⟩ := session_ended
  ⟨w, ended, (durability_counted (by decide) ran).2.1⟩

theorem disk_ordered_session : ∃ w : Writer Nat, w.phase = .ended ∧ w.files.contents.Sublist w.admissions :=
  have ⟨w, ran, _, ended⟩ := session_ended
  ⟨w, ended, (disk_ordered (by decide) ran).1⟩

end Writer
end Harbinger.Feedback
