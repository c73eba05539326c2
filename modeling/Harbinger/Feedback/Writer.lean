import Harbinger.Container.Ring
import Harbinger.Feedback.Durability
import Harbinger.Transition

/-! `FeedbackWriter` as a system of publishers, the worker and `close`. Its steps are the start of `publish`, its attempt to
write an event and to get the mutex, which may fail, the worker's critical section and each part of its turn. Behind the
mutex `publish` meets only a worker that lowers the counters or changes `healthy`: its checks and the admission are one step,
with the value of `healthy` that it has read. `size_t` values are natural numbers with `sizeSub`. -/

namespace Harbinger.Feedback

inductive Drop where
  | capture | serialization | eventLimit | contention | bufferFull | closed | storage | shutdown | identityExhausted
  deriving DecidableEq

structure FeedbackConfig where
  bufferRecords : Nat := 4096
  bufferBytes : Nat := 32 * 1024 * 1024
  segmentBytes : Nat := 64 * 1024 * 1024

/-- Where the worker is in its turn, with the record it has taken. -/
inductive Phase (ρ : Type) where
  | waiting | holding (record : Option ρ) | writing (record : Option ρ) | releasing (record : ρ) | resting | sealing
  | ended

structure Writer (ρ : Type) where
  captured : Nat := 0
  pendingRecords : Nat := 0
  pendingBytes : Nat := 0
  drops : List Drop := []
  ring : Container.Ring (Option ρ)
  closing : Bool := false
  /-- The calls of `publish` before the mutex. -/
  calls : Nat := 0
  phase : Phase ρ := .waiting
  files : Files ρ := {}
  /-- All records in the order of admission, and those that were written or dropped. -/
  admissions : List ρ := []
  settled : List ρ := []

/-- What the clock and the storage tell the worker. -/
structure Answer where
  late : Bool := false
  due : Bool := false
  fault : Fault := .none
  renamed : Bool := true

inductive Act (ρ : Type) where
  | begin | attempt (outcome : Except Drop (Bool × ρ)) | work (answer : Answer) | close

namespace Writer
variable {ρ : Type} (config : FeedbackConfig) (size : ρ → Nat)

def drop (reason : Drop) (w : Writer ρ) : Writer ρ := { w with drops := reason :: w.drops }

/-- `publish` behind the mutex. -/
def enter (healthy : Bool) (record : ρ) (w : Writer ρ) : Writer ρ :=
  if w.closing then w.drop .closed
  else if !healthy then w.drop .storage
  else if config.bufferRecords ≤ w.pendingRecords ∨ sizeSub config.bufferBytes w.pendingBytes < size record then
    w.drop .bufferFull
  else { w with
    pendingBytes := w.pendingBytes + size record, pendingRecords := w.pendingRecords + 1
    ring := w.ring.push (some record), admissions := w.admissions ++ [record] }

def finishPending (bytes : Nat) (w : Writer ρ) : Writer ρ :=
  { w with pendingRecords := sizeSub w.pendingRecords 1, pendingBytes := sizeSub w.pendingBytes bytes }

/-- One round of `discard_locked`. -/
def discardOne (w : Writer ρ) : Writer ρ :=
  { finishPending ((w.ring.front none).elim 0 size) w with
    ring := w.ring.pop none, settled := w.settled ++ (w.ring.front none).toList, drops := .shutdown :: w.drops }

/-- The loop of `discard_locked`, which ends with the ring. -/
def discard : Nat → Writer ρ → Writer ρ
  | 0, w => w
  | queued + 1, w => discard queued (discardOne size w)

/-- The end of the critical section of `run`. -/
def serve (w : Writer ρ) : Writer ρ :=
  if w.closing && w.ring.queued = 0 then { w with phase := .sealing }
  else if w.ring.queued = 0 then { w with phase := .holding none }
  else { w with ring := w.ring.pop none, phase := .holding (w.ring.front none) }

/-- The critical section of `run`. -/
def wake (late : Bool) (w : Writer ρ) : Writer ρ :=
  serve (if w.closing && late then discard size w.ring.queued w else w)

/-- A `try` block over the files; the exception handler gives the segment up. -/
def guarded (renamed : Bool) (result : Except (Files ρ) (Files ρ)) : Files ρ :=
  match result with
  | .ok f => f
  | .error f => f.abandon renamed

/-- The next step of the worker. -/
def work (answer : Answer) (w : Writer ρ) : Option (Writer ρ) :=
  match w.phase with
  | .waiting => some (wake size answer.late w)
  | .holding record => some { w with
      files := if !w.files.healthy && answer.due then guarded answer.renamed (w.files.recover answer.fault) else w.files
      phase := .writing record }
  | .writing none => some { w with phase := .resting }
  | .writing (some record) =>
    let w := { w with settled := w.settled ++ [record], phase := .releasing record }
    if !w.files.healthy then some (w.drop .storage)
    else match w.files.append answer.fault config.segmentBytes size record with
      | .ok f => some { w with files := f }
      | .error f => some { w.drop .storage with files := f.abandon answer.renamed }
  | .releasing record => some { finishPending (size record) w with phase := .resting }
  | .resting => some { w with
      files := if w.files.healthy && answer.due then
          guarded answer.renamed (w.files.syncActive answer.fault >>= Files.call (answer.fault = .retention))
        else w.files
      phase := .waiting }
  | .sealing => some { w with
      files := if w.files.healthy then
          guarded answer.renamed (w.files.sealActive answer.fault >>= Files.call (answer.fault = .retention))
        else w.files
      phase := .ended }
  | .ended => none

def step (w : Writer ρ) : Act ρ → Option (Writer ρ)
  | .begin => some { w with captured := w.captured + 1, calls := w.calls + 1 }
  | .attempt outcome =>
    if w.calls = 0 then none
    else match outcome with
      | .error reason =>
        if reason ∈ [.identityExhausted, .eventLimit, .serialization, .contention] then
          some (drop reason { w with calls := w.calls - 1 })
        else none
      | .ok read => some (enter config size read.1 read.2 { w with calls := w.calls - 1 })
  | .work answer => work config size answer w
  | .close => some { w with closing := true }

/-- The constructor has opened the first segment. -/
def initial : Writer ρ := { ring := { slots := List.replicate config.bufferRecords none } }

end Writer

end Harbinger.Feedback
