import Harbinger.Arithmetic.Checked

/-! The worker's side of `FeedbackWriter`: the segments it writes, and `open_segment`, `sync_active`, `seal`,
`abandon`, `recover` and `append`. The storage answers with the first call that fails; a call that is
interrupted is made again, and a short write is followed by another one. A routine that throws
returns what it leaves behind as an error. Segments that retention removes stay in `parted`. -/

namespace Harbinger.Feedback

/-- A segment file with its complete records, how many of them an `fsync` has covered, and whether a write to it failed. -/
structure Segment (ρ : Type) where
  records : List ρ := []
  synced : Nat := 0
  failed : Bool := false

/-- `written`, `synced`, `uncertain`, `unsynced` and the files. A file under its `.active` name is `active`; those that were
renamed are `parted`, with whether they are sealed. -/
structure Files (ρ : Type) where
  healthy : Bool := true
  fd : Bool := true
  active : Option (Segment ρ) := some {}
  parted : List (Segment ρ × Bool) := []
  activeBytes : Nat := 0
  generation : Nat := 1
  written : Nat := 0
  synced : Nat := 0
  unsynced : Nat := 0
  uncertain : Nat := 0

/-- The first call of the storage that fails; `write n` fails after `n` bytes. -/
inductive Fault where
  | none | openRetention | create | createSync | sync | close | rename | sealSync | retention | quarantine
  | write (bytes : Nat)
  deriving DecidableEq

namespace Files
variable {ρ : Type} (fault : Fault)

def call (fails : Bool) (f : Files ρ) : Except (Files ρ) (Files ρ) := if fails then .error f else .ok f

/-- The file under its `.active` name gets its last name. -/
def part (sealing : Bool) (f : Files ρ) : Files ρ :=
  { f with active := Option.none, parted := f.parted ++ (f.active.map fun segment => (segment, sealing)).toList }

def openSegment (f : Files ρ) : Except (Files ρ) (Files ρ) := do
  let f ← call (fault = .openRetention) f
  let f ← call (f.generation = 2 ^ 64 - 1) f
  let f := { f with generation := f.generation + 1 }
  if fault = .create then .error { f with fd := false, active := .none }
  else call (fault = .createSync) { f with fd := true, active := some {}, activeBytes := 0, unsynced := 0 }

def syncActive (f : Files ρ) : Except (Files ρ) (Files ρ) :=
  if !f.fd then .ok f
  else do
    let f ← call (fault = .sync) f
    return { f with
      synced := f.synced + f.unsynced, unsynced := 0
      active := f.active.map fun segment => { segment with synced := segment.records.length } }

def sealActive (f : Files ρ) : Except (Files ρ) (Files ρ) := do
  let f ← syncActive fault f
  let f := { f with fd := false }
  let f ← call (fault = .close) f
  let f ← call (fault = .rename) f
  call (fault = .sealSync) { f.part true with activeBytes := 0 }

/-- Whether the file can be renamed is one more answer of the storage. -/
def abandon (renamed : Bool) (f : Files ρ) : Files ρ :=
  let f := { f with healthy := false, uncertain := f.uncertain + f.unsynced, unsynced := 0, fd := false }
  if renamed then f.part false else f

def recover (f : Files ρ) : Except (Files ρ) (Files ρ) := do
  let f ← call (f.active.isSome && fault = .quarantine) f
  let f ← openSegment fault (f.part false)
  return { f with healthy := true }

/-- The next segment, if the record does not fit into this one. -/
def rotate (segmentBytes bytes : Nat) (f : Files ρ) : Except (Files ρ) (Files ρ) :=
  if sizeSub segmentBytes f.activeBytes < bytes then sealActive fault f >>= openSegment fault else .ok f

def append (segmentBytes : Nat) (size : ρ → Nat) (record : ρ) (f : Files ρ) : Except (Files ρ) (Files ρ) := do
  let f ← rotate fault segmentBytes (size record) f
  let f ← call (fault = .retention) f
  match fault with
  | .write bytes => .error { f with
      uncertain := f.uncertain + 1, activeBytes := f.activeBytes + bytes
      active := f.active.map fun segment => { segment with failed := true } }
  | _ => .ok { f with
      written := f.written + 1, unsynced := f.unsynced + 1, activeBytes := f.activeBytes + size record
      active := f.active.map fun segment => { segment with records := segment.records ++ [record] } }

end Files

end Harbinger.Feedback
