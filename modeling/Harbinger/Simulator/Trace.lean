import Harbinger.Ml.Features

/-! The common trace format: `write` and `read` of `analysis/trace_format.py` and `load` of
`tools/trace_io.hpp`. Texts are UTF-8; the numbers are of any type with the functions that the
two languages have for them. What was written is read back by both, as long as there are no more
different keys than an id can tell apart. -/

namespace Harbinger.Simulator
open Ml

/-- A row of a trace, over the numbers of type `δ`. -/
structure Invocation (δ : Type) where
  arrivalMs : δ
  key : UInt32
  durationMs : δ

/-- `_FORBIDDEN`: comma, quote, carriage return and line feed. -/
def forbidden : Bytes := [44, 34, 13, 10]

/-- Doubles, with `repr` and `float` of Python and `std::stod`, which both invert `repr`. -/
structure Floats (δ : Type) where
  repr : δ → Bytes
  float : Bytes → Option δ
  stod : Bytes → Option δ
  finite : δ → Bool
  less : δ → δ → Bool
  zero : δ
  lowest : δ
  nan : δ
  float_repr : ∀ x, finite x → float (repr x) = some x
  stod_repr : ∀ x, finite x → stod (repr x) = some x
  repr_plain : ∀ x, finite x → repr x ≠ [] ∧ ∀ byte ∈ repr x, byte ∉ forbidden
  nan_finite : finite nan = false

structure Row (δ : Type) where
  arrivalMs : δ
  key : Bytes
  durationMs : δ
  size : Option δ := none

variable {δ : Type} (f : Floats δ)

/-- An error that names the line. -/
def atLine (line : Nat) (what : String) : String := "line " ++ toString line ++ ": " ++ what

/-- `_check`. -/
def check (row : Row δ) (previous : δ) (line : Nat) : Except String Unit := do
  reject (¬f.finite row.arrivalMs) (atLine line "arrival_ms is not finite")
  reject (f.less row.arrivalMs previous) (atLine line "rows are not sorted by arrival_ms")
  reject (row.key = [] ∨ ∃ byte ∈ row.key, byte ∈ forbidden)
    (atLine line "key must be non-empty without comma, quote or line break")
  reject (¬f.finite row.durationMs ∨ f.less row.durationMs f.zero) (atLine line "duration_ms must be finite and >= 0")
  reject (∃ size ∈ row.size, ¬f.finite size ∨ f.less size f.zero) (atLine line "size must be finite and >= 0")

/-- The header, as its fields. -/
def header (sized : Bool) : List Bytes :=
  [ascii "arrival_ms", ascii "key", ascii "duration_ms"] ++ if sized then [ascii "size"] else []

def joined (fields : List Bytes) : Bytes := [44].intercalate fields

def rowFields (sized : Bool) (row : Row δ) : List Bytes :=
  [f.repr row.arrivalMs, row.key, f.repr row.durationMs] ++
    if sized then [(row.size.map f.repr).getD []] else []

/-- The loop of `write` behind `count` rows. -/
def writeRows (sized : Bool) : Nat → δ → List (Row δ) → Except String Bytes
  | _, _, [] => return []
  | count, previous, row :: rest => do
    check f row previous (count + 2)
    reject (!sized ∧ row.size.isSome) "row has a size but the file was opened without a size column"
    let tail ← writeRows sized (count + 1) row.arrivalMs rest
    return joined (rowFields f sized row) ++ [10] ++ tail

/-- The number of rows and the file. -/
def write (rows : List (Row δ)) (sized : Bool) : Except String (Nat × Bytes) := do
  let text ← writeRows f sized 0 f.lowest rows
  return (rows.length, joined (header sized) ++ [10] ++ text)

/-- The lines of a text; what follows the last break is a line if it is not empty. -/
def linesAt (breaks : UInt8 → Bool) (text : Bytes) : List Bytes :=
  let parts := text.splitOnP breaks
  if parts.getLast? = some [] then parts.dropLast else parts

/-- `std::getline` until it fails. -/
def getlines (text : Bytes) : List Bytes := linesAt (· == 10) text

def joinCrLf : Bytes → Bytes
  | 13 :: 10 :: rest => 10 :: joinCrLf rest
  | byte :: rest => byte :: joinCrLf rest
  | [] => []

/-- The records of `csv.reader`; what it makes of a text with quotes is left open. -/
def csvReader (quoted : Bytes → List (List Bytes)) (text : Bytes) : List (List Bytes) :=
  if 34 ∈ text then quoted text
  else (linesAt (fun byte => byte == 10 || byte == 13) (joinCrLf text)).map fun line =>
    if line = [] then [] else line.splitOn 44

def toFloat (text : Bytes) : Except String δ :=
  match f.float text with
  | none => throw "could not convert string to float"
  | some value => return value

/-- The size in a record, if there is one. -/
def readSize (sized : Bool) (fields : List Bytes) : Except String (Option δ) :=
  if sized ∧ fields.getD 3 [] ≠ [] then some <$> toFloat f (fields.getD 3 []) else return none

/-- The loop of `read`. -/
def readRows (sized : Bool) : Nat → δ → List (List Bytes) → Except String (List (Row δ))
  | _, _, [] => return []
  | line, previous, fields :: rest => do
    reject (fields.length ≠ (header sized).length)
      (atLine line ("expected " ++ toString (header sized).length ++ " fields"))
    let size ← readSize f sized fields
    let arrivalMs ← toFloat f (fields.getD 0 [])
    let durationMs ← toFloat f (fields.getD 2 [])
    let row : Row δ := { arrivalMs, key := fields.getD 1 [], durationMs, size }
    check f row previous line
    let rows ← readRows sized (line + 1) row.arrivalMs rest
    return row :: rows

def read (quoted : Bytes → List (List Bytes)) (text : Bytes) : Except String (List (Row δ)) :=
  match csvReader quoted text with
  | [] => throw "not a harbinger-trace-v1 file"
  | first :: records =>
    if first = header false then readRows f false 2 f.lowest records
    else if first = header true then readRows f true 2 f.lowest records
    else throw "not a harbinger-trace-v1 file"

structure Trace (δ : Type) where
  rows : List (Invocation δ) := []
  keys : List Bytes := []
  sizes : List δ := []

/-- `ids` with the trace. -/
structure Loader (δ : Type) extends Trace δ where
  ids : List (Bytes × UInt32) := []

/-- The end of an iteration of `load_common`. -/
def Loader.add (l : Loader δ) (arrivalMs : δ) (key : Bytes) (durationMs : δ) (sizes : List δ) : Loader δ :=
  match l.ids.lookup key with
  | some id => { l with rows := l.rows ++ [⟨arrivalMs, id, durationMs⟩], sizes := l.sizes ++ sizes }
  | none => { l with
      ids := l.ids ++ [(key, l.keys.length.toUInt32)]
      keys := l.keys ++ [key]
      rows := l.rows ++ [⟨arrivalMs, l.keys.length.toUInt32, durationMs⟩]
      sizes := l.sizes ++ sizes }

def toDouble (text : Bytes) : Except String δ :=
  match f.stod text with
  | none => throw "stod"
  | some value => return value

/-- The size that `load_common` stores. -/
def loadSize (sized : Bool) (number : Nat) (field : Bytes) : Except String (List δ) :=
  if ¬sized then return []
  else if field = [] then return [f.nan]
  else do
    let size ← toDouble f field
    reject (¬f.finite size ∨ f.less size f.zero) (atLine number "bad size")
    return [size]

/-- `load_common` from line `number` on; the positions `a`, `b` and `c` cut a line at its commas. -/
def loadRows (sized : Bool) : Nat → δ → Loader δ → List Bytes → Except String (Loader δ)
  | _, _, l, [] => return l
  | number, previous, l, line :: rest => do
    let fields := line.splitOn 44
    reject (fields.length ≠ if sized then 4 else 3) (atLine number "wrong number of fields")
    let key := fields.getD 1 []
    reject (key = [] ∨ 34 ∈ key) (atLine number "bad key")
    let arrival ← toDouble f (fields.getD 0 [])
    let duration ← toDouble f (fields.getD 2 [])
    reject (¬f.finite arrival ∨ f.less arrival previous) (atLine number "rows must be sorted by arrival_ms")
    reject (¬f.finite duration ∨ f.less duration f.zero) (atLine number "bad duration_ms")
    let sizes ← loadSize f sized number (fields.getD 3 [])
    loadRows sized (number + 1) arrival (l.add arrival key duration sizes) rest

/-- `load`; the reader of the Azure format is a parameter. -/
def load (azure : List Bytes → Except String (Trace δ)) (text : Bytes) : Except String (Trace δ) :=
  match getlines text with
  | [] => throw "empty trace"
  | first :: rest =>
    if first = ascii "arrival_ms,key,duration_ms" then Loader.toTrace <$> loadRows f false 2 f.lowest {} rest
    else if first = ascii "arrival_ms,key,duration_ms,size" then Loader.toTrace <$> loadRows f true 2 f.lowest {} rest
    else if first ≠ ascii "app,func,end_timestamp,duration" then throw "unexpected header"
    else azure rest

/-- The rows that a trace stands for: keys through the table, and no size where there is no column or a NaN. -/
def Trace.readBack (t : Trace δ) : List (Row δ) :=
  t.rows.zipIdx.map fun (row, i) =>
    { arrivalMs := row.arrivalMs, key := t.keys.getD row.key.toNat [], durationMs := row.durationMs
      size := t.sizes[i]?.filter f.finite }

end Harbinger.Simulator
