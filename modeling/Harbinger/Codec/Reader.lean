import Mathlib

/-! Reading a byte string from front to back with bounds checks. A reader keeps the extents it
has read, so that staying inside the string is a property of its cursor; `Reads` is the
exact form of a round trip that composes along a format. -/

namespace Codec

/-- The low `width` bytes of a number, least significant first. -/
def littleEndian : Nat → Nat → List UInt8
  | 0, _ => []
  | width + 1, n => n.toUInt8 :: littleEndian width (n / 256)

def ofLittleEndian (bytes : List UInt8) : Nat := bytes.foldr (fun b rest => b.toNat + 256 * rest) 0

@[simp] theorem length_littleEndian (width n : Nat) : (littleEndian width n).length = width := by
  induction width generalizing n with
  | zero => rfl
  | succ width known => rw [littleEndian, List.length_cons, known]

theorem ofLittleEndian_littleEndian {width n : Nat} (small : n < 256 ^ width) :
    ofLittleEndian (littleEndian width n) = n := by
  induction width generalizing n with
  | zero =>
    rw [pow_zero, Nat.lt_one_iff] at small
    rw [small]
    rfl
  | succ width known =>
    have rest : n / 256 < 256 ^ width := Nat.div_lt_of_lt_mul (by rwa [pow_succ'] at small)
    rw [littleEndian, ofLittleEndian, List.foldr_cons, ← ofLittleEndian, known rest, Nat.toUInt8, UInt8.toNat_ofNat']
    omega

/-- The number of a two's complement representation in `width` bytes. -/
def signed (width n : Nat) : Int := Int.bmod n (256 ^ width)

/-- The two's complement representation of a number in `width` bytes. -/
def unsigned (width : Nat) (value : Int) : Nat := (value % (256 ^ width : Nat)).toNat

theorem signed_unsigned {width : Nat} {value : Int} (low : -(256 ^ width : Nat) ≤ 2 * value)
    (high : 2 * value < (256 ^ width : Nat)) : signed width (unsigned width value) = value := by
  have positive : (0 : Int) < (256 ^ width : Nat) := by exact_mod_cast Nat.pow_pos (by decide)
  rw [signed, unsigned, Int.toNat_of_nonneg (Int.emod_nonneg _ positive.ne'), Int.emod_bmod]
  exact Int.bmod_eq_of_le_mul_two (by omega) (by omega)

theorem unsigned_lt (width : Nat) (value : Int) : unsigned width value < 256 ^ width := by
  have positive : (0 : Int) < (256 ^ width : Nat) := by exact_mod_cast Nat.pow_pos (by decide)
  have bound := Int.emod_lt_of_pos value positive
  have nonnegative := Int.emod_nonneg value positive.ne'
  unfold unsigned
  omega

/-- A position in a byte string, and the extents read so far. -/
structure Cursor where
  data : List UInt8
  pos : Nat := 0
  reads : List (Nat × Nat) := []

namespace Cursor

def rest (c : Cursor) : List UInt8 := c.data.drop c.pos

/-- The cursor and everything it has read lie inside the string. -/
structure Inside (c : Cursor) : Prop where
  position : c.pos ≤ c.data.length
  extents : ∀ extent ∈ c.reads, extent.1 + extent.2 ≤ c.data.length

end Cursor

/-- A reader moves the cursor and may fail; the cursor survives a failure. -/
abbrev Reader (α : Type) := ExceptT String (StateM Cursor) α

namespace Reader
variable {α β : Type}

def start (r : Reader α) (c : Cursor) : Except String α × Cursor := StateT.run (ExceptT.run r) c

/-- The next `width` bytes. -/
def take (width : Nat) (message : String) : Reader (List UInt8) := fun c =>
  if c.data.length - c.pos < width then (.error message, c)
  else (.ok (c.rest.take width), { c with pos := c.pos + width, reads := (c.pos, width) :: c.reads })

/-- Whether everything has been read. -/
def done : Reader Bool := fun c => (.ok (c.pos = c.data.length), c)

/-- Fails with the message if the condition holds. -/
def refuse (condition : Prop) [Decidable condition] (message : String) : Reader Unit :=
  if condition then throw message else return

/-- The reader `count` times. -/
def times (r : Reader α) : Nat → Reader (List α)
  | 0 => return []
  | count + 1 => do
    let value ← r
    let rest ← times r count
    return value :: rest

@[simp] theorem start_pure (value : α) (c : Cursor) : start (pure value) c = (.ok value, c) := rfl

@[simp] theorem start_throw (message : String) (c : Cursor) :
    start (throw message : Reader α) c = (.error message, c) := rfl

theorem start_bind (r : Reader α) (next : α → Reader β) (c : Cursor) :
    start (r >>= next) c = match start r c with
      | (.ok value, c) => start (next value) c
      | (.error message, c) => (.error message, c) := by
  simp only [start, ExceptT.run_bind, StateT.run_bind]
  rcases StateT.run (ExceptT.run r) c with ⟨_ | _, _⟩ <;> rfl

theorem start_refuse (condition : Prop) [Decidable condition] (message : String) (c : Cursor) :
    start (refuse condition message) c = (if condition then .error message else .ok (), c) := by
  unfold refuse
  split <;> rfl

theorem start_take (width : Nat) (message : String) (c : Cursor) :
    start (take width message) c =
      if c.data.length - c.pos < width then (.error message, c)
      else (.ok (c.rest.take width), { c with pos := c.pos + width, reads := (c.pos, width) :: c.reads }) := rfl

/-! ### Staying inside -/

/-- From inside the string the reader stays inside the same string, also when it fails. -/
def Confined (r : Reader α) : Prop := ∀ c, c.Inside → (start r c).2.Inside ∧ (start r c).2.data = c.data

theorem Confined.pure (value : α) : Confined (return value) := fun _ inside => ⟨inside, rfl⟩

theorem Confined.bind {r : Reader α} {next : α → Reader β} (first : Confined r) (later : ∀ value, Confined (next value)) :
    Confined (r >>= next) := by
  intro c inside
  have here := first c inside
  rw [start_bind]
  rcases ran : start r c with ⟨_ | value, c'⟩ <;> rw [ran] at here
  · exact here
  · have there := later value c' here.1
    exact ⟨there.1, there.2.trans here.2⟩

theorem Confined.take {width : Nat} {message : String} : Confined (take width message) := by
  intro c inside
  rw [start_take]
  by_cases short : c.data.length - c.pos < width
  · rw [if_pos short]
    exact ⟨inside, rfl⟩
  · rw [if_neg short]
    have position := inside.position
    have room : c.pos + width ≤ c.data.length := by omega
    exact ⟨⟨room, List.forall_mem_cons.mpr ⟨room, inside.extents⟩⟩, rfl⟩

theorem Confined.done : Confined done := fun _ inside => ⟨inside, rfl⟩

theorem Confined.refuse {condition : Prop} [Decidable condition] {message : String} :
    Confined (refuse condition message) := by
  intro c inside
  rw [start_refuse]
  exact ⟨inside, rfl⟩

theorem Confined.times {r : Reader α} (each : Confined r) (count : Nat) : Confined (times r count) := by
  induction count with
  | zero => exact .pure _
  | succ count known => exact .bind each fun _ => .bind known fun _ => .pure _

/-! ### What an accepted value satisfies -/

/-- The reader returns the value from some cursor. -/
def Accepts (r : Reader α) (value : α) : Prop := ∃ c c', start r c = (.ok value, c')

theorem accepts_pure {value other : α} : Accepts (return value) other ↔ value = other := by
  constructor
  · rintro ⟨c, c', ran⟩
    exact Except.ok.inj (congrArg Prod.fst ran)
  · rintro rfl
    exact ⟨⟨[], 0, []⟩, _, rfl⟩

theorem Accepts.bind {r : Reader α} {next : α → Reader β} {value : β} (accepts : Accepts (r >>= next) value) :
    ∃ first, Accepts r first ∧ Accepts (next first) value := by
  obtain ⟨c, c', ran⟩ := accepts
  rw [start_bind] at ran
  rcases here : start r c with ⟨_ | first, middle⟩
  · rw [here] at ran
    cases congrArg Prod.fst ran
  · rw [here] at ran
    exact ⟨first, ⟨c, middle, here⟩, middle, c', ran⟩

theorem Accepts.refuse {condition : Prop} [Decidable condition] {message : String} {value : Unit}
    (accepts : Accepts (refuse condition message) value) : ¬condition := by
  obtain ⟨c, c', ran⟩ := accepts
  rw [start_refuse] at ran
  intro holds
  rw [if_pos holds] at ran
  cases congrArg Prod.fst ran

theorem Accepts.take {width : Nat} {message : String} {value : List UInt8} (accepts : Accepts (take width message) value) :
    value.length = width := by
  obtain ⟨c, c', ran⟩ := accepts
  rw [start_take] at ran
  split at ran
  · cases congrArg Prod.fst ran
  next enough =>
    obtain rfl := Except.ok.inj (congrArg Prod.fst ran)
    rw [List.length_take, Cursor.rest, List.length_drop]
    omega

theorem Accepts.times {r : Reader α} {count : Nat} {values : List α} (accepts : Accepts (times r count) values) :
    values.length = count ∧ ∀ value ∈ values, Accepts r value := by
  induction count generalizing values with
  | zero =>
    obtain rfl := accepts_pure.mp accepts
    exact ⟨rfl, by simp⟩
  | succ count known =>
    obtain ⟨value, head, accepts⟩ := accepts.bind
    obtain ⟨rest, tail, accepts⟩ := accepts.bind
    obtain rfl := accepts_pure.mp accepts
    have each := known tail
    exact ⟨congrArg Nat.succ each.1, List.forall_mem_cons.mpr ⟨head, each.2⟩⟩

/-! ### Round trips -/

/-- The reader takes exactly `bytes` off what remains and returns the value. -/
def Reads (r : Reader α) (bytes : List UInt8) (value : α) : Prop :=
  ∀ c after, c.Inside → c.rest = bytes ++ after →
    ∃ c', start r c = (.ok value, c') ∧ c'.Inside ∧ c'.rest = after

theorem Reads.pure (value : α) : Reads (return value) [] value := fun c _ inside rest => ⟨c, rfl, inside, rest⟩

theorem Reads.bind {r : Reader α} {next : α → Reader β} {first second : List UInt8} {value : α} {result : β}
    (head : Reads r first value) (tail : Reads (next value) second result) :
    Reads (r >>= next) (first ++ second) result := by
  intro c after inside rest
  obtain ⟨middle, ran, inside, rest⟩ := head c (second ++ after) inside (by rw [rest, List.append_assoc])
  obtain ⟨last, ran', inside, rest⟩ := tail middle after inside rest
  exact ⟨last, by rw [start_bind, ran]; exact ran', inside, rest⟩

theorem Reads.run {r : Reader α} {next : α → Reader β} {bytes after : List UInt8} {value : α} {result : β}
    {c last : Cursor} (head : Reads r bytes value) (inside : c.Inside) (rest : c.rest = bytes ++ after)
    (ran : start (r >>= next) c = (.ok result, last)) :
    ∃ c', c'.Inside ∧ c'.rest = after ∧ start (next value) c' = (.ok result, last) := by
  obtain ⟨middle, first, inside, rest⟩ := head c after inside rest
  rw [start_bind, first] at ran
  exact ⟨middle, inside, rest, ran⟩

theorem run_refuse {condition : Prop} [Decidable condition] {message : String} {next : Unit → Reader β} {result : β}
    {c last : Cursor} (ran : start (refuse condition message >>= next) c = (.ok result, last)) :
    ¬condition ∧ start (next ()) c = (.ok result, last) := by
  rw [start_bind, start_refuse] at ran
  split at ran
  next value middle passed =>
    obtain ⟨outcome, rfl⟩ := Prod.mk.inj passed
    split at outcome
    · cases outcome
    next holds => exact ⟨holds, ran⟩
  · cases congrArg Prod.fst ran

theorem Reads.map {r : Reader α} {bytes : List UInt8} {value : α} (head : Reads r bytes value) (f : α → β) :
    Reads (do return f (← r)) bytes (f value) := by
  have whole : Reads (r >>= fun value => return f value) (bytes ++ []) (f value) := head.bind (.pure _)
  rwa [List.append_nil] at whole

theorem Reads.then {r : Reader α} {next : α → Reader β} {bytes : List UInt8} {value : α} {result : β}
    (head : Reads r [] value) (tail : Reads (next value) bytes result) : Reads (r >>= next) bytes result :=
  head.bind tail

theorem Reads.refuse {condition : Prop} [Decidable condition] (holds : ¬condition) (message : String) :
    Reads (refuse condition message) [] () := by
  intro c after inside rest
  exact ⟨c, by rw [start_refuse, if_neg holds], inside, rest⟩

theorem Reads.take (bytes : List UInt8) (message : String) : Reads (take bytes.length message) bytes bytes := by
  intro c after inside rest
  have confined : (start (Reader.take bytes.length message) c).2.Inside := (Confined.take c inside).1
  have length : c.data.length - c.pos = bytes.length + after.length := by
    rw [← List.length_append, ← rest, Cursor.rest, List.length_drop]
  have enough : ¬c.data.length - c.pos < bytes.length := by omega
  rw [start_take, if_neg enough, rest, List.take_left] at confined
  refine ⟨_, by rw [start_take, if_neg enough, rest, List.take_left], confined, ?_⟩
  rw [Cursor.rest, ← List.drop_drop, ← Cursor.rest, rest, List.drop_left]

theorem Reads.times {γ : Type} {r : Reader α} {write : γ → List UInt8} {read : γ → α} {items : List γ}
    (each : ∀ item ∈ items, Reads r (write item) (read item)) :
    Reads (times r items.length) (items.flatMap write) (items.map read) := by
  induction items with
  | nil => exact .pure _
  | cons item rest known =>
    have head := each item (List.mem_cons_self ..)
    have tail := known fun other member => each other (List.mem_cons_of_mem _ member)
    exact head.bind (tail.map (read item :: ·))

theorem Reads.list {r : Reader α} {write : α → List UInt8} {items : List α}
    (each : ∀ item ∈ items, Reads r (write item) item) : Reads (Reader.times r items.length) (items.flatMap write) items := by
  have whole : Reads (Reader.times r items.length) (items.flatMap write) (items.map id) := .times each
  rwa [List.map_id] at whole

/-- The reader takes everything that remains. -/
def Finishes (r : Reader α) (bytes : List UInt8) (value : α) : Prop :=
  ∀ c, c.Inside → c.rest = bytes → ∃ c', start r c = (.ok value, c')

theorem Finishes.bind {r : Reader α} {next : α → Reader β} {first second : List UInt8} {value : α} {result : β}
    (head : Reads r first value) (tail : Finishes (next value) second result) :
    Finishes (r >>= next) (first ++ second) result := by
  intro c inside rest
  obtain ⟨middle, ran, inside, rest⟩ := head c second inside rest
  obtain ⟨last, ran'⟩ := tail middle inside rest
  exact ⟨last, by rw [start_bind, ran]; exact ran'⟩

theorem Finishes.then {r : Reader α} {next : α → Reader β} {bytes : List UInt8} {value : α} {result : β}
    (head : Reads r [] value) (tail : Finishes (next value) bytes result) : Finishes (r >>= next) bytes result :=
  .bind head tail

theorem Finishes.done {next : Bool → Reader β} {result : β} (tail : Finishes (next true) [] result) :
    Finishes (done >>= next) [] result := by
  intro c inside rest
  have reached : c.pos = c.data.length := le_antisymm inside.position (List.drop_eq_nil_iff.mp rest)
  obtain ⟨last, ran⟩ := tail c inside rest
  refine ⟨last, ?_⟩
  rw [start_bind, show start Reader.done c = (.ok true, c) from by simp [start, Reader.done, StateT.run, ExceptT.run, reached]]
  exact ran

theorem Finishes.of_reads {r : Reader α} {bytes : List UInt8} {value : α} (reads : Reads r bytes value) :
    Finishes r bytes value := by
  intro c inside rest
  obtain ⟨last, ran, -⟩ := reads c [] inside (by rw [rest, List.append_nil])
  exact ⟨last, ran⟩

end Reader

end Codec
