import Harbinger.Json.Numeral

/-! The grammar of RFC 8259 as trees: a tree has all of its text, blanks included, and the value that
the grammar assigns to it. A text is a document if it is the text of a grammatical tree. -/

namespace Json

def isBlank (c : UInt8) : Bool := c == 32 || c == 9 || c == 13 || c == 10

def Blank (text : Text) : Prop := ∀ c ∈ text, isBlank c = true

/-! ### Strings -/

def hexValue (c : UInt8) : Option Nat :=
  if 48 ≤ c ∧ c ≤ 57 then some (c.toNat - 48)
  else if 97 ≤ c ∧ c ≤ 102 then some (c.toNat - 87)
  else if 65 ≤ c ∧ c ≤ 70 then some (c.toNat - 55)
  else none

/-- The UTF-8 form of a code point of the basic plane. -/
def utf8 (code : Nat) : Text :=
  if code < 0x80 then [code.toUInt8]
  else if code < 0x800 then [(0xc0 + code / 64).toUInt8, (0x80 + code % 64).toUInt8]
  else [(0xe0 + code / 4096).toUInt8, (0x80 + code / 64 % 64).toUInt8, (0x80 + code % 64).toUInt8]

/-- The character that a letter after a backslash stands for. -/
def simpleEscape (letter : UInt8) : Option UInt8 :=
  if letter = 34 ∨ letter = 92 ∨ letter = 47 then some letter
  else if letter = 98 then some 8
  else if letter = 102 then some 12
  else if letter = 110 then some 10
  else if letter = 114 then some 13
  else if letter = 116 then some 9
  else none

/-- The number of four hexadecimal digits. -/
def codeOf (a b c d : UInt8) : Option Nat := do
  let first ← hexValue a
  let second ← hexValue b
  let third ← hexValue c
  let fourth ← hexValue d
  return ((first * 16 + second) * 16 + third) * 16 + fourth

/-- A character of a string token. -/
inductive Piece where
  | plain (c : UInt8)
  | escape (letter : UInt8)
  | code (a b c d : UInt8)
  deriving DecidableEq

namespace Piece

def text : Piece → Text
  | plain c => [c]
  | escape letter => [92, letter]
  | code a b c d => [92, 117, a, b, c, d]

def value : Piece → Text
  | plain c => [c]
  | escape letter => (simpleEscape letter).toList
  | code a b c d => (codeOf a b c d).elim [] utf8

def Valid : Piece → Prop
  | plain c => 32 ≤ c ∧ c ≠ 34 ∧ c ≠ 92
  | escape letter => (simpleEscape letter).isSome
  | code a b c d => (codeOf a b c d).isSome

instance : DecidablePred Valid
  | plain c => inferInstanceAs (Decidable (32 ≤ c ∧ c ≠ 34 ∧ c ≠ 92))
  | escape letter => inferInstanceAs (Decidable ((simpleEscape letter).isSome = true))
  | code a b c d => inferInstanceAs (Decidable ((codeOf a b c d).isSome = true))

/-- An escape of half of a surrogate pair. -/
def Surrogate : Piece → Prop
  | code a b c d => ∃ code ∈ codeOf a b c d, 0xd800 ≤ code ∧ code ≤ 0xdfff
  | _ => False

end Piece

def piecesText (pieces : List Piece) : Text := pieces.flatMap Piece.text

def piecesValue (pieces : List Piece) : Text := pieces.flatMap Piece.value

/-- The token of a string. -/
def stringText (pieces : List Piece) : Text := 34 :: (piecesText pieces ++ [34])

/-! ### Values -/

mutual

inductive Tree where
  | null
  | bool (value : Bool)
  | number (numeral : Numeral)
  | string (pieces : List Piece)
  | array (blank : Text) (items : Items)
  | object (blank : Text) (members : Members)

inductive Items where
  | nil
  | cons (before : Text) (item : Tree) (after : Text) (rest : Items)

/-- A key with blanks around it, the colon, and a value with blanks around it. -/
inductive Members where
  | nil
  | cons (left : Text) (key : List Piece) (right : Text) (before : Text) (item : Tree) (after : Text) (rest : Members)

end

/-- A part of a tree without parts: blanks, a string token or a number. -/
inductive Leaf where
  | blank (text : Text)
  | string (pieces : List Piece)
  | number (numeral : Numeral)

mutual

def Tree.text : Tree → Text
  | .null => letters "null"
  | .bool value => letters (if value then "true" else "false")
  | .number numeral => numeral.text
  | .string pieces => stringText pieces
  | .array blank items => 91 :: (blank ++ (items.text.drop 1 ++ [93]))
  | .object blank members => 123 :: (blank ++ (members.text.drop 1 ++ [125]))

/-- Every item behind a comma. -/
def Items.text : Items → Text
  | .nil => []
  | .cons before item after rest => 44 :: (before ++ (item.text ++ (after ++ rest.text)))

def Members.text : Members → Text
  | .nil => []
  | .cons left key right before item after rest =>
    44 :: (left ++ (stringText key ++ (right ++ 58 :: (before ++ (item.text ++ (after ++ rest.text))))))

end

mutual

/-- The value that the grammar assigns, with numbers as `number` reads them. -/
def Tree.value {ν : Type} (number : Numeral → ν) : Tree → Value ν
  | .null => .null
  | .bool value => .bool value
  | .number numeral => .number (number numeral)
  | .string pieces => .string (piecesValue pieces)
  | .array _ items => .array (items.values number)
  | .object _ members => .object (members.values number)

def Items.values {ν : Type} (number : Numeral → ν) : Items → List (Value ν)
  | .nil => []
  | .cons _ item _ rest => item.value number :: rest.values number

def Members.values {ν : Type} (number : Numeral → ν) : Members → List (Text × Value ν)
  | .nil => []
  | .cons _ key _ _ item _ rest => (piecesValue key, item.value number) :: rest.values number

end

mutual

/-- How many arrays and objects lie around the innermost value. -/
def Tree.depth : Tree → Nat
  | .array _ items => items.depth
  | .object _ members => members.depth
  | _ => 0

def Items.depth : Items → Nat
  | .nil => 0
  | .cons _ item _ rest => max (item.depth + 1) rest.depth

def Members.depth : Members → Nat
  | .nil => 0
  | .cons _ _ _ _ item _ rest => max (item.depth + 1) rest.depth

end

mutual

def Tree.leaves : Tree → List Leaf
  | .number numeral => [.number numeral]
  | .string pieces => [.string pieces]
  | .array blank items => .blank blank :: items.leaves
  | .object blank members => .blank blank :: members.leaves
  | _ => []

def Items.leaves : Items → List Leaf
  | .nil => []
  | .cons before item after rest => .blank before :: .blank after :: (item.leaves ++ rest.leaves)

def Members.leaves : Members → List Leaf
  | .nil => []
  | .cons left key right before item after rest =>
    .blank left :: .string key :: .blank right :: .blank before :: .blank after :: (item.leaves ++ rest.leaves)

end

def Members.keys : Members → List Text
  | .nil => []
  | .cons _ key _ _ _ _ rest => piecesValue key :: rest.keys

mutual

/-- No object has two members with the same name. -/
def Tree.Distinct : Tree → Prop
  | .array _ items => items.Distinct
  | .object _ members => members.keys.Nodup ∧ members.Distinct
  | _ => True

def Items.Distinct : Items → Prop
  | .nil => True
  | .cons _ item _ rest => item.Distinct ∧ rest.Distinct

def Members.Distinct : Members → Prop
  | .nil => True
  | .cons _ _ _ _ item _ rest => item.Distinct ∧ rest.Distinct

end

/-- Blanks are blank, the pieces of strings are characters and escapes, and numbers are of the given form. -/
def Leaf.Formed (form : Numeral → Prop) : Leaf → Prop
  | .blank text => Blank text
  | .string pieces => ∀ piece ∈ pieces, piece.Valid
  | .number numeral => form numeral

/-- The tree is one of the grammar. -/
def Tree.Grammatical (tree : Tree) : Prop := ∀ leaf ∈ tree.leaves, leaf.Formed Numeral.Strict

def Leaf.Unpaired : Leaf → Prop
  | .string pieces => ∀ piece ∈ pieces, ¬piece.Surrogate
  | _ => True

/-- No string has an escape of half of a surrogate pair. -/
def Tree.Unpaired (tree : Tree) : Prop := ∀ leaf ∈ tree.leaves, leaf.Unpaired

theorem Members.keys_eq {ν : Type} (number : Numeral → ν) : ∀ members : Members,
    members.keys = (members.values number).map Prod.fst
  | .nil => rfl
  | .cons _ _ _ _ _ _ rest => by rw [keys, values, List.map_cons, ← rest.keys_eq number]

end Json
