import Mathlib

/-! JSON documents over an arbitrary type of numbers and their compact text: no blanks,
members in the given order, and `\u00xx` for control characters only. -/

namespace Json

abbrev Text := List UInt8

inductive Value (ν : Type) where
  | null
  | bool (value : Bool)
  | number (value : ν)
  | string (text : Text)
  | array (items : List (Value ν))
  | object (members : List (Text × Value ν))

variable {ν : Type}

def letters (text : String) : Text := text.toList.map fun letter => letter.toNat.toUInt8

def hexDigit (nibble : UInt8) : UInt8 := if nibble < 10 then 48 + nibble else 87 + nibble

def escapeByte (c : UInt8) : Text :=
  if c = 34 then [92, 34]
  else if c = 92 then [92, 92]
  else if c < 32 then [92, 117, 48, 48, hexDigit (c >>> 4), hexDigit (c &&& 15)]
  else [c]

def quoted (text : Text) : Text := 34 :: text.flatMap escapeByte ++ [34]

mutual

/-- The text of a document whose numbers are written by `spell`. -/
def render (spell : ν → Text) : Value ν → Text
  | .null => letters "null"
  | .bool value => letters (if value then "true" else "false")
  | .number value => spell value
  | .string text => quoted text
  | .array items => 91 :: renderItems spell items ++ [93]
  | .object members => 123 :: renderMembers spell members ++ [125]

def renderItems (spell : ν → Text) : List (Value ν) → Text
  | [] => []
  | [item] => render spell item
  | item :: other :: rest => render spell item ++ 44 :: renderItems spell (other :: rest)

def renderMembers (spell : ν → Text) : List (Text × Value ν) → Text
  | [] => []
  | [member] => renderMember spell member
  | member :: other :: rest => renderMember spell member ++ 44 :: renderMembers spell (other :: rest)

def renderMember (spell : ν → Text) : Text × Value ν → Text
  | (key, value) => quoted key ++ 58 :: render spell value

end

mutual

/-- Equality of documents. -/
def same [DecidableEq ν] : Value ν → Value ν → Bool
  | .null, .null => true
  | .bool first, .bool second => first = second
  | .number first, .number second => first = second
  | .string first, .string second => first = second
  | .array first, .array second => sameItems first second
  | .object first, .object second => sameMembers first second
  | _, _ => false
termination_by structural document => document

def sameItems [DecidableEq ν] : List (Value ν) → List (Value ν) → Bool
  | [], [] => true
  | first :: rest, second :: others => same first second && sameItems rest others
  | _, _ => false
termination_by structural items => items

def sameMembers [DecidableEq ν] : List (Text × Value ν) → List (Text × Value ν) → Bool
  | [], [] => true
  | first :: rest, second :: others => sameMember first second && sameMembers rest others
  | _, _ => false
termination_by structural members => members

def sameMember [DecidableEq ν] : Text × Value ν → Text × Value ν → Bool
  | (key, value), (other, against) => key = other && same value against
termination_by structural member => member

end

mutual

theorem same_self [DecidableEq ν] : ∀ document : Value ν, same document document = true
  | .null => rfl
  | .bool _ => decide_eq_true rfl
  | .number _ => decide_eq_true rfl
  | .string _ => decide_eq_true rfl
  | .array items => sameItems_self items
  | .object members => sameMembers_self members

theorem sameItems_self [DecidableEq ν] : ∀ items : List (Value ν), sameItems items items = true
  | [] => rfl
  | item :: rest => by
    rw [sameItems, same_self item, sameItems_self rest]
    rfl

theorem sameMembers_self [DecidableEq ν] : ∀ members : List (Text × Value ν), sameMembers members members = true
  | [] => rfl
  | member :: rest => by
    rw [sameMembers, sameMember_self member, sameMembers_self rest]
    rfl

theorem sameMember_self [DecidableEq ν] : ∀ member : Text × Value ν, sameMember member member = true
  | (key, value) => by
    rw [sameMember, same_self value, decide_eq_true rfl]
    rfl

end

namespace Value

def isNull : Value ν → Bool
  | .null => true
  | _ => false

def string? : Value ν → Option Text
  | .string text => some text
  | _ => none

def number? : Value ν → Option ν
  | .number value => some value
  | _ => none

def members? : Value ν → Option (List (Text × Value ν))
  | .object members => some members
  | _ => none

/-- The value of the first member with this key. -/
def get? (document : Value ν) (key : Text) : Option (Value ν) :=
  document.members?.bind fun members => members.lookup key

end Value

end Json
