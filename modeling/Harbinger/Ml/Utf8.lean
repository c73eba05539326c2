import Harbinger.Ml.Feedback

/-! `valid_utf8` against the encoding of the Unicode scalar values. -/

namespace Harbinger.Ml

/-- The continuation bytes of a code: its last `count` digits to the base 64. -/
def trail : Nat → Nat → Bytes
  | 0, _ => []
  | count + 1, code => UInt8.ofNat (code / 64 ^ count % 64 + 128) :: trail count code

/-- What the first byte says: how many bytes follow, its own bits, and the least code of this length. -/
def lead (first : UInt8) : Option (Nat × Nat × Nat) :=
  if first < 0x80 then some (0, first.toNat, 0)
  else if 0xc2 ≤ first && first ≤ 0xdf then some (1, (first &&& 0x1f).toNat, 0x80)
  else if 0xe0 ≤ first && first ≤ 0xef then some (2, (first &&& 0x0f).toNat, 0x800)
  else if 0xf0 ≤ first && first ≤ 0xf4 then some (3, (first &&& 0x07).toNat, 0x10000)
  else none

/-- The mark of a first byte with `count` bytes behind it, the range of its own bits, and the least code. -/
structure Shape where
  mark : Nat
  least : Nat
  limit : Nat
  minimum : Nat

def shape : Nat → Shape
  | 0 => ⟨0, 0, 128, 0⟩
  | 1 => ⟨192, 2, 32, 0x80⟩
  | 2 => ⟨224, 0, 16, 0x800⟩
  | _ => ⟨240, 0, 5, 0x10000⟩

/-- How many bytes follow the first one of a code. -/
def following (code : Nat) : Nat := if code ≤ 0x7f then 0 else if code ≤ 0x7ff then 1 else if code ≤ 0xffff then 2 else 3

theorem continuation_byte : ∀ next : UInt8, next &&& 0xc0 = 0x80 →
    (next &&& 0x3f).toNat < 64 ∧ UInt8.ofNat ((next &&& 0x3f).toNat + 128) = next := by decide +kernel

theorem byte_continuation : ∀ digit < 64, UInt8.ofNat (digit + 128) &&& 0xc0 = 0x80 ∧
    (UInt8.ofNat (digit + 128) &&& 0x3f).toNat = digit := by decide +kernel

theorem continuation_eq_some {count code value : Nat} {rest after : Bytes} :
    continuation count code rest = some (value, after) ↔ value / 64 ^ count = code ∧ rest = trail count value ++ after := by
  induction count generalizing code rest with
  | zero => simp [continuation, trail, eq_comm]
  | succ count ih =>
    have shifted : value / 64 ^ (count + 1) = value / 64 ^ count / 64 := by rw [pow_succ, Nat.div_div_eq_div_mul]
    cases rest with
    | nil => simp [continuation, trail]
    | cons next rest =>
      rw [continuation, shifted, trail, List.cons_append, List.cons.injEq]
      by_cases follows : next &&& 0xc0 = 0x80
      · obtain ⟨small, same⟩ := continuation_byte next follows
        rw [if_neg (not_not.mpr follows), ih]
        constructor
        · rintro ⟨digits, rfl⟩
          refine ⟨by omega, ?_, rfl⟩
          rw [digits, show (code * 64 + (next &&& 0x3f).toNat) % 64 = (next &&& 0x3f).toNat by omega, same]
        · rintro ⟨rfl, byte, rfl⟩
          refine ⟨?_, rfl⟩
          rw [byte, (byte_continuation _ (Nat.mod_lt _ (by decide))).2]
          omega
      · rw [if_pos follows]
        refine ⟨nofun, fun ⟨_, byte, _⟩ => absurd ?_ follows⟩
        rw [byte, (byte_continuation _ (Nat.mod_lt _ (by decide))).1]

theorem lead_eq_some : ∀ first : UInt8, ∀ found ∈ lead first, found.1 ≤ 3 ∧ found.2.1 < (shape found.1).limit ∧
    first = UInt8.ofNat (found.2.1 + (shape found.1).mark) ∧ found.2.2 = (shape found.1).minimum := by decide +kernel

theorem lead_ofNat : ∀ count ≤ 3, ∀ bits < (shape count).limit, (shape count).least ≤ bits →
    lead (UInt8.ofNat (bits + (shape count).mark)) = some (count, bits, (shape count).minimum) := by
  intro count known
  interval_cases count <;> decide +kernel

/-- The length of a code is that of its range. -/
theorem following_spec (c : Char) : following c.toNat ≤ 3 ∧ (shape (following c.toNat)).minimum ≤ c.toNat ∧
    c.toNat / 64 ^ following c.toNat < (shape (following c.toNat)).limit ∧
    (shape (following c.toNat)).least ≤ c.toNat / 64 ^ following c.toNat := by
  have small : c.toNat ≤ 0x10ffff := by
    rcases c.valid with low | high
    · exact low.le.trans (by decide)
    · exact Nat.le_of_lt_succ high.2
  unfold following
  split_ifs <;> simp only [shape, Nat.reducePow, Nat.div_one] <;> omega

theorem utf8EncodeChar_eq (c : Char) : String.utf8EncodeChar c =
    UInt8.ofNat (c.toNat / 64 ^ following c.toNat + (shape (following c.toNat)).mark) ::
      trail (following c.toNat) c.toNat := by
  have encoded : String.utf8EncodeChar c = if c.toNat ≤ 127 then [UInt8.ofNat c.toNat]
      else if c.toNat ≤ 2047 then [UInt8.ofNat (c.toNat / 64 % 32 + 192), UInt8.ofNat (c.toNat % 64 + 128)]
      else if c.toNat ≤ 65535 then [UInt8.ofNat (c.toNat / 4096 % 16 + 224), UInt8.ofNat (c.toNat / 64 % 64 + 128),
        UInt8.ofNat (c.toNat % 64 + 128)]
      else [UInt8.ofNat (c.toNat / 262144 % 8 + 240), UInt8.ofNat (c.toNat / 4096 % 64 + 128),
        UInt8.ofNat (c.toNat / 64 % 64 + 128), UInt8.ofNat (c.toNat % 64 + 128)] := rfl
  have bits := (following_spec c).2.2.1
  rw [encoded]
  unfold following at bits ⊢
  split_ifs at bits ⊢ <;> simp only [shape, Nat.reducePow, Nat.div_one] at bits
  · simp [shape, trail]
  · rw [Nat.mod_eq_of_lt bits]
    simp [shape, trail]
  · rw [Nat.mod_eq_of_lt bits]
    simp [shape, trail]
  · rw [Nat.mod_eq_of_lt (bits.trans (by decide))]
    simp [shape, trail]

/-- A code of the right length is the one that its own length has. -/
theorem following_eq {count code : Nat} (known : count ≤ 3) (least : (shape count).minimum ≤ code)
    (bits : code / 64 ^ count < (shape count).limit) : following code = count := by
  unfold following
  interval_cases count <;> simp only [shape] at least bits <;> split_ifs <;> omega

/-- One character at the front. -/
theorem validUtf8From_cons {fuel : Nat} {first : UInt8} {rest : Bytes} : validUtf8From (fuel + 1) (first :: rest) = true ↔
    ∃ (c : Char) (after : Bytes), first :: rest = String.utf8EncodeChar c ++ after ∧ validUtf8From fuel after = true := by
  rw [validUtf8From]
  constructor
  · intro valid
    split at valid
    · cases valid
    next count bits minimum found =>
      split at valid
      · cases valid
      next code after read =>
        obtain ⟨known, below, byte, least⟩ := lead_eq_some first _ found
        obtain ⟨digits, rfl⟩ := continuation_eq_some.mp read
        split at valid
        · cases valid
        next fits =>
          simp only [Bool.or_eq_true, Bool.and_eq_true, decide_eq_true_eq, not_or, not_and, not_lt, not_le, gt_iff_lt] at fits
          have scalar : code.isValidChar := by
            unfold Nat.isValidChar
            omega
          have length := @following_eq count code known (least ▸ fits.1.1) (digits ▸ below)
          refine ⟨Char.ofNatAux code scalar, after, ?_, valid⟩
          have same : (Char.ofNatAux code scalar).toNat = code := rfl
          rw [utf8EncodeChar_eq, same, length, digits, List.cons_append, ← byte]
  · rintro ⟨c, after, split, valid⟩
    obtain ⟨known, least, below, above⟩ := following_spec c
    rw [utf8EncodeChar_eq, List.cons_append, List.cons.injEq] at split
    have leads := lead_ofNat _ known _ below above
    unfold lead at leads
    rw [split.1, leads]
    simp only [continuation_eq_some.mpr ⟨rfl, split.2⟩]
    have scalar : c.toNat < 0xd800 ∨ 0xdfff < c.toNat ∧ c.toNat < 0x110000 := c.valid
    rw [if_neg, valid]
    simp only [Bool.or_eq_true, Bool.and_eq_true, decide_eq_true_eq]
    omega

theorem utf8EncodeChar_ne_nil (c : Char) : String.utf8EncodeChar c ≠ [] := by
  rw [utf8EncodeChar_eq]
  exact List.cons_ne_nil _ _

theorem validUtf8From_iff {fuel : Nat} {text : Bytes} (enough : text.length ≤ fuel) : validUtf8From fuel text = true ↔
    ∃ characters : List Char, characters.flatMap String.utf8EncodeChar = text := by
  induction fuel generalizing text with
  | zero =>
    obtain rfl := List.length_eq_zero_iff.mp (Nat.le_zero.mp enough)
    exact ⟨fun _ => ⟨[], rfl⟩, fun _ => rfl⟩
  | succ fuel ih =>
    cases text with
    | nil => exact ⟨fun _ => ⟨[], rfl⟩, fun _ => rfl⟩
    | cons first rest =>
      have shorter : ∀ (c : Char) (after : Bytes), first :: rest = String.utf8EncodeChar c ++ after → after.length ≤ fuel := by
        intro c after split
        have size := congrArg List.length split
        have positive := List.length_pos_iff.mpr (utf8EncodeChar_ne_nil c)
        simp only [List.length_cons, List.length_append] at size enough
        omega
      rw [validUtf8From_cons]
      constructor
      · rintro ⟨c, after, split, valid⟩
        obtain ⟨characters, rfl⟩ := (ih (shorter c after split)).mp valid
        exact ⟨c :: characters, split.symm⟩
      · rintro ⟨characters, spelled⟩
        cases characters with
        | nil => cases spelled
        | cons c characters => exact ⟨c, _, spelled.symm, (ih (shorter c _ spelled.symm)).mpr ⟨characters, rfl⟩⟩

/-- `valid_utf8` accepts the concatenations of encoded scalar values, and nothing else. -/
theorem validUtf8_iff_encoded (text : Bytes) :
    validUtf8 text = true ↔ ∃ characters : List Char, characters.flatMap String.utf8EncodeChar = text :=
  validUtf8From_iff le_rfl

end Harbinger.Ml
