import Harbinger.Json.Soundness

/-! The other direction: the parser reads the text of every accepted tree and returns its value. What
stands behind a number must not go on with it, so the readers are compared in front of a rest. -/

namespace Harbinger.Parser
open Json Ml

/-! ### Tokens -/

theorem skip_blank {before rest : Bytes} (blank : Blank before) : skip (before ++ rest) = skip rest := by
  rw [skip, skip, List.dropWhile_append_of_pos blank]

theorem peek_complete {before rest : Bytes} {c : UInt8} (blank : Blank before) (solid : isBlank c = false) :
    peek (before ++ c :: rest) = .ok (c, c :: rest) := by
  have here : skip (c :: rest) = c :: rest := by simp [skip, solid]
  rw [peek, skip_blank blank, here]

theorem expect_complete {before rest : Bytes} {c : UInt8} (blank : Blank before) (solid : isBlank c = false) :
    expect c (before ++ c :: rest) = .ok rest := by
  refine bind_ok.mpr ⟨_, peek_complete blank solid, ?_⟩
  exact if_pos rfl

theorem expect_here {rest : Bytes} {c : UInt8} (solid : isBlank c = false) : expect c (c :: rest) = .ok rest :=
  expect_complete (fun _ none => absurd none List.not_mem_nil) solid

theorem strLoop_piece {piece : Piece} (valid : piece.Valid) (single : ¬piece.Surrogate) {text out rest : Bytes}
    (read : strLoop text = .ok (out, rest)) : strLoop (piece.text ++ text) = .ok (piece.value ++ out, rest) := by
  cases piece with
  | plain c =>
    obtain ⟨printable, quote, backslash⟩ := valid
    rw [strLoop.eq_def]
    simp [Piece.text, Piece.value, quote, backslash, UInt8.not_lt.mpr printable, read, Except.map]
  | escape letter =>
    obtain ⟨escaped, known⟩ := Option.isSome_iff_exists.mp valid
    have plain : letter ≠ 117 := by
      rintro rfl
      cases known
    rw [strLoop.eq_def]
    simp [Piece.text, Piece.value, plain, known, read, Except.map]
  | code a b c d =>
    obtain ⟨code, known⟩ := Option.isSome_iff_exists.mp valid
    have other : isSurrogate code = false := by
      rw [← Bool.not_eq_true]
      exact mt (surrogate_iff known).mpr single
    rw [strLoop.eq_def]
    simp [Piece.text, Piece.value, known, other, read, Except.map]

theorem strLoop_complete {pieces : List Piece} (valid : ∀ piece ∈ pieces, piece.Valid ∧ ¬piece.Surrogate) (rest : Bytes) :
    strLoop (piecesText pieces ++ 34 :: rest) = .ok (piecesValue pieces, rest) := by
  induction pieces with
  | nil => exact strLoop.eq_def (34 :: rest)
  | cons piece pieces ih =>
    obtain ⟨⟨first, single⟩, others⟩ := List.forall_mem_cons.mp valid
    have read := strLoop_piece first single (ih others)
    rwa [← List.append_assoc] at read

theorem str_complete {before : Bytes} (blank : Blank before) {pieces : List Piece}
    (valid : ∀ piece ∈ pieces, piece.Valid ∧ ¬piece.Surrogate) (rest : Bytes) :
    str (before ++ (stringText pieces ++ rest)) = .ok (piecesValue pieces, rest) := by
  have shape : before ++ (stringText pieces ++ rest) = before ++ 34 :: (piecesText pieces ++ 34 :: rest) := by
    simp [stringText]
  rw [shape]
  exact bind_ok.mpr ⟨_, expect_complete blank rfl, strLoop_complete valid rest⟩

theorem literal_complete (word : Bytes) (given : Document) (rest : Bytes) :
    literal word given (word ++ rest) = .ok (given, rest) := by
  rw [literal, if_pos (List.prefix_append ..), List.drop_left]

theorem ends_cons {c : UInt8} (other : isNumberChar c = false) (rest : Bytes) : Ends (c :: rest) := by
  intro d member
  obtain rfl := Option.some.inj member
  exact other

theorem ends_blank {before rest : Bytes} (blank : Blank before) (ends : Ends rest) : Ends (before ++ rest) := by
  cases before with
  | nil => exact ends
  | cons c before =>
    refine ends_cons ?_ _
    have known : isBlank c = true := blank c (List.mem_cons_self ..)
    rw [← Bool.not_eq_true]
    intro numeric
    have both : ∀ d : UInt8, ¬(isBlank d = true ∧ isNumberChar d = true) := by decide +kernel
    exact both c ⟨known, numeric⟩

/-! ### Containers -/

/-- The reader takes the text of every accepted tree, up to the rest. -/
def Complete (meaning : Numeral → Option Number) (levels : Nat) (read : Bytes → Except String (Document × Bytes)) : Prop :=
  ∀ before tree rest, Blank before → Accepted meaning levels tree → Ends rest →
    read (before ++ (tree.text ++ rest)) = .ok (tree.value (num meaning), rest)

theorem tree_head {meaning : Numeral → Option Number} {levels : Nat} {tree : Tree} (accepted : Accepted meaning levels tree) :
    ∃ c rest, tree.text = c :: rest ∧ isBlank c = false ∧ c ≠ 93 := by
  cases tree with
  | null => exact ⟨_, _, rfl, rfl, by decide⟩
  | bool value => cases value <;> exact ⟨_, _, rfl, rfl, by decide⟩
  | string pieces => exact ⟨_, _, rfl, rfl, by decide⟩
  | array blank found => exact ⟨_, _, rfl, rfl, by decide⟩
  | object blank found => exact ⟨_, _, rfl, rfl, by decide⟩
  | number n =>
    have general : n.General := (accepted.leaves _ (List.mem_singleton.mpr rfl)).1.1
    obtain ⟨c, rest, split⟩ := List.exists_cons_of_ne_nil general.text_ne_nil
    have numeric : isNumberChar c = true := numeral_chars general c (split ▸ List.mem_cons_self ..)
    have plain : ∀ d : UInt8, isNumberChar d = true → isBlank d = false ∧ d ≠ 93 := by decide +kernel
    exact ⟨c, rest, split, plain c numeric⟩

section Containers
variable {meaning : Numeral → Option Number} {levels : Nat} {read : Bytes → Except String (Document × Bytes)}
  (complete : Complete meaning levels read)
include complete

/-- By induction on the items; the text is longer than the rest by a comma at least, so the fuel lasts. -/
theorem items_complete : ∀ (parts : Items) (fuel : Nat) (rest : Bytes), parts ≠ .nil →
    AcceptedItems meaning levels parts → parts.text.length ≤ fuel →
      items read fuel (parts.text.drop 1 ++ 93 :: rest) = .ok (parts.values (num meaning), rest)
  | .nil, _, _, nonempty, _, _ => absurd rfl nonempty
  | .cons _ _ _ _, 0, _, _, _, enough => absurd enough (Nat.not_succ_le_zero _)
  | .cons before item after others, fuel + 1, rest, _, accepted, enough => by
    obtain ⟨blank, blank', inner, outer⟩ := acceptedItems_cons.mp accepted
    have lasts : others.text.length ≤ fuel := by
      simp only [Items.text, List.length_cons, List.length_append] at enough
      omega
    cases others with
    | nil =>
      have shape : (Items.cons before item after .nil).text.drop 1 ++ 93 :: rest =
          before ++ (item.text ++ (after ++ 93 :: rest)) := by simp [Items.text]
      rw [shape]
      have ends : Ends (after ++ 93 :: rest) := ends_blank blank' (ends_cons rfl rest)
      have first := complete before item _ blank inner ends
      refine bind_ok.mpr ⟨_, first, bind_ok.mpr ⟨_, peek_complete blank' rfl, ?_⟩⟩
      exact bind_ok.mpr ⟨rest, expect_here rfl, rfl⟩
    | cons front next back more =>
      have shape : (Items.cons before item after (.cons front next back more)).text.drop 1 ++ 93 :: rest =
          before ++ (item.text ++ (after ++ 44 :: ((Items.cons front next back more).text.drop 1 ++ 93 :: rest))) := by
        simp [Items.text]
      rw [shape]
      have ends : Ends (after ++ 44 :: ((Items.cons front next back more).text.drop 1 ++ 93 :: rest)) :=
        ends_blank blank' (ends_cons rfl _)
      have first := complete before item _ blank inner ends
      refine bind_ok.mpr ⟨_, first, bind_ok.mpr ⟨_, peek_complete blank' rfl, ?_⟩⟩
      have continued := items_complete (.cons front next back more) fuel rest (by simp) outer lasts
      exact bind_ok.mpr ⟨_, continued, rfl⟩

theorem array_complete {blank : Bytes} {parts : Items} (accepted : Accepted meaning (levels + 1) (.array blank parts))
    (rest : Bytes) :
    array read ((Tree.array blank parts).text ++ rest) = .ok ((Tree.array blank parts).value (num meaning), rest) := by
  obtain ⟨space, inner⟩ := accepted_array.mp accepted
  have shape : (Tree.array blank parts).text ++ rest = 91 :: (blank ++ (parts.text.drop 1 ++ 93 :: rest)) := by
    simp [Tree.text]
  rw [shape]
  refine bind_ok.mpr ⟨_, expect_here rfl, ?_⟩
  cases parts with
  | nil => exact bind_ok.mpr ⟨_, peek_complete space rfl, rfl⟩
  | cons before item after others =>
    obtain ⟨front, _, first, _⟩ := acceptedItems_cons.mp inner
    -- The blanks before the first item are skipped by `peek`, so the loop begins behind them.
    obtain ⟨c, tail, head, solid, other⟩ := tree_head first
    have trimmed : AcceptedItems meaning levels (.cons [] item after others) :=
      acceptedItems_cons.mpr ⟨fun _ none => absurd none List.not_mem_nil, (acceptedItems_cons.mp inner).2⟩
    have body : (Items.cons [] item after others).text.drop 1 ++ 93 :: rest =
        c :: (tail ++ (after ++ others.text) ++ 93 :: rest) := by simp [Items.text, head]
    have seen : peek (blank ++ ((Items.cons before item after others).text.drop 1 ++ 93 :: rest)) =
        .ok (c, (Items.cons [] item after others).text.drop 1 ++ 93 :: rest) := by
      rw [body, ← peek_complete (blank_append space front) solid]
      simp [Items.text, head]
    have enough : (Items.cons [] item after others).text.length ≤
        ((Items.cons [] item after others).text.drop 1 ++ 93 :: rest).length := by
      simp [Items.text]
    have found := items_complete complete _ _ rest (by simp) trimmed enough
    refine bind_ok.mpr ⟨_, seen, ?_⟩
    dsimp only
    rw [if_neg other]
    exact bind_ok.mpr ⟨_, found, rfl⟩

/-- By induction on the members, with those already read. -/
theorem members_complete : ∀ (parts : Members) (fuel : Nat) (out : List (Bytes × Document)) (rest : Bytes),
    parts ≠ .nil → AcceptedMembers meaning levels parts → parts.text.length ≤ fuel →
    ((out ++ parts.values (num meaning)).map Prod.fst).Nodup →
      members read fuel out (parts.text.drop 1 ++ 125 :: rest) = .ok (out ++ parts.values (num meaning), rest)
  | .nil, _, _, _, nonempty, _, _, _ => absurd rfl nonempty
  | .cons _ _ _ _ _ _ _, 0, _, _, _, _, enough, _ => absurd enough (Nat.not_succ_le_zero _)
  | .cons left key right before item after others, fuel + 1, out, rest, _, accepted, enough, distinct => by
    obtain ⟨⟨blank, valid, blank'⟩, ⟨front, back⟩, inner, outer⟩ := acceptedMembers_cons.mp accepted
    have lasts : others.text.length ≤ fuel := by
      simp only [Members.text, List.length_cons, List.length_append] at enough
      omega
    have fresh : ¬(out.lookup (piecesValue key)).isSome = true := by
      rw [Option.not_isSome_iff_eq_none, List.lookup_eq_none_iff]
      intro entry member
      rw [List.map_append, List.nodup_append] at distinct
      have apart := distinct.2.2 entry.1 (List.mem_map_of_mem member) (piecesValue key) (by simp [Members.values])
      simpa using apart.symm
    have whole : out ++ (Members.cons left key right before item after others).values (num meaning) =
        (out ++ [(piecesValue key, item.value (num meaning))]) ++ others.values (num meaning) := by
      simp [Members.values]
    -- The loop reads a key, the colon and a value in front of whatever follows.
    have step : ∀ tail, Ends tail → members read (fuel + 1) out
        (left ++ (stringText key ++ (right ++ 58 :: (before ++ (item.text ++ tail))))) = (do
          let seen ← peek tail
          if seen.1 = 44 then members read fuel (out ++ [(piecesValue key, item.value (num meaning))]) (seen.2.drop 1)
          else do
            let rest ← expect 125 seen.2
            return (out ++ [(piecesValue key, item.value (num meaning))], rest)) := by
      intro tail ends
      have colon : expect 58 (right ++ 58 :: (before ++ (item.text ++ tail))) = .ok (before ++ (item.text ++ tail)) :=
        expect_complete blank' rfl
      rw [members, str_complete blank valid]
      simp only [bind, Except.bind, colon, complete before item tail front inner ends, if_neg fresh]
    cases others with
    | nil =>
      have shape : (Members.cons left key right before item after .nil).text.drop 1 ++ 125 :: rest =
          left ++ (stringText key ++ (right ++ 58 :: (before ++ (item.text ++ (after ++ 125 :: rest))))) := by
        simp [Members.text]
      rw [shape, step _ (ends_blank back (ends_cons rfl rest)), whole]
      refine bind_ok.mpr ⟨_, peek_complete back rfl, bind_ok.mpr ⟨rest, expect_here rfl, ?_⟩⟩
      simp [Members.values]
      rfl
    | cons left' key' right' front' next back' more =>
      have shape : (Members.cons left key right before item after
          (.cons left' key' right' front' next back' more)).text.drop 1 ++ 125 :: rest =
          left ++ (stringText key ++ (right ++ 58 :: (before ++ (item.text ++ (after ++ 44 ::
            ((Members.cons left' key' right' front' next back' more).text.drop 1 ++ 125 :: rest)))))) := by
        simp [Members.text]
      rw [shape, step _ (ends_blank back (ends_cons rfl _)), whole]
      rw [whole] at distinct
      have continued := members_complete (.cons left' key' right' front' next back' more) fuel _ rest (by simp) outer
        lasts distinct
      exact bind_ok.mpr ⟨_, peek_complete back rfl, continued⟩

theorem object_complete {blank : Bytes} {parts : Members} (accepted : Accepted meaning (levels + 1) (.object blank parts))
    (rest : Bytes) :
    object read ((Tree.object blank parts).text ++ rest) = .ok ((Tree.object blank parts).value (num meaning), rest) := by
  obtain ⟨space, keys, inner⟩ := accepted_object.mp accepted
  have shape : (Tree.object blank parts).text ++ rest = 123 :: (blank ++ (parts.text.drop 1 ++ 125 :: rest)) := by
    simp [Tree.text]
  rw [shape]
  refine bind_ok.mpr ⟨_, expect_here rfl, ?_⟩
  cases parts with
  | nil => exact bind_ok.mpr ⟨_, peek_complete space rfl, rfl⟩
  | cons left key right before item after others =>
    obtain ⟨⟨front, named⟩, other⟩ := acceptedMembers_cons.mp inner
    have trimmed : AcceptedMembers meaning levels (.cons [] key right before item after others) :=
      acceptedMembers_cons.mpr ⟨⟨fun _ none => absurd none List.not_mem_nil, named⟩, other⟩
    have seen : peek (blank ++ ((Members.cons left key right before item after others).text.drop 1 ++ 125 :: rest)) =
        .ok (34, (Members.cons [] key right before item after others).text.drop 1 ++ 125 :: rest) := by
      have found := @peek_complete (blank ++ left) ((Members.cons [] key right before item after others).text.drop 2 ++
        125 :: rest) 34 (blank_append space front) rfl
      simpa [Members.text, stringText] using found
    have enough : (Members.cons [] key right before item after others).text.length ≤
        ((Members.cons [] key right before item after others).text.drop 1 ++ 125 :: rest).length := by
      simp [Members.text]
    rw [Members.keys_eq (num meaning)] at keys
    have found := members_complete complete (.cons [] key right before item after others) _ [] rest (by simp) trimmed
      enough keys
    refine bind_ok.mpr ⟨_, seen, ?_⟩
    exact bind_ok.mpr ⟨_, found, rfl⟩

end Containers

/-- By induction on the levels, with one case per kind of value. -/
theorem value_complete {decimals : Decimals} {meaning : Numeral → Option Number} (numbers : NumbersComplete decimals meaning) (levels : Nat) :
    Complete meaning levels (value decimals levels) := by
  induction levels with
  | zero => exact fun _ _ _ _ accepted _ => absurd accepted.depth (Nat.not_lt_zero _)
  | succ levels ih =>
    intro before tree rest blank accepted ends
    cases tree with
    | null => exact bind_ok.mpr ⟨_, peek_complete blank rfl, literal_complete (ascii "null") .null rest⟩
    | bool given =>
      cases given with
      | true => exact bind_ok.mpr ⟨_, peek_complete blank rfl, literal_complete (ascii "true") (.bool true) rest⟩
      | false => exact bind_ok.mpr ⟨_, peek_complete blank rfl, literal_complete (ascii "false") (.bool false) rest⟩
    | string pieces =>
      have found := str_complete (fun _ none => absurd none List.not_mem_nil) (accepted_string.mp accepted) rest
      exact bind_ok.mpr ⟨_, peek_complete blank rfl, map_ok.mpr ⟨_, found, rfl⟩⟩
    | array space parts => exact bind_ok.mpr ⟨_, peek_complete blank rfl, array_complete ih accepted rest⟩
    | object space parts => exact bind_ok.mpr ⟨_, peek_complete blank rfl, object_complete ih accepted rest⟩
    | number n =>
      obtain ⟨general, legible⟩ := accepted_number.mp accepted
      obtain ⟨known, found⟩ := Option.isSome_iff_exists.mp legible
      obtain ⟨c, tail, split⟩ := List.exists_cons_of_ne_nil general.text_ne_nil
      have numeric : isNumberChar c = true := numeral_chars general c (split ▸ List.mem_cons_self ..)
      have plain : ∀ d : UInt8, isNumberChar d = true → isBlank d = false ∧ d ≠ 123 ∧ d ≠ 91 ∧ d ≠ 34 ∧ d ≠ 116 ∧
        d ≠ 102 ∧ d ≠ 110 := by decide +kernel
      obtain ⟨solid, brace, bracket, quote, t, f, n'⟩ := plain c numeric
      have read := numbers n known rest general found ends
      have same : (Tree.number n).value (num meaning) = .number known := by
        rw [Tree.value, num, found]
        rfl
      rw [split, List.cons_append] at read
      rw [same, Tree.text, split, List.cons_append]
      refine bind_ok.mpr ⟨_, peek_complete blank solid, ?_⟩
      simp only [if_neg brace, if_neg bracket, if_neg quote, if_neg t, if_neg f, if_neg n', read]

theorem parse_complete {decimals : Decimals} {meaning : Numeral → Option Number} (numbers : NumbersComplete decimals meaning)
    {before after : Bytes} {tree : Tree} (front : Blank before) (back : Blank after)
    (accepted : Accepted meaning (maxDepth + 1) tree) :
    parse decimals (before ++ (tree.text ++ after)) = .ok (tree.value (num meaning)) := by
  have ends : Ends after := by
    have whole := @ends_blank after [] back fun _ none => by cases none
    rwa [List.append_nil] at whole
  have ended : skip after = [] := by
    have whole := @skip_blank after [] back
    rwa [List.append_nil] at whole
  refine bind_ok.mpr ⟨_, value_complete numbers (maxDepth + 1) before tree after front accepted ends, ?_⟩
  exact if_neg (not_not.mpr ended)

end Harbinger.Parser
