import Harbinger.Simulator.Trace

/-! The common trace format read back. Whatever `write` accepts, `read` returns unchanged, and
`load` returns a trace that stands for the same rows exactly when no id is given twice. -/

namespace Harbinger.Simulator
open Ml

variable {δ : Type} {f : Floats δ} {sized : Bool} {previous : δ} {row : Row δ} {rows : List (Row δ)}

/-! ### What the writer accepts -/

/-- The row passes `_check`. -/
structure Accepted (f : Floats δ) (previous : δ) (row : Row δ) : Prop where
  arrival : f.finite row.arrivalMs
  sorted : ¬f.less row.arrivalMs previous
  named : row.key ≠ []
  key : ∀ byte ∈ row.key, byte ∉ forbidden
  duration : f.finite row.durationMs ∧ ¬f.less row.durationMs f.zero
  size : ∀ size ∈ row.size, f.finite size ∧ ¬f.less size f.zero

theorem check_ok {line : Nat} {done : Unit} : check f row previous line = .ok done ↔ Accepted f previous row := by
  simp only [check, bind_ok, reject_ok, not_or, not_exists, not_and, not_not]
  constructor
  · rintro ⟨_, arrival, _, sorted, _, ⟨named, key⟩, _, duration, size⟩
    exact ⟨arrival, sorted, named, key, duration, size⟩
  · rintro ⟨arrival, sorted, named, key, duration, size⟩
    exact ⟨(), arrival, (), sorted, (), ⟨named, key⟩, (), duration, size⟩

/-- Every row passes, and has a size only if there is a column for it. -/
def Writable (f : Floats δ) (sized : Bool) : δ → List (Row δ) → Prop
  | _, [] => True
  | previous, row :: rest =>
    (Accepted f previous row ∧ (sized = false → row.size = none)) ∧ Writable f sized row.arrivalMs rest

def rowLine (f : Floats δ) (sized : Bool) (row : Row δ) : Bytes := joined (rowFields f sized row)

theorem writeRows_ok {count : Nat} {text : Bytes} : writeRows f sized count previous rows = .ok text ↔
    Writable f sized previous rows ∧ text = (rows.map (rowLine f sized)).flatMap (· ++ [10]) := by
  induction rows generalizing count previous text with
  | nil =>
    rw [writeRows]
    exact ⟨fun same => ⟨trivial, (Except.ok.inj same).symm⟩, fun ⟨_, same⟩ => congrArg Except.ok same.symm⟩
  | cons row rest known =>
    simp only [writeRows, bind_ok, reject_ok, check_ok, known]
    constructor
    · rintro ⟨_, accepted, _, fits, tail, ⟨writable, rfl⟩, same⟩
      refine ⟨⟨⟨accepted, fun none => ?_⟩, writable⟩, (Except.ok.inj same).symm⟩
      simpa [none] using fits
    · rintro ⟨⟨⟨accepted, fits⟩, writable⟩, rfl⟩
      refine ⟨(), accepted, (), ?_, _, ⟨writable, rfl⟩, rfl⟩
      cases sized
      · simp [fits rfl]
      · simp

theorem fields_plain (accepted : Accepted f previous row) (sized : Bool) :
    ∀ field ∈ rowFields f sized row, ∀ byte ∈ field, byte ∉ forbidden := by
  have size : ∀ byte ∈ (row.size.map f.repr).getD [], byte ∉ forbidden := by
    rcases given : row.size with _ | size
    · exact fun byte member => (List.not_mem_nil member).elim
    · exact (f.repr_plain size (accepted.size size given).1).2
  have fixed : ∀ field ∈ [f.repr row.arrivalMs, row.key, f.repr row.durationMs], ∀ byte ∈ field, byte ∉ forbidden := by
    simp only [List.forall_mem_cons]
    exact ⟨(f.repr_plain _ accepted.arrival).2, accepted.key, (f.repr_plain _ accepted.duration.1).2,
      fun _ member => (List.not_mem_nil member).elim⟩
  unfold rowFields
  cases sized with
  | false => simpa using fixed
  | true => exact List.forall_mem_append.mpr ⟨fixed, List.forall_mem_singleton.mpr size⟩

theorem header_plain (sized : Bool) : ∀ field ∈ header sized, ∀ byte ∈ field, byte ∉ forbidden := by
  cases sized <;> decide +kernel

/-- A line of plain fields has no quote and no break, and is cut into its fields at the commas. -/
theorem joined_plain {fields : List Bytes} (plain : ∀ field ∈ fields, ∀ byte ∈ field, byte ∉ forbidden) :
    ∀ byte ∈ joined fields, byte ≠ 34 ∧ byte ≠ 13 ∧ byte ≠ 10 := by
  have other : ∀ byte : UInt8, byte ∉ forbidden → byte ≠ 34 ∧ byte ≠ 13 ∧ byte ≠ 10 := by
    intro byte fine
    simp only [forbidden, List.mem_cons, List.not_mem_nil, not_or] at fine
    exact ⟨fine.2.1, fine.2.2.1, fine.2.2.2.1⟩
  induction fields with
  | nil => exact fun byte member => (List.not_mem_nil member).elim
  | cons field rest known =>
    have first := fun byte member => other byte (plain field (List.mem_cons_self ..) byte member)
    have later := known fun field member => plain field (List.mem_cons_of_mem _ member)
    cases rest with
    | nil => simpa [joined, List.intercalate] using first
    | cons next rest =>
      rw [joined, List.intercalate_cons_cons]
      refine List.forall_mem_append.mpr ⟨List.forall_mem_append.mpr ⟨first, ?_⟩, later⟩
      exact List.forall_mem_singleton.mpr (by decide)

theorem split_joined {fields : List Bytes} (nonempty : fields ≠ [])
    (plain : ∀ field ∈ fields, ∀ byte ∈ field, byte ∉ forbidden) : (joined fields).splitOn 44 = fields :=
  List.splitOn_intercalate 44 (fun field member comma => plain field member 44 comma (by decide)) nonempty

/-- A line of several plain fields is a record of `csv.reader`. -/
theorem record_joined {fields : List Bytes} (several : 1 < fields.length)
    (plain : ∀ field ∈ fields, ∀ byte ∈ field, byte ∉ forbidden) :
    (if joined fields = [] then [] else (joined fields).splitOn 44) = fields := by
  match fields, several with
  | first :: second :: rest, _ =>
    rw [if_neg (by simp [joined, List.intercalate_cons_cons]), split_joined (List.cons_ne_nil _ _) plain]

theorem linesAt_flatMap {breaks : UInt8 → Bool} (feed : breaks 10 = true) {lines : List Bytes}
    (free : ∀ line ∈ lines, ∀ byte ∈ line, breaks byte = false) : linesAt breaks (lines.flatMap (· ++ [10])) = lines := by
  have parts : (lines.flatMap (· ++ [10])).splitOnP breaks = lines ++ [[]] := by
    induction lines with
    | nil => rfl
    | cons line rest known =>
      rw [List.flatMap_cons, List.append_assoc, List.singleton_append,
        List.splitOnP_append_cons_of_forall_mem (free line (List.mem_cons_self ..)) 10 feed,
        known fun line member => free line (List.mem_cons_of_mem _ member)]
      rfl
  rw [linesAt, parts]
  simp

theorem joinCrLf_plain {text : Bytes} (plain : ∀ byte ∈ text, byte ≠ 13) : joinCrLf text = text := by
  induction text with
  | nil => rfl
  | cons byte rest known =>
    have later := known fun byte member => plain byte (List.mem_cons_of_mem _ member)
    unfold joinCrLf
    split
    next first rest same =>
      exact absurd (List.cons.inj same).1 (plain byte (List.mem_cons_self ..))
    next first tail _ same =>
      obtain ⟨rfl, rfl⟩ := List.cons.inj same
      rw [later]
    next same => cases same

/-! ### Reading in Python -/

theorem Writable.forall (writable : Writable f sized previous rows) :
    ∀ row ∈ rows, (∃ previous, Accepted f previous row) ∧ (sized = false → row.size = none) := by
  induction rows generalizing previous with
  | nil => exact fun row member => (List.not_mem_nil member).elim
  | cons row rest known =>
    exact List.forall_mem_cons.mpr ⟨⟨⟨previous, writable.1.1⟩, writable.1.2⟩, known writable.2⟩

theorem readRows_fields {line : Nat} (writable : Writable f sized previous rows) :
    readRows f sized line previous (rows.map (rowFields f sized)) = .ok rows := by
  induction rows generalizing line previous with
  | nil => rfl
  | cons row rest known =>
    obtain ⟨⟨accepted, fits⟩, later⟩ := writable
    have width : (rowFields f sized row).length = (header sized).length := by cases sized <;> rfl
    have arrival : toFloat f ((rowFields f sized row).getD 0 []) = .ok row.arrivalMs := by
      change toFloat f (f.repr row.arrivalMs) = _
      rw [toFloat, f.float_repr _ accepted.arrival]
      rfl
    have duration : toFloat f ((rowFields f sized row).getD 2 []) = .ok row.durationMs := by
      change toFloat f (f.repr row.durationMs) = _
      rw [toFloat, f.float_repr _ accepted.duration.1]
      rfl
    have size : readSize f sized (rowFields f sized row) = .ok row.size := by
      unfold readSize
      cases sized with
      | false => exact (if_neg (by simp)).trans (congrArg Except.ok (fits rfl).symm)
      | true =>
        rcases given : row.size with _ | size
        · simp only [rowFields, given]
          rfl
        · obtain ⟨nonempty, _⟩ := f.repr_plain size (accepted.size size given).1
          simp only [rowFields, given, ↓reduceIte, List.cons_append, List.nil_append, List.getD_cons_succ,
            List.getD_cons_zero, Option.map_some, Option.getD_some, ne_eq, nonempty, not_false_eq_true, and_self, toFloat,
            f.float_repr size (accepted.size size given).1]
          rfl
    rw [List.map_cons, readRows]
    refine bind_ok.mpr ⟨(), reject_ok.mpr (not_not.mpr width), ?_⟩
    refine bind_ok.mpr ⟨row.size, size, ?_⟩
    refine bind_ok.mpr ⟨row.arrivalMs, arrival, ?_⟩
    refine bind_ok.mpr ⟨row.durationMs, duration, ?_⟩
    exact bind_ok.mpr ⟨(), check_ok.mpr accepted, bind_ok.mpr ⟨_, known later, rfl⟩⟩

/-! ### Loading in C++ -/

/-- The loader with another row. -/
def Loader.put (f : Floats δ) (sized : Bool) (l : Loader δ) (row : Row δ) : Loader δ :=
  l.add row.arrivalMs row.key row.durationMs (if sized then [row.size.getD f.nan] else [])

theorem loadRows_lines {number : Nat} {l : Loader δ} (writable : Writable f sized previous rows) :
    loadRows f sized number previous l (rows.map (rowLine f sized)) = .ok (rows.foldl (Loader.put f sized) l) := by
  induction rows generalizing number previous l with
  | nil => rfl
  | cons row rest known =>
    obtain ⟨⟨accepted, fits⟩, later⟩ := writable
    have fields : (rowLine f sized row).splitOn 44 = rowFields f sized row :=
      split_joined (by simp [rowFields]) (fields_plain accepted sized)
    have width : (rowFields f sized row).length = if sized then 4 else 3 := by cases sized <;> rfl
    have quote : ¬(row.key = [] ∨ 34 ∈ row.key) := by
      rintro (empty | quoted)
      · exact accepted.named empty
      · exact accepted.key 34 quoted (by decide)
    have arrival : toDouble f (f.repr row.arrivalMs) = .ok row.arrivalMs := by
      rw [toDouble, f.stod_repr _ accepted.arrival]
      rfl
    have duration : toDouble f (f.repr row.durationMs) = .ok row.durationMs := by
      rw [toDouble, f.stod_repr _ accepted.duration.1]
      rfl
    have size : loadSize f sized number ((rowFields f sized row).getD 3 []) =
        .ok (if sized then [row.size.getD f.nan] else []) := by
      unfold loadSize
      cases sized with
      | false => rfl
      | true =>
        rcases given : row.size with _ | size
        · simp only [rowFields, given]
          rfl
        · obtain ⟨nonempty, _⟩ := f.repr_plain size (accepted.size size given).1
          obtain ⟨finite, positive⟩ := accepted.size size given
          simp only [rowFields, given, ↓reduceIte, List.cons_append, List.nil_append, List.getD_cons_succ,
            List.getD_cons_zero, Option.map_some, Option.getD_some, nonempty, not_true_eq_false, toDouble,
            f.stod_repr size finite]
          exact bind_ok.mpr ⟨size, rfl, bind_ok.mpr ⟨(), reject_ok.mpr (by simp [finite, positive]), rfl⟩⟩
    rw [List.map_cons, loadRows]
    simp only [fields]
    refine bind_ok.mpr ⟨(), reject_ok.mpr (not_not.mpr width), ?_⟩
    refine bind_ok.mpr ⟨(), reject_ok.mpr quote, ?_⟩
    refine bind_ok.mpr ⟨row.arrivalMs, arrival, ?_⟩
    refine bind_ok.mpr ⟨row.durationMs, duration, ?_⟩
    refine bind_ok.mpr ⟨(), reject_ok.mpr (by simp [accepted.arrival, accepted.sorted]), ?_⟩
    refine bind_ok.mpr ⟨(), reject_ok.mpr (by simp [accepted.duration]), ?_⟩
    exact bind_ok.mpr ⟨_, size, known later⟩

/-- The table of the keys after some rows. -/
structure Loader.Holds (f : Floats δ) (sized : Bool) (l : Loader δ) (rows : List (Row δ)) : Prop where
  invocations : l.rows = rows.map fun row => ⟨row.arrivalMs, (l.keys.idxOf row.key).toUInt32, row.durationMs⟩
  distinct : l.keys.Nodup
  keys : l.keys.toFinset = (rows.map Row.key).toFinset
  ids : ∀ key, l.ids.lookup key = if key ∈ l.keys then some (l.keys.idxOf key).toUInt32 else none
  sizes : l.sizes = if sized then rows.map fun row => row.size.getD f.nan else []

theorem Loader.Holds.put {l : Loader δ} (holds : l.Holds f sized rows) (row : Row δ) :
    (l.put f sized row).Holds f sized (rows ++ [row]) := by
  have sizes : l.sizes ++ (if sized then [row.size.getD f.nan] else []) =
      if sized then (rows ++ [row]).map fun row => row.size.getD f.nan else [] := by
    rw [holds.sizes]
    cases sized <;> simp
  have found := holds.ids row.key
  unfold Loader.put Loader.add
  by_cases known : row.key ∈ l.keys
  · rw [if_pos known] at found
    simp only [found]
    refine ⟨?_, holds.distinct, ?_, holds.ids, sizes⟩
    · rw [holds.invocations, List.map_append]
      rfl
    · have listed : row.key ∈ (rows.map Row.key).toFinset := holds.keys ▸ List.mem_toFinset.mpr known
      rw [List.map_append, List.toFinset_append, holds.keys]
      exact (Finset.union_eq_left.mpr (by simpa using listed)).symm
  · rw [if_neg known] at found
    simp only [found]
    have old : ∀ key ∈ l.keys, (l.keys ++ [row.key]).idxOf key = l.keys.idxOf key := fun key member =>
      List.idxOf_append_of_mem member
    have new : (l.keys ++ [row.key]).idxOf row.key = l.keys.length := by
      rw [List.idxOf_append_of_notMem known, List.idxOf_cons_self, add_zero]
    have listed : ∀ other ∈ rows, other.key ∈ l.keys := fun other member =>
      List.mem_toFinset.mp (holds.keys ▸ List.mem_toFinset.mpr (List.mem_map_of_mem member))
    refine ⟨?_, ?_, ?_, fun key => ?_, sizes⟩
    · dsimp only
      rw [holds.invocations, List.map_append, List.map_singleton, new]
      refine congrArg (· ++ _) (List.map_congr_left fun other member => ?_)
      rw [old _ (listed other member)]
    · exact holds.distinct.append (List.nodup_singleton _) (List.disjoint_singleton.mpr known)
    · dsimp only
      rw [List.map_append, List.toFinset_append, List.toFinset_append, holds.keys]
      rfl
    · dsimp only
      rw [List.lookup_append, holds.ids key]
      by_cases same : key = row.key
      · subst same
        simp [known, new]
      · by_cases member : key ∈ l.keys
        · simp [member, old key member]
        · simp [member, same, List.lookup_cons, beq_eq_false_iff_ne.mpr same]

theorem Loader.Holds.foldl {l : Loader δ} {before : List (Row δ)} (holds : l.Holds f sized before) (rows : List (Row δ)) :
    (rows.foldl (Loader.put f sized) l).Holds f sized (before ++ rows) := by
  induction rows generalizing l before with
  | nil => rwa [List.append_nil]
  | cons row rest known =>
    have later := known (holds.put row)
    rwa [List.append_assoc] at later

theorem Loader.Holds.initial : Loader.Holds f sized {} [] :=
  ⟨rfl, List.nodup_nil, rfl, fun _ => rfl, by cases sized <;> rfl⟩

/-- A loaded trace stands for the rows with their keys read through the ids. -/
theorem Loader.Holds.readBack {l : Loader δ} (holds : l.Holds f sized rows) (writable : Writable f sized previous rows) :
    l.readBack f = rows.map fun row => { row with key := l.keys.getD (l.keys.idxOf row.key).toUInt32.toNat [] } := by
  refine List.ext_getElem ?_ fun i inside inside' => ?_
  · simp [Trace.readBack, holds.invocations]
  · have below : i < rows.length := by simpa using inside'
    obtain ⟨⟨_, accepted⟩, fits⟩ := writable.forall rows[i] (List.getElem_mem below)
    have size : l.sizes[i]?.filter f.finite = rows[i].size := by
      rw [holds.sizes]
      cases sized with
      | false => exact (fits rfl).symm
      | true =>
        simp only [↓reduceIte, List.getElem?_map, List.getElem?_eq_getElem below, Option.map_some]
        rcases given : rows[i].size with _ | size
        · simp [f.nan_finite]
        · simp [(accepted.size size given).1]
    simp only [Trace.readBack, holds.invocations, List.getElem_map, List.getElem_zipIdx, zero_add, size]

theorem Loader.Holds.readBack_eq {l : Loader δ} (holds : l.Holds f sized rows)
    (writable : Writable f sized previous rows) (few : (rows.map Row.key).toFinset.card ≤ 2 ^ 32) : l.readBack f = rows := by
  have count : l.keys.length ≤ 2 ^ 32 := by
    rw [← List.toFinset_card_of_nodup holds.distinct, holds.keys]
    exact few
  rw [holds.readBack writable]
  refine (List.map_congr_left fun row member => ?_).trans (List.map_id rows)
  have listed : row.key ∈ l.keys :=
    List.mem_toFinset.mp (holds.keys ▸ List.mem_toFinset.mpr (List.mem_map_of_mem member))
  have inside : l.keys.idxOf row.key < l.keys.length := List.idxOf_lt_length_iff.mpr listed
  have exact_ : (l.keys.idxOf row.key).toUInt32.toNat = l.keys.idxOf row.key :=
    UInt32.toNat_ofNat_of_lt (inside.trans_le count)
  rw [exact_, List.getD_eq_getElem _ _ inside, List.getElem_idxOf]
  rfl

/-- The ids tell at most `2 ^ 32` keys apart. -/
theorem Loader.Holds.readBack_ne {l : Loader δ} (holds : l.Holds f sized rows)
    (writable : Writable f sized previous rows) (many : 2 ^ 32 < (rows.map Row.key).toFinset.card) : l.readBack f ≠ rows := by
  intro same
  have known : (rows.map Row.key).toFinset ⊆ (Finset.range (2 ^ 32)).image fun i => l.keys.getD i [] := by
    rw [holds.readBack writable] at same
    intro key member
    rw [List.mem_toFinset, ← same, List.map_map] at member
    obtain ⟨row, _, rfl⟩ := List.mem_map.mp member
    exact Finset.mem_image.mpr ⟨_, Finset.mem_range.mpr (UInt32.toNat_lt _), rfl⟩
  have bound := (Finset.card_le_card known).trans Finset.card_image_le
  rw [Finset.card_range] at bound
  exact absurd bound (not_le.mpr many)

/-! ### Round trip -/

theorem write_ok {count : Nat} {file : Bytes} : write f rows sized = .ok (count, file) ↔
    count = rows.length ∧ Writable f sized f.lowest rows ∧
      file = (joined (header sized) :: rows.map (rowLine f sized)).flatMap (· ++ [10]) := by
  simp only [write, bind_ok, writeRows_ok]
  constructor
  · rintro ⟨text, ⟨writable, rfl⟩, same⟩
    obtain ⟨rfl, rfl⟩ := Prod.mk.inj (Except.ok.inj same)
    exact ⟨rfl, writable, rfl⟩
  · rintro ⟨rfl, writable, rfl⟩
    exact ⟨_, ⟨writable, rfl⟩, rfl⟩

section Written
variable (writable : Writable f sized f.lowest rows)

include writable in
theorem lines_plain : ∀ line ∈ joined (header sized) :: rows.map (rowLine f sized),
    ∀ byte ∈ line, byte ≠ 34 ∧ byte ≠ 13 ∧ byte ≠ 10 := by
  refine List.forall_mem_cons.mpr ⟨joined_plain (header_plain sized), fun line member => ?_⟩
  obtain ⟨row, listed, rfl⟩ := List.mem_map.mp member
  obtain ⟨⟨_, accepted⟩, _⟩ := writable.forall row listed
  exact joined_plain (fields_plain accepted sized)

include writable in
theorem read_written (quoted : Bytes → List (List Bytes)) :
    read f quoted ((joined (header sized) :: rows.map (rowLine f sized)).flatMap (· ++ [10])) = .ok rows := by
  have plain := lines_plain writable
  have bytes : ∀ byte ∈ (joined (header sized) :: rows.map (rowLine f sized)).flatMap (· ++ [10]), byte ≠ 34 ∧ byte ≠ 13 := by
    intro byte member
    obtain ⟨line, listed, member⟩ := List.mem_flatMap.mp member
    rcases List.mem_append.mp member with inner | last
    · exact ⟨(plain line listed byte inner).1, (plain line listed byte inner).2.1⟩
    · rw [List.mem_singleton.mp last]
      decide
  have records : csvReader quoted ((joined (header sized) :: rows.map (rowLine f sized)).flatMap (· ++ [10])) =
      header sized :: rows.map (rowFields f sized) := by
    rw [csvReader, if_neg fun quote => (bytes 34 quote).1 rfl, joinCrLf_plain fun byte member => (bytes byte member).2,
      linesAt_flatMap rfl fun line member byte inner => by simpa using (plain line member byte inner).2.symm,
      List.map_cons, List.map_map]
    have first : 1 < (header sized).length := by cases sized <;> decide
    rw [record_joined first (header_plain sized)]
    refine congrArg (header sized :: ·) (List.map_congr_left fun row member => ?_)
    obtain ⟨⟨_, accepted⟩, _⟩ := writable.forall row member
    exact record_joined (by simp [rowFields]) (fields_plain accepted sized)
  rw [read, records]
  cases sized with
  | false => exact readRows_fields writable
  | true => exact readRows_fields writable

include writable in
theorem load_written : ∃ l : Loader δ, l.Holds f sized rows ∧ ∀ azure,
    load f azure ((joined (header sized) :: rows.map (rowLine f sized)).flatMap (· ++ [10])) = .ok l.toTrace := by
  have plain := lines_plain writable
  have lines : getlines ((joined (header sized) :: rows.map (rowLine f sized)).flatMap (· ++ [10])) =
      joined (header sized) :: rows.map (rowLine f sized) :=
    linesAt_flatMap rfl fun line member byte inner => by simpa using (plain line member byte inner).2.2
  refine ⟨rows.foldl (Loader.put f sized) {}, Loader.Holds.initial.foldl rows, fun azure => ?_⟩
  rw [load, lines]
  have unsized : joined (header false) = ascii "arrival_ms,key,duration_ms" := by decide +kernel
  have with_size : joined (header true) = ascii "arrival_ms,key,duration_ms,size" := by decide +kernel
  cases sized with
  | false =>
    simp only [unsized, ↓reduceIte, loadRows_lines writable]
    rfl
  | true =>
    simp only [with_size, ↓reduceIte, loadRows_lines writable]
    rfl

end Written

/-- What `write` accepts, `read` and `load` accept. `read` gives back the same rows, and `load`
does so exactly for at most `2 ^ 32` different keys. -/
theorem common_trace_round_trip (quoted : Bytes → List (List Bytes)) (azure : List Bytes → Except String (Trace δ))
    {count : Nat} {file : Bytes} (written : write f rows sized = .ok (count, file)) :
    read f quoted file = .ok rows ∧ ∃ trace, load f azure file = .ok trace ∧
      (trace.readBack f = rows ↔ (rows.map Row.key).toFinset.card ≤ 2 ^ 32) := by
  obtain ⟨_, writable, rfl⟩ := write_ok.mp written
  obtain ⟨l, holds, loaded⟩ := load_written writable
  refine ⟨read_written writable quoted, l.toTrace, loaded azure, fun same => ?_, holds.readBack_eq writable⟩
  exact not_lt.mp fun many => holds.readBack_ne writable many same

section Sample

/-- Digits and a NaN. -/
def Floats.digits : Floats (Option (Fin 10)) where
  repr := fun x => (x.map fun d => [48 + d.val.toUInt8]).getD []
  float := fun text => ((List.finRange 10).find? fun d => text = [48 + d.val.toUInt8]).map some
  stod := fun text => ((List.finRange 10).find? fun d => text = [48 + d.val.toUInt8]).map some
  finite := Option.isSome
  less := fun x y => (x.bind fun a => y.map fun b => decide (a < b)).getD false
  zero := some 0
  lowest := none
  nan := none
  float_repr := by decide +kernel
  stod_repr := by decide +kernel
  repr_plain := by decide +kernel
  nan_finite := rfl

def sampleRow (i : Nat) : Row (Option (Fin 10)) := ⟨some 0, List.replicate (i + 1) 97, some 0, none⟩

theorem sampleRow_accepted (i : Nat) {previous : Option (Fin 10)} (early : previous = none ∨ previous = some 0) :
    Accepted Floats.digits previous (sampleRow i) where
  arrival := rfl
  sorted := by rcases early with rfl | rfl <;> exact Bool.false_ne_true
  named := List.cons_ne_nil _ _
  key := fun byte member => by rw [List.eq_of_mem_replicate member]; decide
  duration := ⟨rfl, Bool.false_ne_true⟩
  size := fun _ none => (Option.not_mem_none _ none).elim

theorem sampleRows_writable (indices : List Nat) {previous : Option (Fin 10)} (early : previous = none ∨ previous = some 0) :
    Writable Floats.digits false previous (indices.map sampleRow) := by
  induction indices generalizing previous with
  | nil => trivial
  | cons i rest known => exact ⟨⟨sampleRow_accepted i early, fun _ => rfl⟩, known (.inr rfl)⟩

/-- A number of rows with different keys. -/
def sampleRows (count : Nat) : List (Row (Option (Fin 10))) := (List.range count).map sampleRow

theorem sampleRows_keys (count : Nat) : ((sampleRows count).map Row.key).toFinset.card = count := by
  have distinct : Function.Injective (Row.key ∘ sampleRow) := fun i j same => by
    have length := congrArg List.length same
    simpa [sampleRow] using length
  rw [sampleRows, List.map_map, List.toFinset_card_of_nodup (List.nodup_range.map distinct), List.length_map, List.length_range]

theorem common_trace_round_trip_two : ∃ file, write Floats.digits (sampleRows 2) false = .ok (2, file) ∧
    ∃ trace, load Floats.digits (fun _ => .ok {}) file = .ok trace ∧ trace.readBack Floats.digits = sampleRows 2 := by
  have written := write_ok.mpr ⟨rfl, sampleRows_writable (List.range 2) (.inl rfl), rfl⟩
  have few : ((sampleRows 2).map Row.key).toFinset.card ≤ 2 ^ 32 := by
    rw [sampleRows_keys]
    norm_num
  obtain ⟨_, trace, loaded, same⟩ := common_trace_round_trip (fun _ => []) (fun _ => .ok {}) written
  exact ⟨_, written, trace, loaded, same.mpr few⟩

theorem sampleRows_confused (count : Nat) (many : 2 ^ 32 < count) : ∃ file trace,
    write Floats.digits (sampleRows count) false = .ok (count, file) ∧
      (∀ azure, load Floats.digits azure file = .ok trace) ∧ trace.readBack Floats.digits ≠ sampleRows count := by
  have writable : Writable Floats.digits false none (sampleRows count) := sampleRows_writable _ (.inl rfl)
  obtain ⟨l, holds, loaded⟩ := load_written writable
  have length : count = (sampleRows count).length := by rw [sampleRows, List.length_map, List.length_range]
  exact ⟨_, l.toTrace, write_ok.mpr ⟨length, writable, rfl⟩, loaded,
    holds.readBack_ne writable (by rwa [sampleRows_keys])⟩

/-- With one key more than there are ids, `load` gives two keys the same id. -/
theorem too_many_keys_confused : ∃ file trace,
    write Floats.digits (sampleRows (2 ^ 32 + 1)) false = .ok (2 ^ 32 + 1, file) ∧
      (∀ azure, load Floats.digits azure file = .ok trace) ∧
      trace.readBack Floats.digits ≠ sampleRows (2 ^ 32 + 1) :=
  sampleRows_confused (2 ^ 32 + 1) (Nat.lt_succ_self _)

end Sample

end Harbinger.Simulator
