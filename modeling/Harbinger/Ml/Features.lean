import Harbinger.Container.Dictionary
import Harbinger.Json.Value
import Harbinger.Ml.Feedback

/-! `FeatureExtractor`: the checks of its schema, the bounded snapshot of a message's
allowlisted headers, and the JSON text of a snapshot. A `std::map` is its list of entries
in the order of the keys. -/

namespace Harbinger

/-- `std::invalid_argument` when the condition holds. -/
def reject (condition : Prop) [Decidable condition] (message : String) : Except String Unit :=
  if condition then .error message else .ok ()

@[simp] theorem reject_ok {condition : Prop} [Decidable condition] {message : String} {done : Unit} :
    reject condition message = .ok done ↔ ¬condition := by
  unfold reject
  split <;> simp_all

theorem bind_ok {ε α β : Type} {first : Except ε α} {rest : α → Except ε β} {result : β} :
    (first >>= rest) = .ok result ↔ ∃ value, first = .ok value ∧ rest value = .ok result := by
  cases first <;> simp [bind, Except.bind]

theorem mapM_ok {ε α β : Type} {f : α → Except ε β} {g : α → β} {list : List α}
    (each : ∀ item ∈ list, f item = .ok (g item)) : list.mapM f = .ok (list.map g) := by
  induction list with
  | nil => rfl
  | cons item rest known =>
    rw [List.mapM_cons, each item (List.mem_cons_self ..),
      known fun other member => each other (List.mem_cons_of_mem _ member)]
    rfl

theorem forM_ok {ε α : Type} {f : α → Except ε PUnit} {list : List α} :
    list.forM f = .ok () ↔ ∀ item ∈ list, f item = .ok () := by
  induction list with
  | nil => exact ⟨fun _ _ member => (List.not_mem_nil member).elim, fun _ => rfl⟩
  | cons item rest known =>
    rw [List.forM_eq_forM, List.forM_cons, bind_ok, List.forall_mem_cons, ← known]
    exact ⟨fun ⟨(), first, others⟩ => ⟨first, others⟩, fun ⟨first, others⟩ => ⟨(), first, others⟩⟩

def reserved (name : Bytes) : Prop := ascii "__" <+: name

instance (name : Bytes) : Decidable (reserved name) := inferInstanceAs (Decidable (_ <+: _))

def byte (letter : Char) : UInt8 := letter.toNat.toUInt8

namespace Ml

def maxHeaders : Nat := 16
def maxKeyBytes : Nat := 64
def maxValueBytes : Nat := 256
def maxVocabulary : Nat := 1024
def maxFeatureBytes : Nat := 8192

def digit (c : UInt8) : Bool := byte '0' ≤ c && c ≤ byte '9'

/-- The rest after one or more digits. -/
def skipDigits : Bytes → Option Bytes
  | [] => none
  | c :: rest => if digit c then some (rest.dropWhile digit) else none

def skipInteger : Bytes → Option Bytes
  | [] => none
  | c :: rest => if c = byte '0' then some rest else skipDigits (c :: rest)

def skipFraction : Bytes → Option Bytes
  | [] => some []
  | c :: rest => if c = byte '.' then skipDigits rest else some (c :: rest)

def skipSign : Bytes → Bytes
  | [] => []
  | c :: rest => if c = byte '+' ∨ c = byte '-' then rest else c :: rest

def skipExponent : Bytes → Option Bytes
  | [] => some []
  | c :: rest => if c = byte 'e' ∨ c = byte 'E' then skipDigits (skipSign rest) else some (c :: rest)

def skipMinus : Bytes → Bytes
  | [] => []
  | c :: rest => if c = byte '-' then rest else c :: rest

/-- `decimal_grammar`: the number grammar of JSON. -/
def decimalGrammar (text : Bytes) : Bool :=
  (((skipInteger (skipMinus text)).bind skipFraction).bind skipExponent) = some []

/-- A digit other than zero before the exponent. -/
def nonzeroDigits (raw : Bytes) : Bool :=
  (raw.takeWhile fun c => c ≠ byte 'e' && c ≠ byte 'E').any fun c => byte '1' ≤ c && c ≤ byte '9'

def FeatureValue.ofRat (value : ℚ) : FeatureValue := .number (value < 0) |value|

/-- Only a text without a digit other than zero reads as zero; an underflow is out of range. -/
def parseNumber (decimals : Decimals) (raw : Bytes) (field : HeaderFeature) :
    Except MissingReason FeatureValue :=
  if !decimalGrammar raw then .error .invalidType
  else
    match if nonzeroDigits raw then (decimals.fromChars raw).filter (· ≠ 0) else some 0 with
    | none => .error .outOfRange
    | some number =>
      if number < field.minimum ∨ field.maximum < number then .error .outOfRange
      else .ok (.ofRat number)

/-- The vocabulary of a categorical field; `seen` are the values before. -/
def validateVocabulary (seen : List Bytes) : List Bytes → Except String Unit
  | [] => .ok ()
  | value :: rest => do
    reject (maxValueBytes < value.length ∨ !validUtf8 value ∨ value ∈ seen) "invalid feature vocabulary"
    validateVocabulary (value :: seen) rest

def validateCategorical (field : HeaderFeature) : Except String Unit := do
  reject (field.minimum ≠ 0 ∨ field.maximum ≠ 0) "categorical feature cannot declare numeric range"
  match field.encoding with
  | .hash => reject (field.vocabulary ≠ []) "hash feature cannot declare vocabulary"
  | .vocabulary =>
    reject (maxVocabulary < field.vocabulary.length) "feature vocabulary too large"
    validateVocabulary [] field.vocabulary

/-- The loop of the constructor over the fields; `names` are those before. -/
def validateFields (names : List Bytes) : List HeaderFeature → Except String Unit
  | [] => .ok ()
  | field :: rest => do
    reject (field.name = [] ∨ maxKeyBytes < field.name.length ∨ !validUtf8 field.name ∨ reserved field.name ∨
      field.name ∈ names) "invalid feature header key"
    match field.type with
    | .numeric =>
      reject (field.maximum < field.minimum ∨ field.vocabulary ≠ [] ∨ field.encoding ≠ .vocabulary)
        "invalid numeric feature specification"
    | .categorical => validateCategorical field
    validateFields (field.name :: names) rest

/-- The constructor of `FeatureExtractor`. -/
def validateSchema (schema : FeatureSchema) : Except String Unit := do
  validateVersion schema.version
  reject (maxHeaders < schema.headers.length) "too many feature headers"
  validateFields [] schema.headers

def MissingReason.text : MissingReason → Bytes
  | .absent => ascii "absent"
  | .invalidType => ascii "invalid_type"
  | .outOfRange => ascii "out_of_range"
  | .invalidEncoding => ascii "invalid_encoding"
  | .oversized => ascii "oversized"

/-- The numbers of the documents: integers as `std::to_string` writes them, and doubles. -/
inductive Number where
  | integer (value : Int)
  | real (value : ℚ)
  deriving DecidableEq

def Number.spell (decimals : Decimals) : Number → Bytes
  | .integer value => decimalInt value
  | .real value => decimals.toChars value

abbrev Document := Json.Value Number

/-- What the writers throw: `std::invalid_argument` or `std::length_error`. -/
inductive WriteError where
  | invalidArgument (message : String)
  | lengthError (message : String)
  deriving DecidableEq

def invalid (condition : Prop) [Decidable condition] (message : String) : Except WriteError Unit :=
  if condition then .error (.invalidArgument message) else .ok ()

/-- The text of a document within a limit, as the builder `Json` collects it. -/
def bounded (decimals : Decimals) (limit : Nat) (message : String) (document : Document) :
    Except WriteError Bytes :=
  let text := Json.render (Number.spell decimals) document
  if limit < text.length then .error (.lengthError message) else .ok text

namespace FeatureValue

def isMissing : FeatureValue → Bool
  | .missing => true
  | _ => false

def document : FeatureValue → Document
  | .missing => .null
  | .number negative magnitude => .number (.real (if negative then -magnitude else magnitude))
  | .text value => .string value

def wellFormed : FeatureValue → Bool
  | .text value => value.length ≤ maxValueBytes && validUtf8 value
  | _ => true

end FeatureValue

namespace FeatureSnapshot

def document (snapshot : FeatureSnapshot) : Document :=
  .object [
    (ascii "payload_size_bytes", .string (decimal snapshot.payloadSizeBytes)),
    (ascii "headers", .object (snapshot.headers.map fun entry => (entry.1, entry.2.document))),
    (ascii "missing_reasons", .object (snapshot.missingReasons.map fun entry => (entry.1, .string entry.2.text)))]

/-- The checks of `snapshot_json` on one header, in their order. -/
def checkHeader (snapshot : FeatureSnapshot) (entry : Bytes × FeatureValue) : Except WriteError Unit := do
  invalid (entry.1 = [] ∨ maxKeyBytes < entry.1.length ∨ !validUtf8 entry.1 ∨ reserved entry.1)
    "invalid snapshot key"
  invalid (!entry.2.wellFormed) "invalid snapshot category"
  invalid (entry.2.isMissing ≠ (snapshot.missingReasons.lookup entry.1).isSome) "inconsistent missing reason"

def checkReason (snapshot : FeatureSnapshot) (entry : Bytes × MissingReason) : Except WriteError Unit :=
  invalid ((snapshot.headers.lookup entry.1).isNone) "unknown missing key"

/-- `snapshot_json`. -/
def json (decimals : Decimals) (snapshot : FeatureSnapshot) : Except WriteError Bytes := do
  invalid (maxHeaders < snapshot.headers.length ∨ maxHeaders < snapshot.missingReasons.length)
    "too many snapshot headers"
  snapshot.headers.forM (checkHeader snapshot)
  snapshot.missingReasons.forM (checkReason snapshot)
  bounded decimals maxFeatureBytes "feature_limit" snapshot.document

end FeatureSnapshot

/-- The value of one allowlisted header, or why it is missing. -/
def feature (decimals : Decimals) (headers : Headers) (field : HeaderFeature) :
    Except MissingReason FeatureValue :=
  match headers.lookup field.name with
  | none => .error .absent
  | some raw =>
    if maxValueBytes < raw.length then .error .oversized
    else if !validUtf8 raw then .error .invalidEncoding
    else match field.type with
      | .numeric => parseNumber decimals raw field
      | .categorical => .ok (.text raw)

/-- Entries in the order of their keys. -/
def byKey {α : Type} (entries : List (Bytes × α)) : List (Bytes × α) :=
  entries.insertionSort fun first second => first.1 ≤ second.1

section ByKey
variable {α β : Type} {entries : List (Bytes × α)}

theorem byKey_perm (entries : List (Bytes × α)) : (byKey entries).Perm entries := List.perm_insertionSort ..

theorem lookup_byKey (distinct : (entries.map Prod.fst).Nodup) (key : Bytes) :
    (byKey entries).lookup key = entries.lookup key :=
  Container.lookup_perm distinct (byKey_perm entries).symm key

theorem byKey_mapValues (f : α → β) (entries : List (Bytes × α)) :
    byKey (entries.map fun entry => (entry.1, f entry.2)) = (byKey entries).map fun entry => (entry.1, f entry.2) := by
  refine (List.map_insertionSort (fun first second => first.1 ≤ second.1) (fun first second => first.1 ≤ second.1)
    (fun entry : Bytes × α => (entry.1, f entry.2)) entries ?_).symm
  exact fun _ _ _ _ => Iff.rfl

theorem byKey_byKey (entries : List (Bytes × α)) : byKey (byKey entries) = byKey entries := by
  have total : Std.Total fun first second : Bytes × α => first.1 ≤ second.1 := ⟨fun _ _ => List.le_total _ _⟩
  have trans : IsTrans (Bytes × α) fun first second => first.1 ≤ second.1 := ⟨fun _ _ _ => List.le_trans⟩
  exact (List.pairwise_insertionSort _ entries).insertionSort_eq

end ByKey

/-- What the checks of the constructor establish. -/
structure FeatureSchema.Checked (schema : FeatureSchema) : Prop where
  count : schema.headers.length ≤ maxHeaders
  distinct : (schema.headers.map HeaderFeature.name).Nodup
  named : ∀ field ∈ schema.headers, field.name ≠ [] ∧ field.name.length ≤ maxKeyBytes ∧ ¬reserved field.name

theorem validateFields_ok {names : List Bytes} {fields : List HeaderFeature} {done : Unit}
    (valid : validateFields names fields = .ok done) :
    (fields.map HeaderFeature.name).Nodup ∧ (∀ field ∈ fields, field.name ∉ names) ∧
      ∀ field ∈ fields, (field.name ≠ [] ∧ field.name.length ≤ maxKeyBytes ∧ ¬reserved field.name) ∧
        validUtf8 field.name = true := by
  induction fields generalizing names with
  | nil => simp
  | cons field rest known =>
    simp only [validateFields, bind_ok, reject_ok, not_or, not_lt, Bool.not_eq_true', Bool.not_eq_false] at valid
    obtain ⟨_, ⟨nonempty, short, text, free, fresh⟩, valid⟩ := valid
    have later : validateFields (field.name :: names) rest = .ok done := by
      split at valid
      · obtain ⟨_, _, valid⟩ := bind_ok.mp valid
        exact valid
      · obtain ⟨_, _, valid⟩ := bind_ok.mp valid
        exact valid
    obtain ⟨distinct, apart, named⟩ := known later
    refine ⟨?_, List.forall_mem_cons.mpr ⟨fresh, fun other member => ?_⟩,
      List.forall_mem_cons.mpr ⟨⟨⟨nonempty, short, free⟩, text⟩, named⟩⟩
    · refine List.nodup_cons.mpr ⟨fun repeated => ?_, distinct⟩
      obtain ⟨other, member, same⟩ := List.mem_map.mp repeated
      exact apart other member (same ▸ List.mem_cons_self ..)
    · exact fun seen => apart other member (List.mem_cons_of_mem _ seen)

theorem FeatureSchema.Checked.of_validateSchema {schema : FeatureSchema} {done : Unit}
    (valid : validateSchema schema = .ok done) : schema.Checked := by
  simp only [validateSchema, bind_ok, reject_ok, not_lt] at valid
  obtain ⟨_, _, _, count, fields⟩ := valid
  obtain ⟨distinct, _, named⟩ := validateFields_ok fields
  exact ⟨count, distinct, fun field member => (named field member).1⟩

theorem validateSchema_utf8 {schema : FeatureSchema} {done : Unit} (valid : validateSchema schema = .ok done) :
    ∀ field ∈ schema.headers, validUtf8 field.name = true := by
  simp only [validateSchema, bind_ok] at valid
  obtain ⟨_, _, _, _, fields⟩ := valid
  exact fun field member => ((validateFields_ok fields).2.2 field member).2

/-- A value that is there has the type of its field and lies within its limits. -/
theorem feature_ok {decimals : Decimals} {headers : Headers} {field : HeaderFeature} {value : FeatureValue}
    (found : feature decimals headers field = .ok value) :
    (field.type = .numeric ∧ ∃ number, value = .ofRat number ∧ field.minimum ≤ number ∧ number ≤ field.maximum) ∨
      (field.type = .categorical ∧ ∃ raw, headers.lookup field.name = some raw ∧ value = .text raw ∧
        raw.length ≤ maxValueBytes ∧ validUtf8 raw = true) := by
  unfold feature at found
  split at found
  · cases found
  next raw present =>
    split at found
    · cases found
    next short =>
      split at found
      · cases found
      next text =>
        split at found
        next type =>
          refine Or.inl ⟨type, ?_⟩
          unfold parseNumber at found
          split at found
          · cases found
          · split at found
            · cases found
            next number _ =>
              split at found
              · cases found
              next inside =>
                obtain ⟨low, high⟩ := not_or.mp inside
                exact ⟨number, (Except.ok.inj found).symm, not_lt.mp low, not_lt.mp high⟩
        next type =>
          have utf8 : validUtf8 raw = true := by simpa using text
          exact Or.inr ⟨type, raw, present, (Except.ok.inj found).symm, not_lt.mp short, utf8⟩

def takeSnapshot (decimals : Decimals) (schema : FeatureSchema) (payloadSizeBytes : Nat) (headers : Headers) :
    FeatureSnapshot where
  payloadSizeBytes
  headers := byKey <| schema.headers.map fun field =>
    (field.name, (feature decimals headers field).toOption.getD .missing)
  missingReasons := byKey <| schema.headers.filterMap fun field =>
    match feature decimals headers field with
    | .error reason => some (field.name, reason)
    | .ok _ => none

section Lookup
variable {schema : FeatureSchema} {field : HeaderFeature} (decimals : Decimals) (size : Nat) (headers : Headers)

theorem takeSnapshot_value (checked : schema.Checked) (member : field ∈ schema.headers) :
    (takeSnapshot decimals schema size headers).headers.lookup field.name =
      some ((feature decimals headers field).toOption.getD .missing) := by
  have keys : ((schema.headers.map fun field =>
      (field.name, (feature decimals headers field).toOption.getD .missing)).map Prod.fst).Nodup := by
    rw [List.map_map]
    exact checked.distinct
  rw [takeSnapshot, lookup_byKey keys]
  exact Container.lookup_of_mem keys (List.mem_map.mpr ⟨field, member, rfl⟩)

theorem takeSnapshot_reason (checked : schema.Checked) (member : field ∈ schema.headers) :
    (takeSnapshot decimals schema size headers).missingReasons.lookup field.name =
      match feature decimals headers field with
      | .error reason => some reason
      | .ok _ => none := by
  let reason? := fun field : HeaderFeature => match feature decimals headers field with
    | .error reason => some (field.name, reason)
    | .ok _ => none
  have named : ∀ field entry, reason? field = some entry → field.name = entry.1 := by
    intro field entry taken
    simp only [reason?] at taken
    split at taken
    · exact congrArg Prod.fst (Option.some.inj taken)
    · cases taken
  have keys : ((schema.headers.filterMap reason?).map Prod.fst).Nodup := by
    refine checked.distinct.sublist ?_
    have sub : ∀ fields : List HeaderFeature,
        ((fields.filterMap reason?).map Prod.fst).Sublist (fields.map HeaderFeature.name) := by
      intro fields
      induction fields with
      | nil => exact .slnil
      | cons first rest known =>
        cases taken : reason? first with
        | none => simpa [taken] using known.cons _
        | some entry => simpa [taken, named first entry taken] using known.cons_cons entry.1
    exact sub schema.headers
  change (byKey (schema.headers.filterMap reason?)).lookup field.name = _
  rw [lookup_byKey keys]
  cases outcome : feature decimals headers field with
  | error reason =>
    exact Container.lookup_of_mem keys (List.mem_filterMap.mpr ⟨field, member, by simp only [reason?, outcome]⟩)
  | ok value =>
    refine Container.lookup_eq_none.mpr fun present => ?_
    obtain ⟨entry, inside, same⟩ := List.mem_map.mp present
    obtain ⟨other, known, taken⟩ := List.mem_filterMap.mp inside
    obtain rfl := List.inj_on_of_nodup_map checked.distinct known member ((named other entry taken).trans same)
    simp [reason?, outcome] at taken

theorem keys_takeSnapshot (schema : FeatureSchema) : ((takeSnapshot decimals schema size headers).headers.map
    Prod.fst).Perm (schema.headers.map HeaderFeature.name) := by
  refine ((byKey_perm _).map _).trans ?_
  rw [List.map_map]
  exact .refl _

theorem reasons_takeSnapshot (schema : FeatureSchema) :
    (takeSnapshot decimals schema size headers).missingReasons.length ≤ schema.headers.length ∧
    ∀ entry ∈ (takeSnapshot decimals schema size headers).missingReasons,
      entry.1 ∈ schema.headers.map HeaderFeature.name := by
  constructor
  · exact ((byKey_perm _).length_eq).trans_le (List.length_filterMap_le ..)
  · intro entry member
    obtain ⟨feature, known, taken⟩ := List.mem_filterMap.mp ((byKey_perm _).mem_iff.mp member)
    split at taken
    · cases taken
      exact List.mem_map_of_mem known
    · cases taken

end Lookup

/-- `FeatureExtractor::extract`. The snapshot of a validated schema is never an invalid argument. -/
def extract (decimals : Decimals) (schema : FeatureSchema) (payloadSizeBytes : Nat) (headers : Headers) :
    ExtractedFeatures :=
  let snapshot := takeSnapshot decimals schema payloadSizeBytes headers
  match snapshot.json decimals with
  | .error (.lengthError _) => ⟨none, .featureLimit⟩
  | _ => ⟨some snapshot, .valid⟩

theorem extract_consistent (decimals : Decimals) (schema : FeatureSchema) (size : Nat) (headers : Headers) :
    (extract decimals schema size headers).features.isSome ↔
      (extract decimals schema size headers).validity = .valid := by
  simp only [extract]
  split <;> simp

end Ml

end Harbinger
