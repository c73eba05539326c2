import Harbinger.Ml.Record

/-! `analysis/features.py`: the checks that the reader makes on the features of a record. A
parsed record is its document, a dictionary the list of its entries, and an exception its
text. -/

namespace Harbinger.Analysis
open Ml Container

/-- `document[key]`, where the keys are known. -/
def field (document : Document) (key : String) : Document := (document.get? (ascii key)).getD .null

/-- `set(document) == names`. -/
def hasFields (document : Document) (names : List Bytes) : Bool :=
  match document.members? with
  | none => false
  | some members => (members.map Prod.fst).all names.contains && names.all (members.map Prod.fst).contains

/-- The number of characters of a UTF-8 text. -/
def characters (text : Bytes) : Nat := text.countP fun c => c &&& 0xc0 ≠ 0x80

/-- `_utf8` on a text. -/
def boundedText (cap : Nat) (nonempty : Bool) (text : Bytes) : Except String Unit := do
  reject (cap < characters text ∨ (nonempty ∧ text = [])) "invalid bounded string"
  reject (cap < text.length) "oversized UTF-8 string"

/-- `_number`. -/
def binary64 : Document → Except String ℚ
  | .number (.integer value) => .ok value
  | .number (.real value) => .ok value
  | _ => .error "expected binary64 number"

/-- `0|[1-9][0-9]*`. -/
def plainDecimal (text : Bytes) : Option Nat :=
  if text.head? = some (byte '0') ∧ text ≠ [byte '0'] then none else ofDecimal text

/-- `_payload_size`. -/
def payloadSize (document : Document) : Except String Nat :=
  match document with
  | .string text =>
    match if 20 < text.length then none else plainDecimal text with
    | none => .error "invalid exact payload size"
    | some size => if 2 ^ 64 ≤ size then .error "payload size outside uint64" else .ok size
  | _ => .error "invalid exact payload size"

def missingReasons : List Bytes :=
  [ascii "absent", ascii "invalid_type", ascii "out_of_range", ascii "invalid_encoding", ascii "oversized"]

def knownReason (reasons : List (Bytes × Document)) (name : Bytes) : Bool :=
  match reasons.lookup name with
  | some (.string reason) => missingReasons.contains reason
  | _ => false

/-- One round of the loop of `validate_snapshot`: the checked value of a field. -/
def checkFeature (values reasons : List (Bytes × Document)) (feature : HeaderFeature) :
    Except String (Bytes × Document) :=
  match (values.lookup feature.name).getD .null with
  | .null => do
    reject (!knownReason reasons feature.name) "null feature requires a known missing reason"
    return (feature.name, .null)
  | value => do
    reject (reasons.lookup feature.name).isSome "present feature has missing reason"
    match feature.type, value with
    | .numeric, value =>
      let number ← binary64 value
      reject (number < feature.minimum ∨ feature.maximum < number) "numeric feature outside schema range"
      return (feature.name, .number (.real number))
    | .categorical, .string text =>
      boundedText maxValueBytes false text
      return (feature.name, .string text)
    | .categorical, _ => .error "invalid bounded string"

/-- The checks of `snapshot_json` on one value. -/
def checkEntry (reasons : List (Bytes × Document)) (entry : Bytes × Document) : Except String Unit := do
  boundedText maxKeyBytes true entry.1
  reject (reserved entry.1) "reserved snapshot key"
  match entry.2 with
  | .null => reject (!knownReason reasons entry.1) "null feature requires missing reason"
  | value =>
    reject (reasons.lookup entry.1).isSome "present feature has missing reason"
    match value with
    | .string text => boundedText maxValueBytes false text
    | value => discard (binary64 value)

/-- Numbers are written as doubles. -/
def asReal : Document → Document
  | .number (.integer value) => .number (.real value)
  | document => document

/-- `snapshot_json`: the entries in the order of their keys, within the same limit. -/
def snapshotJson (decimals : Decimals) (payload : Document) (values reasons : List (Bytes × Document)) :
    Except String Unit := do
  discard (payloadSize payload)
  reject (maxHeaders < values.length ∨ maxHeaders < reasons.length) "invalid feature maps"
  values.forM (checkEntry reasons)
  reject (∃ entry ∈ reasons, entry.1 ∉ values.map Prod.fst) "unknown missing key"
  let text := Json.render (Number.spell decimals) <| .object [
    (ascii "payload_size_bytes", payload),
    (ascii "headers", .object (byKey (values.map fun entry => (entry.1, asReal entry.2)))),
    (ascii "missing_reasons", .object (byKey reasons))]
  reject (maxFeatureBytes < text.length) "feature_limit"

def snapshotFields : List Bytes := [ascii "payload_size_bytes", ascii "headers", ascii "missing_reasons"]

def validateSnapshot (decimals : Decimals) (schema : FeatureSchema) (version : Bytes) (snapshot : Document) :
    Except String Unit := do
  reject (version ≠ schema.version) "incompatible_version"
  reject (!hasFields snapshot snapshotFields) "invalid snapshot fields"
  discard (payloadSize (field snapshot "payload_size_bytes"))
  match (field snapshot "headers").members?, (field snapshot "missing_reasons").members? with
  | some values, some reasons =>
    reject (maxHeaders < values.length ∨ maxHeaders < reasons.length) "too many feature keys"
    let names := schema.headers.map HeaderFeature.name
    reject (!hasFields (.object values) names ∨ ∃ entry ∈ reasons, entry.1 ∉ names)
      "unapproved or missing feature keys"
    let checked ← schema.headers.mapM (checkFeature values reasons)
    snapshotJson decimals (field snapshot "payload_size_bytes") checked reasons
  | _, _ => .error "invalid feature maps"

theorem hasFields_of_keys {members : List (Bytes × Document)} {names : List Bytes}
    (same : (members.map Prod.fst).Perm names) : hasFields (.object members) names = true := by
  simp only [hasFields, Json.Value.members?, Bool.and_eq_true, List.all_eq_true, List.contains_iff_mem]
  exact ⟨fun name member => same.mem_iff.mp member, fun name member => same.mem_iff.mpr member⟩

theorem boundedText_ok {cap : Nat} {nonempty : Bool} {text : Bytes} (short : text.length ≤ cap)
    (present : nonempty = true → text ≠ []) : boundedText cap nonempty text = .ok () := by
  have few : characters text ≤ cap := List.countP_le_length.trans short
  simp only [boundedText, bind_ok, reject_ok, not_or, not_lt, not_and]
  exact ⟨(), ⟨few, present⟩, short⟩

theorem payloadSize_decimal {size : Nat} (small : size < 2 ^ 64) :
    payloadSize (.string (decimal size)) = .ok size := by
  have short : ¬20 < (decimal size).length := not_lt.mpr (decimal_length_le (by decide) (small.trans (by decide)))
  have plain : plainDecimal (decimal size) = some size := by
    rw [plainDecimal, if_neg, ofDecimal_decimal]
    rintro ⟨zero, different⟩
    rcases Nat.eq_zero_or_pos size with rfl | positive
    · exact different rfl
    · exact head_decimal positive zero
  simp only [payloadSize, short, ↓reduceIte, plain, not_le.mpr small]

section Accepts
variable {decimals : Decimals} {schema : FeatureSchema} {size : Nat} {headers : Headers}

/-- The value that the snapshot holds for a field. -/
def held (decimals : Decimals) (headers : Headers) (feature : HeaderFeature) : Document :=
  ((Ml.feature decimals headers feature).toOption.getD .missing).document

def entryOf (decimals : Decimals) (headers : Headers) (feature : HeaderFeature) : Bytes × Document :=
  (feature.name, held decimals headers feature)

theorem document_ofRat (value : ℚ) : (FeatureValue.ofRat value).document = .number (.real value) := by
  simp only [FeatureValue.ofRat, FeatureValue.document, decide_eq_true_eq]
  by_cases negative : value < 0
  · rw [if_pos negative, abs_of_neg negative, neg_neg]
  · rw [if_neg negative, abs_of_nonneg (not_lt.mp negative)]

theorem knownReason_text {reasons : List (Bytes × Document)} {name : Bytes} {reason : MissingReason}
    (found : reasons.lookup name = some (.string reason.text)) : knownReason reasons name = true := by
  rw [knownReason, found]
  cases reason <;> decide

/-- What is looked up in the maps of a snapshot. -/
structure Maps (decimals : Decimals) (schema : FeatureSchema) (headers : Headers)
    (values reasons : List (Bytes × Document)) : Prop where
  value : ∀ feature ∈ schema.headers, values.lookup feature.name = some (held decimals headers feature)
  reason : ∀ feature ∈ schema.headers, reasons.lookup feature.name =
    match Ml.feature decimals headers feature with
    | .error reason => some (.string reason.text)
    | .ok _ => none

theorem checkFeature_ok {values reasons : List (Bytes × Document)} (maps : Maps decimals schema headers values reasons)
    {feature : HeaderFeature} (member : feature ∈ schema.headers) :
    checkFeature values reasons feature = .ok (entryOf decimals headers feature) := by
  have value := maps.value feature member
  have reason := maps.reason feature member
  cases outcome : Ml.feature decimals headers feature with
  | error missing =>
    rw [outcome] at reason
    simp only [checkFeature, value, entryOf, held, outcome, Except.toOption, Option.getD_none, Option.getD_some,
      FeatureValue.document, knownReason_text reason]
    rfl
  | ok present =>
    rw [outcome] at reason
    rcases feature_ok outcome with ⟨type, number, rfl, low, high⟩ | ⟨type, raw, _, rfl, short, _⟩
    · simp only [checkFeature, value, entryOf, held, outcome, Except.toOption, Option.getD_some, document_ofRat, reason,
        type, binary64, bind_ok, reject_ok]
      exact ⟨(), by simp, number, rfl, (), by simp [low, high], rfl⟩
    · simp only [checkFeature, value, entryOf, held, outcome, Except.toOption, Option.getD_some, reason, type,
        FeatureValue.document, bind_ok, reject_ok]
      exact ⟨(), by simp, (), boundedText_ok short (by simp), rfl⟩

theorem checkEntry_ok {values reasons : List (Bytes × Document)} (checked : schema.Checked)
    (maps : Maps decimals schema headers values reasons) {feature : HeaderFeature}
    (member : feature ∈ schema.headers) : checkEntry reasons (entryOf decimals headers feature) = .ok () := by
  obtain ⟨nonempty, short, free⟩ := checked.named feature member
  have reason := maps.reason feature member
  simp only [checkEntry, bind_ok, reject_ok]
  refine ⟨(), boundedText_ok short fun _ => nonempty, (), free, ?_⟩
  cases outcome : Ml.feature decimals headers feature with
  | error missing =>
    rw [outcome] at reason
    simp only [entryOf, held, outcome, Except.toOption, Option.getD_none, FeatureValue.document,
      knownReason_text reason]
    rfl
  | ok present =>
    rw [outcome] at reason
    rcases feature_ok outcome with ⟨type, number, rfl, low, high⟩ | ⟨type, raw, _, rfl, short, _⟩
    · simp only [entryOf, held, outcome, Except.toOption, Option.getD_some, document_ofRat, reason]
      rfl
    · simp only [entryOf, held, outcome, Except.toOption, Option.getD_some, reason, FeatureValue.document]
      exact boundedText_ok short (by simp)

theorem maps_takeSnapshot (checked : schema.Checked) :
    Maps decimals schema headers
      ((takeSnapshot decimals schema size headers).headers.map fun entry => (entry.1, entry.2.document))
      ((takeSnapshot decimals schema size headers).missingReasons.map fun entry => (entry.1, .string entry.2.text)) where
  value := fun feature member => by
    rw [lookup_mapValues, takeSnapshot_value decimals size headers checked member]
    rfl
  reason := fun feature member => by
    rw [lookup_mapValues fun reason : MissingReason => (.string reason.text : Document),
      takeSnapshot_reason decimals size headers checked member]
    cases Ml.feature decimals headers feature <;> rfl

/-- The reader writes the snapshot as the extractor did. -/
theorem sorted_takeSnapshot : (.object [
      (ascii "payload_size_bytes", .string (decimal size)),
      (ascii "headers", .object (byKey
        ((schema.headers.map (entryOf decimals headers)).map fun entry => (entry.1, asReal entry.2)))),
      (ascii "missing_reasons", .object (byKey
        ((takeSnapshot decimals schema size headers).missingReasons.map fun entry =>
          (entry.1, Json.Value.string entry.2.text))))] : Document) =
    (takeSnapshot decimals schema size headers).document := by
  have plain : ∀ value : FeatureValue, asReal value.document = value.document := by
    intro value
    cases value <;> rfl
  have values : byKey ((schema.headers.map (entryOf decimals headers)).map fun entry => (entry.1, asReal entry.2)) =
      (takeSnapshot decimals schema size headers).headers.map fun entry => (entry.1, entry.2.document) := by
    rw [takeSnapshot, ← byKey_mapValues, List.map_map, List.map_map]
    congr 1
    exact List.map_congr_left fun feature _ => congrArg (Prod.mk feature.name) (plain _)
  have reasons : byKey ((takeSnapshot decimals schema size headers).missingReasons.map fun entry =>
        (entry.1, (.string entry.2.text : Document))) =
      (takeSnapshot decimals schema size headers).missingReasons.map fun entry => (entry.1, .string entry.2.text) := by
    rw [byKey_mapValues fun reason : MissingReason => (.string reason.text : Document)]
    simp only [takeSnapshot, byKey_byKey]
  rw [values, reasons]
  rfl

theorem length_of_json {snapshot : FeatureSnapshot} {text : Bytes} (written : snapshot.json decimals = .ok text) :
    (Json.render (Number.spell decimals) snapshot.document).length ≤ maxFeatureBytes := by
  simp only [FeatureSnapshot.json, bind_ok] at written
  obtain ⟨_, _, _, _, _, _, bound⟩ := written
  by_contra long
  rw [bounded, if_pos (not_le.mp long)] at bound
  cases bound

/-- The checks of `snapshot_json` on the checked values, once the text is short enough. -/
theorem snapshotJson_ok {values reasons : List (Bytes × Document)} (checked : schema.Checked) (small : size < 2 ^ 64)
    (maps : Maps decimals schema headers values reasons) (few : reasons.length ≤ schema.headers.length)
    (known : ∀ entry ∈ reasons, entry.1 ∈ schema.headers.map HeaderFeature.name)
    (fits : (Json.render (Number.spell decimals) (.object [
      (ascii "payload_size_bytes", .string (decimal size)),
      (ascii "headers", .object (byKey
        ((schema.headers.map (entryOf decimals headers)).map fun entry => (entry.1, asReal entry.2)))),
      (ascii "missing_reasons", .object (byKey reasons))])).length ≤ maxFeatureBytes) :
    snapshotJson decimals (.string (decimal size)) (schema.headers.map (entryOf decimals headers)) reasons = .ok () := by
  have names : (schema.headers.map (entryOf decimals headers)).map Prod.fst = schema.headers.map HeaderFeature.name :=
    List.map_map
  simp only [snapshotJson, bind_ok, reject_ok, payloadSize_decimal small, List.length_map, not_or, not_lt, names]
  refine ⟨(), rfl, (), ⟨checked.count, few.trans checked.count⟩, (), forM_ok.mpr ?_, (), ?_, fits⟩
  · intro entry member
    obtain ⟨feature, inside, rfl⟩ := List.mem_map.mp member
    exact checkEntry_ok checked maps inside
  · rintro ⟨entry, member, unknown⟩
    exact unknown (known entry member)

/-- The reader accepts every snapshot that the extractor takes and can write. -/
theorem validateSnapshot_ok (checked : schema.Checked) (small : size < 2 ^ 64) {text : Bytes}
    (written : (takeSnapshot decimals schema size headers).json decimals = .ok text) :
    validateSnapshot decimals schema schema.version (takeSnapshot decimals schema size headers).document = .ok () := by
  have maps : Maps decimals schema headers _ _ := @maps_takeSnapshot decimals schema size headers checked
  have keys : (((takeSnapshot decimals schema size headers).headers.map fun entry =>
      (entry.1, entry.2.document)).map Prod.fst).Perm (schema.headers.map HeaderFeature.name) := by
    rw [List.map_map]
    exact keys_takeSnapshot decimals size headers schema
  have fits := length_of_json written
  rw [← sorted_takeSnapshot] at fits
  obtain ⟨few, known⟩ := reasons_takeSnapshot decimals size headers schema
  have payloadAt : field (takeSnapshot decimals schema size headers).document "payload_size_bytes" =
      .string (decimal size) := rfl
  have valuesAt : (field (takeSnapshot decimals schema size headers).document "headers").members? =
      some ((takeSnapshot decimals schema size headers).headers.map fun entry => (entry.1, entry.2.document)) := rfl
  have reasonsAt : (field (takeSnapshot decimals schema size headers).document "missing_reasons").members? =
      some ((takeSnapshot decimals schema size headers).missingReasons.map fun entry =>
        (entry.1, .string entry.2.text)) := rfl
  have fields : hasFields (takeSnapshot decimals schema size headers).document snapshotFields = true :=
    hasFields_of_keys (.refl _)
  have named : ∀ entry ∈ (takeSnapshot decimals schema size headers).missingReasons.map fun entry =>
      (entry.1, (.string entry.2.text : Document)), entry.1 ∈ schema.headers.map HeaderFeature.name := by
    intro entry member
    obtain ⟨source, inside, rfl⟩ := List.mem_map.mp member
    exact known source inside
  rw [← List.length_map (f := fun entry : Bytes × MissingReason => (entry.1, (.string entry.2.text : Document)))] at few
  generalize ((takeSnapshot decimals schema size headers).headers.map fun entry => (entry.1, entry.2.document)) = values
    at *
  generalize ((takeSnapshot decimals schema size headers).missingReasons.map fun entry =>
    (entry.1, (.string entry.2.text : Document))) = reasons at *
  have count : values.length = schema.headers.length := by
    rw [← List.length_map (f := Prod.fst), keys.length_eq, List.length_map]
  simp only [validateSnapshot, payloadAt, valuesAt, reasonsAt, fields, payloadSize_decimal small, bind_ok, reject_ok,
    hasFields_of_keys keys, count, not_or, not_lt]
  refine ⟨(), by simp, (), by simp, (), rfl, (), ⟨checked.count, few.trans checked.count⟩, (), ⟨by simp, ?_⟩, _,
    mapM_ok fun feature member => checkFeature_ok maps member, snapshotJson_ok checked small maps few named fits⟩
  rintro ⟨entry, member, unknown⟩
  exact unknown (named entry member)

end Accepts

end Harbinger.Analysis
