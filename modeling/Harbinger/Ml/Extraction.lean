import Harbinger.Ml.Features

/-! What extraction looks at and what it may say: only the headers that the schema lists, and, for
an accepted schema, never an error other than the size limit. -/

namespace Harbinger.Ml
open Container

variable {schema : FeatureSchema} (decimals : Decimals) (size : Nat)

/-- The headers agree wherever the schema looks. -/
def FeatureSchema.Agree (schema : FeatureSchema) (first second : Headers) : Prop :=
  ∀ field ∈ schema.headers, first.lookup field.name = second.lookup field.name

theorem feature_congr {first second : Headers} {field : HeaderFeature}
    (same : first.lookup field.name = second.lookup field.name) :
    feature decimals first field = feature decimals second field := by
  unfold feature
  rw [same]

theorem FeatureSchema.Agree.takeSnapshot {first second : Headers} (agree : schema.Agree first second) :
    takeSnapshot decimals schema size first = takeSnapshot decimals schema size second := by
  have same : ∀ field ∈ schema.headers, feature decimals first field = feature decimals second field :=
    fun field member => feature_congr decimals (agree field member)
  unfold Ml.takeSnapshot
  congr 2
  · exact List.map_congr_left fun field member => by rw [same field member]
  · exact List.filterMap_congr fun field member => by rw [same field member]

theorem FeatureSchema.Agree.extract {first second : Headers} (agree : schema.Agree first second) :
    extract decimals schema size first = extract decimals schema size second := by
  unfold Ml.extract
  rw [agree.takeSnapshot]

variable (headers : Headers)

theorem wellFormed_feature (field : HeaderFeature) :
    ((feature decimals headers field).toOption.getD .missing).wellFormed = true := by
  cases outcome : feature decimals headers field with
  | error reason => rfl
  | ok value =>
    rcases feature_ok outcome with ⟨_, number, rfl, _⟩ | ⟨_, raw, _, rfl, short, text⟩
    · rfl
    · simp only [Except.toOption, Option.getD_some, FeatureValue.wellFormed, text, short, decide_true, Bool.and_self]

theorem isSome_reason (checked : schema.Checked) {field : HeaderFeature} (known : field ∈ schema.headers) :
    ((takeSnapshot decimals schema size headers).missingReasons.lookup field.name).isSome =
      ((feature decimals headers field).toOption.getD .missing).isMissing := by
  rw [takeSnapshot_reason decimals size headers checked known]
  cases outcome : feature decimals headers field with
  | error reason => rfl
  | ok value => rcases feature_ok outcome with ⟨_, number, rfl, _⟩ | ⟨_, raw, _, rfl, _⟩ <;> rfl

theorem invalid_ok {condition : Prop} [Decidable condition] {message : String} (holds : ¬condition) :
    invalid condition message = .ok () := if_neg holds

theorem mem_takeSnapshot {entry : Bytes × FeatureValue}
    (member : entry ∈ (takeSnapshot decimals schema size headers).headers) :
    ∃ field ∈ schema.headers, entry = (field.name, (feature decimals headers field).toOption.getD .missing) := by
  obtain ⟨field, known, rfl⟩ := List.mem_map.mp ((byKey_perm _).mem_iff.mp member)
  exact ⟨field, known, rfl⟩

theorem checkHeader_takeSnapshot (accepted : validateSchema schema = .ok ()) {entry : Bytes × FeatureValue}
    (member : entry ∈ (takeSnapshot decimals schema size headers).headers) :
    (takeSnapshot decimals schema size headers).checkHeader entry = .ok () := by
  have checked : schema.Checked := .of_validateSchema accepted
  obtain ⟨field, known, rfl⟩ := mem_takeSnapshot decimals size headers member
  obtain ⟨nonempty, short, free⟩ := checked.named field known
  have text := validateSchema_utf8 accepted field known
  have name : ¬(field.name = [] ∨ maxKeyBytes < field.name.length ∨ !validUtf8 field.name ∨ reserved field.name) := by
    simp only [nonempty, not_lt.mpr short, text, free, Bool.not_true, Bool.false_eq_true, or_self, not_false_eq_true]
  have category : ¬(!((feature decimals headers field).toOption.getD .missing).wellFormed) = true := by
    rw [wellFormed_feature]
    exact nofun
  have reason := isSome_reason decimals size headers checked known
  rw [FeatureSnapshot.checkHeader, invalid_ok name, invalid_ok category, invalid_ok (not_not.mpr reason.symm)]
  rfl

theorem checkReason_takeSnapshot (accepted : validateSchema schema = .ok ()) {entry : Bytes × MissingReason}
    (member : entry ∈ (takeSnapshot decimals schema size headers).missingReasons) :
    (takeSnapshot decimals schema size headers).checkReason entry = .ok () := by
  obtain ⟨field, known, same⟩ := List.mem_map.mp ((reasons_takeSnapshot decimals size headers schema).2 entry member)
  apply invalid_ok
  rw [← same, takeSnapshot_value decimals size headers (.of_validateSchema accepted) known]
  exact nofun

/-- Every check on the snapshot of an accepted schema passes; only its length is left. -/
theorem json_takeSnapshot (accepted : validateSchema schema = .ok ()) :
    (takeSnapshot decimals schema size headers).json decimals =
      bounded decimals maxFeatureBytes "feature_limit" (takeSnapshot decimals schema size headers).document := by
  have checked : schema.Checked := .of_validateSchema accepted
  have count : (takeSnapshot decimals schema size headers).headers.length ≤ maxHeaders := by
    calc (takeSnapshot decimals schema size headers).headers.length
      _ = schema.headers.length := by
        rw [← List.length_map Prod.fst, (keys_takeSnapshot decimals size headers schema).length_eq, List.length_map]
      _ ≤ maxHeaders := checked.count
  have few := (reasons_takeSnapshot decimals size headers schema).1.trans checked.count
  have values : (takeSnapshot decimals schema size headers).headers.forM
      (takeSnapshot decimals schema size headers).checkHeader = .ok () :=
    forM_ok.mpr fun entry member => checkHeader_takeSnapshot decimals size headers accepted member
  have reasons : (takeSnapshot decimals schema size headers).missingReasons.forM
      (takeSnapshot decimals schema size headers).checkReason = .ok () :=
    forM_ok.mpr fun entry member => checkReason_takeSnapshot decimals size headers accepted member
  rw [FeatureSnapshot.json, invalid_ok (not_or.mpr ⟨not_lt.mpr count, not_lt.mpr few⟩), values, reasons]
  rfl

theorem takeSnapshot_never_invalid (accepted : validateSchema schema = .ok ()) (message : String) :
    (takeSnapshot decimals schema size headers).json decimals ≠ .error (.invalidArgument message) := by
  rw [json_takeSnapshot decimals size headers accepted, bounded]
  split <;> exact nofun

/-- What a valid snapshot looks like: the names of the schema, a reason for each missing value and
no other, and a short enough text. -/
structure FeatureSnapshot.Complete (snapshot : FeatureSnapshot) (schema : FeatureSchema) : Prop where
  keys : (snapshot.headers.map Prod.fst).Perm (schema.headers.map HeaderFeature.name)
  reasons : ∀ key, (snapshot.missingReasons.lookup key).isSome ↔ snapshot.headers.lookup key = some .missing
  text : ∃ text, snapshot.json decimals = .ok text ∧ text.length ≤ maxFeatureBytes

theorem reason_iff_missing (checked : schema.Checked) (key : Bytes) :
    ((takeSnapshot decimals schema size headers).missingReasons.lookup key).isSome ↔
      (takeSnapshot decimals schema size headers).headers.lookup key = some .missing := by
  by_cases listed : key ∈ schema.headers.map HeaderFeature.name
  · obtain ⟨field, known, rfl⟩ := List.mem_map.mp listed
    rw [takeSnapshot_value decimals size headers checked known, isSome_reason decimals size headers checked known]
    cases (feature decimals headers field).toOption.getD .missing <;> simp [FeatureValue.isMissing]
  · have unknown : (takeSnapshot decimals schema size headers).headers.lookup key = none :=
      lookup_eq_none.mpr fun member => listed ((keys_takeSnapshot decimals size headers schema).mem_iff.mp member)
    have unexplained : (takeSnapshot decimals schema size headers).missingReasons.lookup key = none := by
      refine lookup_eq_none.mpr fun member => listed ?_
      obtain ⟨entry, inside, rfl⟩ := List.mem_map.mp member
      exact (reasons_takeSnapshot decimals size headers schema).2 entry inside
    simp [unknown, unexplained]

theorem extract_complete (accepted : validateSchema schema = .ok ()) {snapshot : FeatureSnapshot}
    (extracted : (extract decimals schema size headers).features = some snapshot) :
    snapshot.Complete decimals schema := by
  have written := json_takeSnapshot decimals size headers accepted
  simp only [extract] at extracted
  rw [bounded] at written
  split at extracted
  · cases extracted
  next fits =>
    obtain rfl := Option.some.inj extracted
    refine ⟨keys_takeSnapshot decimals size headers schema,
      reason_iff_missing decimals size headers (.of_validateSchema accepted), ?_⟩
    by_cases long : maxFeatureBytes <
        (Json.render (Number.spell decimals) (takeSnapshot decimals schema size headers).document).length
    · rw [if_pos long] at written
      exact (fits _ written).elim
    · rw [if_neg long] at written
      exact ⟨_, written, not_lt.mp long⟩

end Harbinger.Ml
