import Harbinger.Broker.Learning

/-! The keys of a message in the broker and in the replay of its exported ingress record. The
broker looks at the raw headers, the replay at the features that were extracted from them. -/

namespace Harbinger.Replay
open Ml Container

/-- The replay is told the unscoped key policy of the broker. -/
structure Options.Mirrors (options : Options) (policy : PredictorKeyPolicy) : Prop where
  unscoped : policy.scopeByProducer = false
  job : options.keyHeader = policy.jobHeader
  source : options.sizeSource = policy.sizeSource
  sizeHeader : options.sizeHeader = policy.sizeHeader

/-- The headers of the policy are on the allowlist. -/
structure Listed (schema : FeatureSchema) (policy : PredictorKeyPolicy) : Prop where
  job : ∃ field ∈ schema.headers, field.name = policy.jobHeader ∧ field.type = .categorical
  size : policy.sizeSource = .header → ∃ field ∈ schema.headers, field.name = policy.sizeHeader

/-- The snapshot keeps what the key is made of: the job label is there and usable, and a header
that gives a size is listed as a category. -/
structure Portable (decimals : Decimals) (schema : FeatureSchema) (policy : PredictorKeyPolicy) (headers : Headers) :
    Prop where
  job : ∃ label, headers.lookup policy.jobHeader = some label ∧ label ≠ [] ∧ usableJob label = true ∧
    validUtf8 label = true
  size : policy.sizeSource = .header → ∀ raw, headers.lookup policy.sizeHeader = some raw →
    parseSizeHint decimals raw ≠ none → validUtf8 raw = true ∧
      ∀ field ∈ schema.headers, field.name = policy.sizeHeader → field.type = .categorical

section Row
variable {decimals : Decimals} {event : FeedbackEvent} {identity : RecordIdentity} {lease : Millis}
  {context : RoutingContext} {snapshot : FeatureSnapshot} {envelope : Envelope} {record : Document}

theorem features_exportRow (made : feedbackRecord decimals event identity lease = some record)
    (routed : event.routing = some context) (featured : context.features = some snapshot) :
    features? (exportRow envelope record) = some snapshot.document := by
  obtain ⟨routing, same, row⟩ := @exportRow_eq _ envelope _ _ _ _ made
  obtain rfl := Option.some.inj (routed.symm.trans same)
  have fields := event.recorded identity lease context envelope.members
  have features : context.document.get? (ascii "features") = some (orNull FeatureSnapshot.document context.features) :=
    rfl
  rw [row, features?, fields.routed, Option.bind_some, features, featured]
  rfl

theorem header_exportRow (made : feedbackRecord decimals event identity lease = some record)
    (routed : event.routing = some context) (featured : context.features = some snapshot) (name : Bytes) :
    header? (exportRow envelope record) name = (snapshot.headers.lookup name).map FeatureValue.document := by
  have headers : snapshot.document.get? (ascii "headers") =
    some (.object (snapshot.headers.map fun entry => (entry.1, entry.2.document))) := rfl
  rw [header?, features_exportRow made routed featured, Option.bind_some, headers, Option.bind_some]
  exact lookup_mapValues FeatureValue.document snapshot.headers name

theorem payloadSize_exportRow (made : feedbackRecord decimals event identity lease = some record)
    (routed : event.routing = some context) (featured : context.features = some snapshot) :
    ((features? (exportRow envelope record)).bind fun features => features.get? (ascii "payload_size_bytes")) =
      some (.string (decimal snapshot.payloadSizeBytes)) := by
  rw [features_exportRow made routed featured]
  rfl

end Row

theorem toCount_decimal {size : Nat} (small : size < 2 ^ 64) : toCount (decimal size) = some size := by
  rw [toCount, ofDecimal_decimal]
  exact Option.filter_some_pos (decide_eq_true small)

theorem usableJob_short {label : Bytes} (usable : usableJob label = true) : label.length ≤ maxJobKeyBytes :=
  of_decide_eq_true (Bool.and_eq_true_iff.mp usable).1

section Features
variable {decimals : Decimals} {schema : FeatureSchema} {headers : Headers} {field : HeaderFeature} {raw : Bytes}

theorem feature_categorical (category : field.type = .categorical) (present : headers.lookup field.name = some raw)
    (short : raw.length ≤ maxValueBytes) (text : validUtf8 raw = true) :
    feature decimals headers field = .ok (.text raw) := by
  simp only [feature, present, not_lt.mpr short, text, category, Bool.not_true, Bool.false_eq_true, ↓reduceIte]

theorem text_of_feature (given : ((feature decimals headers field).toOption.getD .missing).document = .string raw) :
    headers.lookup field.name = some raw := by
  cases outcome : feature decimals headers field with
  | error reason =>
    rw [outcome] at given
    cases given
  | ok value =>
    rw [outcome] at given
    rcases feature_ok outcome with ⟨_, number, rfl, _⟩ | ⟨_, label, present, rfl, _⟩
    · cases given
    · cases given
      exact present

theorem parseSizeHint_short (found : parseSizeHint decimals raw ≠ none) : raw.length ≤ 32 := by
  by_contra long
  exact found (if_pos (.inr (not_le.mp long)))

/-- The size that the snapshot shows is the one in the raw header. -/
theorem sizeHint_portable {policy : PredictorKeyPolicy} (portable : Portable decimals schema policy headers)
    (sized : policy.sizeSource = .header) (member : field ∈ schema.headers) (named : field.name = policy.sizeHeader) :
    (Json.Value.string? ((feature decimals headers field).toOption.getD .missing).document).bind
      (parseSizeHint decimals) = (headers.lookup policy.sizeHeader).bind (parseSizeHint decimals) := by
  cases present : headers.lookup policy.sizeHeader with
  | none =>
    have absent : feature decimals headers field = .error .absent := by
      rw [feature, named, present]
    rw [absent]
    rfl
  | some raw =>
    by_cases hint : parseSizeHint decimals raw = none
    · rw [Option.bind_some, hint, Option.bind_eq_none_iff]
      intro label shown
      have text : ((feature decimals headers field).toOption.getD .missing).document = .string label := by
        cases document : ((feature decimals headers field).toOption.getD .missing).document with
        | string other =>
          rw [document] at shown
          rw [Option.some.inj shown]
        | _ =>
          rw [document] at shown
          cases shown
      have same := text_of_feature text
      rw [named, present] at same
      rw [← Option.some.inj same]
      exact hint
    · obtain ⟨text, category⟩ := portable.size sized raw present hint
      have short : raw.length ≤ maxValueBytes := (parseSizeHint_short hint).trans (by decide)
      rw [feature_categorical (category field member named) (named ▸ present) short text]
      rfl

theorem job_portable {policy : PredictorKeyPolicy} (portable : Portable decimals schema policy headers)
    (named : field.name = policy.jobHeader) (category : field.type = .categorical) :
    ∃ label, feature decimals headers field = .ok (.text label) ∧ headers.lookup policy.jobHeader = some label ∧
      label ≠ [] ∧ usableJob label = true := by
  obtain ⟨label, present, nonempty, usable, text⟩ := portable.job
  have short : label.length ≤ maxValueBytes := (usableJob_short usable).trans (by decide)
  exact ⟨label, feature_categorical category (named ▸ present) short text, present, nonempty, usable⟩

end Features

theorem derivePredictorKey_job {policy : PredictorKeyPolicy} {headers : Headers} {label : Bytes}
    (unscoped : policy.scopeByProducer = false) (named : policy.jobHeader ≠ [])
    (present : headers.lookup policy.jobHeader = some label) (nonempty : label ≠ []) (usable : usableJob label = true) :
    derivePredictorKey headers policy = some label := by
  have short : label.length ≤ maxPredictorKeyBytes := (usableJob_short usable).trans (by decide)
  have job : headerText headers policy.jobHeader = some label := by
    rw [headerText, if_neg named, present]
    exact if_neg nonempty
  simp only [derivePredictorKey, job, unscoped, Option.filter_some, usable, short, ↓reduceIte, Bool.false_eq_true,
    decide_true]

theorem extract_features {decimals : Decimals} {schema : FeatureSchema} {size : Nat} {headers : Headers}
    (valid : (extract decimals schema size headers).validity = .valid) :
    (extract decimals schema size headers).features = some (takeSnapshot decimals schema size headers) := by
  unfold extract at valid ⊢
  dsimp only at valid ⊢
  split at valid
  · cases valid
  · rfl

section Broker
variable {σ : Type} [Inference σ] {cfg : HarbingerConfig} {routing : PredictiveRoutingConfig}

theorem routeMessage_body (b : Broker σ) (msg : Message) (r : Broker.PredictReadings) :
    (b.routeMessage cfg msg r).1.payload = msg.payload ∧ (b.routeMessage cfg msg r).1.headers = msg.headers := by
  unfold Broker.routeMessage
  split
  · exact ⟨rfl, rfl⟩
  · split <;> exact ⟨rfl, rfl⟩

theorem routeMessage_keys (enabled : cfg.predictiveRouting = some routing) {b : Broker σ} {p : σ}
    (trained : b.predictor = some p) (msg : Message) (r : Broker.PredictReadings) {context : RoutingContext}
    (routed : (b.routeMessage cfg msg r).1.routingContext = some context) :
    context.predictorKey = (derivePredictorKeys σ msg.headers routing.key msg.payload.length).map PredictorKeys.key ∧
      context.predictorParentKey =
        (derivePredictorKeys σ msg.headers routing.key msg.payload.length).bind PredictorKeys.parent := by
  simp only [Broker.routeMessage, trained, enabled, Broker.predictRoute] at routed
  obtain ⟨estimate, bucket, fallback, noted⟩ := Broker.notePrediction_eq cfg.numLevels.toNat _ _
  rw [noted] at routed
  obtain rfl := Option.some.inj routed
  exact ⟨rfl, rfl⟩

/-- The row shows the snapshot that was taken of a message. -/
structure Shows (decimals : Decimals) (schema : FeatureSchema) (size : Nat) (headers : Headers) (row : Document) :
    Prop where
  header : ∀ field ∈ schema.headers,
    header? row field.name = some ((feature decimals headers field).toOption.getD .missing).document
  payload : ((features? row).bind fun features => features.get? (ascii "payload_size_bytes")) =
    some (.string (decimal size))

/-- A snapshot that shows the label and the size gives the replay the keys of the broker. -/
theorem keysOf_shown {schema : FeatureSchema} {policy : PredictorKeyPolicy} {headers : Headers} {size : Nat}
    {row : Document} {options : Options} (mirrors : options.Mirrors policy) (listed : Listed schema policy)
    (checked : schema.Checked) (small : size < 2 ^ 64)
    (portable : Portable (Inference.decimals σ) schema policy headers)
    (shown : Shows (Inference.decimals σ) schema size headers row) :
    ∃ keys, derivePredictorKeys σ headers policy size = some keys ∧
      keysOf (Inference.decimals σ) options row = .ok keys := by
  obtain ⟨field, member, named, category⟩ := listed.job
  obtain ⟨label, feature, present, nonempty, usable⟩ := job_portable portable named category
  have jobNamed : policy.jobHeader ≠ [] := named ▸ (checked.named field member).1
  have job : ((header? row options.keyHeader).bind Json.Value.string?).getD [] = label := by
    rw [mirrors.job, ← named, shown.header field member, feature]
    rfl
  refine ⟨_, by rw [derivePredictorKeys, derivePredictorKey_job mirrors.unscoped jobNamed present nonempty usable,
    Option.map_some], ?_⟩
  have replayNamed : options.keyHeader ≠ [] := mirrors.job ▸ jobNamed
  simp only [keysOf, if_neg replayNamed, job, nonempty, or_false, sizeOf, mirrors.source]
  cases source : policy.sizeSource with
  | none => rfl
  | payload =>
    simp only [shown.payload, toCount_decimal small]
    rfl
  | header =>
    obtain ⟨sizeField, sizeMember, sizeNamed⟩ := listed.size source
    have hint := sizeHint_portable portable source sizeMember sizeNamed
    have filled : policy.sizeHeader ≠ [] := sizeNamed ▸ (checked.named sizeField sizeMember).1
    simp only [mirrors.sizeHeader, ← sizeNamed, shown.header sizeField sizeMember, Option.bind_some]
    rw [hint, sizeNamed, if_neg filled]
    rfl

end Broker

section Sample

/-- A platform that reads plain decimal numbers. -/
def sampleReader : Platform :=
  { Platform.plain with decimals := { Platform.plain.decimals with
      fromChars := fun text => (ofDecimal text).map fun value : Nat => (value : ℚ) } }

/-- Jobs keyed by their label and the number of their rows. -/
def sampleKeyPolicy : PredictorKeyPolicy where
  jobHeader := ascii "job"
  scopeByProducer := false
  sizeSource := .header
  sizeHeader := ascii "rows"

def sampleKeySchema (rows : HeaderFeature) : FeatureSchema where
  version := ascii "v1"
  headers := [{ name := ascii "job", type := .categorical, encoding := .hash }, { rows with name := ascii "rows" }]

def sampleKeyConfig (rows : HeaderFeature) : HarbingerConfig :=
  { sampleFeedback with
    ingressFeatures := some ⟨sampleKeySchema rows, ascii "policy"⟩
    predictiveRouting := some { predictor := samplePredictorConfig, key := sampleKeyPolicy } }

def sampleKeyOptions : Options where
  sizeSource := .header
  sizeHeader := ascii "rows"

def sampleKeyBroker : Broker (PerKeyPredictor sampleReader) where
  queue := { numLevels := 2, selection := .strictPriority, aging := some ⟨1, 1, some false⟩, weights := none }
  predictor := some { config := samplePredictorConfig, layout := sampleLayout, global := .create 8 (9999 / 10000) }

/-- A message of the first producer with these headers. -/
def sampleKeyMessage (headers : Headers) : Message where
  id := ascii "0-0"
  headers := headers.insert (ascii "__producer_id") (ascii "producer-0")

/-- The event of its acceptance. -/
def sampleKeyEvent (rows : HeaderFeature) (headers : Headers) : Option FeedbackEvent :=
  Broker.captureEvent (sampleKeyConfig rows)
    (sampleKeyBroker.routeMessage (sampleKeyConfig rows) (sampleKeyMessage headers) ⟨0, 0, 0⟩).1 .submit ⟨0, 0⟩

def sampleNumericRows : HeaderFeature := { name := [], type := .numeric, maximum := 1000 }
def sampleTextRows : HeaderFeature := { name := [], type := .categorical, encoding := .hash }

def sampleRowHeaders : Headers :=
  (AList.insert (ascii "rows") (ascii "100") ∅).insert (ascii "job") (ascii "resize")

/-- The keys of the broker and those of the replay for such a message with valid features. -/
def SampleKeys (rows : HeaderFeature) (headers : Headers) (key parent : Option Bytes) (replayed : PredictorKeys) : Prop :=
  ∃ event context record, sampleKeyEvent rows headers = some event ∧
    feedbackRecord sampleReader.decimals event ⟨instanceId [1], 1⟩ 30000 = some record ∧
    event.routing = some context ∧ context.featureValidity = .valid ∧
    context.predictorKey = key ∧ context.predictorParentKey = parent ∧
    keysOf sampleReader.decimals sampleKeyOptions (exportRow ⟨ascii "run", ascii "train", 0⟩ record) = .ok replayed

theorem SampleKeys.of_eval {rows : HeaderFeature} {headers : Headers} {key parent : Option Bytes}
    {replayed : PredictorKeys}
    (known : ((sampleKeyEvent rows headers).bind fun event =>
      (feedbackRecord sampleReader.decimals event ⟨instanceId [1], 1⟩ 30000).bind fun record =>
        event.routing.map fun context => (context.featureValidity, context.predictorKey, context.predictorParentKey,
          keysOf sampleReader.decimals sampleKeyOptions (exportRow ⟨ascii "run", ascii "train", 0⟩ record))) =
      some (.valid, key, parent, .ok replayed)) : SampleKeys rows headers key parent replayed := by
  obtain ⟨event, captured, known⟩ := Option.bind_eq_some_iff.mp known
  obtain ⟨record, made, known⟩ := Option.bind_eq_some_iff.mp known
  obtain ⟨context, routed, known⟩ := Option.map_eq_some_iff.mp known
  simp only [Prod.mk.injEq] at known
  obtain ⟨valid, same, other, keys⟩ := known
  exact ⟨event, context, record, captured, made, routed, valid, same, other, keys⟩

theorem sampleKeys_listed (rows : HeaderFeature) :
    sampleKeyOptions.Mirrors sampleKeyPolicy ∧ Listed (sampleKeySchema rows) sampleKeyPolicy := by
  refine ⟨⟨rfl, rfl, rfl, rfl⟩, ⟨_, List.mem_cons_self .., rfl, rfl⟩, fun _ => ⟨{ rows with name := ascii "rows" }, ?_, rfl⟩⟩
  exact List.mem_cons_of_mem _ (List.mem_cons_self ..)

end Sample

end Harbinger.Replay
