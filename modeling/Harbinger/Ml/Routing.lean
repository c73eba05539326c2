import Harbinger.Clock

/-! The routing decision attached to a message at ingress, the keys under which a
predictor learns, and the predictor operations that the broker calls. Doubles are
exact rationals; a feature number keeps its sign apart, since `-0` is a double. -/

namespace Harbinger.Ml

abbrev Headers := AList fun _ : Bytes => Bytes

inductive RoutingMode where
  | disabled | shadow | predictive
  deriving DecidableEq, Repr

inductive FallbackReason where
  | timeout | unavailable | overloaded | unready | incompatibleVersion | invalidPrediction
  | featureLimit | clientError | coldKey | highSpread | censored | staleKey | invalidKey
  deriving DecidableEq, Repr

inductive PredictionStatus where
  | predicted | unready | coldKey | highSpread | censored | staleKey | invalidKey
  deriving DecidableEq, Repr

inductive FeatureType where
  | numeric | categorical
  deriving DecidableEq, Repr

inductive CategoricalEncoding where
  | vocabulary | hash
  deriving DecidableEq, Repr

inductive MissingReason where
  | absent | invalidType | outOfRange | invalidEncoding | oversized
  deriving DecidableEq, Repr

inductive FeatureValidity where
  | valid | featureLimit
  deriving DecidableEq, Repr

structure HeaderFeature where
  name : Bytes
  type : FeatureType := .numeric
  minimum : ℚ := 0
  maximum : ℚ := 0
  encoding : CategoricalEncoding := .vocabulary
  vocabulary : List Bytes := []
  deriving DecidableEq

structure FeatureSchema where
  version : Bytes
  headers : List HeaderFeature := []
  deriving DecidableEq

inductive FeatureValue where
  | missing
  | number (negative : Bool) (magnitude : ℚ)
  | text (value : Bytes)
  deriving DecidableEq

structure FeatureSnapshot where
  payloadSizeBytes : Nat
  headers : List (Bytes × FeatureValue)
  missingReasons : List (Bytes × MissingReason)
  deriving DecidableEq

structure ExtractedFeatures where
  features : Option FeatureSnapshot
  validity : FeatureValidity
  deriving DecidableEq

structure RoutingContext where
  featureSchemaVersion : Bytes := []
  routingPolicyVersion : Bytes := []
  modelVersion : Option Bytes := none
  features : Option FeatureSnapshot := none
  featureValidity : FeatureValidity := .valid
  mode : RoutingMode := .disabled
  predictedProcessingTimeMs : Option ℚ := none
  predictedBucket : Option Nat := none
  ingressPriority : Nat := 0
  fallbackReason : Option FallbackReason := none
  inferenceElapsedMs : Option ℚ := none
  predictorKey : Option Bytes := none
  predictorParentKey : Option Bytes := none
  deriving DecidableEq

structure DurationPrediction where
  estimateMs : Option ℚ := none
  bucket : Nat := 0
  status : PredictionStatus := .unready
  keyObservations : Nat := 0
  deriving DecidableEq

inductive SizeSource where
  | none | payload | header
  deriving DecidableEq, Repr

structure PredictorKeyPolicy where
  jobHeader : Bytes := ascii "job_type"
  scopeByProducer : Bool := true
  producerHeader : Bytes := ascii "__producer_id"
  sizeSource : SizeSource := .none
  sizeHeader : Bytes := []
  deriving DecidableEq

structure PredictorKeys where
  key : Bytes
  parent : Option Bytes := none
  deriving DecidableEq

def maxPredictorKeyBytes : Nat := 256
def maxJobKeyBytes : Nat := 128
def unitSeparator : UInt8 := 0x1f

/-- A header is used only when it is named, present and nonempty. -/
def headerText (headers : Headers) (name : Bytes) : Option Bytes :=
  if name = [] then none
  else match headers.lookup name with
    | none => none
    | some value => if value = [] then none else some value

def usableJob (job : Bytes) : Bool :=
  job.length ≤ maxJobKeyBytes && job.all fun c => !(c < 0x20 || c == 0x7f)

def derivePredictorKey (headers : Headers) (policy : PredictorKeyPolicy) : Option Bytes :=
  let job := (headerText headers policy.jobHeader).filter usableJob
  let producer := headerText headers policy.producerHeader
  let key :=
    if policy.scopeByProducer then
      match producer, job with
      | none, _ => none
      | some producer, none => some producer
      | some producer, some job => some (producer ++ unitSeparator :: job)
    else match job, producer with
      | some job, _ => some job
      | none, some producer => some producer
      | none, none => none
  key.filter fun key => key.length ≤ maxPredictorKeyBytes

/-- The index of the power-of-two bin of a size, at most 63. -/
def sizeBinLabel (size : ℚ) : Bytes :=
  ascii "s" ++ decimal (min 63 (Nat.log 2 ⌊max size 1⌋.toNat))

def binPredictorKey (key : Bytes) (size : Option ℚ) : PredictorKeys :=
  match size with
  | none => ⟨key, none⟩
  | some size =>
    let binned := key ++ unitSeparator :: sizeBinLabel size
    if binned.length ≤ maxPredictorKeyBytes then ⟨binned, some key⟩ else ⟨key, none⟩

/-- The conversions of the C++ library between doubles and texts. -/
structure Decimals where
  /-- `std::from_chars`; `none` unless it reads the whole text as a finite double. -/
  fromChars : Bytes → Option ℚ
  /-- `std::to_chars` in scientific notation with 16 digits. -/
  toChars : ℚ → Bytes

def parseSizeHint (decimals : Decimals) (text : Bytes) : Option ℚ :=
  if text = [] ∨ 32 < text.length then none
  else (decimals.fromChars text).filter fun value => 0 ≤ value

/-- What the broker calls of the `ml` namespace on a predictor state `σ`: the operations of
`DurationPredictor`, and the number conversions that the extractor and the key policy use. -/
class Inference (σ : Type) where
  predict : σ → Time → Bytes → DurationPrediction × σ
  observe : σ → Time → Bytes → Bytes → ℚ → Bool × σ
  observeCensored : σ → Time → Bytes → Bool × σ
  modelVersion : σ → Bytes
  decimals : Decimals

def derivePredictorKeys (σ : Type) [Inference σ] (headers : Headers) (policy : PredictorKeyPolicy)
    (payloadSize : Nat) : Option PredictorKeys :=
  (derivePredictorKey headers policy).map fun key =>
    binPredictorKey key <| match policy.sizeSource with
      | .none => none
      | .payload => some payloadSize
      | .header =>
        if policy.sizeHeader = [] then none
        else (headers.lookup policy.sizeHeader).bind (parseSizeHint (Inference.decimals σ))

end Harbinger.Ml
