import Harbinger.Ml.Features

/-! `HarbingerConfig` and the checks of `validate_config`, in the order of the source.
The feedback directory, its limits and the snapshot file are read by no function
modelled here; of the first only its presence counts. -/

namespace Harbinger

namespace Ml

inductive DurationSummary where
  | median | p75 | mean
  deriving DecidableEq, Repr

structure PerKeyPredictorConfig where
  numLevels : UInt8 := 3
  defaultPriority : UInt8 := 1
  summary : DurationSummary := .median
  minSamples : Nat := 20
  spreadQuantile : ℚ := 99 / 100
  maxSpreadRatio : ℚ := 16
  maxCensoredFraction : ℚ := 5 / 100
  decay : ℚ := 995 / 1000
  globalDecay : ℚ := 9999 / 10000
  timeHalfLife : Millis := 600000
  staleAfter : Millis := 1800000
  histogramBins : Nat := 48
  minMs : ℚ := 1
  maxMs : ℚ := 600000
  maxKeys : Nat := 16384
  shards : Nat := 16
  idleEviction : Millis := 600000
  coldEvictionGrace : Millis := 30000
  boundaryRefreshEvery : Nat := 256
  globalMinSamples : Nat := 100
  hysteresis : ℚ := 10 / 100
  deriving DecidableEq

structure PredictiveRoutingConfig where
  mode : RoutingMode := .shadow
  key : PredictorKeyPolicy := {}
  predictor : PerKeyPredictorConfig := {}
  routingPolicyVersion : Bytes := ascii "per-key-v2"
  snapshotPath : Option Bytes := none
  snapshotInterval : Millis := 60000
  deriving DecidableEq

structure IngressFeatureConfig where
  schema : FeatureSchema
  routingPolicyVersion : Bytes
  deriving DecidableEq

end Ml

structure HarbingerConfig where
  numLevels : UInt8 := 3
  aging : Option AgingConfig := none
  defaultMaxRetries : UInt32 := 3
  defaultTtl : Millis := 0
  defaultPriority : UInt8 := 1
  maxPullWait : Millis := 5000
  ttlSweepInterval : Millis := 100
  deliveryLease : Millis := 30000
  leaseSweepInterval : Millis := 100
  completionRetention : Millis := 60000
  completionCacheMaxEntries : Nat := 10000
  maintenanceBatchSize : Nat := 256
  ingressFeatures : Option Ml.IngressFeatureConfig := none
  feedback : Bool := false
  predictiveRouting : Option Ml.PredictiveRoutingConfig := none
  levelWeights : Option (List Nat) := none
  deriving DecidableEq

/-- The block of `validate_config` on predictive routing; levels come from the broker. -/
def validateRouting (numLevels defaultPriority : UInt8) (routing : Ml.PredictiveRoutingConfig) :
    Except String Ml.PredictiveRoutingConfig := do
  reject (routing.mode = .disabled) "predictive_routing mode must be shadow or predictive; omit it to disable"
  Ml.validateVersion routing.routingPolicyVersion
  reject (∃ path ∈ routing.snapshotPath, path = [] ∨ routing.snapshotInterval ≤ 0)
    "predictor snapshot needs a path and a positive interval"
  reject (reserved routing.key.jobHeader) "predictor job header must not be a reserved __ header"
  reject ((routing.key.sizeSource = .header) ≠ (routing.key.sizeHeader ≠ []))
    "predictor size_header is required with, and only with, size_source header"
  reject (reserved routing.key.sizeHeader ∨ Ml.maxKeyBytes < routing.key.sizeHeader.length)
    "predictor size header must be a short, non-reserved header name"
  return { routing with predictor := { routing.predictor with numLevels, defaultPriority } }

/-- Half of the largest clock duration, in milliseconds. -/
def maxMaintenanceDuration : Millis := Clock.max / 2 / 1000000

/-- The settings that decide how messages are queued, delivered and retained. -/
def validateDelivery (config : HarbingerConfig) : Except String Unit := do
  reject (config.numLevels = 0) "HarbingerConfig: num_levels must be >= 1"
  reject (config.numLevels ≤ config.defaultPriority) "HarbingerConfig: default_priority must be < num_levels"
  reject (config.defaultMaxRetries = 0) "HarbingerConfig: default_max_retries must be >= 1"
  reject (config.defaultTtl < 0) "HarbingerConfig: default_ttl must be >= 0"
  reject (config.maxPullWait ≤ 0) "HarbingerConfig: max_pull_wait must be positive"
  reject (config.ttlSweepInterval < 0) "HarbingerConfig: ttl_sweep_interval must be >= 0"
  reject (config.deliveryLease ≤ 0 ∨ config.leaseSweepInterval ≤ 0 ∨ config.completionRetention ≤ 0 ∨
    config.completionCacheMaxEntries = 0 ∨ config.maintenanceBatchSize = 0)
    "delivery maintenance settings must be positive"
  reject (maxMaintenanceDuration < config.deliveryLease ∨ maxMaintenanceDuration < config.leaseSweepInterval ∨
    maxMaintenanceDuration < config.completionRetention ∨ maxMaintenanceDuration < config.ttlSweepInterval)
    "maintenance duration too large"

def validateWeights (numLevels : UInt8) (weights : List Nat) : Except String Unit := do
  reject (weights.length ≠ numLevels.toNat) "level_weights needs exactly one weight per level"
  reject (∃ weight ∈ weights, weight < 1 ∨ 1000 < weight) "level weights must be in [1, 1000]"

/-- Pausing aging is the default with level weights. -/
def resolvePausing (weighted : Bool) (aging : AgingConfig) : AgingConfig :=
  { aging with pauseWhenBehind := some (aging.pauseWhenBehind.getD weighted) }

def validateConfig (config : HarbingerConfig) : Except String HarbingerConfig := do
  let predictiveRouting ← config.predictiveRouting.mapM
    (validateRouting config.numLevels config.defaultPriority)
  reject (config.feedback ∧ config.ingressFeatures.isNone) "feedback requires ingress_features"
  config.ingressFeatures.forM fun features => Ml.validateVersion features.routingPolicyVersion
  validateDelivery config
  config.levelWeights.forM (validateWeights config.numLevels)
  let aging := config.aging.map (resolvePausing config.levelWeights.isSome)
  reject (∃ cfg ∈ aging, cfg.threshold ≤ 0 ∨ cfg.interval ≤ 0)
    "HarbingerConfig: aging threshold and interval must be positive"
  return { config with predictiveRouting, aging }

/-- What the checks establish for the settings of delivery. -/
structure HarbingerConfig.Checked (cfg : HarbingerConfig) : Prop where
  priority : cfg.defaultPriority.toNat < cfg.numLevels.toNat
  retries : 0 < cfg.defaultMaxRetries.toNat
  lease : 0 < cfg.deliveryLease
  retention : 0 < cfg.completionRetention
  records : 0 < cfg.completionCacheMaxEntries
  batch : 0 < cfg.maintenanceBatchSize

theorem validateDelivery_ok {cfg : HarbingerConfig} {done : Unit} (valid : validateDelivery cfg = .ok done) :
    cfg.Checked := by
  simp only [validateDelivery, bind_ok, reject_ok, not_or, not_lt, not_le] at valid
  obtain ⟨_, _, _, priority, _, retries, _, _, _, _, _, _, _, ⟨lease, _, retention, records, batch⟩, _⟩ := valid
  exact {
    priority := UInt8.lt_iff_toNat_lt.mp (UInt8.not_le.mp priority)
    retries := by
      have nonzero : cfg.defaultMaxRetries.toNat ≠ 0 := fun zero => retries (UInt32.toNat_inj.mp zero)
      omega
    lease, retention
    records := Nat.pos_of_ne_zero records
    batch := Nat.pos_of_ne_zero batch }

theorem validateConfig_ok {config cfg : HarbingerConfig} (valid : validateConfig config = .ok cfg) :
    validateDelivery config = .ok () ∧ config.levelWeights.forM (validateWeights config.numLevels) = .ok () ∧
      ∃ predictiveRouting, config.predictiveRouting.mapM
          (validateRouting config.numLevels config.defaultPriority) = .ok predictiveRouting ∧
        cfg = { config with
          predictiveRouting, aging := config.aging.map (resolvePausing config.levelWeights.isSome) } := by
  simp only [validateConfig, bind_ok] at valid
  obtain ⟨routing, routed, _, _, _, _, _, delivery, _, weights, _, _, same⟩ := valid
  exact ⟨delivery, weights, routing, routed, (Except.ok.inj same).symm⟩

theorem validateConfig_routing {config cfg : HarbingerConfig} (valid : validateConfig config = .ok cfg)
    {routing : Ml.PredictiveRoutingConfig} (routed : cfg.predictiveRouting = some routing) :
    ∃ given, config.predictiveRouting = some given ∧
      validateRouting config.numLevels config.defaultPriority given = .ok routing := by
  obtain ⟨_, _, resolved, mapped, rfl⟩ := validateConfig_ok valid
  obtain rfl : resolved = some routing := routed
  cases given : config.predictiveRouting with
  | none =>
    rw [given] at mapped
    cases mapped
  | some original =>
    rw [given] at mapped
    obtain ⟨checked, accepted, same⟩ := bind_ok.mp mapped
    obtain rfl := Option.some.inj (Except.ok.inj same)
    exact ⟨original, rfl, accepted⟩

theorem HarbingerConfig.Checked.of_validateConfig {config cfg : HarbingerConfig}
    (valid : validateConfig config = .ok cfg) : cfg.Checked := by
  obtain ⟨delivery, _, routing, _, rfl⟩ := validateConfig_ok valid
  exact { validateDelivery_ok delivery with }

end Harbinger
