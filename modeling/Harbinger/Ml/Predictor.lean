import Harbinger.Container.Linked
import Harbinger.Broker.Config

/-! `DecayingHistogram` and `PerKeyPredictor`. Doubles are exact rationals, so powers of the
bin ratio are an abstract sequence of edges and the wall-clock decay an abstract function;
`std::hash` is any function. One call is one step: the shard locks are never nested. -/

namespace Harbinger.Ml
open Container

/-- The bins of a histogram: `edge i` is `min_ms * ratio ^ i`. -/
structure Layout where
  bins : Nat
  minMs : ℚ
  maxMs : ℚ
  edge : Nat → ℚ
  enough : 2 ≤ bins
  positive : 0 < minMs
  first : edge 0 = minMs
  last : edge (bins - 1) = maxMs
  increasing : StrictMono edge

namespace Layout

/-- The number of edges up to the value; the last bin takes everything above. -/
def bin (layout : Layout) (value : ℚ) : Nat :=
  if value < layout.minMs then 0
  else min ((List.range layout.bins).countP fun index => layout.edge index ≤ value) (layout.bins - 1)

def lower (layout : Layout) : Nat → ℚ
  | 0 => 0
  | index + 1 => layout.edge index

def upper (layout : Layout) (index : Nat) : ℚ := layout.edge index

end Layout

structure DecayingHistogram where
  counts : List ℚ
  gain : ℚ
  scale : ℚ := 1
  total : ℚ := 0
  sum : ℚ := 0
  censored : ℚ := 0
  observations : Nat := 0

namespace DecayingHistogram

def renormalizeAt : ℚ := 10 ^ 100

def create (bins : Nat) (decay : ℚ) : DecayingHistogram :=
  { counts := List.replicate bins 0, gain := 1 / decay }

def renormalizeIfNeeded (h : DecayingHistogram) : DecayingHistogram :=
  if h.scale ≤ renormalizeAt then h
  else { h with
    counts := h.counts.map (· / h.scale)
    total := h.total / h.scale
    sum := h.sum / h.scale
    censored := h.censored / h.scale
    scale := 1 }

/-- Also says whether the value was clamped. -/
def add (layout : Layout) (h : DecayingHistogram) (value : ℚ) : DecayingHistogram × Bool :=
  let clamped : Bool := layout.maxMs < value
  let value := if clamped then layout.maxMs else value
  (renormalizeIfNeeded { h with
    counts := h.counts.modify (layout.bin value) (· + h.scale)
    total := h.total + h.scale
    sum := h.sum + h.scale * value
    observations := h.observations + 1
    scale := h.scale * h.gain }, clamped)

def addCensored (h : DecayingHistogram) : DecayingHistogram :=
  renormalizeIfNeeded { h with censored := h.censored + h.scale, scale := h.scale * h.gain }

def shrink (h : DecayingHistogram) (factor : ℚ) : DecayingHistogram :=
  { h with
    counts := h.counts.map (· * factor)
    total := h.total * factor
    sum := h.sum * factor
    censored := h.censored * factor }

/-- The loop of `quantile` from bin `index` on, with the weight `seen` before it. -/
def quantileFrom (layout : Layout) (target : ℚ) (index : Nat) (seen : ℚ) : List ℚ → ℚ
  | [] => layout.upper (layout.bins - 1)
  | count :: rest =>
    if count ≤ 0 then quantileFrom layout target (index + 1) seen rest
    else if target ≤ seen + count then
      layout.lower index + (target - seen) / count * (layout.upper index - layout.lower index)
    else quantileFrom layout target (index + 1) (seen + count) rest

def quantile (layout : Layout) (h : DecayingHistogram) (q : ℚ) : ℚ :=
  if h.total ≤ 0 then 0 else quantileFrom layout (max 0 (min q 1) * h.total) 0 0 h.counts

def mean (h : DecayingHistogram) : ℚ := if 0 < h.total then h.sum / h.total else 0

def censoredFraction (h : DecayingHistogram) : ℚ :=
  if 0 < h.total + h.censored then h.censored / (h.total + h.censored) else 0

end DecayingHistogram

/-- The functions of the platform that the predictor and the feature extractor call. -/
structure Platform where
  hash : Bytes → Nat
  /-- `pow(0.5, x)`. -/
  halving : ℚ → ℚ
  decimals : Decimals

/-- A platform for closed examples that need neither several shards nor header numbers. -/
def Platform.plain : Platform where
  hash := List.length
  halving := fun _ => 1
  decimals := ⟨fun _ => none, fun value => decimalInt value.num ++ 47 :: decimal value.den⟩

structure Entry where
  histogram : DecayingHistogram
  position : Nat
  lastActivity : Time
  lastDecay : Time
  tier : Option Nat := none

structure Shard where
  keys : AList fun _ : Bytes => Entry := ∅
  recency : LinkedList Bytes := LinkedList.empty
  evictions : Nat := 0

structure BoundarySnapshot where
  sequence : Nat := 0
  boundariesMs : List ℚ := []
  deriving DecidableEq

/-- The counters of `PredictorStats` that the predictor keeps itself. -/
structure PredictorCounters where
  snapshots : Nat := 0
  degenerate : Nat := 0
  rejected : Nat := 0
  overflow : Nat := 0
  observed : Nat := 0
  saturated : Nat := 0
  censored : Nat := 0

structure PerKeyPredictor (platform : Platform) where
  config : PerKeyPredictorConfig
  layout : Layout
  shards : Nat → Shard := fun _ => {}
  global : DecayingHistogram
  snapshot : Option BoundarySnapshot := none
  globalObservations : Nat := 0
  counters : PredictorCounters := {}

/-- The checks of the constructor, in order; every rational is finite. -/
def validated (c : PerKeyPredictorConfig) : Except String PerKeyPredictorConfig := do
  reject (c.numLevels < 1) "num_levels must be >= 1"
  reject (c.numLevels ≤ c.defaultPriority) "default_priority must be < num_levels"
  reject (c.minSamples < 1) "min_samples must be >= 1"
  reject (c.spreadQuantile ≤ 1 / 2 ∨ 1 < c.spreadQuantile) "spread_quantile must be in (0.5, 1]"
  reject (c.maxSpreadRatio < 1) "max_spread_ratio must be >= 1"
  reject (c.maxCensoredFraction < 0 ∨ 1 < c.maxCensoredFraction) "max_censored_fraction must be in [0, 1]"
  reject (∃ d ∈ [c.decay, c.globalDecay], d ≤ 0 ∨ 1 < d) "decay must be in (0, 1]"
  reject (c.timeHalfLife < 0 ∨ c.staleAfter < 0 ∨ c.idleEviction < 0 ∨ c.coldEvictionGrace < 0)
    "durations must be non-negative"
  reject (c.histogramBins < 8 ∨ 1024 < c.histogramBins) "histogram_bins must be 8..1024"
  reject (c.minMs ≤ 0 ∨ c.maxMs ≤ c.minMs) "require 0 < min_ms < max_ms"
  reject (c.shards < 1 ∨ 256 < c.shards) "shards must be 1..256"
  reject (c.maxKeys < c.shards) "max_keys must be >= shards"
  reject (c.boundaryRefreshEvery < 1) "boundary_refresh_every must be >= 1"
  reject (c.hysteresis < 0 ∨ 1 ≤ c.hysteresis) "hysteresis must be in [0, 1)"
  reject (c.numLevels = 1 ∧ c.defaultPriority ≠ 0) "one level requires default_priority 0"
  return c

/-- The layout is the one of the configured bins. -/
def Layout.Fits (layout : Layout) (c : PerKeyPredictorConfig) : Prop :=
  layout.bins = c.histogramBins ∧ layout.minMs = c.minMs ∧ layout.maxMs = c.maxMs

def usableKey (key : Bytes) : Bool := key != [] && key.length ≤ maxPredictorKeyBytes

/-- Equality with a boundary enters the next tier. -/
def tierOf (boundaries : List ℚ) (value : ℚ) : Nat := (boundaries.takeWhile (· ≤ value)).length

namespace PerKeyPredictor
variable {platform : Platform}

def create (platform : Platform) (config : PerKeyPredictorConfig) (layout : Layout) :
    Except String (PerKeyPredictor platform) := do
  let config ← validated config
  return {
    config, layout
    global := .create config.histogramBins config.globalDecay
    snapshot := if config.numLevels = 1 then some {} else none }

/-- The sum is computed in `std::size_t`. -/
def perShardCap (p : PerKeyPredictor platform) : Nat :=
  (p.config.maxKeys + p.config.shards - 1) % 2 ^ 64 / p.config.shards

def makeHistogram (p : PerKeyPredictor platform) : DecayingHistogram :=
  .create p.config.histogramBins p.config.decay

def shardFor (p : PerKeyPredictor platform) (key : Bytes) : Nat := platform.hash key % p.config.shards

def modelVersion (p : PerKeyPredictor platform) : Bytes :=
  ascii "per-key-v2;boundaries=" ++ decimal ((p.snapshot.map BoundarySnapshot.sequence).getD 0)

def fallback (p : PerKeyPredictor platform) (status : PredictionStatus) (seen : Nat) : DurationPrediction :=
  { bucket := p.config.defaultPriority.toNat, status, keyObservations := seen }

def stale (p : PerKeyPredictor platform) (entry : Entry) (now : Time) : Prop :=
  0 < p.config.staleAfter ∧ Clock.ofMillis p.config.staleAfter < now - entry.lastActivity

instance (p : PerKeyPredictor platform) (entry : Entry) (now : Time) : Decidable (p.stale entry now) :=
  inferInstanceAs (Decidable (_ ∧ _))

/-- A new key at the front of the recency list. -/
def installEntry (p : PerKeyPredictor platform) (shard : Shard) (key : Bytes) (now : Time) : Entry × Shard :=
  let entry := { histogram := p.makeHistogram, position := shard.recency.next, lastActivity := now, lastDecay := now }
  (entry, { shard with keys := shard.keys.insert key entry, recency := shard.recency.pushFront key })

/-- The least recently active key makes room if it has been idle long enough. -/
def evictIdle (p : PerKeyPredictor platform) (shard : Shard) (now : Time) : Option Shard :=
  match shard.recency.back? with
  | none => none
  | some slot =>
    match shard.keys.lookup slot.value with
    | none => none
    | some old =>
      let limit := if old.histogram.observations < p.config.minSamples then p.config.coldEvictionGrace
        else p.config.idleEviction
      if limit ≤ 0 ∨ now - old.lastActivity < Clock.ofMillis limit then none
      else some { keys := shard.keys.erase slot.value, recency := shard.recency.popBack,
                  evictions := shard.evictions + 1 }

/-- Stale evidence is discarded; across a gap of a second or more the rest decays. -/
def freshen (p : PerKeyPredictor platform) (entry : Entry) (now : Time) : Entry :=
  if p.stale entry now then { entry with histogram := p.makeHistogram, tier := none, lastDecay := now }
  else
    let gap : ℚ := (now - entry.lastDecay : Int) / 1000000
    if 0 < p.config.timeHalfLife ∧ 1000 ≤ gap then
      { entry with
        histogram := entry.histogram.shrink (platform.halving (gap / p.config.timeHalfLife))
        lastDecay := now }
    else entry

/-- The entry of a key, found or admitted; `none` when the key cannot be tracked. -/
def touchLocked (p : PerKeyPredictor platform) (shard : Shard) (key : Bytes) (now : Time) : Option (Entry × Shard) :=
  match shard.keys.lookup key with
  | none =>
    if p.perShardCap ≤ shard.keys.entries.length then (p.evictIdle shard now).map fun shard => p.installEntry shard key now
    else some (p.installEntry shard key now)
  | some entry => some (p.freshen entry now, shard)

/-- The entry after new evidence, at the front of the recency list. -/
def renew (shard : Shard) (key : Bytes) (entry : Entry) : Shard :=
  { shard with keys := shard.keys.insert key entry, recency := shard.recency.moveToFront entry.position }

def withShard (p : PerKeyPredictor platform) (index : Nat) (shard : Shard) : PerKeyPredictor platform :=
  { p with shards := Function.update p.shards index shard }

/-- The tier that hysteresis keeps for an estimate, given the one the key had. -/
def heldTier (p : PerKeyPredictor platform) (bounds : List ℚ) (held : Option Nat) (estimate : ℚ) : Nat :=
  let tier := tierOf bounds estimate
  match held with
  | none => tier
  | some held =>
    if held ≠ tier ∧ 0 < p.config.hysteresis ∧
        (if held = 0 then 0 else bounds.getD (held - 1) 0 * (1 - p.config.hysteresis)) ≤ estimate ∧
        (bounds.length ≤ held ∨ estimate < bounds.getD held 0 * (1 + p.config.hysteresis)) then held
    else tier

def estimate (p : PerKeyPredictor platform) (h : DecayingHistogram) : ℚ :=
  match p.config.summary with
  | .median => h.quantile p.layout (1 / 2)
  | .p75 => h.quantile p.layout (3 / 4)
  | .mean => h.mean

def evaluate (p : PerKeyPredictor platform) (entry : Entry) (snapshot : BoundarySnapshot) :
    DurationPrediction × Entry :=
  let h := entry.histogram
  let seen := h.observations
  if seen < p.config.minSamples then (p.fallback .coldKey seen, entry)
  else if p.config.maxCensoredFraction < h.censoredFraction then (p.fallback .censored seen, entry)
  else if p.config.maxSpreadRatio <
      h.quantile p.layout p.config.spreadQuantile / max (h.quantile p.layout (1 / 2)) p.config.minMs then
    (p.fallback .highSpread seen, entry)
  else if p.estimate h < 0 then (p.fallback .highSpread seen, entry)
  else
    let tier := p.heldTier snapshot.boundariesMs entry.tier (p.estimate h)
    ({ estimateMs := some (p.estimate h), bucket := tier, status := .predicted, keyObservations := seen },
      { entry with tier := some tier })

def predict (p : PerKeyPredictor platform) (now : Time) (key : Bytes) : DurationPrediction × PerKeyPredictor platform :=
  if !usableKey key then (p.fallback .invalidKey 0, p)
  else match p.snapshot with
    | none => (p.fallback .unready 0, p)
    | some snapshot =>
      let index := p.shardFor key
      let shard := p.shards index
      match shard.keys.lookup key with
      | none => (p.fallback .coldKey 0, p)
      | some entry =>
        if p.stale entry now then (p.fallback .staleKey entry.histogram.observations, p)
        else
          let (prediction, entry) := p.evaluate { entry with lastActivity := now } snapshot
          (prediction, p.withShard index (renew shard key entry))

def recordKey (p : PerKeyPredictor platform) (key : Bytes) (duration : ℚ) (now : Time) : PerKeyPredictor platform :=
  let index := p.shardFor key
  match p.touchLocked (p.shards index) key now with
  | none => { p with counters := { p.counters with overflow := p.counters.overflow + 1 } }
  | some (entry, shard) => p.withShard index (renew shard key
      { entry with histogram := (entry.histogram.add p.layout duration).1, lastActivity := now })

/-- Positive first boundary, strictly increasing. -/
def validBoundaries (boundaries : List ℚ) : Bool :=
  boundaries.head?.any (0 < ·) && decide (boundaries.IsChain (· < ·))

/-- A boundary within the hysteresis band of the old one keeps the old value. -/
def holdBoundaries (p : PerKeyPredictor platform) (fresh old : List ℚ) : List ℚ :=
  List.zipWith (fun fresh old => if |fresh - old| ≤ p.config.hysteresis * old then old else fresh) fresh old

def refreshBoundariesLocked (p : PerKeyPredictor platform) : PerKeyPredictor platform :=
  let fresh := (List.range (p.config.numLevels.toNat - 1)).map fun index =>
    p.global.quantile p.layout ((index + 1 : Nat) / (p.config.numLevels.toNat : ℚ))
  let publish (boundariesMs : List ℚ) : PerKeyPredictor platform :=
    { p with
      snapshot := some ⟨p.counters.snapshots + 1, boundariesMs⟩
      counters := { p.counters with snapshots := p.counters.snapshots + 1 } }
  if !validBoundaries fresh then
    { p with counters := { p.counters with degenerate := p.counters.degenerate + 1 } }
  else match p.snapshot with
    | none => publish fresh
    | some current =>
      let held := p.holdBoundaries fresh current.boundariesMs
      let fresh := if validBoundaries held then held else fresh
      if fresh = current.boundariesMs then p else publish fresh

/-- The part of `observe` under the global lock. -/
def observeGlobal (p : PerKeyPredictor platform) (duration : ℚ) : PerKeyPredictor platform :=
  let (global, clamped) := p.global.add p.layout duration
  let p := { p with
    global
    globalObservations := p.globalObservations + 1
    counters := { p.counters with
      observed := p.counters.observed + 1
      saturated := p.counters.saturated + if clamped then 1 else 0 } }
  if 1 < p.config.numLevels ∧ p.config.globalMinSamples ≤ p.globalObservations ∧
      (p.snapshot = none ∨ p.globalObservations % p.config.boundaryRefreshEvery = 0) then
    p.refreshBoundariesLocked
  else p

def observe (p : PerKeyPredictor platform) (now : Time) (key parent : Bytes) (duration : ℚ) :
    Bool × PerKeyPredictor platform :=
  if !usableKey key ∨ (parent ≠ [] ∧ !usableKey parent) ∨ duration < 0 then
    (false, { p with counters := { p.counters with rejected := p.counters.rejected + 1 } })
  else
    let p := p.recordKey key duration now
    let p := if parent = [] then p else p.recordKey parent duration now
    (true, p.observeGlobal duration)

def observeCensored (p : PerKeyPredictor platform) (now : Time) (key : Bytes) : Bool × PerKeyPredictor platform :=
  if !usableKey key then (false, { p with counters := { p.counters with rejected := p.counters.rejected + 1 } })
  else
    let index := p.shardFor key
    match p.touchLocked (p.shards index) key now with
    | none => (false, { p with counters := { p.counters with overflow := p.counters.overflow + 1 } })
    | some (entry, shard) =>
      let p := { p with counters := { p.counters with censored := p.counters.censored + 1 } }
      (true, p.withShard index (renew shard key
        { entry with histogram := entry.histogram.addCensored, lastActivity := now }))

instance : Inference (PerKeyPredictor platform) where
  predict := predict
  observe := observe
  observeCensored := observeCensored
  modelVersion := modelVersion
  decimals := platform.decimals

end PerKeyPredictor

end Harbinger.Ml

namespace Harbinger
section Sample
open Ml

/-- Bins whose edges are the powers of two from 1 to 128. -/
def sampleLayout : Layout where
  bins := 8
  minMs := 1
  maxMs := 128
  edge := fun index => 2 ^ index
  enough := by decide
  positive := by decide +kernel
  first := by decide +kernel
  last := by decide +kernel
  increasing := pow_right_strictMono₀ (by decide +kernel)

/-- One sample makes a prediction. -/
def samplePredictorConfig : PerKeyPredictorConfig where
  numLevels := 2
  minSamples := 1
  globalMinSamples := 1
  histogramBins := 8
  maxMs := 128
  shards := 1

def samplePredictor : PerKeyPredictor .plain where
  config := samplePredictorConfig
  layout := sampleLayout
  global := .create 8 (9999 / 10000)

end Sample

end Harbinger
