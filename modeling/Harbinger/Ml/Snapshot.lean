import Harbinger.Codec.Reader
import Harbinger.Ml.Predictor

/-! `PerKeyPredictor::save` and `load` between the predictor and the bytes of the file; the
file system is left out. What the standard library may choose (the bytes of a double, the
order of an unordered map, the order of equal ages in a sort) is a parameter. -/

namespace Harbinger.Ml
open Codec Container

/-- What `save` and `load` keep of one key. -/
structure KeyCopy where
  key : Bytes
  histogram : DecayingHistogram
  ageMs : Int
  tier : Int

/-- The parts of the platform that snapshots depend on. -/
structure Host where
  encode : ℚ → Bytes
  /-- `none` for a double that is not finite. -/
  decode : Bytes → Option ℚ
  width : ∀ value, (encode value).length = 8
  /-- Iteration over an unordered map. -/
  walk : List (Sigma fun _ : Bytes => Entry) → List (Sigma fun _ : Bytes => Entry)
  walk_perm : ∀ entries, (walk entries).Perm entries
  /-- `std::sort`, oldest first. -/
  sort : List KeyCopy → List KeyCopy
  sort_perm : ∀ keys, (sort keys).Perm keys
  sort_sorted : ∀ keys, (sort keys).Pairwise fun first second => second.ageMs ≤ first.ageMs

/-- A host for closed examples: a number is its numerator and denominator. -/
def Host.plain : Host where
  encode := fun value => littleEndian 4 (unsigned 4 value.num) ++ littleEndian 4 value.den
  decode := fun bytes =>
    let denominator := ofLittleEndian (bytes.drop 4)
    if denominator = 0 then none else some (signed 4 (ofLittleEndian (bytes.take 4)) / denominator)
  width := fun value => by rw [List.length_append, length_littleEndian, length_littleEndian]
  walk := id
  walk_perm := fun _ => .refl _
  sort := List.insertionSort fun first second => second.ageMs ≤ first.ageMs
  sort_perm := List.perm_insertionSort _
  sort_sorted := by
    have total : Std.Total fun first second : KeyCopy => second.ageMs ≤ first.ageMs := ⟨fun _ _ => le_total _ _⟩
    have trans : IsTrans KeyCopy fun first second => second.ageMs ≤ first.ageMs := ⟨fun _ _ _ first second => second.trans first⟩
    exact List.pairwise_insertionSort _

def snapshotMagic : Bytes := ascii "HBPKSNP1"
def snapshotVersion : Nat := 1
def byteOrder : Nat := 0x01020304
def maxSnapshotBytes : Nat := 2 ^ 30
def maxContextBytes : Nat := 4096

def fnv1a (data : Bytes) : UInt64 :=
  data.foldl (fun hash c => (hash ^^^ c.toUInt64) * 1099511628211) 1469598103934665603

section Writer

def put32 (n : Nat) : Bytes := littleEndian 4 n
def put64 (n : Nat) : Bytes := littleEndian 8 n
def putInt32 (value : Int) : Bytes := littleEndian 4 (unsigned 4 value)
def putInt64 (value : Int) : Bytes := littleEndian 8 (unsigned 8 value)
def putText (text : Bytes) : Bytes := put32 text.length ++ text

variable (host : Host)

def putHistogram (h : DecayingHistogram) : Bytes :=
  h.counts.flatMap host.encode ++ (host.encode h.scale ++ (host.encode h.total ++ (host.encode h.sum ++
    (host.encode h.censored ++ put64 h.observations))))

def putBoundaries : Option BoundarySnapshot → Bytes
  | none => [0]
  | some snapshot => 1 :: (put64 snapshot.sequence ++ (put32 snapshot.boundariesMs.length ++
      snapshot.boundariesMs.flatMap host.encode))

def putKey (k : KeyCopy) : Bytes :=
  putText k.key ++ (putHistogram host k.histogram ++ (putInt64 (max 0 k.ageMs) ++ putInt32 k.tier))

end Writer

/-- The age of an entry in whole milliseconds, from a 64-bit difference of clock readings. -/
def Entry.ageMs (entry : Entry) (now : Time) : Int := (Int.bmod (now - entry.lastActivity) (2 ^ 64)).tdiv 1000000

/-- The `int` that holds the tier. -/
def Entry.tierNumber (entry : Entry) : Int := (entry.tier.map Int.ofNat).getD (-1)

section Reader

def get8 : Reader Nat := do return ofLittleEndian (← .take 1 "snapshot truncated")
def get32 : Reader Nat := do return ofLittleEndian (← .take 4 "snapshot truncated")
def get64 : Reader Nat := do return ofLittleEndian (← .take 8 "snapshot truncated")
def getInt32 : Reader Int := do return signed 4 (← get32)
def getInt64 : Reader Int := do return signed 8 (← get64)

def getText (limit : Nat) : Reader Bytes := do
  let size ← get32
  .refuse (limit < size) "snapshot string out of bounds"
  .take size "snapshot string out of bounds"

variable (host : Host)

def getDouble : Reader (Option ℚ) := do return host.decode (← .take 8 "snapshot truncated")

def getFinite : Reader ℚ := do
  let value ← getDouble host
  .refuse (value.all (· < 0)) "snapshot contains an invalid number"
  return value.getD 0

def getHistogram (c : PerKeyPredictorConfig) (decay : ℚ) : Reader DecayingHistogram := do
  let counts ← Reader.times (getFinite host) c.histogramBins
  let scale ← getFinite host
  let total ← getFinite host
  let sum ← getFinite host
  let censored ← getFinite host
  let observations ← get64
  .refuse (scale < 1 ∨ DecayingHistogram.renormalizeAt * 2 < scale ∨ 1 / 1000000 * max 1 total < |counts.sum - total|)
    "snapshot histogram is inconsistent"
  return { counts, gain := 1 / decay, scale, total, sum, censored, observations }

def getBoundaries (c : PerKeyPredictorConfig) : Reader (Option BoundarySnapshot) := do
  let present ← get8
  if present = 0 then return none
  else do
    let sequence ← get64
    let count ← get32
    .refuse (count ≠ c.numLevels.toNat - 1) "snapshot boundary count differs"
    let boundariesMs ← Reader.times (getFinite host) count
    .refuse (count ≠ 0 ∧ ¬PerKeyPredictor.validBoundaries boundariesMs)
      "snapshot boundaries are not positive and increasing"
    return some { sequence, boundariesMs }

def getKey (c : PerKeyPredictorConfig) : Reader KeyCopy := do
  let key ← getText maxPredictorKeyBytes
  .refuse (key = []) "snapshot contains an empty key"
  let histogram ← getHistogram host c c.decay
  let ageMs ← getInt64
  let tier ← getInt32
  .refuse (ageMs < 0 ∨ tier < -1 ∨ (c.numLevels.toNat : Int) ≤ tier) "snapshot key metadata out of range"
  return { key, histogram, ageMs, tier }

end Reader

/-- A validated file, before anything is applied. -/
structure SnapshotContents where
  boundaries : Option BoundarySnapshot
  global : DecayingHistogram
  globalObservations : Nat
  keys : List KeyCopy

/-- The checks on the versions and on the layout. -/
def readPreamble (host : Host) (c : PerKeyPredictorConfig) (context : Bytes) : Reader Unit := do
  .refuse ((← get32) ≠ snapshotVersion) "unsupported snapshot version"
  .refuse ((← get32) ≠ byteOrder) "snapshot byte order differs"
  .refuse ((← getText maxContextBytes) ≠ context) "snapshot was taken under a different key policy or routing version"
  .refuse ((← get32) ≠ c.histogramBins) "snapshot histogram layout or level count differs"
  .refuse ((← getDouble host) ≠ some c.minMs) "snapshot histogram layout or level count differs"
  .refuse ((← getDouble host) ≠ some c.maxMs) "snapshot histogram layout or level count differs"
  .refuse ((← get32) ≠ c.numLevels.toNat) "snapshot histogram layout or level count differs"

/-- Everything behind the magic bytes; the cap on the keys is a sum of `std::size_t`. -/
def readSnapshot (host : Host) (c : PerKeyPredictorConfig) (context : Bytes) : Reader SnapshotContents := do
  readPreamble host c context
  let boundaries ← getBoundaries host c
  let global ← getHistogram host c c.globalDecay
  let globalObservations ← get64
  let count ← get64
  .refuse ((c.maxKeys + c.shards) % 2 ^ 64 < count) "snapshot holds more keys than the cap"
  let keys ← Reader.times (getKey host c) count
  .refuse (¬(← .done)) "snapshot has trailing data"
  return { boundaries, global, globalObservations, keys }

/-- The first half of `load`, with the extents of the file that it reads. -/
def parseSnapshot (host : Host) (c : PerKeyPredictorConfig) (context file : Bytes) :
    Except String SnapshotContents × List (Nat × Nat) :=
  if maxSnapshotBytes < file.length ∨ file.length < snapshotMagic.length + 8 then
    (.error "snapshot size out of bounds", [])
  else
    let body := file.take (file.length - 8)
    let ends := [(file.length - 8, 8), (0, 8)]
    if file.take 8 ≠ snapshotMagic then (.error "not a predictor snapshot", ends)
    else if (fnv1a body).toNat ≠ ofLittleEndian (file.drop (file.length - 8)) then
      (.error "snapshot checksum mismatch", (0, file.length - 8) :: ends)
    else
      let (outcome, cursor) := (readSnapshot host c context).start { data := body.drop 8 }
      (outcome, cursor.reads.map (fun extent => (extent.1 + 8, extent.2)) ++ (0, file.length - 8) :: ends)

namespace PerKeyPredictor
variable {platform : Platform} (host : Host) (p : PerKeyPredictor platform) (now : Time)

def copyKeys : List KeyCopy :=
  (List.range p.config.shards).flatMap fun index => (host.walk (p.shards index).keys.entries).map fun item =>
    { key := item.1, histogram := item.2.histogram, ageMs := item.2.ageMs now, tier := item.2.tierNumber }

/-- What `save` writes before the checksum. -/
def snapshotBody (context : Bytes) : Bytes :=
  snapshotMagic ++ ((put32 snapshotVersion ++ (put32 byteOrder ++ (putText context ++ (put32 p.config.histogramBins ++
    (host.encode p.config.minMs ++ (host.encode p.config.maxMs ++ put32 p.config.numLevels.toNat)))))) ++
    (putBoundaries host p.snapshot ++ (putHistogram host p.global ++ (put64 p.globalObservations ++
      (put64 (p.copyKeys host now).length ++ (p.copyKeys host now).flatMap (putKey host))))))

/-- The bytes of the file. -/
def save (context : Bytes) : Bytes :=
  p.snapshotBody host now context ++ put64 (fnv1a (p.snapshotBody host now context)).toNat

/-- Restores one key, unless its shard is full or has the key already. -/
def restoreKey (restored : Nat × PerKeyPredictor platform) (k : KeyCopy) : Nat × PerKeyPredictor platform :=
  let (count, p) := restored
  let shard := p.shards (p.shardFor k.key)
  if p.perShardCap ≤ shard.keys.entries.length ∨ k.key ∈ shard.keys then restored
  else
    let updated := Int.bmod (now - Clock.ofMillis k.ageMs) (2 ^ 64)
    let entry : Entry := {
      histogram := k.histogram, position := shard.recency.next, lastActivity := updated, lastDecay := updated
      tier := if k.tier < 0 then none else some k.tier.toNat }
    (count + 1, p.withShard (p.shardFor k.key)
      { shard with keys := shard.keys.insert k.key entry, recency := shard.recency.pushFront k.key })

def clearKeys : PerKeyPredictor platform :=
  { p with shards := fun index => { p.shards index with keys := ∅, recency := .empty } }

/-- The second half of `load`: nothing in it fails. -/
def applySnapshot (contents : SnapshotContents) : Nat × PerKeyPredictor platform :=
  let (restored, q) := (host.sort contents.keys).foldl (restoreKey now) (0, p.clearKeys)
  (restored, { q with
    global := contents.global
    globalObservations := contents.globalObservations
    snapshot := if contents.boundaries.isSome ∨ 1 < p.config.numLevels then contents.boundaries else p.snapshot
    counters := { p.counters with
      snapshots := (contents.boundaries.map fun b => max p.counters.snapshots b.sequence).getD p.counters.snapshots } })

/-- The outcome of `load`, the predictor after it and the extents of the file that it read. -/
structure Loaded (platform : Platform) where
  outcome : Except String Nat
  state : PerKeyPredictor platform
  reads : List (Nat × Nat)

def load (context file : Bytes) : Loaded platform :=
  match parseSnapshot host p.config context file with
  | (.error message, reads) => { outcome := .error message, state := p, reads }
  | (.ok contents, reads) =>
    let (restored, state) := p.applySnapshot host now contents
    { outcome := .ok restored, state, reads }

end PerKeyPredictor

end Harbinger.Ml
