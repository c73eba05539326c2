import Harbinger.Ml.History

/-! What a predictor is for, without shards, caps and recency lists: a book of histories by key,
and the boundaries learned from all of them. A predictor is such a book as long as it has
room for the keys it is asked to record. -/

namespace Harbinger.Ml

/-- The history of a key: when it was last active, and when it last decayed if it decays at all. -/
@[ext] structure History where
  histogram : DecayingHistogram
  lastActivity : Time
  lastDecay : Option Time
  tier : Option Nat

@[ext] structure Book (platform : Platform) where
  config : PerKeyPredictorConfig
  layout : Layout
  history : Bytes → Option History
  global : DecayingHistogram
  globalObservations : Nat
  boundaries : Option (List ℚ)

namespace Book
variable {platform : Platform} (b : Book platform)

/-- The functions of the source that read only the configuration take it from here. -/
def setting : PerKeyPredictor platform := { config := b.config, layout := b.layout, global := b.global }

/-- When a history decays, if histories decay. -/
def decayed (now : Time) : Option Time := if 0 < b.config.timeHalfLife then some now else none

def blank (now : Time) : History where
  histogram := b.setting.makeHistogram
  lastActivity := now
  lastDecay := b.decayed now
  tier := none

def stale (h : History) (now : Time) : Prop :=
  0 < b.config.staleAfter ∧ Clock.ofMillis b.config.staleAfter < now - h.lastActivity

instance (h : History) (now : Time) : Decidable (b.stale h now) := inferInstanceAs (Decidable (_ ∧ _))

/-- A history before new evidence: stale evidence is discarded, old evidence decays. -/
def freshen (h : History) (now : Time) : History :=
  if b.stale h now then { h with histogram := b.setting.makeHistogram, lastDecay := b.decayed now, tier := none }
  else match h.lastDecay with
    | none => h
    | some last =>
      let gap : ℚ := (now - last : Int) / 1000000
      if 1000 ≤ gap then
        { h with
          histogram := h.histogram.shrink (platform.halving (gap / b.config.timeHalfLife)), lastDecay := some now }
      else h

def touch (old : Option History) (now : Time) : History := old.elim (b.blank now) fun h => b.freshen h now

/-- The history after a change of its evidence. -/
def teach (lesson : DecayingHistogram → DecayingHistogram) (now : Time) (old : Option History) : History :=
  { b.touch old now with histogram := lesson (b.touch old now).histogram, lastActivity := now }

def put (key : Bytes) (h : History) : Book platform := { b with history := Function.update b.history key (some h) }

def recordKey (key : Bytes) (duration : ℚ) (now : Time) : Book platform :=
  b.put key (b.teach (fun h => (h.add b.layout duration).1) now (b.history key))

/-- The boundaries after a refresh. -/
def refreshed : Option (List ℚ) :=
  let fresh := (List.range (b.config.numLevels.toNat - 1)).map fun index =>
    b.global.quantile b.layout ((index + 1 : Nat) / (b.config.numLevels.toNat : ℚ))
  if !PerKeyPredictor.validBoundaries fresh then b.boundaries
  else match b.boundaries with
    | none => some fresh
    | some old =>
      let held := b.setting.holdBoundaries fresh old
      some (if PerKeyPredictor.validBoundaries held then held else fresh)

def observeGlobal (duration : ℚ) : Book platform :=
  let b := { b with global := (b.global.add b.layout duration).1, globalObservations := b.globalObservations + 1 }
  if 1 < b.config.numLevels ∧ b.config.globalMinSamples ≤ b.globalObservations ∧
      (b.boundaries = none ∨ b.globalObservations % b.config.boundaryRefreshEvery = 0) then
    { b with boundaries := b.refreshed }
  else b

def observe (now : Time) (key parent : Bytes) (duration : ℚ) : Book platform :=
  if !usableKey key ∨ (parent ≠ [] ∧ !usableKey parent) ∨ duration < 0 then b
  else
    let b := b.recordKey key duration now
    let b := if parent = [] then b else b.recordKey parent duration now
    b.observeGlobal duration

def observeCensored (now : Time) (key : Bytes) : Book platform :=
  if !usableKey key then b else b.put key (b.teach DecayingHistogram.addCensored now (b.history key))

/-- The evaluation reads the histogram and the tier of the history only. -/
def evaluate (h : History) (boundariesMs : List ℚ) : DurationPrediction × History :=
  let result := b.setting.evaluate
    { histogram := h.histogram, position := 0, lastActivity := 0, lastDecay := 0, tier := h.tier } { boundariesMs }
  (result.1, { h with tier := result.2.tier })

def predict (now : Time) (key : Bytes) : DurationPrediction × Book platform :=
  if !usableKey key then (b.setting.fallback .invalidKey 0, b)
  else match b.boundaries with
    | none => (b.setting.fallback .unready 0, b)
    | some boundariesMs =>
      match b.history key with
      | none => (b.setting.fallback .coldKey 0, b)
      | some h =>
        if b.stale h now then (b.setting.fallback .staleKey h.histogram.observations, b)
        else
          let (prediction, h) := b.evaluate { h with lastActivity := now } boundariesMs
          (prediction, b.put key h)

end Book

/-- What a book keeps of an entry. -/
def Entry.history (c : PerKeyPredictorConfig) (entry : Entry) : History where
  histogram := entry.histogram
  lastActivity := entry.lastActivity
  lastDecay := if 0 < c.timeHalfLife then some entry.lastDecay else none
  tier := entry.tier

namespace PerKeyPredictor
variable {platform : Platform} {p : PerKeyPredictor platform}

/-- The predictor as a book. -/
def book (p : PerKeyPredictor platform) : Book platform where
  config := p.config
  layout := p.layout
  history := fun key => (p.find? key).map (Entry.history p.config)
  global := p.global
  globalObservations := p.globalObservations
  boundaries := p.snapshot.map BoundarySnapshot.boundariesMs

/-- The key is tracked, or its shard has room for it. -/
def HasRoom (p : PerKeyPredictor platform) (key : Bytes) : Prop :=
  (p.find? key).isSome ∨ (p.shards (p.shardFor key)).keys.entries.length < p.perShardCap

instance (key : Bytes) : Decidable (p.HasRoom key) := inferInstanceAs (Decidable (_ ∨ _))

theorem history_freshen (entry : Entry) (now : Time) :
    (p.freshen entry now).history p.config = p.book.freshen (entry.history p.config) now := by
  unfold PerKeyPredictor.freshen Book.freshen
  by_cases old : p.stale entry now
  · rw [if_pos old, if_pos (show p.book.stale (entry.history p.config) now from old)]
    rfl
  · rw [if_neg old, if_neg (show ¬p.book.stale (entry.history p.config) now from old)]
    by_cases decays : 0 < p.config.timeHalfLife
    · have known : (entry.history p.config).lastDecay = some entry.lastDecay := if_pos decays
      simp only [known, decays, true_and]
      split
      · simp only [Entry.history, if_pos decays]
        rfl
      · rfl
    · have none_known : (entry.history p.config).lastDecay = none := if_neg decays
      simp only [none_known, decays, false_and, if_false]

theorem book_withShard {key : Bytes} {entry : Entry} {shard : Shard}
    (changed : shard.keys = (p.shards (p.shardFor key)).keys.insert key entry) :
    (p.withShard (p.shardFor key) shard).book = p.book.put key (entry.history p.config) := by
  refine Book.ext rfl rfl (funext fun other => ?_) rfl rfl rfl
  change ((p.withShard (p.shardFor key) shard).find? other).map (Entry.history p.config) =
    Function.update p.book.history key (some (entry.history p.config)) other
  rw [find?_withShard changed, Function.update_apply]
  split
  · rfl
  · rfl

theorem touchLocked_room {key : Bytes} (room : p.HasRoom key) (now : Time) :
    ∃ entry shard, p.touchLocked (p.shards (p.shardFor key)) key now = some (entry, shard) ∧
      entry.history p.config = p.book.touch (p.book.history key) now ∧
      ∀ entry, (renew shard key entry).keys = (p.shards (p.shardFor key)).keys.insert key entry := by
  unfold touchLocked
  cases found : (p.shards (p.shardFor key)).keys.lookup key with
  | some entry =>
    have known : p.book.history key = some (entry.history p.config) := congrArg (Option.map _) found
    exact ⟨_, _, rfl, by rw [history_freshen, known]; rfl, fun _ => rfl⟩
  | none =>
    have missing : p.book.history key = none := congrArg (Option.map _) found
    have space : ¬p.perShardCap ≤ (p.shards (p.shardFor key)).keys.entries.length := by
      rcases room with tracked | space
      · rw [find?, found] at tracked
        cases tracked
      · exact not_le.mpr space
    refine ⟨_, _, if_neg space, by rw [missing]; rfl, fun entry => ?_⟩
    exact AList.insert_insert _

theorem book_recordKey {key : Bytes} (room : p.HasRoom key) (duration : ℚ) (now : Time) :
    (p.recordKey key duration now).book = p.book.recordKey key duration now := by
  obtain ⟨entry, shard, touched, same, changed⟩ := touchLocked_room room now
  simp only [recordKey, touched]
  rw [book_withShard (changed _), Book.recordKey, Book.teach, ← same]
  rfl

theorem book_observeCensored {key : Bytes} (room : !usableKey key ∨ p.HasRoom key) (now : Time) :
    (p.observeCensored now key).2.book = p.book.observeCensored now key := by
  unfold observeCensored Book.observeCensored
  split
  · rfl
  next accepted =>
    obtain ⟨entry, shard, touched, same, changed⟩ := touchLocked_room (room.resolve_left accepted) now
    simp only [touched]
    have moved := book_withShard (changed { entry with histogram := entry.histogram.addCensored, lastActivity := now })
    rw [Book.teach, ← same]
    exact moved

theorem book_refreshBoundariesLocked : p.refreshBoundariesLocked.book = { p.book with boundaries := p.book.refreshed } := by
  simp only [refreshBoundariesLocked, Book.refreshed]
  have levels : p.book.config.numLevels = p.config.numLevels := rfl
  have quantiles : ∀ q, p.book.global.quantile p.book.layout q = p.global.quantile p.layout q := fun _ => rfl
  simp only [levels, quantiles]
  generalize (List.range (p.config.numLevels.toNat - 1)).map _ = fresh
  split
  · rfl
  · cases known : p.snapshot with
    | none =>
      have absent : p.book.boundaries = none := congrArg (Option.map _) known
      rw [absent]
      rfl
    | some current =>
      have present : p.book.boundaries = some current.boundariesMs := congrArg (Option.map _) known
      have hold : p.book.setting.holdBoundaries fresh current.boundariesMs = p.holdBoundaries fresh current.boundariesMs := rfl
      rw [present]
      dsimp only
      rw [hold]
      generalize (if validBoundaries (p.holdBoundaries fresh current.boundariesMs) = true then _ else fresh) = chosen
      split
      next same =>
        rw [same, ← present]
      · rfl

theorem book_observeGlobal (duration : ℚ) : (p.observeGlobal duration).book = p.book.observeGlobal duration := by
  simp only [observeGlobal, Book.observeGlobal]
  have absent : p.book.boundaries = none ↔ p.snapshot = none := Option.map_eq_none_iff
  have levels : p.book.config = p.config := rfl
  have count : p.book.globalObservations = p.globalObservations := rfl
  simp only [absent, levels, count]
  split
  · rw [book_refreshBoundariesLocked]
    rfl
  · rfl

/-- No key is evicted for the keys of an observation, and none overflows. -/
def Accommodates (p : PerKeyPredictor platform) (now : Time) (key parent : Bytes) (duration : ℚ) : Prop :=
  (!usableKey key ∨ (parent ≠ [] ∧ !usableKey parent) ∨ duration < 0) ∨
    p.HasRoom key ∧ (parent ≠ [] → (p.recordKey key duration now).HasRoom parent)

instance (now : Time) (key parent : Bytes) (duration : ℚ) : Decidable (p.Accommodates now key parent duration) :=
  inferInstanceAs (Decidable (_ ∨ _))

theorem book_observe {now : Time} {key parent : Bytes} {duration : ℚ} (room : p.Accommodates now key parent duration) :
    (p.observe now key parent duration).2.book = p.book.observe now key parent duration := by
  unfold observe Book.observe
  split
  · rfl
  next accepted =>
    have room := room.resolve_left accepted
    dsimp only
    rw [book_observeGlobal]
    split
    · rw [book_recordKey room.1]
    next named => rw [book_recordKey (room.2 named), book_recordKey room.1]

theorem book_evaluate (entry : Entry) (snapshot : BoundarySnapshot) :
    (p.evaluate entry snapshot).1 = (p.book.evaluate (entry.history p.config) snapshot.boundariesMs).1 ∧
      (p.evaluate entry snapshot).2.history p.config =
        (p.book.evaluate (entry.history p.config) snapshot.boundariesMs).2 := by
  simp only [Book.evaluate, evaluate]
  have config : p.book.setting.config = p.config := rfl
  have layout : p.book.setting.layout = p.layout := rfl
  have evidence : (entry.history p.config).histogram = entry.histogram := rfl
  have estimate : p.book.setting.estimate entry.histogram = p.estimate entry.histogram := rfl
  simp only [config, layout, evidence, estimate]
  split
  · exact ⟨rfl, rfl⟩
  · split
    · exact ⟨rfl, rfl⟩
    · split
      · exact ⟨rfl, rfl⟩
      · split
        · exact ⟨rfl, rfl⟩
        · exact ⟨rfl, rfl⟩

theorem book_predict (now : Time) (key : Bytes) :
    (p.predict now key).1 = (p.book.predict now key).1 ∧ (p.predict now key).2.book = (p.book.predict now key).2 := by
  unfold predict Book.predict
  split
  · exact ⟨rfl, rfl⟩
  · cases known : p.snapshot with
    | none =>
      have absent : p.book.boundaries = none := congrArg (Option.map _) known
      rw [absent]
      exact ⟨rfl, rfl⟩
    | some snapshot =>
      have present : p.book.boundaries = some snapshot.boundariesMs := congrArg (Option.map _) known
      rw [present]
      dsimp only
      cases found : (p.shards (p.shardFor key)).keys.lookup key with
      | none =>
        have missing : p.book.history key = none := congrArg (Option.map _) found
        rw [missing]
        exact ⟨rfl, rfl⟩
      | some entry =>
        have tracked : p.book.history key = some (entry.history p.config) := congrArg (Option.map _) found
        rw [tracked]
        dsimp only
        by_cases old : p.stale entry now
        · rw [if_pos old, if_pos (show p.book.stale (entry.history p.config) now from old)]
          exact ⟨rfl, rfl⟩
        · rw [if_neg old, if_neg (show ¬p.book.stale (entry.history p.config) now from old)]
          obtain ⟨prediction, after⟩ := book_evaluate (p := p) { entry with lastActivity := now } snapshot
          refine ⟨prediction, ?_⟩
          rw [book_withShard rfl, after]
          rfl

end PerKeyPredictor

/-- A call of a predictor, with the clock reading it takes. -/
inductive PredictorCall
  | predict (now : Time) (key : Bytes)
  | observe (now : Time) (key parent : Bytes) (duration : ℚ)
  | observeCensored (now : Time) (key : Bytes)

namespace PerKeyPredictor
variable {platform : Platform} {p q : PerKeyPredictor platform}

def perform (p : PerKeyPredictor platform) : PredictorCall → Option DurationPrediction × PerKeyPredictor platform
  | .predict now key => ((p.predict now key).1, (p.predict now key).2)
  | .observe now key parent duration => (none, (p.observe now key parent duration).2)
  | .observeCensored now key => (none, (p.observeCensored now key).2)

/-- The predictions that a sequence of calls returns. -/
def predictions (p : PerKeyPredictor platform) : List PredictorCall → List DurationPrediction
  | [] => []
  | call :: calls => (p.perform call).1.toList ++ (p.perform call).2.predictions calls

/-- The call evicts no key, and no key overflows. -/
def Keeps (p : PerKeyPredictor platform) : PredictorCall → Prop
  | .predict _ _ => True
  | .observe now key parent duration => p.Accommodates now key parent duration
  | .observeCensored _ key => !usableKey key ∨ p.HasRoom key

instance : (call : PredictorCall) → Decidable (p.Keeps call)
  | .predict _ _ => inferInstanceAs (Decidable True)
  | .observe now key parent duration => inferInstanceAs (Decidable (p.Accommodates now key parent duration))
  | .observeCensored _ key => inferInstanceAs (Decidable (!usableKey key ∨ p.HasRoom key))

def KeepsAll (p : PerKeyPredictor platform) : List PredictorCall → Prop
  | [] => True
  | call :: calls => p.Keeps call ∧ (p.perform call).2.KeepsAll calls

instance instDecidableKeepsAll (p : PerKeyPredictor platform) : (calls : List PredictorCall) → Decidable (p.KeepsAll calls)
  | [] => inferInstanceAs (Decidable True)
  | call :: calls =>
    have := instDecidableKeepsAll (p.perform call).2 calls
    inferInstanceAs (Decidable (p.Keeps call ∧ (p.perform call).2.KeepsAll calls))

theorem perform_of_book (same : p.book = q.book) {call : PredictorCall} (kept : p.Keeps call) (kept' : q.Keeps call) :
    (p.perform call).1 = (q.perform call).1 ∧ (p.perform call).2.book = (q.perform call).2.book := by
  cases call with
  | predict now key =>
    have first := book_predict (p := p) now key
    have second := book_predict (p := q) now key
    rw [same] at first
    exact ⟨congrArg some (first.1.trans second.1.symm), first.2.trans second.2.symm⟩
  | observe now key parent duration =>
    refine ⟨rfl, ?_⟩
    calc (p.observe now key parent duration).2.book = p.book.observe now key parent duration := book_observe kept
      _ = q.book.observe now key parent duration := by rw [same]
      _ = (q.observe now key parent duration).2.book := (book_observe kept').symm
  | observeCensored now key =>
    refine ⟨rfl, ?_⟩
    calc (p.observeCensored now key).2.book = p.book.observeCensored now key := book_observeCensored kept now
      _ = q.book.observeCensored now key := by rw [same]
      _ = (q.observeCensored now key).2.book := (book_observeCensored kept' now).symm

end PerKeyPredictor

end Harbinger.Ml
