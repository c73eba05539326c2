import Harbinger.Ml.Book
import Harbinger.Ml.Restart

/-! What a predictor that was restored from a snapshot answers, against what the saved one
would have answered. -/

namespace Harbinger.Ml.PerKeyPredictor
open Codec Container
variable {platform : Platform} {host : Host} {p q : PerKeyPredictor platform} {now : Time} {timely : Time → Prop}

theorem mem_shard (sound : p.Sound timely) {index : Nat} {key : Bytes} :
    key ∈ (p.shards index).keys ↔ p.shardFor key = index ∧ (p.find? key).isSome := by
  constructor
  · intro member
    obtain ⟨entry, found⟩ := Option.isSome_iff_exists.mp (AList.lookup_isSome.mpr member)
    have placed := ((sound.shards index).keys key entry found).1
    refine ⟨placed, ?_⟩
    rw [find?, placed, found]
    rfl
  · rintro ⟨rfl, tracked⟩
    exact AList.lookup_isSome.mp tracked

theorem hasRoom_of_book (sound : p.Sound timely) (sound' : q.Sound timely) (same : p.book = q.book) {key : Bytes}
    (room : p.HasRoom key) : q.HasRoom key := by
  have config : p.config = q.config := congrArg Book.config same
  have shard : ∀ key, p.shardFor key = q.shardFor key := fun key => by rw [shardFor, config]; rfl
  have tracked : ∀ key, (p.find? key).isSome = (q.find? key).isSome := fun key => by
    have histories : (p.find? key).map _ = (q.find? key).map _ := congrFun (congrArg Book.history same) key
    have known := congrArg Option.isSome histories
    rwa [Option.isSome_map, Option.isSome_map] at known
  rcases room with known | space
  · exact .inl (tracked key ▸ known)
  · have count : (p.shards (p.shardFor key)).keys.entries.length = (q.shards (q.shardFor key)).keys.entries.length := by
      refine length_eq_of_mem_iff fun other => ?_
      rw [mem_shard sound, mem_shard sound', shard, shard, tracked]
    have cap : p.perShardCap = q.perShardCap := by rw [perShardCap, config]; rfl
    exact .inr (count ▸ cap ▸ space)

theorem Sound.perform (lawful : platform.Lawful) (any : ∀ t, timely t) (sound : p.Sound timely) (call : PredictorCall) :
    (p.perform call).2.Sound timely := by
  cases call with
  | predict now key => exact sound.predict (any now) key
  | observe now key parent duration => exact sound.observe lawful (any now) key parent duration
  | observeCensored now key => exact sound.observeCensored lawful (any now) key

theorem keeps_of_book (lawful : platform.Lawful) (any : ∀ t, timely t) (sound : p.Sound timely)
    (sound' : q.Sound timely) (same : p.book = q.book) {call : PredictorCall} (kept : p.Keeps call) : q.Keeps call := by
  cases call with
  | predict now key => trivial
  | observe now key parent duration =>
    by_cases refused : !usableKey key ∨ (parent ≠ [] ∧ !usableKey parent) ∨ duration < 0
    · exact .inl refused
    · obtain ⟨first, second⟩ := kept.resolve_left refused
      have first' := hasRoom_of_book sound sound' same first
      refine .inr ⟨first', fun named => ?_⟩
      simp only [not_or, not_lt, Bool.not_eq_true', Bool.not_eq_false] at refused
      have recorded : (p.recordKey key duration now).book = (q.recordKey key duration now).book := by
        rw [book_recordKey first, book_recordKey first', same]
      exact hasRoom_of_book (sound.recordKey lawful (any now) refused.1 refused.2.2)
        (sound'.recordKey lawful (any now) refused.1 refused.2.2) recorded (second named)
  | observeCensored now key => exact kept.imp_right (hasRoom_of_book sound sound' same)

theorem predictions_of_book (lawful : platform.Lawful) (any : ∀ t, timely t) (calls : List PredictorCall) :
    ∀ {p q : PerKeyPredictor platform}, p.Sound timely → q.Sound timely → p.book = q.book → p.KeepsAll calls →
      q.predictions calls = p.predictions calls := by
  induction calls with
  | nil => exact fun _ _ _ _ => rfl
  | cons call calls rest =>
    intro p q sound sound' same kept
    obtain ⟨answer, after⟩ := perform_of_book same kept.1 (keeps_of_book lawful any sound sound' same kept.1)
    rw [predictions, predictions, answer,
      rest (sound.perform lawful any call) (sound'.perform lawful any call) after kept.2]

/-- In whole milliseconds, a restored entry has the history of the saved one up to its pending decay. -/
theorem history_restoredEntry (reading : Clock.Reading now) {key : Bytes} {entry : Entry}
    (admissible : entry.Admissible p.config (· ≤ now)) (recent : now - entry.lastActivity < 2 ^ 63)
    (whole : (now - entry.lastActivity) % 1000000 = 0)
    (settled : 0 < p.config.timeHalfLife → entry.lastDecay = entry.lastActivity) (position : Nat) :
    (p.restoredEntry now now key entry position).history p.config = entry.history p.config := by
  have kept : (p.restoredEntry now now key entry position).kept now = entry.kept now :=
    kept_restoredEntry reading admissible recent position
  have histogram := congrArg Prod.fst kept
  have tier := congrArg (fun kept => kept.2.1) kept
  have restored : (p.restoredEntry now now key entry position).lastActivity = entry.lastActivity := by
    have elapsed : 0 ≤ now - entry.lastActivity := Int.sub_nonneg_of_le admissible.timely
    have exact_age : ∀ ticks : Int, 0 ≤ ticks → ticks < 2 ^ 63 → ticks % 1000000 = 0 →
        max 0 ((Int.bmod ticks (2 ^ 64)).tdiv 1000000) * 1000000 = ticks := by
      intro ticks nonnegative small whole
      have unwrapped : Int.bmod ticks (2 ^ 64) = ticks :=
        Int.bmod_eq_of_le_mul_two (by norm_num; omega) (by norm_num; omega)
      rw [unwrapped, Int.tdiv_eq_ediv_of_nonneg nonnegative]
      omega
    have age : Clock.ofMillis (max 0 (entry.ageMs now)) = now - entry.lastActivity := exact_age _ elapsed recent whole
    calc (p.restoredEntry now now key entry position).lastActivity
        = now - Clock.ofMillis (max 0 (entry.ageMs now)) :=
          restoredAt_eq reading (le_max_left ..) (ofMillis_ageMs_lt entry now)
      _ = now - (now - entry.lastActivity) := by rw [age]
      _ = entry.lastActivity := Int.sub_sub_self ..
  refine History.ext histogram restored ?_ tier
  change (if 0 < p.config.timeHalfLife then some (p.restoredEntry now now key entry position).lastActivity else none) =
    if 0 < p.config.timeHalfLife then some entry.lastDecay else none
  split
  next decays => rw [restored, settled decays]
  · rfl

/-- No decay is pending: histories do not decay in time, or each key was active last when it decayed. -/
def Settled (p : PerKeyPredictor platform) : Prop :=
  0 < p.config.timeHalfLife → ∀ key entry, p.find? key = some entry → entry.lastDecay = entry.lastActivity

/-- If no decay is pending, a fresh predictor that loads a snapshot at the time it was saved
gives the predictions that the saved one would have given. -/
theorem restored_predictions (lawful : platform.Lawful) (reachable : Reachable host false p now)
    (storable : p.Storable host now) (counted : p.config.maxKeys + p.config.shards < 2 ^ 64) {context : Bytes}
    (short : context.length ≤ maxContextBytes) (bounded : (p.save host now context).length ≤ maxSnapshotBytes)
    (whole : ∀ key entry, p.find? key = some entry → (now - entry.lastActivity) % 1000000 = 0) (settled : p.Settled)
    (fresh : create platform p.config p.layout = .ok q) (calls : List PredictorCall) (kept : p.KeepsAll calls) :
    (q.load host now context (p.save host now context)).state.predictions calls = p.predictions calls := by
  have sound := reachable.steady lawful
  have reading := reachable.reading
  obtain ⟨config, layout⟩ : q.config = p.config ∧ q.layout = p.layout := by
    simp only [create, bind_ok] at fresh
    obtain ⟨_, valid, made⟩ := fresh
    obtain ⟨rfl, -⟩ := validated_ok valid
    obtain rfl := Except.ok.inj made
    exact ⟨rfl, rfl⟩
  have sound' : (q.load host now context (p.save host now context)).state.Sound (fun _ => True) := by
    have start : Reachable host false q now := .created sound.fits fresh reading
    have restored := Reachable.restored start le_rfl reading reachable storable short bounded context
    exact (restored.steady lawful).mono fun _ _ => trivial
  have same : p.book = (q.load host now context (p.save host now context)).state.book := by
    rw [(load_save sound storable counted short bounded config now).2]
    obtain ⟨-, absent, present⟩ := restore_saved host sound config now
    obtain ⟨boundaries, global⟩ := restore_shared host sound config now
    obtain ⟨config', layout'⟩ := applySnapshot_setting host q now (p.contentsFor host now p.config)
    rw [config] at config'
    rw [layout] at layout'
    refine Book.ext config'.symm layout'.symm (funext fun key => ?_) global.symm rfl
      (congrArg (Option.map _) boundaries.symm)
    simp only [book, config']
    cases found : p.find? key with
    | none => rw [absent key found]
    | some entry =>
      obtain ⟨position, restored⟩ := present key entry found
      have admissible := ((sound.shards _).keys key entry found).2.2
      rw [restored, Option.map_some, Option.map_some,
        history_restoredEntry reading admissible (storable.entries key entry found).2 (whole key entry found)
          fun decays => settled decays key entry found]
  exact predictions_of_book lawful (fun _ => trivial) calls (sound.mono fun _ _ => trivial) sound' same kept

theorem layout_recordKey (p : PerKeyPredictor platform) (key : Bytes) (duration : ℚ) (now : Time) :
    (p.recordKey key duration now).layout = p.layout := by
  simp only [recordKey]
  split <;> rfl

theorem layout_observeGlobal (p : PerKeyPredictor platform) (duration : ℚ) : (p.observeGlobal duration).layout = p.layout := by
  have kept := congrArg Book.layout (book_observeGlobal (p := p) duration)
  refine kept.trans ?_
  simp only [Book.observeGlobal]
  split <;> rfl

theorem layout_perform (p : PerKeyPredictor platform) (call : PredictorCall) : (p.perform call).2.layout = p.layout := by
  cases call with
  | predict now key =>
    refine (congrArg Book.layout (book_predict (p := p) now key).2).trans ?_
    simp only [Book.predict]
    split
    · rfl
    · split
      · rfl
      · split
        · rfl
        · split <;> rfl
  | observe now key parent duration =>
    simp only [perform, observe]
    split
    · rfl
    · rw [layout_observeGlobal]
      split
      · exact layout_recordKey ..
      · exact (layout_recordKey ..).trans (layout_recordKey ..)
  | observeCensored now key =>
    simp only [perform, observeCensored]
    split
    · rfl
    · split <;> rfl

section Sample

/-- `pow(0.5, x)` where the sample asks for it. -/
def sampleFading : Platform := { Platform.plain with halving := fun x => if x = 0 then 1 else 1 / 2 }

theorem sampleFading_lawful : sampleFading.Lawful := by
  constructor
  · intro x _
    change 0 ≤ if x = 0 then (1 : ℚ) else 1 / 2
    split <;> norm_num
  · intro x _
    change (if x = 0 then (1 : ℚ) else 1 / 2) ≤ 1
    split <;> norm_num

def sampleFresh : PerKeyPredictor sampleFading where
  config := samplePredictorConfig
  layout := sampleLayout
  global := .create 8 (9999 / 10000)

/-- One job of 10 ms. -/
def sampleDecayed : PerKeyPredictor sampleFading := (sampleFresh.observe 0 (ascii "k") [] 10).2

/-- Its key is asked for ten minutes later, when half of its evidence should have decayed. -/
def samplePending : PerKeyPredictor sampleFading := (sampleDecayed.predict 600000000000 (ascii "k")).2

def sampleCalls : List PredictorCall := [.observe 600000000000 (ascii "k") [] 100, .predict 600000000000 (ascii "k")]

theorem sampleFresh_created : create sampleFading samplePredictorConfig sampleLayout = .ok sampleFresh := by
  have valid : validated samplePredictorConfig = .ok samplePredictorConfig := by decide +kernel
  rw [create, valid]
  rfl

theorem sampleDecayed_layout : sampleDecayed.layout = sampleLayout := layout_perform sampleFresh (.observe 0 (ascii "k") [] 10)

theorem sampleDecayed_reachable : Reachable Host.plain false sampleDecayed 0 := by
  have start : Clock.Reading 0 := ⟨le_rfl, by decide⟩
  exact .observed (.created ⟨rfl, rfl, rfl⟩ sampleFresh_created start) le_rfl start ..

/-- The snapshot does not keep the time of the last decay: the evidence of a key that was asked for
since then counts in full after a restart. -/
theorem pending_decay_lost : Reachable Host.plain false samplePending 600000000000 ∧
    samplePending.Storable Host.plain 600000000000 ∧
    (samplePending.save Host.plain 600000000000 []).length ≤ maxSnapshotBytes ∧
    (∀ key entry, samplePending.find? key = some entry → (600000000000 - entry.lastActivity) % 1000000 = 0) ∧
    create sampleFading samplePending.config samplePending.layout = .ok sampleFresh ∧
    samplePending.KeepsAll sampleCalls ∧
    (sampleFresh.load Host.plain 600000000000 [] (samplePending.save Host.plain 600000000000 [])).state.predictions sampleCalls ≠
      samplePending.predictions sampleCalls := by
  have later : Clock.Reading 600000000000 := ⟨by decide, by decide⟩
  have storable : samplePending.Storable Host.plain 600000000000 := {
    layout := by decide +kernel
    global := by decide +kernel
    observations := by decide +kernel
    boundaries := by decide +kernel
    entries := entries_of_shards (by decide +kernel) (by decide +kernel) }
  have config : samplePending.config = samplePredictorConfig := by decide +kernel
  have layout : samplePending.layout = sampleLayout :=
    (layout_perform sampleDecayed (.predict 600000000000 (ascii "k"))).trans sampleDecayed_layout
  exact ⟨.predicted sampleDecayed_reachable (by decide) later _, storable, by decide +kernel,
    entries_of_shards (by decide +kernel) (by decide +kernel), by rw [config, layout, sampleFresh_created],
    by decide +kernel, by decide +kernel⟩

/-- Saved right after the job, the predictor decays as it would have. -/
theorem restored_predictions_decayed :
    (sampleFresh.load Host.plain 0 [] (sampleDecayed.save Host.plain 0 [])).state.predictions sampleCalls =
      sampleDecayed.predictions sampleCalls := by
  have storable : sampleDecayed.Storable Host.plain 0 := {
    layout := by decide +kernel
    global := by decide +kernel
    observations := by decide +kernel
    boundaries := by decide +kernel
    entries := entries_of_shards (by decide +kernel) (by decide +kernel) }
  have counted : sampleDecayed.config.maxKeys + sampleDecayed.config.shards < 2 ^ 64 := by decide +kernel
  have short : ([] : Bytes).length ≤ maxContextBytes := Nat.zero_le _
  have bounded : (sampleDecayed.save Host.plain 0 []).length ≤ maxSnapshotBytes := by decide +kernel
  have whole : ∀ key entry, sampleDecayed.find? key = some entry → (0 - entry.lastActivity) % 1000000 = 0 :=
    entries_of_shards (by decide +kernel) (by decide +kernel)
  have settled : sampleDecayed.Settled := fun _ => entries_of_shards (by decide +kernel) (by decide +kernel)
  have config : sampleDecayed.config = samplePredictorConfig := by decide +kernel
  have fresh : create sampleFading sampleDecayed.config sampleDecayed.layout = .ok sampleFresh := by
    rw [config, sampleDecayed_layout, sampleFresh_created]
  exact restored_predictions sampleFading_lawful sampleDecayed_reachable storable counted short bounded whole settled
    fresh sampleCalls (by decide +kernel)

end Sample

end Harbinger.Ml.PerKeyPredictor
