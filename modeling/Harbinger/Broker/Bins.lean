import Harbinger.Broker.Traffic
import Harbinger.Ml.Invariant

/-! Size bins against no bins on the same traffic. A binned key teaches its parent what the
un-binned key would have been taught, but it does not keep the parent awake: a warm bin answers
for itself, and the parent goes stale while the un-binned key would not. -/

namespace Harbinger
open Ml

variable {platform : Platform}

/-- The policy without size bins. -/
def Ml.PredictorKeyPolicy.bare (policy : PredictorKeyPolicy) : PredictorKeyPolicy := { policy with sizeSource := .none }

theorem derivePredictorKeys_bare (σ : Type) [Inference σ] (headers : Headers) (policy : PredictorKeyPolicy) (payloadSize : Nat) :
    derivePredictorKeys σ headers policy.bare payloadSize = (derivePredictorKey headers policy).map fun base => ⟨base, none⟩ := rfl

namespace Ml.Book
variable {b : Book platform} {now : Time}

theorem teach_later (lesson : DecayingHistogram → DecayingHistogram) {h : History} {activity : Time}
    (later : h.lastActivity ≤ activity) (fresh : ¬b.stale h now) :
    b.teach lesson now (some { h with lastActivity := activity }) = b.teach lesson now (some h) := by
  have fresh' : ¬b.stale { h with lastActivity := activity } now := fun old =>
    fresh ⟨old.1, old.2.trans_le (Int.sub_le_sub_left later now)⟩
  unfold teach touch
  simp only [Option.elim, freshen, if_neg fresh, if_neg fresh']
  obtain ⟨histogram, _, lastDecay, tier⟩ := h
  cases lastDecay with
  | none => rfl
  | some last =>
    dsimp only
    split <;> rfl

end Ml.Book

/-- A message of the base key arrived then. -/
def Visited (policy : PredictorKeyPolicy) (before : List Traffic) (base : Bytes) (time : Time) : Prop :=
  ∃ visit ∈ before, visit.encounter = .arrival ∧ derivePredictorKey visit.headers policy = some base ∧ visit.now = time

/-- The parent's history against the un-binned key's: it may have been active less recently, if
messages have arrived since. -/
structure Trails (policy : PredictorKeyPolicy) (before : List Traffic) (base : Bytes) (first second : History) : Prop where
  same : second = { first with lastActivity := second.lastActivity }
  behind : first.lastActivity ≤ second.lastActivity
  caught : second.lastActivity = first.lastActivity ∨ Visited policy before base second.lastActivity
  dated : ∃ item ∈ before, item.now = first.lastActivity

/-- Both have evidence of a key, or neither has. -/
def Paired (policy : PredictorKeyPolicy) (before : List Traffic) (base : Bytes) (first second : Option History) : Prop :=
  (first = none ∧ second = none) ∨ ∃ h h', first = some h ∧ second = some h' ∧ Trails policy before base h h'

/-- The books of the two runs, for the base keys of the traffic. -/
structure Abreast (policy : PredictorKeyPolicy) (bases : Bytes → Prop) (before : List Traffic) (binned bare : Book platform) :
    Prop where
  shared : bare = { binned with history := bare.history }
  keys : ∀ base, bases base → Paired policy before base (binned.evidence base) (bare.evidence base)

variable {policy : PredictorKeyPolicy} {bases : Bytes → Prop} {before : List Traffic} {item : Traffic}
  {binned bare : Book platform}

theorem Visited.mono {base : Bytes} {time : Time} (visited : Visited policy before base time) (item : Traffic) :
    Visited policy (before ++ [item]) base time := by
  obtain ⟨visit, member, known⟩ := visited
  exact ⟨visit, List.mem_append_left _ member, known⟩

theorem Trails.mono {base : Bytes} {first second : History} (trails : Trails policy before base first second)
    (item : Traffic) : Trails policy (before ++ [item]) base first second where
  same := trails.same
  behind := trails.behind
  caught := trails.caught.imp_right (·.mono item)
  dated := by
    obtain ⟨earlier, member, date⟩ := trails.dated
    exact ⟨earlier, List.mem_append_left _ member, date⟩

theorem Paired.mono {base : Bytes} {first second : Option History} (paired : Paired policy before base first second)
    (item : Traffic) : Paired policy (before ++ [item]) base first second := by
  rcases paired with absent | ⟨h, h', known, known', trails⟩
  · exact .inl absent
  · exact .inr ⟨h, h', known, known', trails.mono item⟩

theorem Trails.refl {base : Bytes} {h : History} (dated : h.lastActivity = item.now) :
    Trails policy (before ++ [item]) base h h where
  same := rfl
  behind := le_rfl
  caught := .inl rfl
  dated := ⟨item, List.mem_append_right _ (List.mem_singleton_self item), dated.symm⟩

theorem Trails.teach {b : Book platform} {base : Bytes} {first second : History} (trails : Trails policy before base first second)
    {now : Time} (awake : b.stale first now → ∀ time, Visited policy before base time → time ≤ first.lastActivity)
    (lesson : DecayingHistogram → DecayingHistogram) :
    b.teach lesson now (some second) = b.teach lesson now (some first) := by
  by_cases level : second.lastActivity = first.lastActivity
  · rw [trails.same, level]
  · have visited := trails.caught.resolve_left level
    have fresh : ¬b.stale first now := fun old => level (le_antisymm (awake old _ visited) trails.behind)
    rw [trails.same]
    exact Book.teach_later lesson trails.behind fresh

/-- The condition under which an item leaves the parent's evidence where the un-binned key's is. -/
def BookAwake (policy : PredictorKeyPolicy) (before : List Traffic) (item : Traffic) (b : Book platform) : Prop :=
  item.encounter ≠ .arrival → ∀ base h, derivePredictorKey item.headers policy = some base → b.evidence base = some h →
    b.stale h item.now → ∀ time, Visited policy before base time → time ≤ h.lastActivity

namespace Ml.Book
variable {b : Book platform} {now : Time} {keys : PredictorKeys}

theorem absorb_history (history : Bytes → Option History) (encounter : Encounter) :
    ({ b with history } : Book platform).absorb encounter = { b.absorb encounter with history } := by
  cases encounter with
  | label duration =>
    simp only [absorb]
    split
    · rfl
    · exact observeGlobal_history history duration
  | arrival => rfl
  | expiry => rfl

theorem Refreshes.after_predict {key other : Bytes} (different : key ≠ other) (refreshes : (b.predict now other).2.Refreshes now key) :
    b.Refreshes now key := by
  obtain ⟨usable, published, h, known, fresh⟩ := refreshes
  rw [evidence_predict_other different] at known
  obtain ⟨history, same⟩ := b.predict_history now other
  rw [same] at published fresh
  exact ⟨usable, published, h, known, fresh⟩

theorem attend_alone (b : Book platform) (now : Time) (base : Bytes) :
    b.attend now (some ⟨base, none⟩) .arrival = (b.predict now base).2 := by
  simp only [attend, Option.elim, ite_self]

theorem evidence_arrival (b : Book platform) (now : Time) (usable : keys.Usable) {base : Bytes} (own : keys = ⟨base, none⟩ ∨ keys.parent = some base) :
    (b.attend now (some keys) .arrival).evidence base = b.evidence base ∨
      (b.Refreshes now base ∧ (b.attend now (some keys) .arrival).evidence base =
        (b.evidence base).map fun h => { h with lastActivity := now }) := by
  rcases own with rfl | named
  · rw [attend_alone]
    by_cases refreshes : b.Refreshes now base
    · exact .inr ⟨refreshes, evidence_predict_refreshed refreshes⟩
    · exact .inl (evidence_predict_idle refreshes)
  · have different := (usable.parent base named).2
    have kept : (b.predict now keys.key).2.evidence base = b.evidence base := evidence_predict_other different
    simp only [attend, Option.elim, named]
    split
    · by_cases refreshes : (b.predict now keys.key).2.Refreshes now base
      · refine .inr ⟨refreshes.after_predict different, ?_⟩
        rw [← kept]
        exact evidence_predict_refreshed refreshes
      · exact .inl ((evidence_predict_idle refreshes).trans kept)
    · exact .inl kept

end Ml.Book

section Item
variable {keys : PredictorKeys} {base : Bytes} (abreast : Abreast policy bases before binned bare)
  (derived : derivePredictorKey item.headers policy = some base) (member : bases base) (usable : keys.Usable)
  (own : keys = ⟨base, none⟩ ∨ keys.parent = some base)
include abreast derived member usable own

theorem Abreast.taught (later : item.encounter ≠ .arrival) (awake : BookAwake policy before item binned) :
    Paired policy (before ++ [item]) base ((binned.attend item.now (some keys) item.encounter).evidence base)
      ((bare.attend item.now (some ⟨base, none⟩) item.encounter).evidence base) := by
  have alone : (⟨base, none⟩ : PredictorKeys).Usable := ⟨derivePredictorKey_usable derived, fun parent none => nomatch none⟩
  have owned : keys.Own base := own.imp (fun same => by rw [same]) id
  have layout : bare.layout = binned.layout := by rw [abreast.shared]
  have teach : ∀ lesson old, bare.teach lesson item.now old = binned.teach lesson item.now old := by
    intro lesson old
    rw [abreast.shared]
    rfl
  rw [Book.evidence_attend_own usable owned later, Book.evidence_attend_own alone (.inl rfl) later, layout]
  have paired := abreast.keys base member
  cases item.encounter.lesson binned.layout with
  | none => exact paired.mono item
  | some lesson =>
    simp only [Option.elim, teach]
    rcases paired with ⟨absent, absent'⟩ | ⟨h, h', known, known', trails⟩
    · rw [absent, absent']
      exact .inr ⟨_, _, rfl, rfl, .refl rfl⟩
    · rw [known, known', trails.teach (awake later base h derived known)]
      exact .inr ⟨_, _, rfl, rfl, .refl rfl⟩

/-- An arrival may keep the un-binned key awake only. -/
theorem Abreast.arrived (arrival : item.encounter = .arrival) (steady : ∀ earlier ∈ before, earlier.now ≤ item.now) :
    Paired policy (before ++ [item]) base ((binned.attend item.now (some keys) .arrival).evidence base)
      ((bare.attend item.now (some ⟨base, none⟩) .arrival).evidence base) := by
  have alone : (⟨base, none⟩ : PredictorKeys).Usable := ⟨derivePredictorKey_usable derived, fun parent none => nomatch none⟩
  have first := binned.evidence_arrival item.now usable own
  have second := bare.evidence_arrival item.now alone (.inl rfl)
  rcases abreast.keys base member with ⟨absent, absent'⟩ | ⟨h, h', known, known', trails⟩
  · rw [absent] at first
    rw [absent'] at second
    exact .inl ⟨first.elim id And.right, second.elim id And.right⟩
  · rw [known] at first
    rw [known'] at second
    rcases first with kept | ⟨refreshes, renewed⟩
    · rcases second with kept' | ⟨-, renewed'⟩
      · rw [kept, kept']
        exact .inr ⟨h, h', rfl, rfl, trails.mono item⟩
      · have here : Visited policy (before ++ [item]) base item.now :=
          ⟨item, List.mem_append_right _ (List.mem_singleton_self item), arrival, derived, rfl⟩
        obtain ⟨earlier, seen, date⟩ := trails.dated
        rw [kept, renewed', trails.same]
        exact .inr ⟨h, _, rfl, rfl, {
          same := rfl
          behind := date ▸ steady earlier seen
          caught := .inr here
          dated := (trails.mono item).dated }⟩
    · -- the un-binned key is not stale either
      have refreshes' : bare.Refreshes item.now base := by
        obtain ⟨accepted, published, again, found, fresh⟩ := refreshes
        obtain rfl := Option.some.inj (known.symm.trans found)
        refine ⟨accepted, by rw [abreast.shared]; exact published, h', known', fun old => fresh ?_⟩
        rw [abreast.shared] at old
        exact ⟨old.1, old.2.trans_le (Int.sub_le_sub_left trails.behind item.now)⟩
      rw [renewed, Book.attend_alone, Book.evidence_predict_refreshed refreshes', known', trails.same]
      exact .inr ⟨_, _, rfl, rfl, .refl rfl⟩

/-- Both runs attend to one item. -/
theorem Abreast.attend (foreign : ∀ other, bases other → keys.Own other → other = base)
    (steady : ∀ earlier ∈ before, earlier.now ≤ item.now) (awake : BookAwake policy before item binned) :
    Abreast policy bases (before ++ [item]) (binned.attend item.now (some keys) item.encounter)
      (bare.attend item.now (some ⟨base, none⟩) item.encounter) := by
  have alone : (⟨base, none⟩ : PredictorKeys).Usable := ⟨derivePredictorKey_usable derived, fun parent none => nomatch none⟩
  constructor
  · obtain ⟨history, after⟩ := binned.attend_rest item.now usable item.encounter
    obtain ⟨history', after'⟩ := bare.attend_rest item.now alone item.encounter
    rw [after, after', abreast.shared, Book.absorb_history]
  · intro other listed
    by_cases here : other = base
    · subst here
      by_cases arrival : item.encounter = .arrival
      · rw [arrival]
        exact abreast.arrived derived member usable own arrival steady
      · exact abreast.taught derived member usable own arrival awake
    · rw [Book.evidence_attend_other usable fun mine => here (foreign other listed mine),
        Book.evidence_attend_other alone fun mine => here (mine.resolve_right fun none => nomatch none)]
      exact (abreast.keys other listed).mono item

end Item

/-- What each item has to meet, on the states of the binned run: a label or an expired lease that
finds its parent stale comes when no message of the key has arrived since the parent was active. -/
def Awake (policy : PredictorKeyPolicy) (p : PerKeyPredictor platform) (before : List Traffic) (item : Traffic) : Prop :=
  item.encounter ≠ .arrival → ∀ base ∈ derivePredictorKey item.headers policy, ∀ entry ∈ (serveAll policy p before).find? base,
    (serveAll policy p before).stale entry item.now → ∀ visit ∈ before, visit.encounter = .arrival →
      derivePredictorKey visit.headers policy = some base → visit.now ≤ entry.lastActivity

/-- No message of the traffic has the bin of another one for its base key. -/
def Apart (platform : Platform) (policy : PredictorKeyPolicy) (stream : List Traffic) : Prop :=
  ∀ item ∈ stream, ∀ other ∈ stream,
    ∀ keys ∈ derivePredictorKeys (PerKeyPredictor platform) item.headers policy item.payloadSize, keys.parent.isSome →
      derivePredictorKey other.headers policy ≠ some keys.key

theorem bookAwake_of_awake {p : PerKeyPredictor platform} (awake : Awake policy p before item) :
    BookAwake policy before item (serveAll policy p before).book := by
  intro later base h derived known old time visited
  obtain ⟨entry, found, same⟩ : ∃ entry, (serveAll policy p before).find? base = some entry ∧
      (entry.history (serveAll policy p before).config).evidence = h := by
    have recorded : (((serveAll policy p before).find? base).map (Entry.history _)).map History.evidence = some h := known
    rw [Option.map_map, Option.map_eq_some_iff] at recorded
    exact recorded
  subst same
  obtain ⟨visit, member, arrival, mine, rfl⟩ := visited
  exact awake later base derived entry found old visit member arrival mine

theorem Abreast.start {config : PerKeyPredictorConfig} {layout : Layout} {p : PerKeyPredictor platform}
    (made : PerKeyPredictor.create platform config layout = .ok p) (policy : PredictorKeyPolicy) (bases : Bytes → Prop) :
    Abreast policy bases [] p.book p.book := by
  refine ⟨rfl, fun base _ => .inl ?_⟩
  simp only [PerKeyPredictor.create, bind_ok] at made
  obtain ⟨checked, _, made⟩ := made
  obtain rfl := Except.ok.inj made
  have absent : (((∅ : AList fun _ : Bytes => Entry).lookup base).map (Entry.history checked)).map
      History.evidence = none := by
    rw [AList.lookup_empty]
    rfl
  exact ⟨absent, absent⟩

theorem Abreast.next (abreast : Abreast policy bases before binned bare)
    (steady : ∀ earlier ∈ before, earlier.now ≤ item.now)
    (member : ∀ base, derivePredictorKey item.headers policy = some base → bases base)
    (apart : ∀ keys ∈ derivePredictorKeys (PerKeyPredictor platform) item.headers policy item.payloadSize,
      keys.parent.isSome → ¬bases keys.key)
    (awake : BookAwake policy before item binned) :
    Abreast policy bases (before ++ [item])
      (binned.attend item.now (derivePredictorKeys (PerKeyPredictor platform) item.headers policy item.payloadSize) item.encounter)
      (bare.attend item.now (derivePredictorKeys (PerKeyPredictor platform) item.headers policy.bare item.payloadSize)
        item.encounter) := by
  rw [derivePredictorKeys_bare]
  cases derived : derivePredictorKey item.headers policy with
  | none =>
    rw [derivePredictorKeys_none _ derived]
    have idle : ∀ b : Book platform, b.attend item.now none item.encounter = b := fun b => by cases item.encounter <;> rfl
    rw [Option.map_none, idle, idle]
    exact ⟨abreast.shared, fun base listed => (abreast.keys base listed).mono item⟩
  | some base =>
    rw [Option.map_some]
    have accepted := derivePredictorKey_usable derived
    rcases derivePredictorKeys_cases (PerKeyPredictor platform) derived item.payloadSize with alone | ⟨label, split, usable⟩
    · rw [alone]
      exact abreast.attend derived (member base derived) ⟨accepted, fun parent none => nomatch none⟩ (.inl rfl)
        (fun other _ mine => mine.resolve_right fun none => nomatch none) steady awake
    · rw [split]
      have shorter : base ≠ base ++ unitSeparator :: label := by simp
      refine abreast.attend derived (member base derived) ⟨usable, ?_⟩ (.inr rfl) ?_ steady awake
      · intro parent named
        obtain rfl := Option.some.inj named
        exact ⟨accepted, shorter⟩
      · rintro other listed (rfl | named)
        · exact absurd listed (apart _ split rfl)
        · exact (Option.some.inj named).symm

/-- If no label finds its parent stale after further arrivals, and no base key is a bin, then the
parent of a bin has the evidence of the un-binned key all along. -/
theorem parent_histogram {config : PerKeyPredictorConfig} {layout : Layout} {p : PerKeyPredictor platform}
    (made : PerKeyPredictor.create platform config layout = .ok p) (policy : PredictorKeyPolicy) {stream : List Traffic}
    (steady : stream.Pairwise fun earlier later => earlier.now ≤ later.now) (binned : Undisplaced policy p stream)
    (bare : Undisplaced policy.bare p stream) (apart : Apart platform policy stream) (awake : AlongStream stream (Awake policy p))
    (index : Nat) {item : Traffic} (listed : item ∈ stream) {base : Bytes}
    (derived : derivePredictorKey item.headers policy = some base) :
    ((serveAll policy p (stream.take index)).find? base).map Entry.histogram =
      ((serveAll policy.bare p (stream.take index)).find? base).map Entry.histogram := by
  let bases (base : Bytes) : Prop := ∃ item ∈ stream, derivePredictorKey item.headers policy = some base
  have abreast : Abreast policy bases (stream.take index) (serveAll policy p (stream.take index)).book
      (serveAll policy.bare p (stream.take index)).book := by
    refine along_induction (motive := fun before =>
      Abreast policy bases before (serveAll policy p before).book (serveAll policy.bare p before).book)
      (.start made policy bases) (fun index item here known => ?_) index
    have listed : item ∈ stream := List.mem_of_getElem? here
    rw [book_serveAll_succ binned here, book_serveAll_succ bare here, List.take_add_one, here]
    refine known.next ?_ (fun base derived => ⟨item, listed, derived⟩) ?_ (bookAwake_of_awake (awake index item here))
    · exact earlier_of_take steady here
    · rintro keys derived split ⟨other, member, same⟩
      exact apart item listed other member keys derived split same
  have view : ∀ q : PerKeyPredictor platform,
      (q.find? base).map Entry.histogram = (q.book.evidence base).map History.histogram := by
    intro q
    change _ = (((q.find? base).map _).map _).map _
    rw [Option.map_map, Option.map_map]
    rfl
  rw [view, view]
  rcases abreast.keys base ⟨item, listed, derived⟩ with ⟨absent, absent'⟩ | ⟨h, h', known, known', trails⟩
  · rw [absent, absent']
  · rw [known, known', trails.same]
    rfl

section Sample

instance (p : PerKeyPredictor platform) (before : List Traffic) (item : Traffic) : Decidable (Awake policy p before item) :=
  inferInstanceAs (Decidable (_ → ∀ base ∈ derivePredictorKey item.headers policy, _))

instance (stream : List Traffic) : Decidable (Apart platform policy stream) :=
  inferInstanceAs (Decidable (∀ item ∈ stream, ∀ other ∈ stream,
    ∀ keys ∈ derivePredictorKeys (PerKeyPredictor platform) item.headers policy item.payloadSize, _))

/-- The sample predictor without decay in time; a key is stale after half an hour. -/
def sampleUndecayed : PerKeyPredictor .plain :=
  { samplePredictor with config := { samplePredictorConfig with timeHalfLife := 0 } }

def samplePayloadBins : PredictorKeyPolicy := { sizeSource := .payload }

def sampleItem (seconds : Int) (encounter : Encounter) : Traffic where
  now := seconds * 1000000000
  headers := AList.insert (ascii "__producer_id") (ascii "producer-0") ∅
  payloadSize := 4
  encounter := encounter

/-- A label, an arrival after a while and its label, again after a while. -/
def sampleStream (arrival label : Int) : List Traffic :=
  [sampleItem 0 (.label 10), sampleItem arrival .arrival, sampleItem label (.label 10)]

theorem sampleUndecayed_created :
    PerKeyPredictor.create .plain sampleUndecayed.config sampleLayout = .ok sampleUndecayed := by
  have valid : validated sampleUndecayed.config = .ok sampleUndecayed.config := by decide +kernel
  rw [PerKeyPredictor.create, valid]
  rfl

/-- The warm bin answers at 1000 s, so at 2000 s the parent is stale and starts afresh, and the
un-binned key is not. -/
theorem stale_parent_restarts :
    PerKeyPredictor.create .plain sampleUndecayed.config sampleLayout = .ok sampleUndecayed ∧
      (sampleStream 1000 2000).Pairwise (fun earlier later => earlier.now ≤ later.now) ∧
      Undisplaced samplePayloadBins sampleUndecayed (sampleStream 1000 2000) ∧
      Undisplaced samplePayloadBins.bare sampleUndecayed (sampleStream 1000 2000) ∧
      ((serveAll samplePayloadBins sampleUndecayed (sampleStream 1000 2000)).find? (ascii "producer-0")).map Entry.histogram ≠
        ((serveAll samplePayloadBins.bare sampleUndecayed (sampleStream 1000 2000)).find? (ascii "producer-0")).map
          Entry.histogram := by
  refine ⟨sampleUndecayed_created, by decide +kernel, along_of_fin (by decide +kernel), along_of_fin (by decide +kernel),
    fun same => ?_⟩
  have counts := congrArg (Option.map DecayingHistogram.observations) same
  revert counts
  decide +kernel

theorem parent_histogram_awake :
    ((serveAll samplePayloadBins sampleUndecayed (sampleStream 1000 1500)).find? (ascii "producer-0")).map Entry.histogram =
      ((serveAll samplePayloadBins.bare sampleUndecayed (sampleStream 1000 1500)).find? (ascii "producer-0")).map
        Entry.histogram := by
  have steady : (sampleStream 1000 1500).Pairwise fun earlier later => earlier.now ≤ later.now := by decide +kernel
  have binned : Undisplaced samplePayloadBins sampleUndecayed (sampleStream 1000 1500) := along_of_fin (by decide +kernel)
  have bare : Undisplaced samplePayloadBins.bare sampleUndecayed (sampleStream 1000 1500) := along_of_fin (by decide +kernel)
  have apart : Apart .plain samplePayloadBins (sampleStream 1000 1500) := by decide +kernel
  have awake : AlongStream (sampleStream 1000 1500) (Awake samplePayloadBins sampleUndecayed) := along_of_fin (by decide +kernel)
  have listed : sampleItem 0 (.label 10) ∈ sampleStream 1000 1500 := List.mem_cons_self
  have derived : derivePredictorKey (sampleItem 0 (.label 10)).headers samplePayloadBins = some (ascii "producer-0") := by
    decide +kernel
  exact parent_histogram sampleUndecayed_created samplePayloadBins steady binned bare apart awake 3 listed derived

end Sample

end Harbinger
