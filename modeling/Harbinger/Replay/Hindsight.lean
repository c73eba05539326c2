import Harbinger.Replay.Run

/-! The replay sees nothing ahead of an ingress: its predictions up to a time are a function of the
ingresses of the run up to then and of the outcomes before. Runs do not see each other, and
within a run the events come in the order in which the dataset of the analysis yields them. -/

namespace Harbinger.Replay
open Ml

/-! ### The order -/

/-- Where an event stands in the replay. -/
def rank (event : ReplayEvent) : List Nat ×ₗ Int ×ₗ Bool ×ₗ Nat ×ₗ List Nat :=
  toLex (bytesOf event.run, toLex (event.time, toLex (!event.ingress, toLex (event.id.length, bytesOf event.id))))

theorem bytesOf_injective : Function.Injective bytesOf :=
  List.map_injective_iff.mpr fun _ _ same => UInt8.toNat_inj.mp same

theorem precedes_iff (a b : ReplayEvent) : precedes a b = true ↔ rank a < rank b := by
  simp only [rank, Prod.Lex.toLex_lt_toLex, precedes]
  by_cases run : a.run = b.run
  · by_cases time : a.time = b.time
    · by_cases ingress : a.ingress = b.ingress
      · by_cases size : a.id.length = b.id.length
        · simp [run, time, ingress, size]
        · simp [run, time, ingress, size]
      · cases first : a.ingress <;> cases second : b.ingress <;> simp_all
    · simp [run, time]
  · have different : bytesOf a.run ≠ bytesOf b.run := fun same => run (bytesOf_injective same)
    simp [run, different]

theorem rank_identity {a b : ReplayEvent} (same : rank a = rank b) : a.run = b.run ∧ a.id = b.id := by
  simp only [rank, toLex_inj, Prod.mk.injEq] at same
  exact ⟨bytesOf_injective same.1, bytesOf_injective same.2.2.2.2⟩

theorem sortEvents_perm (events : List ReplayEvent) : (sortEvents events).Perm events := List.mergeSort_perm ..

theorem sortEvents_sorted (events : List ReplayEvent) : (sortEvents events).Pairwise fun a b => rank a ≤ rank b := by
  have order : ∀ a b, (!precedes b a) = true ↔ rank a ≤ rank b := fun a b => by
    rw [Bool.not_eq_true', ← Bool.not_eq_true, precedes_iff, not_lt]
  have sorted : (sortEvents events).Pairwise fun a b => (!precedes b a) = true := List.pairwise_mergeSort
    (fun a b c => by simpa only [order] using le_trans) (fun a b => by simpa only [Bool.or_eq_true, order] using le_total _ _)
    events
  exact sorted.imp fun {a b} => (order a b).mp

/-- In a sorted list a downward closed part stands in front. -/
theorem filter_split {α β : Type} [Preorder β] {rank : α → β} {early : α → Bool}
    {list : List α} (closed : ∀ a ∈ list, ∀ b ∈ list, rank a ≤ rank b → early b = true → early a = true)
    (sorted : list.Pairwise fun a b => rank a ≤ rank b) :
    list = list.filter early ++ list.filter (fun a => !early a) := by
  induction list with
  | nil => rfl
  | cons head rest ih =>
    obtain ⟨first, later⟩ := List.pairwise_cons.mp sorted
    have still := fun a (member : a ∈ rest) b (other : b ∈ rest) =>
      closed a (List.mem_cons_of_mem _ member) b (List.mem_cons_of_mem _ other)
    cases here : early head with
    | true =>
      rw [List.filter_cons_of_pos here, List.filter_cons_of_neg (by simp [here]), List.cons_append, ← ih still later]
    | false =>
      have none_early : ∀ a ∈ head :: rest, ¬early a = true := by
        intro a member soon
        have before : early head = true := by
          rcases List.mem_cons.mp member with rfl | behind
          · exact soon
          · exact closed head (List.mem_cons_self ..) a member (first a behind) soon
        rw [here] at before
        cases before
      rw [List.filter_eq_nil_iff.mpr none_early, List.nil_append]
      symm
      exact List.filter_eq_self.mpr fun a member => by simpa using none_early a member

/-! ### One run -/

section Run
variable {platform : Platform} {settings : Settings} {fresh : PerKeyPredictor platform} {duplicates : Nat}

namespace Replaying

theorem run_advance (r : Replaying platform) (event : ReplayEvent) : (r.advance settings event).2.run = r.run := by
  unfold advance
  split
  · simp only [predict]
    split
    · rfl
    · split <;> rfl
  · unfold learn
    split <;> rfl

theorem mem_advance {r : Replaying platform} {event : ReplayEvent} {line : Prediction}
    (member : line ∈ (r.advance settings event).1) : event.ingress = true ∧ line.run = r.run ∧ line.arrivalNs = event.time := by
  unfold advance at member
  split at member
  next ingress =>
    obtain rfl := List.mem_singleton.mp member
    exact ⟨ingress, rfl, rfl⟩
  · cases member

/-- The predictions of one run. -/
def story (settings : Settings) : Replaying platform → List ReplayEvent → List Prediction
  | _, [] => []
  | r, event :: rest => (r.advance settings event).1 ++ story settings (r.advance settings event).2 rest

theorem story_append (r : Replaying platform) (first second : List ReplayEvent) : story settings r (first ++ second) =
    story settings r first ++ story settings (first.foldl (fun r event => (r.advance settings event).2) r) second := by
  induction first generalizing r with
  | nil => rfl
  | cons event rest ih => rw [List.cons_append, story, story, ih, List.append_assoc, List.foldl_cons]

theorem mem_story {r : Replaying platform} {events : List ReplayEvent} {line : Prediction}
    (member : line ∈ story settings r events) :
    line.run = r.run ∧ ∃ event ∈ events, event.ingress = true ∧ line.arrivalNs = event.time := by
  induction events generalizing r with
  | nil => cases member
  | cons event rest ih =>
    rw [story] at member
    rcases List.mem_append.mp member with here | later
    · obtain ⟨ingress, run, time⟩ := mem_advance here
      exact ⟨run, event, List.mem_cons_self .., ingress, time⟩
    · obtain ⟨run, found, among, ingress, time⟩ := ih later
      exact ⟨run.trans (run_advance r event), found, List.mem_cons_of_mem _ among, ingress, time⟩

end Replaying

open Replaying

theorem predictions_append (first second : List Output) :
    predictions (first ++ second) = predictions first ++ predictions second := List.filterMap_append

theorem predictions_close (current : Option (Replaying platform)) (run : Bytes) :
    predictions (close duplicates current run) = [] := by
  unfold close
  split
  · rfl
  · split <;> rfl

theorem predictions_cons (current : Option (Replaying platform)) (event : ReplayEvent) (rest : List ReplayEvent) :
    predictions (replayEvents settings fresh duplicates current (event :: rest)) =
      ((enter fresh current event.run).advance settings event).1 ++
        predictions (replayEvents settings fresh duplicates
          (some ((enter fresh current event.run).advance settings event).2) rest) := by
  have lines : ∀ list : List Prediction, predictions (list.map .prediction) = list := by
    intro list
    rw [predictions, List.filterMap_map]
    exact List.filterMap_some
  rw [replayEvents, predictions_append, predictions_append, predictions_close, lines, List.nil_append]

theorem run_enter (current : Option (Replaying platform)) (run : Bytes) : (enter fresh current run).run = run := by
  unfold enter
  split
  · rfl
  · split
    next same => exact same
    · rfl

/-- The lines of a run are those that its events have with a fresh predictor, or with the one that is in use. -/
theorem replayEvents_run (run : Bytes) {events : List ReplayEvent}
    (sorted : events.Pairwise fun a b => bytesOf a.run ≤ bytesOf b.run) :
    (∀ current : Option (Replaying platform), (∀ r ∈ current, r.run ≠ run) →
      (predictions (replayEvents settings fresh duplicates current events)).filter (·.run = run) =
        story settings { run, predictor := fresh } (events.filter (·.run = run))) ∧
    ∀ r : Replaying platform, r.run = run → (∀ event ∈ events, bytesOf run ≤ bytesOf event.run) →
      (predictions (replayEvents settings fresh duplicates (some r) events)).filter (·.run = run) =
        story settings r (events.filter (·.run = run)) := by
  induction events with
  | nil =>
    refine ⟨fun current _ => ?_, fun r _ _ => rfl⟩
    cases current <;> rfl
  | cons event rest ih =>
    obtain ⟨first, later⟩ := List.pairwise_cons.mp sorted
    obtain ⟨apart, inside⟩ := ih later
    -- What the first event prints is kept or dropped as a whole.
    have printed : ∀ r : Replaying platform, ((r.advance settings event).1.filter fun line => line.run = run) =
        if r.run = run then (r.advance settings event).1 else [] := by
      intro r
      split
      next same =>
        exact List.filter_eq_self.mpr fun line member => decide_eq_true ((mem_advance member).2.1.trans same)
      next other =>
        exact List.filter_eq_nil_iff.mpr fun line member same =>
          other ((mem_advance member).2.1.symm.trans (of_decide_eq_true same))
    by_cases own : event.run = run
    · have above : ∀ later ∈ rest, bytesOf run ≤ bytesOf later.run := own ▸ first
      have step : ∀ (current : Option (Replaying platform)) (r : Replaying platform), enter fresh current event.run = r →
          (predictions (replayEvents settings fresh duplicates current (event :: rest))).filter (·.run = run) =
            story settings r ((event :: rest).filter (·.run = run)) := by
        rintro current r rfl
        have entered : (enter fresh current event.run).run = run := (run_enter current event.run).trans own
        have kept : (event :: rest).filter (·.run = run) = event :: rest.filter (·.run = run) :=
          List.filter_cons_of_pos (by simpa using own)
        rw [predictions_cons, List.filter_append, printed, if_pos entered,
          inside _ ((run_advance _ event).trans entered) above, kept, story]
      refine ⟨fun current outside => step current _ ?_, fun r here _ => step (some r) r ?_⟩
      · cases current with
        | none => rw [enter, own]
        | some r => exact (if_neg (own ▸ outside r rfl)).trans (by rw [own])
      · exact if_pos (here.trans own.symm)
    · have step : ∀ current : Option (Replaying platform),
          (predictions (replayEvents settings fresh duplicates current (event :: rest))).filter (·.run = run) =
            story settings { run, predictor := fresh } (rest.filter (·.run = run)) := by
        intro current
        have entered : (enter fresh current event.run).run ≠ run := by rwa [run_enter]
        rw [predictions_cons, List.filter_append, printed, if_neg entered, List.nil_append]
        refine apart _ fun r found => ?_
        obtain rfl := Option.some.inj found
        rwa [run_advance]
      refine ⟨fun current _ => ?_, fun r here above => ?_⟩
      · rw [step, List.filter_cons_of_neg (by simpa using own)]
      · -- The run is over: nothing of it is left.
        have gone : ∀ later ∈ event :: rest, ¬(decide (later.run = run) = true) := by
          intro found member same
          rcases List.mem_cons.mp member with rfl | behind
          · exact own (of_decide_eq_true same)
          · have between := first found behind
            rw [of_decide_eq_true same] at between
            exact own (bytesOf_injective (le_antisymm between (above event (List.mem_cons_self ..))))
        rw [step, List.filter_eq_nil_iff.mpr gone,
          List.filter_eq_nil_iff.mpr fun found member => gone found (List.mem_cons_of_mem _ member)]
        rfl

/-- The events that a prediction up to the time `t` may depend on. -/
def early (t : Int) (event : ReplayEvent) : Bool := if event.ingress then event.time ≤ t else event.time < t

theorem early_closed {t : Int} {a b : ReplayEvent} (same : a.run = b.run) (order : rank a ≤ rank b) (soon : early t b = true) :
    early t a = true := by
  simp only [rank, Prod.Lex.toLex_le_toLex, same, lt_irrefl, true_and, false_or] at order
  have bound : b.time ≤ t := by
    unfold early at soon
    split at soon
    · exact of_decide_eq_true soon
    · exact (of_decide_eq_true soon).le
  unfold early
  rcases order with sooner | ⟨equal, later⟩
  · have before : a.time < t := sooner.trans_le bound
    split
    · exact decide_eq_true before.le
    · exact decide_eq_true before
  · rw [equal]
    cases first : a.ingress with
    | true => exact decide_eq_true bound
    | false =>
      -- At the same time an outcome comes after an ingress, so the other one is an outcome too.
      have outcome : b.ingress = false := by
        cases second : b.ingress with
        | false => rfl
        | true =>
          have backwards : true < false := by simpa [first, second] using later
          exact absurd backwards (by decide)
      rw [early, outcome] at soon
      exact soon

/-- The predictions of a run up to `t` are those of its early events. -/
theorem story_early (r : Replaying platform) {t : Int} {events : List ReplayEvent} {run : Bytes}
    (own : ∀ event ∈ events, event.run = run) (sorted : events.Pairwise fun a b => rank a ≤ rank b) :
    (story settings r events).filter (·.arrivalNs ≤ t) = story settings r (events.filter (early t)) := by
  have split : events = events.filter (early t) ++ events.filter (fun event => !early t event) :=
    filter_split (fun a member b other => early_closed ((own a member).trans (own b other).symm)) sorted
  have soon : ∀ line ∈ story settings r (events.filter (early t)), decide (line.arrivalNs ≤ t) = true := by
    intro line member
    obtain ⟨_, event, among, ingress, time⟩ := mem_story member
    have before := (List.mem_filter.mp among).2
    rw [early, if_pos ingress] at before
    exact time ▸ before
  have late : ∀ s : Replaying platform, ∀ line ∈ story settings s (events.filter fun event => !early t event),
      ¬decide (line.arrivalNs ≤ t) = true := by
    intro s line member
    obtain ⟨_, event, among, ingress, time⟩ := mem_story member
    have behind := (List.mem_filter.mp among).2
    rw [early, if_pos ingress] at behind
    rw [time]
    simpa using behind
  conv_lhs => rw [split]
  rw [story_append, List.filter_append, List.filter_eq_self.mpr soon, List.filter_eq_nil_iff.mpr (late _), List.append_nil]

end Run

/-! ### What is read of an export -/

section Export
variable (library : Library) (options : Options)

/-- The line is the row of the event. -/
def IsRow (line : Bytes) (event : ReplayEvent) : Prop :=
  line ≠ [] ∧ ∃ row, library.parse line = .ok row ∧ readEvent library.decimals options row = .ok event

def Tells (lines : List Bytes) (event : ReplayEvent) : Prop := ∃ line ∈ lines, IsRow library options line event

/-- Every line is the row of an event, the identities have no line break, and rows with the same
identity are repeats. -/
structure WellFormed (lines : List Bytes) : Prop where
  rows : ∀ line ∈ lines, line ≠ [] → ∃ event, IsRow library options line event
  printable : ∀ event, Tells library options lines event → (10 : UInt8) ∉ event.id
  repeats : ∀ line ∈ lines, ∀ line' ∈ lines, ∀ event event', IsRow library options line event →
    IsRow library options line' event' → event.run = event'.run → event.id = event'.id → line = line'

/-- What the lines read so far leave. -/
structure Faithful (done : List Bytes) (reading : Reading) : Prop where
  members : ∀ event, event ∈ reading.events ↔ Tells library options done event
  distinct : (reading.events.map fun event => (event.run, event.id)).Nodup
  seen : ∀ run id, 10 ∉ id → ∀ print, reading.seen (eventName run id) = some print ↔
    ∃ line ∈ done, ∃ event, IsRow library options line event ∧ event.run = run ∧ event.id = id ∧ library.hash line = print

variable {library options}

theorem IsRow.unique {line : Bytes} {event event' : ReplayEvent} (first : IsRow library options line event)
    (second : IsRow library options line event') : event = event' := by
  obtain ⟨_, row, parsed, read⟩ := first
  obtain ⟨_, row', parsed', read'⟩ := second
  obtain rfl := Except.ok.inj (parsed.symm.trans parsed')
  exact Except.ok.inj (read.symm.trans read')

theorem identityOf_read {decimals : Decimals} {row : Document} {event : ReplayEvent}
    (read : readEvent decimals options row = .ok event) : identityOf row = .ok (event.run, event.id) := by
  simp only [readEvent, bind_ok] at read
  obtain ⟨type, typed, _, known, run, ran, id, named, _, _, _, _, _, _, _, _, _, _, same⟩ := read
  obtain rfl := Except.ok.inj same
  simp only [identityOf, typed, known, ran, named, bind, Except.bind, pure, Except.pure]

theorem eventName_injective {run run' id id' : Bytes} (clean : (10 : UInt8) ∉ id) (clean' : (10 : UInt8) ∉ id')
    (same : eventName run id = eventName run' id') : run = run' ∧ id = id' := by
  obtain rfl := separated_suffix clean clean' same
  exact ⟨List.append_cancel_right same, rfl⟩

theorem Faithful.readLine {done : List Bytes} {reading : Reading} {line : Bytes} (faithful : Faithful library options done reading)
    (formed : WellFormed library options (done ++ [line])) :
    ∃ next, reading.readLine library options line = .ok next ∧ Faithful library options (done ++ [line]) next := by
  have told : ∀ event, Tells library options (done ++ [line]) event ↔
      Tells library options done event ∨ IsRow library options line event := by
    intro event
    simp only [Tells, List.mem_append, List.mem_singleton, or_and_right, exists_or, exists_eq_left]
  unfold Reading.readLine
  by_cases blank : line = []
  · have nothing : ∀ event, ¬IsRow library options line event := fun event row => row.1 blank
    refine ⟨reading, if_pos blank, fun event => ?_, faithful.distinct, fun run id clean print => ?_⟩
    · rw [told, faithful.members, or_iff_left (nothing event)]
    · rw [faithful.seen run id clean print]
      simp only [List.mem_append, List.mem_singleton, or_and_right, exists_or, exists_eq_left, nothing, false_and,
        exists_false, or_false]
  · have last : line ∈ done ++ [line] := List.mem_append_right _ (List.mem_singleton_self line)
    obtain ⟨event, row⟩ := formed.rows line last blank
    have clean := formed.printable event ⟨line, last, row⟩
    obtain ⟨_, document, parsed, read⟩ := row
    have row : IsRow library options line event := ⟨blank, document, parsed, read⟩
    rw [if_neg blank, parsed]
    simp only [bind, Except.bind, identityOf_read read]
    cases known : reading.seen (eventName event.run event.id) with
    | some print =>
      -- The row of a seen event is a repeat.
      obtain ⟨old, member, found, before, run, id, hashed⟩ := (faithful.seen _ _ clean print).mp known
      obtain rfl : old = line :=
        formed.repeats old (List.mem_append_left _ member) line last found event before row run id
      obtain rfl := before.unique row
      refine ⟨{ reading with duplicates := reading.duplicates + 1 }, ?_, fun other => ?_, faithful.distinct,
        fun run id clean print => ?_⟩
      · simp only [hashed, ne_eq, not_true_eq_false, if_false]
      · rw [told, faithful.members, or_iff_left_of_imp fun again => ⟨old, member, again⟩]
      · rw [faithful.seen run id clean print]
        constructor
        · rintro ⟨line, inside, rest⟩
          exact ⟨line, List.mem_append_left _ inside, rest⟩
        · rintro ⟨line, inside, rest⟩
          rcases List.mem_append.mp inside with earlier | here
          · exact ⟨line, earlier, rest⟩
          · exact ⟨old, member, (List.mem_singleton.mp here) ▸ rest⟩
    | none =>
      rw [read]
      refine ⟨_, rfl, fun other => ?_, ?_, fun run id clean' print => ?_⟩
      · rw [told, ← faithful.members, List.mem_append, List.mem_singleton]
        exact or_congr_right ⟨fun same => same ▸ row, fun again => again.unique row⟩
      · rw [List.map_append, List.map_singleton]
        refine List.nodup_append.mpr ⟨faithful.distinct, List.nodup_singleton _, ?_⟩
        intro first inside second here same
        obtain ⟨old, member, rfl⟩ := List.mem_map.mp inside
        rw [List.mem_singleton.mp here, Prod.mk.injEq] at same
        obtain ⟨line', before, row'⟩ := (faithful.members old).mp member
        have seen := (faithful.seen event.run event.id clean (library.hash line')).mpr
          ⟨line', before, old, row', same.1, same.2, rfl⟩
        rw [known] at seen
        cases seen
      · dsimp only
        by_cases own : eventName run id = eventName event.run event.id
        · obtain ⟨rfl, rfl⟩ := eventName_injective clean' clean own
          rw [Function.update_self, Option.some.injEq]
          constructor
          · intro same
            exact ⟨line, last, event, row, rfl, rfl, same⟩
          · rintro ⟨line', inside, other, row', run, id, hashed⟩
            rcases List.mem_append.mp inside with earlier | here
            · have seen := (faithful.seen event.run event.id clean print).mpr ⟨line', earlier, other, row', run, id, hashed⟩
              rw [known] at seen
              cases seen
            · rw [← hashed, List.mem_singleton.mp here]
        · rw [Function.update_of_ne own, faithful.seen run id clean' print]
          constructor
          · rintro ⟨line', inside, rest⟩
            exact ⟨line', List.mem_append_left _ inside, rest⟩
          · rintro ⟨line', inside, other, row', rfl, rfl, hashed⟩
            rcases List.mem_append.mp inside with earlier | here
            · exact ⟨line', earlier, other, row', rfl, rfl, hashed⟩
            · obtain rfl := List.mem_singleton.mp here
              exact absurd (by rw [row'.unique row]) own

theorem WellFormed.front {done rest : List Bytes} (formed : WellFormed library options (done ++ rest)) :
    WellFormed library options done where
  rows line member := formed.rows line (List.mem_append_left _ member)
  printable event told := by
    obtain ⟨line, member, row⟩ := told
    exact formed.printable event ⟨line, List.mem_append_left _ member, row⟩
  repeats line member line' member' :=
    formed.repeats line (List.mem_append_left _ member) line' (List.mem_append_left _ member')

theorem Faithful.read {done todo : List Bytes} {reading : Reading} (faithful : Faithful library options done reading)
    (formed : WellFormed library options (done ++ todo)) :
    ∃ last, todo.foldlM (Reading.readLine library options) reading = .ok last ∧
      Faithful library options (done ++ todo) last := by
  induction todo generalizing done reading with
  | nil => exact ⟨reading, rfl, by rwa [List.append_nil]⟩
  | cons line rest ih =>
    have regroup : done ++ line :: rest = done ++ [line] ++ rest := by rw [List.append_assoc, List.singleton_append]
    rw [regroup] at formed ⊢
    obtain ⟨next, here, still⟩ := faithful.readLine formed.front
    obtain ⟨last, later, whole⟩ := ih still formed
    refine ⟨last, ?_, whole⟩
    rw [List.foldlM_cons, here]
    exact later

theorem readExport_faithful {lines : List Bytes} (formed : WellFormed library options lines) :
    ∃ reading, readExport library options lines = .ok reading ∧ Faithful library options lines reading := by
  have start : Faithful library options [] {} := {
    members := fun event => by simp [Tells]
    distinct := List.nodup_nil
    seen := fun run id clean print => by simp }
  exact start.read formed

end Export

/-! ### The order of the dataset -/

/-- `length()` of SQLite: the characters before the first NUL. -/
def sqlLength (text : Bytes) : Nat := ((text.takeWhile (· ≠ 0)).filter fun c => c < 0x80 ∨ 0xc0 ≤ c).length

theorem sqlLength_ascii {text : Bytes} (plain : ∀ c ∈ text, 0 < c ∧ c < 0x80) : sqlLength text = text.length := by
  have whole : text.takeWhile (· ≠ 0) = text := List.takeWhile_eq_self_iff.mpr fun c member => by
    simpa using (UInt8.pos_iff_ne_zero.mp (plain c member).1)
  rw [sqlLength, whole, List.filter_eq_self.mpr fun c member => by simp [(plain c member).2]]

/-- The sort key of `TemporalDataset.events`. -/
def datasetKey (delay : Int) (event : ReplayEvent) : Int ×ₗ Bool ×ₗ Nat ×ₗ List Nat :=
  toLex (event.time + (if event.ingress then 0 else delay),
    toLex (!event.ingress, toLex (sqlLength event.id, bytesOf event.id)))

/-- `TemporalDataset.events`, up to the change of the times by the delay. -/
def datasetEvents (stored : List ReplayEvent) (run : Bytes) (delay : Int) : List ReplayEvent :=
  (stored.filter (·.run = run)).mergeSort fun a b => datasetKey delay a ≤ datasetKey delay b

theorem sorted_unique {first second : List ReplayEvent} (distinct : (first.map fun event => (event.run, event.id)).Nodup)
    (same : first.Perm second) (sorted : first.Pairwise fun a b => rank a ≤ rank b)
    (sorted' : second.Pairwise fun a b => rank a ≤ rank b) : first = second := by
  apply List.Perm.eq_of_pairwise _ sorted sorted' same
  intro a b member member' order order'
  obtain ⟨run, id⟩ := rank_identity (le_antisymm order order')
  exact List.inj_on_of_nodup_map distinct member (same.mem_iff.mpr member') (Prod.ext run id)

/-- The replay takes the events of a run in the order of the dataset. -/
theorem sortEvents_dataset {events : List ReplayEvent} (distinct : (events.map fun event => (event.run, event.id)).Nodup)
    (run : Bytes) (plain : ∀ event ∈ events, event.run = run → ∀ c ∈ event.id, 0 < c ∧ c < 0x80) :
    (sortEvents events).filter (·.run = run) = datasetEvents events run 0 := by
  have own : (datasetEvents events run 0).Perm (events.filter (·.run = run)) := List.mergeSort_perm ..
  have members : ∀ event ∈ datasetEvents events run 0, event ∈ events ∧ event.run = run := fun event member => by
    simpa using own.mem_iff.mp member
  have yielded : (datasetEvents events run 0).Pairwise fun a b => decide (datasetKey 0 a ≤ datasetKey 0 b) = true :=
    List.pairwise_mergeSort (fun a b c => by simpa only [decide_eq_true_eq] using le_trans)
      (fun a b => by simpa only [Bool.or_eq_true, decide_eq_true_eq] using le_total _ _) _
  have sorted : (datasetEvents events run 0).Pairwise fun a b => rank a ≤ rank b := by
    refine yielded.imp_of_mem fun {a b} inside inside' order => ?_
    obtain ⟨member, here⟩ := members a inside
    obtain ⟨member', here'⟩ := members b inside'
    have keyed := of_decide_eq_true order
    simp only [datasetKey, ite_self, add_zero, sqlLength_ascii (plain a member here),
      sqlLength_ascii (plain b member' here')] at keyed
    rw [rank, rank, Prod.Lex.toLex_le_toLex, here, here']
    exact .inr ⟨rfl, keyed⟩
  have nodup : (((sortEvents events).filter (·.run = run)).map fun event => (event.run, event.id)).Nodup :=
    (((sortEvents_perm events).map _).nodup_iff.mpr distinct).sublist (List.filter_sublist.map _)
  exact sorted_unique nodup (((sortEvents_perm events).filter _).trans own.symm)
    ((sortEvents_sorted events).sublist List.filter_sublist) sorted

section Theorems
variable {platform : Platform} {layout : Layout} {settings : Settings} {library : Library} {fresh : PerKeyPredictor platform}

/-- The lines of a run up to `t` are the story of its early events. -/
theorem replay_early (made : PerKeyPredictor.create platform settings.predictor layout = .ok fresh) {lines : List Bytes}
    (formed : WellFormed library settings.toOptions lines) (run : Bytes) (t : Int) : ∃ outputs events,
      replay library platform layout settings lines = .ok outputs ∧
      (predictions outputs).filter (fun line => line.run = run ∧ line.arrivalNs ≤ t) =
        Replaying.story settings { run, predictor := fresh } events ∧
      (events.map fun event => (event.run, event.id)).Nodup ∧ (events.Pairwise fun a b => rank a ≤ rank b) ∧
      ∀ event, event ∈ events ↔ Tells library settings.toOptions lines event ∧ event.run = run ∧ early t event = true := by
  obtain ⟨reading, read, faithful⟩ := readExport_faithful formed
  have sorted := sortEvents_sorted reading.events
  have runs : (sortEvents reading.events).Pairwise fun a b => bytesOf a.run ≤ bytesOf b.run := by
    refine sorted.imp fun {a b} order => ?_
    simp only [rank, Prod.Lex.toLex_le_toLex] at order
    exact order.elim le_of_lt fun equal => equal.1.le
  have blocks := sorted.sublist (List.filter_sublist (p := fun event => decide (event.run = run)))
  refine ⟨replayEvents settings fresh reading.duplicates none (sortEvents reading.events),
    ((sortEvents reading.events).filter (·.run = run)).filter (early t), ?_, ?_, ?_, blocks.sublist List.filter_sublist, ?_⟩
  · simp only [replay, made, read, bind, Except.bind, pure, Except.pure]
  · have both : (fun line : Prediction => decide (line.run = run ∧ line.arrivalNs ≤ t)) =
        fun line => decide (line.arrivalNs ≤ t) && decide (line.run = run) := by
      funext line
      rw [Bool.decide_and, Bool.and_comm]
    rw [both, ← List.filter_filter, (replayEvents_run run runs).1 none fun _ absurd => nomatch absurd]
    exact story_early _ (fun event member => of_decide_eq_true (List.mem_filter.mp member).2) blocks
  · have nodup := ((sortEvents_perm reading.events).map fun event => (event.run, event.id)).nodup_iff.mpr faithful.distinct
    exact nodup.sublist ((List.filter_sublist.trans List.filter_sublist).map _)
  · intro event
    simp only [List.mem_filter, (sortEvents_perm reading.events).mem_iff, faithful.members, decide_eq_true_eq, and_assoc]

/-- The replay has no hindsight: two well-formed exports that agree on the ingresses of a run up to
`t` and on its outcomes before `t` give the same lines for the ingresses of the run up to `t`.
And a run is replayed in the order in which the dataset yields it. -/
theorem replay_without_hindsight (made : PerKeyPredictor.create platform settings.predictor layout = .ok fresh)
    {lines : List Bytes} (formed : WellFormed library settings.toOptions lines) (run : Bytes) :
    (∀ lines', WellFormed library settings.toOptions lines' → ∀ t,
      (∀ event, event.run = run → early t event = true →
        (Tells library settings.toOptions lines event ↔ Tells library settings.toOptions lines' event)) →
      ∃ outputs outputs', replay library platform layout settings lines = .ok outputs ∧
        replay library platform layout settings lines' = .ok outputs' ∧
        (predictions outputs).filter (fun line => line.run = run ∧ line.arrivalNs ≤ t) =
          (predictions outputs').filter fun line => line.run = run ∧ line.arrivalNs ≤ t) ∧
    ∃ reading, readExport library settings.toOptions lines = .ok reading ∧
      ((∀ event, Tells library settings.toOptions lines event → event.run = run → ∀ c ∈ event.id, 0 < c ∧ c < 0x80) →
        (sortEvents reading.events).filter (·.run = run) = datasetEvents reading.events run 0) := by
  constructor
  · intro lines' formed' t agree
    obtain ⟨outputs, events, ran, told, distinct, sorted, members⟩ := replay_early made formed run t
    obtain ⟨outputs', events', ran', told', distinct', sorted', members'⟩ := replay_early made formed' run t
    have same : events.Perm events' := by
      refine (List.perm_ext_iff_of_nodup (.of_map _ distinct) (.of_map _ distinct')).mpr fun event => ?_
      rw [members, members']
      exact and_congr_left fun ⟨here, soon⟩ => agree event here soon
    exact ⟨outputs, outputs', ran, ran', by rw [told, told', sorted_unique distinct same sorted sorted']⟩
  · obtain ⟨reading, read, faithful⟩ := readExport_faithful formed
    exact ⟨reading, read, fun plain => sortEvents_dataset faithful.distinct run fun event member here =>
      plain event ((faithful.members event).mp member) here⟩

end Theorems

section Sample

/-- An ingress at time 1, or an outcome at the time of its number. -/
def sampleRow (n : UInt8) : Document := .object [
  (ascii "event_type", .string (ascii (if n = 1 then "ingress" else "outcome"))),
  (ascii "run", .string (ascii "r")), (ascii "event_id", .string [48 + n]), (ascii "broker_instance_id", .string []),
  (ascii "message_id", .string []), (ascii "split", .string (ascii "train")),
  (ascii "benchmark_time_ns", integerDocument n.toNat)]

def sampleEvent (n : UInt8) : ReplayEvent where
  run := ascii "r"
  id := [48 + n]
  ingress := n = 1
  time := n.toNat
  instanceId := []
  message := []
  split := ascii "train"
  trigger := []
  labelStatus := []
  deliveredAttempt := false
  durationMs := none
  key := []
  parent := none

/-- The line of a row is its number. -/
def sampleLibrary : Library where
  parse := fun
    | [n] => .ok (sampleRow n)
    | _ => .error "unexpected character"
  hash := List.length
  decimals := Platform.plain.decimals

theorem sample_isRow {n : UInt8} (known : n = 1 ∨ n = 2) {event : ReplayEvent} :
    IsRow sampleLibrary {} [n] event ↔ event = sampleEvent n := by
  have read : readEvent sampleLibrary.decimals {} (sampleRow n) = .ok (sampleEvent n) := by
    rcases known with rfl | rfl <;> decide +kernel
  constructor
  · rintro ⟨_, row, parsed, other⟩
    obtain rfl := Except.ok.inj parsed
    exact Except.ok.inj (other.symm.trans read)
  · rintro rfl
    exact ⟨by simp, sampleRow n, rfl, read⟩

theorem sample_wellFormed {lines : List Bytes} (known : ∀ line ∈ lines, line = [1] ∨ line = [2]) :
    WellFormed sampleLibrary {} lines := by
  have numbered : ∀ line ∈ lines, ∃ n, (n = 1 ∨ n = 2) ∧ line = [n] := fun line member =>
    (known line member).elim (fun same => ⟨1, .inl rfl, same⟩) fun same => ⟨2, .inr rfl, same⟩
  refine ⟨fun line member _ => ?_, ?_, ?_⟩
  · obtain ⟨n, small, rfl⟩ := numbered line member
    exact ⟨_, (sample_isRow small).mpr rfl⟩
  · rintro event ⟨line, member, row⟩
    obtain ⟨n, small, rfl⟩ := numbered line member
    obtain rfl := (sample_isRow small).mp row
    rcases small with rfl | rfl <;> decide
  · intro line member line' member' event event' row row' _ id
    obtain ⟨n, small, rfl⟩ := numbered line member
    obtain ⟨n', small', rfl⟩ := numbered line' member'
    obtain rfl := (sample_isRow small).mp row
    obtain rfl := (sample_isRow small').mp row'
    revert id
    rcases small with rfl | rfl <;> rcases small' with rfl | rfl <;> decide

def sampleSettings : Settings := { predictor := samplePredictorConfig }

/-- An ingress is predicted alike with and without a later outcome. -/
theorem replay_without_hindsight_outcome : ∃ outputs outputs',
    replay sampleLibrary .plain sampleLayout sampleSettings [[2], [1]] = .ok outputs ∧
    replay sampleLibrary .plain sampleLayout sampleSettings [[1]] = .ok outputs' ∧
    ((predictions outputs).filter fun line => line.run = ascii "r" ∧ line.arrivalNs ≤ 1) =
      (predictions outputs').filter fun line => line.run = ascii "r" ∧ line.arrivalNs ≤ 1 := by
  have made : PerKeyPredictor.create .plain sampleSettings.predictor sampleLayout = .ok samplePredictor := by
    have valid : validated samplePredictorConfig = .ok samplePredictorConfig := by decide +kernel
    rw [PerKeyPredictor.create, show sampleSettings.predictor = samplePredictorConfig from rfl, valid]
    rfl
  have formed : WellFormed sampleLibrary sampleSettings.toOptions [[2], [1]] := sample_wellFormed (by decide)
  refine (replay_without_hindsight made formed (ascii "r")).1 _
    (sample_wellFormed (by decide)) 1 ?_
  intro event _ soon
  have first : ∀ lines, (∀ line ∈ lines, line = [1] ∨ line = [2]) → [1] ∈ lines →
      (Tells sampleLibrary {} lines event ↔ event = sampleEvent 1) := by
    intro lines known present
    constructor
    · rintro ⟨line, member, row⟩
      rcases known line member with rfl | rfl
      · exact (sample_isRow (.inl rfl)).mp row
      · -- The outcome is not early.
        rw [(sample_isRow (.inr rfl)).mp row] at soon
        exact absurd soon (by decide)
    · rintro rfl
      exact ⟨[1], present, (sample_isRow (.inl rfl)).mpr rfl⟩
  exact (first _ (by decide) (by decide)).trans (first _ (by decide) (by decide)).symm

end Sample

end Harbinger.Replay
