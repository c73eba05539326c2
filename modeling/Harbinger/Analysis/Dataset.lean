import Harbinger.Broker.Telemetry

/-! The check that `TemporalDataset` makes on the exported events of each message. -/

namespace Harbinger.Analysis
open Ml Ledger

/-- `row[key] == value`, for a text. -/
def reads (row : Document) (key value : Bytes) : Bool := (row.get? key).bind Json.Value.string? = some value

def isIngress (row : Document) : Bool := reads row (ascii "event_type") (ascii "ingress")

def isTerminal (row : Document) : Bool :=
  reads row (ascii "outcome") (ascii "ack") || reads row (ascii "outcome") (ascii "dlq")

def sameRouting (first row : Document) : Bool :=
  match first.get? (ascii "routing"), row.get? (ascii "routing") with
  | some expected, some routing => Json.same routing expected
  | _, _ => false

/-- `int(r["attempt_id"])` where it is not null. -/
def attemptOf (row : Document) : Except String (Option Nat) :=
  match row.get? (ascii "attempt_id") with
  | some .null => .ok none
  | some (.string text) =>
    match ofDecimal text with
    | some attempt => .ok (some attempt)
    | none => .error "invalid literal for int()"
  | _ => .error "attempt_id"

/-- `_validate_groups` on the rows of one message: the bound, one ingress and one terminal row,
one routing context, and the attempts without a gap. -/
def validateGroup (rows : List Document) : Except String Unit := do
  let group := rows.take 103
  reject (102 < group.length) "unbounded attempts"
  match group.filter isIngress, group.filter isTerminal with
  | [first], [_] =>
    reject (∃ row ∈ group, !sameRouting first row) "immutable ingress context or partition changed"
    let attempts := (← group.mapM attemptOf).reduceOption.insertionSort (· ≤ ·)
    reject (attempts ≠ List.range' 1 attempts.length) "duplicate/gapped attempt outcomes"
  | _, _ => .error "missing/multiple ingress or terminal"

/-- The row is exported from the record of the event. -/
def Exports (decimals : Decimals) (lease : Millis) (event : FeedbackEvent) (row : Document) : Prop :=
  ∃ identity envelope record, feedbackRecord decimals event identity lease = some record ∧
    row = Replay.exportRow envelope record

/-- What the check sees of an exported row. -/
structure Sees (event : FeedbackEvent) (row : Document) : Prop where
  ingress : isIngress row = decide (event.trigger = .submit)
  terminal : isTerminal row = decide (event.outcome = some .ack ∨ event.outcome = some .dlq)
  attempt : attemptOf row = .ok event.attemptId
  routing : ∃ routing, event.routing = some routing ∧ row.get? (ascii "routing") = some routing.document

theorem Exports.sees {decimals : Decimals} {lease : Millis} {event : FeedbackEvent} {row : Document}
    (exported : Exports decimals lease event row) : Sees event row := by
  obtain ⟨identity, envelope, record, made, rfl⟩ := exported
  obtain ⟨routing, routed, exported⟩ := Replay.exportRow_eq made
  rw [exported]
  have fields := event.recorded identity lease routing envelope.members
  generalize Json.Value.object (event.members identity lease routing ++ envelope.members) = document at *
  constructor
  · rw [isIngress, reads, fields.eventType]
    by_cases submit : event.trigger = .submit
    · simp [submit, Json.Value.string?]
    · simp only [submit, ↓reduceIte, decide_false]
      decide
  · rw [isTerminal, reads, reads, fields.outcome]
    cases event.outcome with
    | none => decide
    | some outcome => cases outcome <;> decide
  · rw [attemptOf, fields.attemptId]
    cases event.attemptId with
    | none => rfl
    | some attempt => simp only [orNull, textDocument, ofDecimal_decimal]
  · exact ⟨routing, routed, fields.routed⟩

section Group
variable {context : Option RoutingContext} {attempts : List Nat} {written : List (FeedbackEvent × Document)}

theorem length_of_shaped {events : List FeedbackEvent} (shaped : ∀ event ∈ events, event.Shaped) : events.length =
    events.countP (fun event => event.trigger = .submit) + (events.filterMap FeedbackEvent.attemptId).length +
      events.countP (fun event => event.trigger = .pullExpiry ∨ event.trigger = .ttlSweep) := by
  induction events with
  | nil => rfl
  | cons event rest known =>
    have shape := (shaped event (List.mem_cons_self ..)).attempt
    have counted := known fun other member => shaped other (List.mem_cons_of_mem _ member)
    cases trigger : event.trigger <;> cases numbered : event.attemptId <;> simp_all <;> omega

theorem length_filter_rows {test : Document → Bool} {wanted : FeedbackEvent → Bool}
    (same : ∀ pair ∈ written, test pair.2 = wanted pair.1) :
    ((written.map Prod.snd).filter test).length = (written.map Prod.fst).countP wanted := by
  rw [← List.countP_eq_length_filter, List.countP_map, List.countP_map]
  exact List.countP_congr fun pair member => by simp [same pair member]

theorem mapM_attemptOf (sees : ∀ pair ∈ written, Sees pair.1 pair.2) :
    (written.map Prod.snd).mapM attemptOf = .ok ((written.map Prod.fst).map FeedbackEvent.attemptId) := by
  rw [List.mapM_map, List.map_map]
  exact mapM_ok fun pair member => (sees pair member).attempt

theorem sorted_attempts {numbers : List Nat} {count : Nat} (same : numbers.Perm (List.range' 1 count)) :
    numbers.insertionSort (· ≤ ·) = List.range' 1 count :=
  ((List.perm_insertionSort _ _).trans same).eq_of_pairwise
    (fun _ _ _ _ => le_antisymm) (List.pairwise_insertionSort _ _) (List.pairwise_le_range' ..)

theorem validateGroup_ok {count : Nat} (bound : count ≤ 100)
    (stream : Stream context (List.range' 1 count) (written.map Prod.fst))
    (sees : ∀ pair ∈ written, Sees pair.1 pair.2) : validateGroup (written.map Prod.snd) = .ok () := by
  have short : (written.map Prod.snd).length ≤ 102 := by
    have length := length_of_shaped stream.shaped
    rw [stream.ingress, stream.attempts.length_eq, List.length_range'] at length
    have queued := stream.queued
    rw [List.length_map] at length ⊢
    omega
  have ingress : ((written.map Prod.snd).filter isIngress).length = 1 :=
    (length_filter_rows fun pair member => (sees pair member).ingress).trans stream.ingress
  have terminal : ((written.map Prod.snd).filter isTerminal).length = 1 :=
    (length_filter_rows fun pair member => (sees pair member).terminal).trans stream.terminal
  obtain ⟨first, alone⟩ := List.length_eq_one_iff.mp ingress
  obtain ⟨last, ended⟩ := List.length_eq_one_iff.mp terminal
  have unchanged : ¬∃ row ∈ written.map Prod.snd, !sameRouting first row := by
    have routed : ∀ pair ∈ written, ∃ routing, context = some routing ∧
        pair.2.get? (ascii "routing") = some routing.document := by
      intro pair member
      obtain ⟨routing, same, found⟩ := (sees pair member).routing
      exact ⟨routing, (stream.routing _ (List.mem_map_of_mem member)).symm.trans same, found⟩
    have inside : first ∈ written.map Prod.snd :=
      List.mem_of_mem_filter (alone ▸ List.mem_singleton_self first)
    obtain ⟨opening, member, rfl⟩ := List.mem_map.mp inside
    obtain ⟨expected, given, here⟩ := routed opening member
    rintro ⟨row, other, different⟩
    obtain ⟨pair, known, rfl⟩ := List.mem_map.mp other
    obtain ⟨routing, same, there⟩ := routed pair known
    obtain rfl := Option.some.inj (given.symm.trans same)
    simp [sameRouting, here, there, Json.same_self] at different
  have numbered : ((written.map Prod.fst).map FeedbackEvent.attemptId).reduceOption.insertionSort (· ≤ ·) =
      List.range' 1 count := by
    rw [List.reduceOption, List.filterMap_map]
    exact sorted_attempts stream.attempts
  rw [validateGroup, List.take_of_length_le (by omega), alone, ended]
  simp only [bind_ok, reject_ok, mapM_attemptOf sees]
  refine ⟨(), by omega, (), unchanged, _, rfl, ?_⟩
  rw [numbered, List.length_range']
  exact fun different => different rfl

end Group

/-- The events about a message that has ended are one ingress, one outcome for each delivered
attempt and at most one expiry in the queue, with one context and one terminal outcome; so the
dataset accepts their rows in any order, for up to 100 attempts. -/
theorem feedback_stream_well_formed {σ : Type} [Inference σ] {cfg : HarbingerConfig} {s : System σ}
    (reachable : s.Reachable cfg) (enabled : cfg.feedback = true) {place : Place} {msg : Message}
    (member : (place, msg) ∈ s.whereabouts) (ended : place.final = true) (usable : Capturable msg.id) :
    Stream msg.routingContext (attempts s.history msg.id) (s.eventsOf msg.id) ∧
    (∃ count, attempts s.history msg.id = List.range' 1 count) ∧
    ∀ decimals lease (written : List (FeedbackEvent × Document)),
      (written.map Prod.fst).Perm (s.eventsOf msg.id) →
      (∀ pair ∈ written, Exports decimals lease pair.1 pair.2) →
      (attempts s.history msg.id).length ≤ 100 → validateGroup (written.map Prod.snd) = .ok () := by
  have stream := reachable.stream enabled member ended usable
  have numbered : attempts s.history msg.id = List.range' 1 msg.deliveryCount :=
    reachable.reached.lawful.conserved.attempted msg.frozen (System.mem_census member)
  refine ⟨stream, ⟨_, numbered⟩, fun decimals lease written same exported bound => ?_⟩
  rw [numbered, List.length_range'] at bound
  rw [numbered] at stream
  exact validateGroup_ok bound (stream.perm same) fun pair inside => (exported pair inside).sees

section Sample

def sampleCall (token : Bytes) (kind : Settlement) : Deliveries.Call := { sampleAck with token, kind }

/-- The first attempt fails and the second is acknowledged. -/
def sampleEnded : List Action :=
  sampleDelivered ++ [.settle (sampleCall (ascii "-0-1") .nack) 0 0 (sampleReadings 0), .close 0 0] ++ samplePull 0 ++
    [.settle (sampleCall (ascii "-0-2") .ack) 0 0 (sampleReadings 0), .close 0 0]

/-- The rows of the events in the order of their publication. -/
def sampleRows (events : List FeedbackEvent) : List (FeedbackEvent × Document) :=
  events.filterMap fun event => (feedbackRecord ⟨fun _ => none, fun _ => []⟩ event ⟨ascii "instance", 1⟩ 30000).map
    fun record => (event, Replay.exportRow ⟨ascii "run", ascii "train", 0⟩ record)

theorem feedback_stream_well_formed_retry : ∃ s : System (PerKeyPredictor .plain), s.Reachable sampleFeedback ∧
    attempts s.history (ascii "0-0") = [1, 2] ∧ (s.eventsOf (ascii "0-0")).length = 3 ∧
    validateGroup ((sampleRows (s.eventsOf (ascii "0-0"))).map Prod.snd) = .ok () := by
  have known : ((Transition.run (System.step sampleFeedback) sampleEnded
      (System.initial (sampleShadowBroker (some samplePredictor) none) 0)).bind fun s =>
        s.whereabouts.head?.map fun item => (item.1.final, item.2.id, attempts s.history (ascii "0-0"),
          (s.eventsOf (ascii "0-0")).length, decide ((sampleRows (s.eventsOf (ascii "0-0"))).map Prod.fst =
            s.eventsOf (ascii "0-0")))) = some (true, ascii "0-0", [1, 2], 3, true) := by decide +kernel
  obtain ⟨s, ran, known⟩ := Option.bind_eq_some_iff.mp known
  obtain ⟨⟨place, msg⟩, first, known⟩ := Option.map_eq_some_iff.mp known
  obtain ⟨ended, named, numbered, length, written⟩ := by simpa only [Prod.mk.injEq] using known
  have reachable := sampleFeedback_reachable ran
  obtain ⟨-, -, accepts⟩ := feedback_stream_well_formed reachable rfl (List.mem_of_mem_head? first) ended
    (named ▸ ⟨by decide, by decide⟩)
  rw [named, numbered] at accepts
  refine ⟨s, reachable, numbered, length, accepts ⟨fun _ => none, fun _ => []⟩ 30000 _
    (.of_eq (of_decide_eq_true written)) ?_ (by decide)⟩
  intro pair inside
  obtain ⟨event, _, made⟩ := List.mem_filterMap.mp inside
  obtain ⟨record, recorded, rfl⟩ := Option.map_eq_some_iff.mp made
  exact ⟨_, _, record, recorded, rfl⟩

end Sample

end Harbinger.Analysis
