import Harbinger.Broker.Learning

/-! The stream of feedback events against the history: every acceptance has its ingress event,
every settled attempt its outcome event, and every expiry in the queue has one as soon as the
message is in the DLQ. -/

namespace Harbinger
open Container Ledger Ml

/-- The attempt, the outcome and the reason that an outcome event names. -/
abbrev Told := Option Nat × FeedbackOutcome × Option DLQReason

namespace Ml.FeedbackEvent

/-- The outcome that an event reports. -/
def reports? (event : FeedbackEvent) : Option Told :=
  event.outcome.map fun outcome => (event.attemptId, outcome, event.dlqReason)

def told? (event : FeedbackEvent) : Option (Bytes × Told) := event.reports?.map (Prod.mk event.messageId)

/-- The context that an ingress event opens its message with. -/
def opens? (event : FeedbackEvent) : Option (Option RoutingContext) :=
  if event.trigger = .submit then some event.routing else none

def opened? (event : FeedbackEvent) : Option (Bytes × Option RoutingContext) :=
  event.opens?.map (Prod.mk event.messageId)

/-- The events that have an outcome are those after the submission, and the events of an
attempt are the settlements and the lease expiries. -/
structure Shaped (event : FeedbackEvent) : Prop where
  outcome : event.outcome = none ↔ event.trigger = .submit
  attempt : event.attemptId.isSome ↔ event.trigger = .settlement ∨ event.trigger = .leaseExpiry

end Ml.FeedbackEvent

/-- How an outcome of the history reads in an event. -/
def reported (outcome : Option Nat × Fate) : Told := (outcome.1, outcome.2.outcome, outcome.2.reason?)

/-- `capture_feedback` accepts the id of the message. -/
def Capturable (id : Bytes) : Prop := id ≠ [] ∧ id.length ≤ 128

theorem Broker.captureEvent_eq_none {cfg : HarbingerConfig} (enabled : cfg.feedback = true) {msg : Message}
    {trigger : FeedbackTrigger} {stamp : Stamp} (lost : captureEvent cfg msg trigger stamp = none) :
    ¬Capturable msg.id := by
  rintro ⟨nonempty, short⟩
  rw [captureEvent, if_pos enabled, captureFeedback, if_neg (by rintro (empty | long); exacts [nonempty empty, not_lt.mpr short long])]
    at lost
  cases lost

theorem Broker.finishEvent_eq_none {cfg : HarbingerConfig} {entry : InFlightEntry} {kind : Settlement}
    {measurement : Option Int} {r : FinishReadings} (lost : finishEvent cfg entry kind measurement r = none) :
    ∃ trigger, captureEvent cfg entry.message trigger r.stamp = none :=
  ⟨_, Option.map_eq_none_iff.mp (Option.map_eq_none_iff.mp lost)⟩

namespace System
variable {σ : Type}

/-- The condemned messages with this id, as they will be reported. -/
def awaited (id : Bytes) (hand : Multiset (Message × Time)) : Multiset Told :=
  (hand.filter fun item => item.1.id = id).map fun _ => reported (none, .deadLettered .ttlExpired)

structure Relayed (id : Bytes) (s : System σ) : Prop where
  opened : about id (s.emitted.filterMap FeedbackEvent.opened?) =
    about id ((accepted s.history).map fun msg => (msg.id, msg.routingContext))
  outcomes : (↑(about id (s.emitted.filterMap FeedbackEvent.told?)) : Multiset Told) +
      awaited id s.condemned = ↑((about id (tale s.history)).map reported)
  routing : ∀ event ∈ s.emitted, ∃ msg ∈ accepted s.history, msg.id = event.messageId ∧ msg.routingContext = event.routing
  shaped : ∀ event ∈ s.emitted, event.Shaped

section Emission
variable {α : Type} {id : Bytes} {f : FeedbackEvent → Option (Bytes × α)} {events : Option FeedbackEvent}

theorem about_emitted {named : Bytes} {item : α} (lost : events = none → named ≠ id)
    (told : ∀ event ∈ events, f event = some (named, item)) :
    about id (events.toList.filterMap f) = about id [(named, item)] := by
  cases events with
  | none => exact (about_other (lost rfl) item).symm
  | some event => simp [told event rfl]

theorem about_silent (told : ∀ event ∈ events, f event = none) : about id (events.toList.filterMap f) = [] := by
  cases events with
  | none => rfl
  | some event => simp [told event rfl]

end Emission

variable {id : Bytes} {s s' : System σ}

theorem Relayed.initial (b : Broker σ) (now : Time) : Relayed id (System.initial b now) :=
  ⟨rfl, rfl, fun _ member => (List.not_mem_nil member).elim, fun _ member => (List.not_mem_nil member).elim⟩

theorem Relayed.quiet (relayed : Relayed id s) (emitted : s'.emitted = s.emitted)
    (condemned : s'.condemned = s.condemned) (accepted' : accepted s'.history = accepted s.history)
    (told : tale s'.history = tale s.history) : Relayed id s' where
  opened := by rw [emitted, accepted', relayed.opened]
  outcomes := by rw [emitted, condemned, told, relayed.outcomes]
  routing := by rw [emitted, accepted']; exact relayed.routing
  shaped := by rw [emitted]; exact relayed.shaped

theorem tale_neutral {history events : List Event} (neutral : ∀ event ∈ events, event.told? = none) :
    tale (history ++ events) = tale history := by
  rw [tale_append, tale, tale, List.filterMap_eq_nil_iff.mpr neutral, List.append_nil]

theorem awaited_cons (item : Message × Time) (hand : Multiset (Message × Time)) : awaited id (item ::ₘ hand) =
    ↑((about id [(item.1.id, (none, .deadLettered .ttlExpired))]).map reported) + awaited id hand := by
  by_cases named : item.1.id = id
  · simp [awaited, about, named]
  · simp [awaited, about, named]

theorem awaited_add (hand more : Multiset (Message × Time)) :
    awaited id (hand + more) = awaited id hand + awaited id more := by
  simp only [awaited, Multiset.filter_add, Multiset.map_add]

theorem awaited_hand {occasion : Occasion} (queued : occasion = .sweep ∨ occasion = .selection) (reading : Time)
    (hand : List Message) : awaited id ↑(hand.map fun msg => (msg.frozen, reading)) =
      ↑((about id (tale (hand.map (judgeExpired occasion reading)))).map reported) := by
  induction hand with
  | nil => rfl
  | cons msg rest known =>
    have told : tale ((msg :: rest).map (judgeExpired occasion reading)) =
        [(msg.id, (none, .deadLettered .ttlExpired))] ++ tale (rest.map (judgeExpired occasion reading)) := by
      rcases queued with rfl | rfl <;> rfl
    rw [told, about_append, List.map_append, ← Multiset.coe_add, ← known, List.map_cons, ← Multiset.cons_coe,
      awaited_cons]
    rfl

theorem about_reported (named : Bytes) (outcome : Option Nat × Fate) :
    about id [(named, reported outcome)] = (about id [(named, outcome)]).map reported := by
  by_cases same : named = id
  · simp [about, same]
  · simp [about, same]

/-- A step that emits an outcome event, and what it says is the balance of the step. -/
theorem Relayed.emit (relayed : Relayed id s) (events : Option FeedbackEvent)
    (emitted : s'.emitted = s.emitted ++ events.toList) (accepted' : accepted s'.history = accepted s.history)
    (late : ∀ event ∈ events, event.Shaped ∧ event.trigger ≠ .submit)
    (routing : ∀ event ∈ events,
      ∃ msg ∈ accepted s.history, msg.id = event.messageId ∧ msg.routingContext = event.routing)
    (balance : ↑(about id (events.toList.filterMap FeedbackEvent.told?)) + awaited id s'.condemned +
      ↑((about id (tale s.history)).map reported) =
        awaited id s.condemned + ↑((about id (tale s'.history)).map reported)) : Relayed id s' := by
  constructor
  · have silent : about id (events.toList.filterMap FeedbackEvent.opened?) = [] :=
      about_silent fun event member => by
        rw [FeedbackEvent.opened?, FeedbackEvent.opens?, if_neg (late event member).2]
        rfl
    rw [emitted, List.filterMap_append, about_append, silent, List.append_nil, accepted', relayed.opened]
  · rw [emitted, List.filterMap_append, about_append, ← Multiset.coe_add]
    have before : ↑(about id (s.emitted.filterMap FeedbackEvent.told?)) + awaited id s.condemned =
        (↑((about id (tale s.history)).map reported) : Multiset Told) := relayed.outcomes
    change _ + awaited id s'.condemned = _
    rw [← before] at balance
    apply @add_left_cancel _ _ _ (awaited id s.condemned)
    rw [← balance]
    abel
  · rw [accepted']
    exact forall_emitted emitted relayed.routing routing
  · exact forall_emitted emitted relayed.shaped fun event member => (late event member).1

theorem source_of_census (lawful : Lawful s.ledger) {msg : Message} (member : msg ∈ s.ledger.census) :
    ∃ source ∈ accepted s.history, source.id = msg.id ∧ source.routingContext = msg.routingContext := by
  obtain ⟨source, known, same⟩ := lawful.conserved.origin member
  exact ⟨source, known, Message.id_eq_of_content same,
    show source.content.routingContext = msg.content.routingContext from congrArg Message.routingContext same⟩

variable {cfg : HarbingerConfig}

/-- An acceptance opens the message. -/
theorem Relayed.accept (relayed : Relayed id s) {msg : Message} {stamp : Stamp}
    (lost : Broker.captureEvent cfg msg .submit stamp = none → msg.id ≠ id)
    (history : s'.history = s.history ++ [.accepted msg.frozen])
    (emitted : s'.emitted = s.emitted ++ (Broker.captureEvent cfg msg .submit stamp).toList)
    (condemned : s'.condemned = s.condemned) : Relayed id s' := by
  have spec : ∀ event ∈ Broker.captureEvent cfg msg .submit stamp, event.trigger = .submit ∧ event.outcome = none ∧
      event.Shaped ∧ event.messageId = msg.id ∧ event.routing = msg.routingContext := by
    intro event taken
    obtain ⟨_, _, rfl⟩ := Broker.captureEvent_spec taken
    exact ⟨rfl, rfl, ⟨by simp, by simp⟩, rfl, rfl⟩
  have grown : accepted s'.history = accepted s.history ++ [msg.frozen] := by
    rw [history, accepted_append]
    rfl
  have told : tale s'.history = tale s.history := by
    rw [history, tale_append]
    exact List.append_nil _
  generalize Broker.captureEvent cfg msg .submit stamp = events at *
  constructor
  · have opening : about id (events.toList.filterMap FeedbackEvent.opened?) = about id [(msg.id, msg.routingContext)] := by
      refine about_emitted lost fun event taken => ?_
      obtain ⟨submit, _, _, named, routed⟩ := spec event taken
      rw [FeedbackEvent.opened?, FeedbackEvent.opens?, if_pos submit, named, routed]
      rfl
    rw [emitted, List.filterMap_append, about_append, opening, grown, List.map_append, about_append, relayed.opened]
    rfl
  · have silent : about id (events.toList.filterMap FeedbackEvent.told?) = [] :=
      about_silent fun event taken => by
        rw [FeedbackEvent.told?, FeedbackEvent.reports?, (spec event taken).2.1]
        rfl
    rw [emitted, List.filterMap_append, about_append, silent, List.append_nil, condemned, told, relayed.outcomes]
  · rw [grown]
    refine forall_emitted emitted (fun event member => ?_) fun event taken => ?_
    · obtain ⟨source, known, same⟩ := relayed.routing event member
      exact ⟨source, List.mem_append_left _ known, same⟩
    · obtain ⟨_, _, _, named, routed⟩ := spec event taken
      exact ⟨msg.frozen, List.mem_append_right _ (List.mem_singleton_self _), named.symm, routed.symm⟩
  · exact forall_emitted emitted relayed.shaped fun event taken => (spec event taken).2.2.1

/-- A burial reports what was awaited of the message. -/
theorem Relayed.bury (relayed : Relayed id s) (lawful : Lawful s.ledger) {msg : Message} {since : Time}
    {trigger : FeedbackTrigger} {stamp : Stamp} (queued : trigger = .ttlSweep ∨ trigger = .pullExpiry)
    (lost : Broker.expiryEvent cfg msg trigger stamp = none → msg.id ≠ id) (history : s'.history = s.history)
    (emitted : s'.emitted = s.emitted ++ (Broker.expiryEvent cfg msg trigger stamp).toList)
    (condemned : s.condemned = (msg.frozen, since) ::ₘ s'.condemned) : Relayed id s' := by
  have spec : ∀ event ∈ Broker.expiryEvent cfg msg trigger stamp,
      event.Shaped ∧ event.trigger ≠ .submit ∧ event.messageId = msg.id ∧
        event.routing = msg.routingContext ∧
        event.told? = some (msg.id, reported (none, .deadLettered .ttlExpired)) := by
    intro event member
    obtain ⟨plain, taken, rfl⟩ := Option.map_eq_some_iff.mp member
    obtain ⟨_, _, rfl⟩ := Broker.captureEvent_spec taken
    rcases queued with rfl | rfl <;>
      exact ⟨⟨by simp [Broker.deadLettered], by simp [Broker.deadLettered]⟩, by simp [Broker.deadLettered], rfl, rfl, rfl⟩
  have held : (msg.frozen, since) ∈ s.condemned := by
    rw [condemned]
    exact Multiset.mem_cons_self _ _
  have member := condemned_census held
  obtain ⟨source, known, named, routed⟩ := source_of_census lawful member
  generalize Broker.expiryEvent cfg msg trigger stamp = events at *
  refine relayed.emit events emitted (by rw [history]) ?_ ?_ ?_
  · exact fun event taken => ⟨(spec event taken).1, (spec event taken).2.1⟩
  · intro event taken
    obtain ⟨_, _, same, context, _⟩ := spec event taken
    exact ⟨source, known, named.trans same.symm, routed.trans context.symm⟩
  · rw [about_emitted lost fun event taken => (spec event taken).2.2.2.2, about_reported, condemned, awaited_cons,
      history]
    rfl

/-- A settlement reports its attempt. -/
theorem Relayed.settle (relayed : Relayed id s) (lawful : Lawful s.ledger) {attempt : Bytes} {entry : InFlightEntry}
    {kind : Settlement} {measurement : Option Int} {r : Broker.FinishReadings}
    (live : s.live.lookup attempt = some entry) (numbered : entry.attemptId = entry.message.deliveryCount)
    (lost : Broker.finishEvent cfg entry kind measurement r = none → entry.message.id ≠ id)
    (history : s'.history = s.history ++
      verdict entry.lease kind r.expiryAt (fate entry.message kind r.expiryAt))
    (emitted : s'.emitted = s.emitted ++ (Broker.finishEvent cfg entry kind measurement r).toList)
    (condemned : s'.condemned = s.condemned) : Relayed id s' := by
  have spec : ∀ event ∈ Broker.finishEvent cfg entry kind measurement r, Broker.Settles entry kind measurement
      (fate entry.message kind r.expiryAt) event := fun event taken => Broker.finishEvent_settles taken
  obtain ⟨source, known, named, routed⟩ := source_of_census lawful (live_census live)
  generalize Broker.finishEvent cfg entry kind measurement r = events at *
  have late : ∀ event ∈ events, event.Shaped ∧ event.trigger ≠ .submit := by
    intro event taken
    have settles := spec event taken
    refine ⟨⟨?_, ?_⟩, ?_⟩
    · rw [settles.outcome, settles.trigger]
      split <;> simp
    · rw [settles.attemptId, settles.trigger]
      split <;> simp
    · rw [settles.trigger]
      split <;> simp
  have told : ∀ event ∈ events, event.told? =
      some (entry.message.id, reported (some entry.message.deliveryCount, fate entry.message kind r.expiryAt)) := by
    intro event taken
    have settles := spec event taken
    rw [FeedbackEvent.told?, FeedbackEvent.reports?, settles.outcome, settles.messageId, settles.attemptId,
      settles.dlqReason, numbered]
    rfl
  refine relayed.emit events emitted ?_ ?_ ?_ ?_
  · rw [history, accepted_append, (verdict_reports ..).1, List.append_nil]
  · exact late
  · intro event taken
    have settles := spec event taken
    exact ⟨source, known, named.trans settles.messageId.symm, routed.trans settles.routing.symm⟩
  · have decided : tale (verdict entry.lease kind r.expiryAt (fate entry.message kind r.expiryAt)) =
        [(entry.message.id, some entry.message.deliveryCount, fate entry.message kind r.expiryAt)] := rfl
    rw [about_emitted lost told, about_reported, condemned, history, tale_append, decided, about_append,
      List.map_append, ← Multiset.coe_add]
    abel

variable [Inference σ] {action : Action}

theorem Relayed.step (enabled : cfg.feedback = true) (usable : Capturable id) (lawful : Lawful s.ledger)
    (relayed : Relayed id s) (report : Report cfg s action s') : Relayed id s' := by
  have lost : ∀ {msg : Message} {trigger : FeedbackTrigger} {stamp : Stamp},
      Broker.captureEvent cfg msg trigger stamp = none → msg.id ≠ id := by
    rintro msg trigger stamp none rfl
    exact Broker.captureEvent_eq_none enabled none usable
  cases report with
  | quiet steady events history neutral emitted condemned =>
    refine relayed.quiet emitted condemned ?_ ?_
    · rw [history, accepted_unchanged fun event member => (neutral event member).1]
    · rw [history, tale_neutral fun event member => (neutral event member).2]
  | submitted req idAt arrivalAt asked tasks predictor history emitted =>
    refine relayed.quiet emitted ?_ (by rw [history]) (by rw [history])
    rw [System.condemned, tasks, gather_append]
    exact add_zero _
  | routed msg found r tasks predictor history emitted condemned =>
    exact relayed.quiet emitted condemned (by rw [history]) (by rw [history])
  | learned update first second tasks predictor history emitted =>
    exact relayed.quiet emitted (by rw [System.condemned, tasks]; rfl) (by rw [history]) (by rw [history])
  | accepted steady msg found stamp stamped subject history emitted condemned =>
    exact relayed.accept lost history emitted condemned
  | judged steady occasion queued reading hand history emitted condemned =>
    refine relayed.emit none (emitted.trans (List.append_nil _).symm) ?_ (fun _ member => by cases member)
      (fun _ member => by cases member) ?_
    · rw [history, accepted_unchanged (by simp [judgeExpired, Event.accepted?])]
    · rw [condemned, awaited_add, awaited_hand queued, history, tale_append, about_append, List.map_append,
        ← Multiset.coe_add]
      simp only [Option.toList_none, List.filterMap_nil, about_nil, Multiset.coe_nil, zero_add]
      abel
  | buried steady msg since trigger queued stamp stamped subject history emitted condemned =>
    exact relayed.bury lawful queued (fun none => lost (Option.map_eq_none_iff.mp none)) history emitted condemned
  | settled steady attempt entry live numbered kind measurement asked r stamped subject history emitted condemned =>
    refine relayed.settle lawful live numbered (fun none => ?_) history emitted condemned
    obtain ⟨trigger, none⟩ := Broker.finishEvent_eq_none none
    exact lost none

theorem Reachable.relayed (reachable : s.Reachable cfg) (enabled : cfg.feedback = true) (usable : Capturable id) :
    Relayed id s := by
  have checked := reachable.checked
  obtain ⟨config, predictor, instanceToken, counter, b, now, actions, valid, made, ran⟩ := reachable
  refine (Transition.run_invariant (fun next => Reached cfg next ∧ Relayed id next) ?_
    ⟨Reached.initial made now, Relayed.initial b now⟩ ran).2
  intro middle action next ⟨known, relayed⟩ moved
  exact ⟨known.step checked moved, relayed.step enabled usable known.lawful (step_report known.sound moved)⟩

theorem Reachable.recited (reachable : s.Reachable cfg) : Recited s.ledger := by
  have checked := reachable.checked
  obtain ⟨config, predictor, instanceToken, counter, b, now, actions, valid, made, ran⟩ := reachable
  have initial := Reached.initial made now
  refine initial.lawful.recited_steps ?_ (initial.run_steps checked ran)
  rw [ledger_initial made]
  exact Recited.empty

end System

/-- The events of one message that has ended: one ingress event, one outcome for each of its
attempts, at most one expiry in the queue, and one outcome that ends it. -/
structure Stream (context : Option RoutingContext) (attempts : List Nat) (events : List FeedbackEvent) : Prop where
  ingress : events.countP (fun event => event.trigger = .submit) = 1
  attempts : (events.filterMap FeedbackEvent.attemptId).Perm attempts
  queued : events.countP (fun event => event.trigger = .pullExpiry ∨ event.trigger = .ttlSweep) ≤ 1
  terminal : events.countP (fun event => event.outcome = some .ack ∨ event.outcome = some .dlq) = 1
  shaped : ∀ event ∈ events, event.Shaped
  routing : ∀ event ∈ events, event.routing = context

section Counts
variable {context : Option RoutingContext} {attempts : List Nat} {events others : List FeedbackEvent}

theorem Stream.perm (stream : Stream context attempts events) (same : others.Perm events) :
    Stream context attempts others where
  ingress := (same.countP_eq _).trans stream.ingress
  attempts := (same.filterMap _).trans stream.attempts
  queued := (same.countP_eq _).trans_le stream.queued
  terminal := (same.countP_eq _).trans stream.terminal
  shaped := fun event member => stream.shaped event (same.mem_iff.mp member)
  routing := fun event member => stream.routing event (same.mem_iff.mp member)

theorem about_filterMap {α : Type} (id : Bytes) (g : FeedbackEvent → Option α) (events : List FeedbackEvent) :
    about id (events.filterMap fun event => (g event).map (Prod.mk event.messageId)) =
      (events.filter fun event => event.messageId = id).filterMap g := by
  induction events with
  | nil => rfl
  | cons event rest known =>
    rw [← List.singleton_append, List.filterMap_append, about_append, known, List.filter_append, List.filterMap_append]
    congr 1
    by_cases named : event.messageId = id <;> cases found : g event <;> simp [about, named, found]

theorem attempts_said (shaped : ∀ event ∈ events, event.Shaped) :
    events.filterMap FeedbackEvent.attemptId = (events.filterMap FeedbackEvent.reports?).filterMap Prod.fst := by
  rw [List.filterMap_filterMap]
  apply List.filterMap_congr
  intro event member
  cases outcome : event.outcome with
  | none =>
    have submit := (shaped event member).outcome.mp outcome
    have unowned : ¬event.attemptId.isSome := by
      rw [(shaped event member).attempt, submit]
      simp
    simp [FeedbackEvent.reports?, outcome, Option.not_isSome_iff_eq_none.mp unowned]
  | some outcome' => simp [FeedbackEvent.reports?, outcome]

theorem queued_said (shaped : ∀ event ∈ events, event.Shaped) :
    events.countP (fun event => event.trigger = .pullExpiry ∨ event.trigger = .ttlSweep) =
      (events.filterMap FeedbackEvent.reports?).countP fun told => told.1 = none := by
  rw [List.countP_filterMap]
  apply List.countP_congr
  intro event member
  have outcome := (shaped event member).outcome
  have attempt := (shaped event member).attempt
  cases trigger : event.trigger <;> cases said : event.outcome <;> cases numbered : event.attemptId <;>
    simp_all [FeedbackEvent.reports?]

theorem terminal_said (events : List FeedbackEvent) :
    events.countP (fun event => event.outcome = some .ack ∨ event.outcome = some .dlq) =
      (events.filterMap FeedbackEvent.reports?).countP fun told => told.2.1 = .ack ∨ told.2.1 = .dlq := by
  rw [List.countP_filterMap]
  apply List.countP_congr
  intro event _
  cases said : event.outcome <;> simp [FeedbackEvent.reports?, said]

theorem retries_attempts (count : Nat) : (retries count).filterMap Prod.fst = List.range' 1 count := by
  rw [retries, List.filterMap_map]
  exact List.filterMap_some

theorem countP_retries (count : Nat) {p : Told → Bool} (retried : ∀ attempt, p (some attempt, .retry, none) = false) :
    ((retries count).map reported).countP p = 0 := by
  rw [List.countP_eq_zero]
  intro told member
  simp only [retries, List.map_map, List.mem_map] at member
  obtain ⟨attempt, _, rfl⟩ := member
  exact Bool.eq_false_iff.mp (retried attempt)

end Counts

/-- The tale of an ended message as its events report it. -/
theorem Fits.counts {msg : Message} {outcomes : List (Option Nat × Fate)} (fits : Fits .ended msg outcomes) :
    outcomes.filterMap Prod.fst = List.range' 1 msg.deliveryCount ∧
      (outcomes.map reported).countP (fun told => told.1 = none) ≤ 1 ∧
      (outcomes.map reported).countP (fun told => told.2.1 = .ack ∨ told.2.1 = .dlq) = 1 := by
  rcases fits with rfl | ⟨positive, fate, final, rfl⟩
  · refine ⟨?_, ?_, ?_⟩
    · rw [List.filterMap_append, retries_attempts]
      exact List.append_nil _
    · rw [List.map_append, List.countP_append, countP_retries _ (by simp), zero_add]
      exact List.countP_le_length
    · rw [List.map_append, List.countP_append, countP_retries _ (by simp)]
      rfl
  · refine ⟨?_, ?_, ?_⟩
    · rw [List.filterMap_append, retries_attempts]
      obtain ⟨count, succ⟩ := Nat.exists_eq_succ_of_ne_zero positive.ne'
      rw [succ, List.range'_1_concat, Nat.add_comm 1 count]
      rfl
    · rw [List.map_append, List.countP_append, countP_retries _ (by simp), zero_add]
      exact List.countP_le_length
    · rw [List.map_append, List.countP_append, countP_retries _ (by simp)]
      cases fate with
      | acknowledged => rfl
      | deadLettered => rfl
      | _ => cases final

namespace System
variable {σ : Type} {s : System σ}

/-- The events about one message. -/
def eventsOf (s : System σ) (id : Bytes) : List FeedbackEvent := s.emitted.filter fun event => event.messageId = id

theorem about_distinct {α : Type} (f : Message → α) {list : List Message} (distinct : (list.map Message.id).Nodup)
    {source : Message} (member : source ∈ list) :
    about source.id (list.map fun msg => (msg.id, f msg)) = [f source] := by
  induction list with
  | nil => cases member
  | cons head rest known =>
    have apart := List.nodup_cons.mp distinct
    rw [List.map_cons, ← List.singleton_append, about_append]
    rcases List.mem_cons.mp member with rfl | later
    · have absent : about source.id (rest.map fun msg => (msg.id, f msg)) = [] := by
        simp only [about, List.map_eq_nil_iff, List.filter_eq_nil_iff, List.mem_map]
        rintro _ ⟨other, inside, rfl⟩ same
        exact apart.1 (List.mem_map.mpr ⟨other, inside, of_decide_eq_true same⟩)
      rw [about_here, absent]
      rfl
    · have different : head.id ≠ source.id := fun same => apart.1 (same ▸ List.mem_map_of_mem later)
      rw [about_other different, known apart.2 later]
      rfl

theorem ended_of_final {place : Place} {msg : Message} (member : (place, msg) ∈ s.whereabouts)
    (final : place.final = true) : (.ended, msg.frozen) ∈ s.ledger.stages := by
  simp only [stages, Multiset.mem_add]
  cases place with
  | deadLetter index =>
    obtain ⟨entry, found, rfl⟩ := mem_deadLetter.mp member
    exact Or.inl (Or.inr (Multiset.mem_map.mpr ⟨entry.frozen,
      Multiset.mem_coe.mpr (List.mem_map_of_mem (List.mem_of_getElem? found)), rfl⟩))
  | finished index =>
    exact Or.inr (Multiset.mem_map_of_mem _
      (Multiset.mem_coe.mpr (List.mem_map_of_mem (List.mem_of_getElem? (mem_finished.mp member)))))
  | level => cases final
  | hands => cases final
  | inFlight => cases final

theorem awaited_ended (lawful : Lawful s.ledger) {msg : Message} (ended : (.ended, msg) ∈ s.ledger.stages) :
    awaited msg.id s.condemned = 0 := by
  rw [awaited, Multiset.map_eq_zero, Multiset.filter_eq_nil]
  intro item held same
  have condemned : (.condemned, item.1) ∈ s.ledger.stages := by
    simp only [stages, Multiset.mem_add]
    exact Or.inl (Or.inl (Or.inl (Or.inr (Multiset.mem_map.mpr ⟨item, held, rfl⟩))))
  have both := Multiset.inj_on_of_nodup_map lawful.conserved.stages_nodup _ condemned _ ended same
  cases congrArg Prod.fst both

variable [Inference σ] {cfg : HarbingerConfig}

theorem Reachable.stream (reachable : s.Reachable cfg) (enabled : cfg.feedback = true) {place : Place} {msg : Message}
    (member : (place, msg) ∈ s.whereabouts) (final : place.final = true) (usable : Capturable msg.id) :
    Stream msg.routingContext (attempts s.history msg.id) (s.eventsOf msg.id) := by
  have lawful := reachable.reached.lawful
  have relayed := reachable.relayed enabled usable
  have ended := ended_of_final member final
  obtain ⟨source, known, named, routed⟩ := source_of_census lawful (mem_census member)
  have shaped : ∀ event ∈ s.eventsOf msg.id, event.Shaped := fun event inside =>
    relayed.shaped event (List.mem_of_mem_filter inside)
  have opened : (s.eventsOf msg.id).filterMap FeedbackEvent.opens? = [msg.routingContext] := by
    rw [eventsOf, ← about_filterMap]
    refine relayed.opened.trans ?_
    have distinct : ((accepted s.history).map Message.id).Nodup := lawful.conserved.distinct
    rw [show msg.id = source.id from named.symm, about_distinct _ distinct known, routed]
    rfl
  have told : ((s.eventsOf msg.id).filterMap FeedbackEvent.reports?).Perm
      ((about msg.id (tale s.history)).map reported) := by
    have outcomes := relayed.outcomes
    have none_left : awaited msg.frozen.id s.condemned = 0 := awaited_ended lawful ended
    change awaited msg.id s.condemned = 0 at none_left
    rw [none_left, add_zero] at outcomes
    rw [eventsOf, ← about_filterMap]
    exact Multiset.coe_eq_coe.mp outcomes
  obtain ⟨numbered, queued, terminal⟩ := Fits.counts (reachable.recited.fits _ ended)
  refine ⟨?_, ?_, ?_, ?_, shaped, ?_⟩
  · have length := congrArg List.length opened
    rw [List.length_filterMap_eq_countP] at length
    rw [← List.length_singleton, ← length]
    apply List.countP_congr
    intro event _
    by_cases submit : event.trigger = .submit <;> simp [FeedbackEvent.opens?, submit]
  · rw [attempts_said shaped]
    refine (told.filterMap _).trans (.of_eq ?_)
    calc ((about msg.id (tale s.history)).map reported).filterMap Prod.fst
        = (about msg.id (tale s.history)).filterMap Prod.fst := by rw [List.filterMap_map]; rfl
      _ = List.range' 1 msg.deliveryCount := numbered
      _ = attempts s.history msg.id := (lawful.conserved.attempted _ (mem_census member)).symm
  · rw [queued_said shaped, told.countP_eq]
    exact queued
  · rw [terminal_said, told.countP_eq]
    exact terminal
  · intro event inside
    obtain ⟨inside, about⟩ := List.mem_filter.mp inside
    obtain ⟨origin, present, same, context⟩ := relayed.routing event inside
    have identity : origin = source := List.inj_on_of_nodup_map lawful.conserved.distinct present known
      (same.trans ((of_decide_eq_true about).trans named.symm))
    rw [← context, identity]
    exact routed

end System

end Harbinger
