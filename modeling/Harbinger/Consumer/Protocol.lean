import Harbinger.Broker.Outcome
import Harbinger.Consumer.Worker

/-! The settlement protocol between consumers and the broker over an unreliable network. -/

namespace Harbinger
open Container Ledger Deliveries

namespace System
variable {σ : Type} [Ml.Inference σ] {cfg : HarbingerConfig} {s s' : System σ}

theorem step_keeps_settling {action : Action} (moved : s.step cfg action = some s') {call : Call}
    {entry : InFlightEntry} {kind : Settlement} {status : Status} {update : Option PredictorUpdate}
    (held : s.holder = some (.settling call entry kind status update)) :
    (∃ doneAt pruneAt, action = .close doneAt pruneAt) ∨ s'.holder = s.holder := by
  cases action with
  | close doneAt pruneAt => exact Or.inl ⟨doneAt, pruneAt, rfl⟩
  | settle other recordAt leaseAt r =>
    -- a refused request does not touch the lock; any other finds it taken
    simp only [step, held] at moved
    split at moved
    · rw [← Option.some.inj moved]
      exact Or.inr rfl
    · cases moved
  | install => simp [step, held] at moved
  | maintain => simp [step, held] at moved
  | reclaim => simp [step, held] at moved
  | closeReclaim => simp [step, held] at moved
  | endMaintain => simp [step, held] at moved
  | _ =>
    refine Or.inr ?_
    simp only [step] at moved
    (repeat' split at moved) <;> first
      | (cases moved; done)
      | (obtain rfl := Option.some.inj moved; rfl)

theorem settle_step_cases {call : Call} {recordAt leaseAt : Time} {r : Broker.FinishReadings}
    (moved : s.step cfg (.settle call recordAt leaseAt r) = some s') :
    (∃ status, s'.history = s.history ++ [.answered call status] ∧ s'.holder = s.holder ∧
      (status.code = .ok → status = .ok)) ∨
    ∃ entry kind status update, s'.holder = some (.settling call entry kind status update) ∧
      answers s'.history = answers s.history := by
  simp only [step] at moved
  split at moved
  next status refused =>
    rw [← Option.some.inj moved]
    exact Or.inl ⟨status, rfl, rfl, fun ok => absurd ok (s.broker.settleRefused_ne_ok refused)⟩
  · split at moved
    · rw [← Option.some.inj moved, settleFor]
      split
      next d status decided => exact Or.inl ⟨status, rfl, rfl, settleLocked_reply decided⟩
      next d entry kind reason measurement status decided =>
        refine Or.inr ⟨entry, kind, status, _, rfl, ?_⟩
        simp only [handOff, answers, List.filterMap_append]
        exact List.append_nil _
    · cases moved

theorem close_step {call : Call} {entry : InFlightEntry} {kind : Settlement} {status : Status}
    {update : Option PredictorUpdate} (held : s.holder = some (.settling call entry kind status update))
    {doneAt pruneAt : Time} (moved : s.step cfg (.close doneAt pruneAt) = some s') :
    s'.history = s.history ++ [.answered call status] := by
  simp only [step, held] at moved
  split at moved
  · rw [← Option.some.inj moved]
    rfl
  · cases moved

end System

namespace Cluster
variable {σ : Type} {cfg : HarbingerConfig} {s s' : Cluster σ}

/-- The broker is sound, the request being served is the one that holds the lock, every reply
is an answer of the broker to its request, and every consumer is faithful. -/
structure Sound (cfg : HarbingerConfig) (s : Cluster σ) : Prop where
  broker : Reached cfg s.system
  serving : ∀ rpc, s.serving = some rpc → ∃ call entry kind status update, s.requests[rpc]? = some call ∧
    s.system.holder = some (.settling call entry kind status update)
  replies : ∀ rpc status, (rpc, status) ∈ s.replies → ∃ call, s.requests[rpc]? = some call ∧
    .answered call status ∈ s.system.history ∧ (status.code = .ok → status = .ok)
  consumers : ∀ c ∈ s.consumers, c.Faithful s.system.history s.requests

namespace Sound

theorem system (sound : Sound cfg s) {system : System σ} (reached : Reached cfg system)
    (steps : Steps s.system.ledger system.ledger)
    (serving : ∀ rpc, s.serving = some rpc → system.holder = s.system.holder) : Sound cfg { s with system } := by
  have grown : s.system.history ⊆ system.history := steps.grows.2.2.subset
  refine ⟨reached, fun rpc held => ?_, fun rpc status member => ?_, fun c member => ?_⟩
  · rw [serving rpc held]
    exact sound.serving rpc held
  · obtain ⟨call, known, answered, ok⟩ := sound.replies rpc status member
    exact ⟨call, known, grown answered, ok⟩
  · exact (sound.consumers c member).mono grown (List.prefix_refl _)

theorem reply (sound : Sound cfg s) {rpc : Nat} {call : Call} {status : Status}
    (known : s.requests[rpc]? = some call) (answered : .answered call status ∈ s.system.history)
    (ok : status.code = .ok → status = .ok) :
    Sound cfg { s with replies := s.replies ++ [(rpc, status)] } :=
  { sound with
    replies := fun other reply member => by
      rcases List.mem_append.mp member with old | new
      · exact sound.replies other reply old
      · obtain ⟨rfl, rfl⟩ := Prod.mk.inj (List.mem_singleton.mp new)
        exact ⟨call, known, answered, ok⟩ }

theorem consumer (sound : Sound cfg s) {position : Nat} {change : Consumer → Option Consumer}
    (moved : s.withConsumer position change = some s')
    (kept : ∀ c next, c ∈ s.consumers → change c = some next → next.Faithful s.system.history s.requests) :
    Sound cfg s' := by
  obtain ⟨c, found, rest⟩ := Option.bind_eq_some_iff.mp moved
  obtain ⟨next, changed, same⟩ := Option.bind_eq_some_iff.mp rest
  obtain rfl := Option.some.inj same
  exact { sound with
    consumers := fun other member => by
      rcases List.mem_or_eq_of_mem_set member with old | rfl
      · exact sound.consumers other old
      · exact kept c other (List.mem_of_getElem? found) changed }

/-- One consumer sends a request. -/
theorem send (sound : Sound cfg s) {position : Nat} {change : Consumer → Option (Consumer × Call)}
    (moved : s.send position change = some s')
    (kept : ∀ c next call, c ∈ s.consumers → change c = some (next, call) →
      next.Faithful s.system.history (s.requests ++ [call])) : Sound cfg s' := by
  obtain ⟨c, found, rest⟩ := Option.bind_eq_some_iff.mp moved
  obtain ⟨⟨next, call⟩, changed, same⟩ := Option.bind_eq_some_iff.mp rest
  obtain rfl := Option.some.inj same
  have older : ∀ {rpc : Nat} {other : Call}, s.requests[rpc]? = some other →
      (s.requests ++ [call])[rpc]? = some other := fun known => by
    rw [List.getElem?_append_left (List.getElem?_eq_some_iff.mp known).1, known]
  refine ⟨sound.broker, fun rpc held => ?_, fun rpc status member => ?_, fun other member => ?_⟩
  · obtain ⟨other, entry, kind, status, update, known, holder⟩ := sound.serving rpc held
    exact ⟨other, entry, kind, status, update, older known, holder⟩
  · obtain ⟨other, known, answered⟩ := sound.replies rpc status member
    exact ⟨other, older known, answered⟩
  · rcases List.mem_or_eq_of_mem_set member with old | rfl
    · exact (sound.consumers other old).mono (List.Subset.refl _) (List.prefix_append _ _)
    · exact kept c other call (List.mem_of_getElem? found) changed

end Sound

theorem answerSince_append {before after : System σ} {call : Call} {status : Status}
    (history : after.history = before.history ++ [.answered call status]) : answerSince before after = some status := by
  have more : answers after.history = answers before.history ++ [(call, status)] := by
    rw [history, answers, List.filterMap_append]
    rfl
  rw [answerSince, more, List.drop_left]
  rfl

theorem answerSince_same {before after : System σ} (same : answers after.history = answers before.history) :
    answerSince before after = none := by
  rw [answerSince, same, List.drop_length]
  rfl

theorem set_countsOnce {consumers : List Consumer} {position index : Nat} {old new c next : Consumer}
    (found : consumers[position]? = some old) (counted : old.CountsOnce new) (before : consumers[index]? = some c)
    (after : (consumers.set position new)[index]? = some next) : c.CountsOnce next := by
  by_cases same : position = index
  · subst same
    rw [List.getElem?_set_self (List.getElem?_eq_some_iff.mp found).1] at after
    rwa [← Option.some.inj (found.symm.trans before), ← Option.some.inj after]
  · rw [List.getElem?_set_ne same, before] at after
    rw [Option.some.inj after]
    exact Or.inl rfl

theorem withConsumer_countsOnce {position : Nat} {change : Consumer → Option Consumer}
    (moved : s.withConsumer position change = some s')
    (counted : ∀ c next, change c = some next → c.CountsOnce next) {index : Nat} {c next : Consumer}
    (before : s.consumers[index]? = some c) (after : s'.consumers[index]? = some next) : c.CountsOnce next := by
  obtain ⟨old, found, rest⟩ := Option.bind_eq_some_iff.mp moved
  obtain ⟨new, changed, same⟩ := Option.bind_eq_some_iff.mp rest
  obtain rfl := Option.some.inj same
  exact set_countsOnce found (counted old new changed) before after

theorem send_countsOnce {position : Nat} {change : Consumer → Option (Consumer × Call)}
    (moved : s.send position change = some s')
    (counted : ∀ c next call, change c = some (next, call) → next.invocations = c.invocations) {index : Nat}
    {c next : Consumer} (before : s.consumers[index]? = some c) (after : s'.consumers[index]? = some next) :
    c.CountsOnce next := by
  obtain ⟨old, found, rest⟩ := Option.bind_eq_some_iff.mp moved
  obtain ⟨⟨new, call⟩, changed, same⟩ := Option.bind_eq_some_iff.mp rest
  obtain rfl := Option.some.inj same
  exact set_countsOnce found (Or.inl (counted old new call changed)) before after

section Steps
variable [Ml.Inference σ]

theorem broker_cases {action : Action} (moved : s.step cfg (.broker action) = some s') :
    ∃ system, s.system.step cfg action = some system ∧
      ((∃ rpc doneAt pruneAt, s.serving = some rpc ∧ action = .close doneAt pruneAt ∧ s' = { s with
          system
          serving := none
          replies := s.replies ++ ((answerSince s.system system).map (rpc, ·)).toList }) ∨
        (∀ doneAt pruneAt, s.serving.isSome → action ≠ .close doneAt pruneAt) ∧ s' = { s with system }) := by
  obtain ⟨system, stepped, rest⟩ := Option.bind_eq_some_iff.mp moved
  refine ⟨system, stepped, ?_⟩
  split at rest
  next rpc doneAt pruneAt serving =>
    exact Or.inl ⟨rpc, doneAt, pruneAt, serving, rfl, (Option.some.inj rest).symm⟩
  next other =>
    refine Or.inr ⟨fun doneAt pruneAt serving same => ?_, (Option.some.inj rest).symm⟩
    obtain ⟨rpc, held⟩ := Option.isSome_iff_exists.mp serving
    exact other rpc doneAt pruneAt held same

theorem serve_cases {rpc : Nat} {recordAt leaseAt : Time} {r : Broker.FinishReadings}
    (moved : s.step cfg (.serve rpc recordAt leaseAt r) = some s') :
    ∃ call system, s.requests[rpc]? = some call ∧ s.system.step cfg (.settle call recordAt leaseAt r) = some system ∧
      s' = match answerSince s.system system with
        | some status => { s with system, replies := s.replies ++ [(rpc, status)] }
        | none => { s with system, serving := some rpc } := by
  obtain ⟨call, known, rest⟩ := Option.bind_eq_some_iff.mp moved
  obtain ⟨system, stepped, rest⟩ := Option.bind_eq_some_iff.mp rest
  refine ⟨call, system, known, stepped, ?_⟩
  cases answered : answerSince s.system system with
  | some status =>
    rw [answered] at rest
    exact (Option.some.inj rest).symm
  | none =>
    rw [answered] at rest
    exact (Option.some.inj rest).symm

theorem Sound.broker_step (checked : cfg.Checked) (sound : Sound cfg s) {action : Action}
    (moved : s.step cfg (.broker action) = some s') : Sound cfg s' := by
  obtain ⟨system, stepped, changed⟩ := broker_cases moved
  have reached : Reached cfg system := sound.broker.step checked stepped
  have steps := (System.step_refines checked sound.broker.sound sound.broker.lawful stepped).steps
  rcases changed with ⟨rpc, doneAt, pruneAt, serving, rfl, rfl⟩ | ⟨other, rfl⟩
  · obtain ⟨call, entry, kind, status, update, known, held⟩ := sound.serving rpc serving
    have history := System.close_step held stepped
    have free : Sound cfg { s with serving := none } := { sound with serving := nofun }
    have advanced : Sound cfg { s with system, serving := none } := free.system reached steps nofun
    rw [answerSince_append history]
    refine advanced.reply known ?_ fun ok => ((sound.broker.sound.holding _ held).2.2.2.2 ok).1
    change _ ∈ system.history
    rw [history]
    exact List.mem_append_right _ (List.mem_singleton_self _)
  · refine sound.system reached steps fun rpc serving => ?_
    obtain ⟨call, entry, kind, status, update, known, held⟩ := sound.serving rpc serving
    rcases System.step_keeps_settling stepped held with ⟨doneAt, pruneAt, same⟩ | kept
    · exact absurd same (other doneAt pruneAt (Option.isSome_of_eq_some serving))
    · exact kept

theorem Sound.serve_step (checked : cfg.Checked) (sound : Sound cfg s) {rpc : Nat} {recordAt leaseAt : Time}
    {r : Broker.FinishReadings} (moved : s.step cfg (.serve rpc recordAt leaseAt r) = some s') : Sound cfg s' := by
  obtain ⟨call, system, known, stepped, rfl⟩ := serve_cases moved
  have reached : Reached cfg system := sound.broker.step checked stepped
  have steps := (System.step_refines checked sound.broker.sound sound.broker.lawful stepped).steps
  rcases System.settle_step_cases stepped with ⟨status, history, holder, ok⟩ | ⟨entry, kind, status, update, held, same⟩
  · rw [answerSince_append history]
    refine (sound.system reached steps fun _ _ => holder).reply known ?_ ok
    change _ ∈ system.history
    rw [history]
    exact List.mem_append_right _ (List.mem_singleton_self _)
  · rw [answerSince_same same]
    have free : Sound cfg { s with serving := none } := { sound with serving := nofun }
    have advanced : Sound cfg { s with system, serving := none } := free.system reached steps nofun
    exact { advanced with
      serving := fun other serving => by
        obtain rfl := Option.some.inj serving
        exact ⟨call, entry, kind, status, update, known, held⟩ }

/-- Every move keeps the cluster sound. -/
theorem Sound.step (checked : cfg.Checked) (sound : Sound cfg s) {move : Move}
    (moved : s.step cfg move = some s') : Sound cfg s' := by
  cases move with
  | broker action => exact sound.broker_step checked moved
  | serve rpc recordAt leaseAt r => exact sound.serve_step checked moved
  | connect =>
    obtain rfl := Option.some.inj moved
    have stepped : s.system.step cfg .registerConsumer =
      some { s.system with broker := s.system.broker.registerConsumer } := rfl
    have steps := (System.step_refines checked sound.broker.sound sound.broker.lawful stepped).steps
    have advanced := sound.system (sound.broker.step checked stepped) steps fun _ _ => rfl
    exact { advanced with
      consumers := List.forall_mem_append.mpr ⟨advanced.consumers, List.forall_mem_singleton.mpr (.fresh _)⟩ }
  | start consumer => exact sound.consumer moved fun c next member changed => (sound.consumers c member).start changed
  | stop consumer =>
    refine sound.consumer moved fun c next member changed => ?_
    rw [← Option.some.inj changed]
    exact (sound.consumers c member).stop
  | poll consumer => exact sound.consumer moved fun c next member changed => (sound.consumers c member).poll changed
  | pullFails consumer status =>
    exact sound.consumer moved fun c next member changed => (sound.consumers c member).pullFails changed
  | pullTimesOut consumer =>
    exact sound.consumer moved fun c next member changed => (sound.consumers c member).pullTimesOut changed
  | receive consumer position =>
    refine sound.consumer moved fun c next member changed => ?_
    split at changed
    next owner token msg found =>
      obtain ⟨rfl, received⟩ := Option.ite_none_right_eq_some.mp changed
      exact (sound.consumers c member).receive (List.mem_of_getElem? found) received
    · cases changed
  | handled consumer result processingMs =>
    exact sound.send moved fun c next call member changed => (sound.consumers c member).handled changed
  | replied consumer status =>
    refine sound.consumer moved fun c next member changed => ?_
    split at changed
    next call attempt rpc settling =>
      obtain ⟨reply, changed⟩ := Option.ite_none_right_eq_some.mp changed
      rw [← Option.some.inj changed]
      refine (sound.consumers c member).returned settling fun ok => ?_
      obtain ⟨sent, known, answered, plain⟩ := sound.replies rpc status reply
      have backed := (sound.consumers c member).phase
      rw [settling] at backed
      obtain rfl : sent = call := Option.some.inj (known.symm.trans backed.2.2)
      rw [plain ok] at answered
      exact sound.broker.lawful.final.grounded sent answered
    · cases changed
  | callFails consumer status =>
    refine sound.consumer moved fun c next member changed => ?_
    split at changed
    next call attempt rpc settling =>
      obtain ⟨failed, changed⟩ := Option.ite_none_left_eq_some.mp changed
      rw [← Option.some.inj changed]
      exact (sound.consumers c member).returned settling fun ok => absurd ok failed
    · cases changed
  | resend consumer =>
    exact sound.send moved fun c next call member changed => (sound.consumers c member).resend changed

theorem step_countsOnce {move : Move} (moved : s.step cfg move = some s') {index : Nat} {c next : Consumer}
    (before : s.consumers[index]? = some c) (after : s'.consumers[index]? = some next) : c.CountsOnce next := by
  have unchanged : s'.consumers[index]? = s.consumers[index]? → c.CountsOnce next := fun same => by
    rw [after, before] at same
    rw [Option.some.inj same]
    exact Or.inl rfl
  cases move with
  | broker action =>
    obtain ⟨system, _, ⟨_, _, _, _, _, rfl⟩ | ⟨_, rfl⟩⟩ := broker_cases moved
    · exact unchanged rfl
    · exact unchanged rfl
  | serve rpc recordAt leaseAt r =>
    obtain ⟨call, system, _, _, rfl⟩ := serve_cases moved
    split at unchanged <;> exact unchanged rfl
  | connect =>
    obtain rfl := Option.some.inj moved
    exact unchanged (List.getElem?_append_left (List.getElem?_eq_some_iff.mp before).1)
  | start consumer =>
    refine withConsumer_countsOnce moved (fun c next changed => Or.inl ?_) before after
    unfold Consumer.start at changed
    split at changed <;> cases changed
    rfl
  | stop consumer =>
    refine withConsumer_countsOnce moved (fun c next changed => Or.inl ?_) before after
    cases changed
    rfl
  | poll consumer =>
    refine withConsumer_countsOnce moved (fun c next changed => Or.inl ?_) before after
    unfold Consumer.poll at changed
    split at changed <;> cases changed
    rfl
  | pullFails consumer status =>
    refine withConsumer_countsOnce moved (fun c next changed => Or.inl ?_) before after
    unfold Consumer.pullFails at changed
    (repeat' split at changed) <;> cases changed <;> rfl
  | pullTimesOut consumer =>
    refine withConsumer_countsOnce moved (fun c next changed => Or.inl ?_) before after
    unfold Consumer.pullTimesOut at changed
    split at changed <;> cases changed
    rfl
  | receive consumer position =>
    refine withConsumer_countsOnce moved (fun c next changed => Or.inl ?_) before after
    unfold Consumer.receive at changed
    (repeat' split at changed) <;> cases changed
    rfl
  | handled consumer result processingMs =>
    refine send_countsOnce moved (fun c next call changed => ?_) before after
    unfold Consumer.handled at changed
    split at changed <;> cases changed
    rfl
  | replied consumer status =>
    refine withConsumer_countsOnce moved (fun c next changed => ?_) before after
    split at changed
    · obtain ⟨_, same⟩ := Option.ite_none_right_eq_some.mp changed
      rw [← Option.some.inj same]
      exact c.returned_countsOnce _ _ _
    · cases changed
  | callFails consumer status =>
    refine withConsumer_countsOnce moved (fun c next changed => ?_) before after
    split at changed
    · obtain ⟨_, same⟩ := Option.ite_none_left_eq_some.mp changed
      rw [← Option.some.inj same]
      exact c.returned_countsOnce _ _ _
    · cases changed
  | resend consumer =>
    refine send_countsOnce moved (fun c next call changed => ?_) before after
    unfold Consumer.resend at changed
    split at changed <;> cases changed
    rfl

/-- The clusters that a broker with an accepted configuration and any consumers come to. -/
def Reachable (cfg : HarbingerConfig) (s : Cluster σ) : Prop :=
  ∃ (config : HarbingerConfig) (predictor : Option σ) (instanceToken : Bytes) (counter : Nat) (b : Broker σ)
    (now : Time) (moves : List Move), validateConfig config = .ok cfg ∧
    Broker.create cfg predictor instanceToken counter = .ok b ∧
    Transition.run (step cfg) moves (initial b now) = some s

theorem Reachable.sound (reachable : s.Reachable cfg) : Sound cfg s := by
  obtain ⟨config, predictor, instanceToken, counter, b, now, moves, valid, made, ran⟩ := reachable
  have checked := HarbingerConfig.Checked.of_validateConfig valid
  have start : Sound cfg (initial b now) :=
    { broker := Reached.initial made now
      serving := nofun
      replies := fun _ _ member => by cases member
      consumers := fun _ member => by cases member }
  exact Transition.run_invariant (Sound cfg) (fun _ _ _ sound moved => Sound.step checked sound moved) start ran

end Steps

end Cluster

/-- In every run of consumers and broker over the network: an attempt is settled at most once;
what a consumer counts as acknowledged or not is on the broker's record for the very attempt
that was delivered to it; serving a request, however late, leaves every message alone whose
live attempt has another token; and every handler invocation but the one in progress counts
for exactly one of the four outcomes, a terminal stop being one that ends the worker. -/
theorem settlement_protocol {σ : Type} [Ml.Inference σ] {cfg : HarbingerConfig} {s : Cluster σ}
    (reachable : s.Reachable cfg) :
    ((settled s.system.history).Nodup ∧ settled s.system.history ⊆ issued s.system.history ∧
      (issued s.system.history).Nodup) ∧
    (∀ c ∈ s.consumers, ∀ made ∈ c.invocations,
      (∃ msg, .delivered c.id made.call.token msg ∈ s.system.history ∧ msg.id = made.call.id) ∧
      (made.contribution = .acked → .settled c.id made.call.token made.call.id .ack ∈ s.system.history) ∧
      (made.contribution = .nacked → .settled c.id made.call.token made.call.id .nack ∈ s.system.history)) ∧
    (∀ rpc call, s.requests[rpc]? = some call →
      (∀ recordAt leaseAt r s', s.step cfg (.serve rpc recordAt leaseAt r) = some s' →
        System.Spares call.token s.system s'.system) ∧
      (∀ doneAt pruneAt s', s.serving = some rpc → s.step cfg (.broker (.close doneAt pruneAt)) = some s' →
        System.Spares call.token s.system s'.system)) ∧
    (∀ c ∈ s.consumers, c.invocations.map Invocation.number = List.range' 1 c.invocations.length ∧
      c.acked = c.invocations.countP (·.contribution = .acked) ∧
      c.nacked = c.invocations.countP (·.contribution = .nacked) ∧
      c.leasesLost = c.invocations.countP (·.contribution = .leaseLost) ∧
      c.processed = c.acked + c.nacked + c.leasesLost + c.invocations.countP (·.contribution = .stopped) +
        c.phase.busy) ∧
    (∀ move s', s.step cfg move = some s' → ∀ (index : Nat) (c next : Consumer), s.consumers[index]? = some c →
      s'.consumers[index]? = some next → c.CountsOnce next) := by
  have sound := reachable.sound
  have lawful := sound.broker.lawful
  have once := System.settled_once lawful
  refine ⟨⟨once.1, once.2, lawful.fenced.distinct⟩, fun c member made present => ?_, fun rpc call known => ⟨?_, ?_⟩,
    fun c member => ?_, fun move s' moved index c next before after => Cluster.step_countsOnce moved before after⟩
  · obtain ⟨issued, confirmed⟩ := (sound.consumers c member).grounded made present
    rw [← issued.sender]
    refine ⟨issued.sender ▸ issued.delivery, fun acked => ?_, fun nacked => ?_⟩
    · rwa [acked] at confirmed
    · rwa [nacked] at confirmed
  · intro recordAt leaseAt r s' moved
    obtain ⟨other, system, sent, stepped, rfl⟩ := Cluster.serve_cases moved
    obtain rfl : other = call := Option.some.inj (sent.symm.trans known)
    have spared := System.settle_spares sound.broker.sound stepped
    split <;> exact spared
  · intro doneAt pruneAt s' serving moved
    obtain ⟨other, entry, kind, status, update, sent, held⟩ := sound.serving rpc serving
    obtain rfl : other = call := Option.some.inj (sent.symm.trans known)
    obtain ⟨system, stepped, changed⟩ := Cluster.broker_cases moved
    have spared := System.close_spares sound.broker.sound held stepped
    rcases changed with ⟨_, _, _, _, _, rfl⟩ | ⟨_, rfl⟩
    · exact spared
    · exact spared
  · have faithful := sound.consumers c member
    exact ⟨faithful.numbered, faithful.acked, faithful.nacked, faithful.lost, faithful.total⟩

section Sample
open Ml

/-- The first reply is lost; the consumer sends its Ack again and the broker repeats its answer. -/
def sampleExchange : List Move :=
  [.broker .registerProducer] ++ sampleArrival.map .broker ++ [.connect, .start 0, .poll 0] ++
  (samplePull 0).map .broker ++
  [.receive 0 2, .handled 0 .success 5, .serve 0 0 0 (sampleReadings 0), .broker (.close 0 0),
    .callFails 0 ⟨.deadlineExceeded, []⟩, .resend 0, .serve 1 0 0 (sampleReadings 0), .replied 0 .ok]

theorem settlement_protocol_sample : ∃ s : Cluster (PerKeyPredictor .plain), s.Reachable {} ∧
    (s.consumers.map fun c => (c.processed, c.acked, c.rpcFailures)) = [(1, 1, 1)] ∧
    settled s.system.history = [ascii "-0-1"] ∧ s.replies = [(0, .ok), (1, .ok)] ∧
    ∀ c ∈ s.consumers, ∀ made ∈ c.invocations, made.contribution = .acked →
      .settled c.id made.call.token made.call.id .ack ∈ s.system.history := by
  have known : (Transition.run (Cluster.step {}) sampleExchange (Cluster.initial sampleBroker 0)).map (fun s =>
      (s.consumers.map fun c => (c.processed, c.acked, c.rpcFailures), settled s.system.history, s.replies)) =
      some ([(1, 1, 1)], [ascii "-0-1"], [(0, .ok), (1, .ok)]) := rfl
  obtain ⟨s, ran, facts⟩ := Option.map_eq_some_iff.mp known
  obtain ⟨counters, settlements, replies⟩ := by simpa only [Prod.mk.injEq] using facts
  have reachable : s.Reachable {} := ⟨{}, none, [], 0, sampleBroker, 0, sampleExchange, rfl, rfl, ran⟩
  exact ⟨s, reachable, counters, settlements, replies,
    fun c member made present => ((settlement_protocol reachable).2.1 c member made present).2.1⟩

end Sample

end Harbinger
