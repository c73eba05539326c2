import Harbinger.Broker.Refinement
import Harbinger.Ml.Predictor

/-! Message conservation: every accepted message is in exactly one place, exactly once, in
every state of every interleaving. -/

namespace Harbinger
open Container Ledger

inductive Place where
  | level (index : Nat)
  | hands (task : Nat)
  | inFlight (id : Bytes)
  | deadLetter (index : Nat)
  | finished (index : Nat)
  deriving DecidableEq

/-- The places that a message never leaves. -/
def Place.final : Place → Bool
  | .deadLetter _ => true
  | .finished _ => true
  | _ => false

/-- The messages in the hands of a thread that took them from the queue. -/
def Task.inHand : Task → List Message
  | .burying _ hand _ => hand
  | .selected _ msg => [msg]
  | .staged _ msg _ => [msg]
  | _ => []

namespace System
variable {σ : Type}

/-- Every place of the broker with every message it holds. -/
def whereabouts (s : System σ) : List (Place × Message) :=
  ((List.range s.broker.queue.numLevels).flatMap fun level =>
    (s.broker.queue.queues level).map fun node => (.level level, node.message)) ++
  (s.tasks.zipIdx.flatMap fun item => item.1.inHand.map fun msg => (.hands item.2, msg)) ++
  (s.live.entries.map fun item => (.inFlight item.1, item.2.message)) ++
  (s.broker.dlq.zipIdx.map fun item => (.deadLetter item.2, item.1.message)) ++
  (s.finished.zipIdx.map fun item => (.finished item.2, item.1))

end System

theorem Task.inHand_frozen (task : Task) :
    (↑(task.inHand.map Message.frozen) : Multiset Message) = ↑task.held + ↑(task.condemned.map Prod.fst) := by
  cases task with
  | burying errand hand since =>
    simp only [inHand, held, condemned, List.map_map, Multiset.coe_nil, zero_add]
    rfl
  | _ => rfl

namespace System
variable {σ : Type}

/-- The ledger's census counts what is in the places. -/
theorem census_whereabouts (s : System σ) :
    s.ledger.census = ↑(s.whereabouts.map fun item => item.2.frozen) := by
  have queued : ((List.range s.broker.queue.numLevels).flatMap fun level =>
      (s.broker.queue.queues level).map fun node => node.message.frozen) =
      s.broker.queue.messages.map Message.frozen := by
    simp only [MultiLevelQueue.messages, MultiLevelQueue.nodes, concat, List.map_flatMap, List.map_map,
      Function.comp_def]
  have hands : (↑(s.tasks.zipIdx.flatMap fun item => item.1.inHand.map Message.frozen) : Multiset Message) =
      s.ledger.held + s.ledger.condemned.map Prod.fst := by
    rw [flatMap_zipIdx_fst fun task : Task => task.inHand.map Message.frozen]
    simp only [ledger, gather]
    induction s.tasks with
    | nil => rfl
    | cons task rest ih =>
      simp only [List.flatMap_cons, ← Multiset.coe_add, ih, Task.inHand_frozen, Multiset.map_add, Multiset.map_coe]
      abel
  have dead : (s.broker.dlq.zipIdx.map fun item => item.1.message.frozen) =
      (s.broker.dlq.map DLQEntry.frozen).map DLQEntry.message := by
    rw [map_zipIdx_fst fun entry : DLQEntry => entry.message.frozen, List.map_map]
    rfl
  simp only [whereabouts, List.map_append, List.map_flatMap, List.map_map, Function.comp_def, queued, dead,
    map_zipIdx_fst, ← Multiset.coe_add, hands, census]
  simp only [ledger, Multiset.map_coe, List.map_map, Function.comp_def, InFlightEntry.lease]
  abel

variable {cfg : HarbingerConfig} {s : System σ}

theorem mem_census {item : Place × Message} (member : item ∈ s.whereabouts) : item.2.frozen ∈ s.ledger.census := by
  rw [census_whereabouts]
  exact Multiset.mem_coe.mpr (List.mem_map.mpr ⟨item, member, rfl⟩)

theorem ids_whereabouts (lawful : Lawful s.ledger) :
    (s.whereabouts.map fun item => item.2.id).Perm ((accepted s.history).map Message.id) := by
  have ids := lawful.conserved.ids
  rw [census_whereabouts, Multiset.map_coe, List.map_map] at ids
  exact Multiset.coe_eq_coe.mp ids

theorem alone (lawful : Lawful s.ledger) {item : Place × Message} (member : item ∈ s.whereabouts) :
    (s.whereabouts.filter fun other => other.2.id = item.2.id) = [item] := by
  have distinct : (s.whereabouts.map fun item => item.2.id).Nodup :=
    (ids_whereabouts lawful).nodup_iff.mpr lawful.conserved.distinct
  have single : (s.whereabouts.filter fun other => other.2.id = item.2.id).length = 1 := by
    rw [← List.count_eq_one_of_mem distinct (List.mem_map_of_mem member), ← List.countP_eq_length_filter, List.count,
      List.countP_map]
    exact List.countP_congr fun item _ => by simp
  obtain ⟨only, same⟩ := List.length_eq_one_iff.mp single
  have here : item ∈ s.whereabouts.filter fun other => other.2.id = item.2.id :=
    List.mem_filter.mpr ⟨member, decide_eq_true rfl⟩
  rw [same] at here ⊢
  rw [List.mem_singleton.mp here]

theorem located (lawful : Lawful s.ledger) {msg : Message} (known : msg ∈ accepted s.history) :
    ∃ place held, s.whereabouts.filter (fun item => item.2.id = msg.id) = [(place, held)] ∧
      held.content = msg.content := by
  have present : msg.id ∈ s.whereabouts.map fun item => item.2.id :=
    (ids_whereabouts lawful).mem_iff.mpr (List.mem_map_of_mem known)
  obtain ⟨⟨place, held⟩, member, named⟩ := List.mem_map.mp present
  obtain ⟨source, origin, content⟩ := lawful.conserved.origin (mem_census member)
  have identity : source = msg := List.inj_on_of_nodup_map lawful.conserved.distinct origin known
    ((Message.id_eq_of_content content).trans named)
  have only := alone lawful member
  simp only [show held.id = msg.id from named] at only
  exact ⟨place, held, only, by rw [← identity]; exact content.symm⟩

theorem getElem?_of_prefix {α β : Type} {f : α → β} {list later : List α} (grown : list.map f <+: later.map f)
    {index : Nat} {entry : α} (found : list[index]? = some entry) :
    ∃ kept, later[index]? = some kept ∧ f kept = f entry := by
  obtain ⟨inside, same⟩ := List.getElem?_eq_some_iff.mp found
  have stays := List.prefix_iff_getElem?.mp grown index (by simpa using inside)
  simp only [List.getElem?_map, List.getElem_map, Option.map_eq_some_iff, same] at stays
  exact stays

theorem mem_deadLetter {index : Nat} {msg : Message} : (.deadLetter index, msg) ∈ s.whereabouts ↔
    ∃ entry, s.broker.dlq[index]? = some entry ∧ entry.message = msg := by
  simp [whereabouts, List.mem_zipIdx_iff_getElem?]

theorem mem_finished {index : Nat} {msg : Message} :
    (.finished index, msg) ∈ s.whereabouts ↔ s.finished[index]? = some msg := by
  simp [whereabouts, List.mem_zipIdx_iff_getElem?]

theorem final_stays {later : System σ} (steps : Steps s.ledger later.ledger) {place : Place} {msg : Message}
    (member : (place, msg) ∈ s.whereabouts) (final : place.final) :
    ∃ held, (place, held) ∈ later.whereabouts ∧ held.frozen = msg.frozen := by
  obtain ⟨dead, finished, _⟩ := steps.grows
  cases place with
  | deadLetter index =>
    obtain ⟨entry, found, rfl⟩ := mem_deadLetter.mp member
    obtain ⟨kept, stays, same⟩ := getElem?_of_prefix dead found
    exact ⟨kept.message, mem_deadLetter.mpr ⟨kept, stays, rfl⟩, congrArg DLQEntry.message same⟩
  | finished index =>
    obtain ⟨kept, stays, same⟩ := getElem?_of_prefix finished (mem_finished.mp member)
    exact ⟨kept, mem_finished.mpr stays, same⟩
  | level => cases final
  | hands => cases final
  | inFlight => cases final

theorem staged_not_inFlight (reached : Reached cfg s) (free : s.holder = none) {consumer token : Bytes}
    {msg : Message} (staged : .staged consumer msg token ∈ s.tasks) : msg.id ∉ s.broker.deliveries.inFlight := by
  intro inside
  obtain ⟨entry, known⟩ := Option.isSome_iff_exists.mp (AList.lookup_isSome.mpr inside)
  have unheld : s.pending = none := by
    rw [pending, free]
    rfl
  have held : msg.id ∈ (s.ledger.waiting + s.ledger.held).map Message.id :=
    Multiset.mem_map.mpr ⟨msg.frozen, Multiset.mem_add.mpr (Or.inr (mem_gather.mpr ⟨_, staged,
      List.mem_singleton_self _⟩)), rfl⟩
  have leased : msg.id ∈ (s.ledger.leased.map Lease.message).map Message.id := by
    rw [Refines.leased_eq unheld known, Multiset.map_cons, Multiset.map_cons]
    exact Multiset.mem_cons.mpr (Or.inl (reached.sound.tables.keyed _ entry known).symm)
  have apart := reached.lawful.conserved.nodup
  rw [census_eq, opened, Multiset.map_add, Multiset.map_add] at apart
  have alone := (Multiset.nodup_add.mp (Multiset.nodup_add.mp apart).1).2.2
  exact Multiset.disjoint_left.mp alone held leased

end System

/-- Every accepted message is in exactly one place, exactly once, and every message in a place
was accepted; the accepted messages only grow in number, and a dead or finished one stays where
it is; and no pull finds its message in flight already. -/
theorem message_conservation {σ : Type} [Ml.Inference σ] {cfg : HarbingerConfig} {s : System σ}
    (reachable : s.Reachable cfg) :
    (∀ msg ∈ accepted s.history, ∃ place held,
      s.whereabouts.filter (fun item => item.2.id = msg.id) = [(place, held)] ∧ held.content = msg.content) ∧
    (∀ place held, (place, held) ∈ s.whereabouts → ∃ msg ∈ accepted s.history, msg.content = held.content) ∧
    (∀ actions later, Transition.run (System.step cfg) actions s = some later →
      accepted s.history <+: accepted later.history ∧
      ∀ place msg, (place, msg) ∈ s.whereabouts → place.final →
        ∃ held, (place, held) ∈ later.whereabouts ∧ held.frozen = msg.frozen) ∧
    (∀ consumer msg token, s.holder = none → .staged consumer msg token ∈ s.tasks →
      msg.id ∉ s.broker.deliveries.inFlight) := by
  have lawful := reachable.reached.lawful
  refine ⟨fun msg known => System.located lawful known, fun place held member => ?_, fun actions later ran => ?_,
    fun consumer msg token free staged => System.staged_not_inFlight reachable.reached free staged⟩
  · obtain ⟨msg, known, same⟩ := lawful.conserved.origin (System.mem_census member)
    exact ⟨msg, known, same⟩
  · have steps := reachable.reached.run_steps reachable.checked ran
    exact ⟨steps.grows.2.2.filterMap _, fun place msg member final => System.final_stays steps member final⟩

section Sample
open Ml

/-- The broker of the default configuration, without a predictor. -/
def sampleBroker : Broker (PerKeyPredictor .plain) :=
  { queue := { numLevels := 3, selection := .strictPriority, aging := none, weights := none } }

def sampleArrival : List Action :=
  [.submit { producerId := ascii "producer-0" } 0 0, .route 0 ⟨0, 0, 0⟩, .enqueue 0 0 ⟨0, 0⟩]

/-- A pull that delivers the message at the front. -/
def samplePull (reading : Time) : List Action :=
  [.pull (ascii "consumer-0"), .sweep 0 reading, .resume 0, .dequeue 0, .inspect 0 reading reading,
    .install 0 false .none reading reading]

def sampleRun : List Action :=
  [.registerProducer, .registerConsumer] ++ sampleArrival ++ sampleArrival ++ samplePull 0

theorem sample_reachable {actions : List Action} {s : System (PerKeyPredictor .plain)}
    (ran : Transition.run (System.step {}) actions (System.initial sampleBroker 0) = some s) : s.Reachable {} :=
  ⟨{}, none, [], 0, sampleBroker, 0, actions, rfl, rfl, ran⟩

theorem message_conservation_sample : ∃ s : System (PerKeyPredictor .plain), s.Reachable {} ∧
    (accepted s.history).map Message.id = [ascii "0-0", ascii "0-1"] ∧
    (s.whereabouts.map fun item => (item.1, item.2.id)) =
      [(.level 1, ascii "0-1"), (.inFlight (ascii "0-0"), ascii "0-0")] ∧
    ∀ msg ∈ accepted s.history, ∃ place held,
      s.whereabouts.filter (fun item => item.2.id = msg.id) = [(place, held)] ∧ held.content = msg.content := by
  have known : (Transition.run (System.step {}) sampleRun (System.initial sampleBroker 0)).map (fun s =>
      ((accepted s.history).map Message.id, s.whereabouts.map fun item => (item.1, item.2.id))) =
      some ([ascii "0-0", ascii "0-1"], [(.level 1, ascii "0-1"), (.inFlight (ascii "0-0"), ascii "0-0")]) := rfl
  obtain ⟨s, ran, facts⟩ := Option.map_eq_some_iff.mp known
  obtain ⟨ids, places⟩ := Prod.mk.inj facts
  exact ⟨s, sample_reachable ran, ids, places, (message_conservation (sample_reachable ran)).1⟩

end Sample

end Harbinger
