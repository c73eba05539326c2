import Harbinger.Broker.Fencing

/-! What every reachable state says about counters, dead letters and indexes: no message is
delivered more often than its budget allows, every dead letter has its reason, and the
delivery tables correspond. -/

namespace Harbinger
open Container Ledger

namespace System
variable {σ : Type} {cfg : HarbingerConfig} {s : System σ}

theorem queued_waiting {level : Nat} (inside : level < s.broker.queue.numLevels) {node : Node}
    (member : node ∈ s.broker.queue.queues level) : node.message.frozen ∈ s.ledger.waiting :=
  Multiset.mem_coe.mpr (List.mem_map_of_mem (List.mem_map_of_mem (mem_concat.mpr ⟨level, inside, member⟩)))

theorem inHand_idle (lawful : Lawful s.ledger) {task : Task} (member : task ∈ s.tasks) {msg : Message}
    (held : msg ∈ task.inHand) : Idle msg.frozen := by
  have found : msg.frozen ∈ (↑(task.inHand.map Message.frozen) : Multiset Message) :=
    Multiset.mem_coe.mpr (List.mem_map_of_mem held)
  rw [Task.inHand_frozen] at found
  rcases Multiset.mem_add.mp found with kept | doomed
  · exact lawful.counted.held _ (mem_gather.mpr ⟨task, member, kept⟩)
  · obtain ⟨item, here, same⟩ := List.mem_map.mp doomed
    rw [← same]
    exact lawful.counted.condemned item (mem_gather.mpr ⟨task, member, here⟩)

theorem live_active (lawful : Lawful s.ledger) {id : Bytes} {entry : InFlightEntry}
    (found : s.live.lookup id = some entry) : Active entry.message.frozen :=
  lawful.counted.leased entry.lease (Multiset.mem_coe.mpr
    (List.mem_map.mpr ⟨⟨id, entry⟩, AList.mem_lookup_iff.mp found, rfl⟩))

theorem lookup_of_live {id : Bytes} {entry : InFlightEntry} (found : s.live.lookup id = some entry) :
    s.broker.deliveries.inFlight.lookup id = some entry := by
  rw [live] at found
  split at found
  · exact found
  next pending _ =>
    by_cases same : id = pending
    · rw [same, AList.lookup_erase] at found
      cases found
    · rwa [AList.lookup_erase_ne same] at found

theorem census_spent (counted : Counted s.ledger) {msg : Message} (member : msg ∈ s.ledger.census) : Spent msg := by
  simp only [census, Multiset.mem_add, Multiset.mem_map, Multiset.mem_coe, List.mem_map] at member
  rcases member with ((((waiting | held) | ⟨item, condemned, rfl⟩) | ⟨lease, leased, rfl⟩) | ⟨entry, dead, rfl⟩) |
    finished
  · exact (counted.waiting msg waiting).spent
  · exact (counted.held msg held).spent
  · exact (counted.condemned item condemned).spent
  · exact (counted.leased lease leased).spent
  · exact counted.dead entry dead
  · exact counted.finished msg finished

end System

/-- Queued and held messages have one delivery per failure and budget left; a live attempt has
the number of its delivery; the budget bounds everything; deliveries are numbered from one
without gaps; and a pull never runs out of attempt numbers. -/
theorem retry_accounting {σ : Type} [Ml.Inference σ] {cfg : HarbingerConfig} {s : System σ}
    (reachable : s.Reachable cfg) :
    (∀ level < s.broker.queue.numLevels, ∀ node ∈ s.broker.queue.queues level,
      node.message.deliveryCount = node.message.retryCount ∧ node.message.retryCount < node.message.maxRetries) ∧
    (∀ task ∈ s.tasks, ∀ msg ∈ task.inHand,
      msg.deliveryCount = msg.retryCount ∧ msg.retryCount < msg.maxRetries) ∧
    (∀ id entry, s.live.lookup id = some entry → entry.attemptId = entry.message.deliveryCount ∧
      entry.message.deliveryCount = entry.message.retryCount + 1 ∧
      entry.message.deliveryCount ≤ entry.message.maxRetries) ∧
    (∀ entry ∈ s.broker.dlq, entry.message.retryCount ≤ entry.message.maxRetries) ∧
    (∀ msg ∈ accepted s.history, ∃ count ≤ msg.maxRetries, attempts s.history msg.id = List.range' 1 count) ∧
    (∀ consumer msg token, .staged consumer msg token ∈ s.tasks → ∀ cancelled fault leaseAt pullAt,
      (s.broker.deliveries.installation cfg msg consumer token cancelled fault leaseAt pullAt).2.code ≠
        .resourceExhausted) := by
  have lawful := reachable.reached.lawful
  have counted := lawful.counted
  refine ⟨fun level inside node member => counted.waiting node.message.frozen (System.queued_waiting inside member),
    fun task member msg held => System.inHand_idle lawful member held, fun id entry found => ?_,
    fun entry member => (counted.dead _ (List.mem_map_of_mem member)).1, fun msg known => ?_,
    fun consumer msg token staged cancelled fault leaseAt pullAt => ?_⟩
  · have active := System.live_active lawful found
    exact ⟨reachable.reached.sound.attempt id entry (System.lookup_of_live found), active.1, active.2⟩
  · obtain ⟨place, held, located, content⟩ := System.located lawful known
    have here : (place, held) ∈ s.whereabouts :=
      List.mem_of_mem_filter (located ▸ List.mem_singleton_self (place, held))
    have counts := lawful.conserved.attempted _ (System.mem_census here)
    have budget : held.content.maxRetries = msg.content.maxRetries := congrArg Message.maxRetries content
    have named : held.frozen.id = msg.id := Message.id_eq_of_content content
    rw [named] at counts
    exact ⟨held.deliveryCount, budget ▸ (System.census_spent counted (System.mem_census here)).2, counts⟩
  · have idle := System.inHand_idle lawful staged (List.mem_singleton_self msg)
    have present : msg.frozen ∈ s.ledger.census := by
      rw [census_eq]
      exact Multiset.mem_add.mpr (Or.inl (mem_opened.mpr (Or.inr (Or.inl
        (mem_gather.mpr ⟨_, staged, List.mem_singleton_self _⟩)))))
    have count : msg.deliveryCount < 2 ^ 32 :=
      (idle.1.trans_lt idle.2).trans (lawful.conserved.maxRetries_lt present)
    have room : msg.deliveryCount ≠ 2 ^ 64 - 1 := by omega
    rw [Deliveries.installation, if_neg room]
    split
    · exact nofun
    · split
      · exact nofun
      · split <;> exact nofun

section Sample
open Ml

def sampleNack : Deliveries.Call := { sampleAck with kind := .nack, reason := ascii "busy" }

/-- The first delivery fails, and the message is delivered again after the second one. -/
def sampleRetried : List Action :=
  sampleRun ++ [.settle sampleNack 0 0 (sampleReadings 0), .close 0 0] ++ samplePull 0 ++ samplePull 0

theorem retry_accounting_sample : ∃ s : System (PerKeyPredictor .plain), s.Reachable {} ∧
    attempts s.history (ascii "0-0") = [1, 2] ∧
    (s.live.entries.map fun item => (item.1, item.2.attemptId, item.2.message.retryCount)) =
      [(ascii "0-0", 2, 1), (ascii "0-1", 1, 0)] ∧
    ∀ id entry, s.live.lookup id = some entry → entry.attemptId = entry.message.deliveryCount ∧
      entry.message.deliveryCount = entry.message.retryCount + 1 ∧
      entry.message.deliveryCount ≤ entry.message.maxRetries := by
  have known : (Transition.run (System.step {}) sampleRetried (System.initial sampleBroker 0)).map (fun s =>
      (attempts s.history (ascii "0-0"),
        s.live.entries.map fun item => (item.1, item.2.attemptId, item.2.message.retryCount))) =
      some ([1, 2], [(ascii "0-0", 2, 1), (ascii "0-1", 1, 0)]) := rfl
  obtain ⟨s, ran, facts⟩ := Option.map_eq_some_iff.mp known
  obtain ⟨numbers, entries⟩ := Prod.mk.inj facts
  exact ⟨s, sample_reachable ran, numbers, entries, (retry_accounting (sample_reachable ran)).2.2.1⟩

end Sample

namespace System
variable {σ : Type} {cfg : HarbingerConfig} {s : System σ}

/-- Where a message is whose TTL was found to have passed: dead as expired, or in the hands of
the thread that buries it. -/
def Expiring (s : System σ) (held : Message) : Place → Prop
  | .deadLetter index => ∃ entry, s.broker.dlq[index]? = some entry ∧ entry.message = held ∧ entry.reason = .ttlExpired
  | .hands index => ∃ errand hand since, s.tasks[index]? = some (.burying errand hand since) ∧ held ∈ hand
  | _ => False

theorem doomed_expiring (lawful : Lawful s.ledger) {msg : Message} (doomed : Doomed s.ledger msg) :
    ∃ place held, s.whereabouts.filter (fun item => item.2.id = msg.id) = [(place, held)] ∧ held.frozen = msg ∧
      s.Expiring held place := by
  have placed : ∃ place held, (place, held) ∈ s.whereabouts ∧ held.frozen = msg ∧ s.Expiring held place := by
    rcases doomed with ⟨since, condemned⟩ | ⟨entry, dead, same, reason⟩
    · obtain ⟨task, member, here⟩ := mem_gather.mp condemned
      obtain ⟨index, found⟩ := List.mem_iff_getElem?.mp member
      cases task with
      | burying errand hand begun =>
        obtain ⟨held, inside, same⟩ := List.mem_map.mp here
        refine ⟨.hands index, held, ?_, congrArg Prod.fst same, errand, hand, begun, found, inside⟩
        simp only [whereabouts, List.mem_append, List.mem_flatMap]
        refine Or.inl (Or.inl (Or.inl (Or.inr ⟨(.burying errand hand begun, index), ?_, ?_⟩)))
        · exact List.mem_zipIdx_iff_getElem?.mpr found
        · exact List.mem_map_of_mem inside
      | _ => cases here
    · obtain ⟨buried, member, rfl⟩ := List.mem_map.mp dead
      obtain ⟨index, found⟩ := List.mem_iff_getElem?.mp member
      exact ⟨.deadLetter index, buried.message, mem_deadLetter.mpr ⟨buried, found, rfl⟩, same, buried, found, rfl,
        reason⟩
  obtain ⟨place, held, member, rfl, expiring⟩ := placed
  exact ⟨place, held, alone lawful member, rfl, expiring⟩

end System

/-- Every dead letter is justified by a judgement on record, with the message as it was judged
or with its last failure counted; and a message found past its TTL, on whatever occasion, is
dead as expired or on its way there, nowhere else, and never judged or delivered again. -/
theorem dead_letter_soundness {σ : Type} [Ml.Inference σ] {cfg : HarbingerConfig} {s : System σ}
    (reachable : s.Reachable cfg) :
    (∀ entry ∈ s.broker.dlq,
      (entry.reason = .ttlExpired ∧ 0 < entry.message.ttl ∧ entry.message.expiryTime ≤ entry.dlqTime ∧
        ∃ occasion reading, .judged occasion entry.message.frozen reading (.deadLettered .ttlExpired) ∈ s.history) ∨
      (entry.reason = .maxRetriesExceeded ∧ entry.message.retryCount = entry.message.maxRetries ∧
        ∃ kind before reading, .judged (.settlement kind) before reading (.deadLettered .maxRetriesExceeded) ∈ s.history ∧
          entry.message.frozen = failed before ∧ ¬before.isExpired reading)) ∧
    ∀ before occasion msg reading fate after,
      s.history = before ++ .judged occasion msg reading fate :: after → msg.isExpired reading →
        fate = .deadLettered .ttlExpired ∧
        (∃ place held, s.whereabouts.filter (fun item => item.2.id = msg.id) = [(place, held)] ∧
          held.frozen = msg ∧ s.Expiring held place) ∧
        (∀ owner token other, .delivered owner token other ∈ after → other.id ≠ msg.id) ∧
        ∀ occasion other reading fate, .judged occasion other reading fate ∈ after → other.id ≠ msg.id := by
  have lawful := reachable.reached.lawful
  have final := lawful.final
  refine ⟨fun entry member => ?_, fun before occasion msg reading fate after split expired => ?_⟩
  · rcases final.dead entry.frozen (List.mem_map_of_mem member) with
      ⟨reason, occasion, reading, judged, expired, order⟩ | ⟨reason, spent, found⟩
    · exact Or.inl ⟨reason, expired.1, expired.2.trans order, occasion, reading, judged⟩
    · exact Or.inr ⟨reason, spent, found⟩
  · have judged : .judged occasion msg reading fate ∈ s.history := by
      rw [split]
      exact List.mem_append_right _ (List.mem_cons_self ..)
    obtain ⟨verdict, doomed⟩ := final.doomed occasion msg reading fate judged expired
    have quiet : (before ++ .judged occasion msg reading fate :: after).Pairwise Quiet := split ▸ final.quiet
    have silent : ∀ later ∈ after, later.touches? ≠ some msg.id := fun later member =>
      (List.pairwise_cons.mp (List.pairwise_append.mp quiet).2.1).1 later member msg.id (if_pos expired)
    exact ⟨verdict, System.doomed_expiring lawful doomed,
      fun owner token other member same => silent _ member (congrArg some same),
      fun occasion other reading fate member same => silent _ member (congrArg some same)⟩

section Sample
open Ml

/-- A message with a TTL of one millisecond expires in the queue and is buried by the sweeper. -/
def sampleExpired : List Action :=
  [.registerProducer, .submit { producerId := ascii "producer-0", ttlMs := some 1 } 0 0, .route 0 ⟨0, 0, 0⟩,
    .enqueue 0 0 ⟨0, 0⟩, .tick 2000000, .backgroundSweep 2000000, .bury 0 2000000 ⟨0, 0⟩]

theorem dead_letter_soundness_sample : ∃ s : System (PerKeyPredictor .plain), s.Reachable {} ∧
    (s.broker.dlq.map fun entry => (entry.message.id, entry.reason, entry.dlqTime)) =
      [(ascii "0-0", .ttlExpired, 2000000)] ∧
    ∀ entry ∈ s.broker.dlq, entry.reason = .ttlExpired → entry.message.expiryTime ≤ entry.dlqTime := by
  have known : (Transition.run (System.step {}) sampleExpired (System.initial sampleBroker 0)).map (fun s =>
      s.broker.dlq.map fun entry => (entry.message.id, entry.reason, entry.dlqTime)) =
      some [(ascii "0-0", .ttlExpired, 2000000)] := rfl
  obtain ⟨s, ran, dead⟩ := Option.map_eq_some_iff.mp known
  refine ⟨s, sample_reachable ran, dead, fun entry member reason => ?_⟩
  rcases (dead_letter_soundness (sample_reachable ran)).1 entry member with expired | exhausted
  · exact expired.2.2.1
  · rw [reason] at exhausted
    cases exhausted.1

end Sample

namespace Deliveries

/-- The four delivery tables agree: one index element per live attempt and one per record, and
nothing else; records in the order of their times, at most `cap` of them, and none of a live
attempt. -/
structure Corresponds (cap : Nat) (d : Deliveries) : Prop where
  leases : (d.deadlines.slots.map fun slot => (slot.value.2, slot.handle)).Perm
    (d.inFlight.entries.map fun item => (item.1, item.2.deadline))
  records : (d.completions.slots.map fun slot => (slot.value.token, slot.handle)).Perm
    (d.completed.entries.map fun item => (item.1, item.2))
  ordered : d.completions.slots.Pairwise fun first second => first.value.time ≤ second.value.time
  apart : ∀ id entry, d.inFlight.lookup id = some entry →
    ∀ slot ∈ d.completions.slots, slot.value.token ≠ entry.attemptToken
  bounded : d.completions.size ≤ cap

/-- A list and a table that name the same pairs, each once. -/
theorem perm_of_pairs {α : Type} {β : Bytes → Type} {slots : List (Slot α)} (distinct : (slots.map Slot.handle).Nodup)
    (key : α → Bytes) {table : AList β} (value : ∀ {key}, β key → Nat)
    (same : ∀ id handle, (∃ slot ∈ slots, key slot.value = id ∧ slot.handle = handle) ↔
      ∃ entry, table.lookup id = some entry ∧ value entry = handle) :
    (slots.map fun slot => (key slot.value, slot.handle)).Perm
      (table.entries.map fun item => (item.1, value item.2)) := by
  have left : (slots.map fun slot => (key slot.value, slot.handle)).Nodup := by
    refine List.Nodup.of_map Prod.snd ?_
    rw [List.map_map]
    exact distinct
  have right : (table.entries.map fun item => (item.1, value item.2)).Nodup := by
    refine List.Nodup.of_map Prod.fst ?_
    rw [List.map_map]
    exact table.keys_nodup
  refine (List.perm_ext_iff_of_nodup left right).mpr fun pair => ?_
  simp only [List.mem_map, Prod.ext_iff]
  refine (same pair.1 pair.2).trans ⟨fun ⟨entry, found, here⟩ => ?_, fun ⟨item, member, named, here⟩ => ?_⟩
  · exact ⟨⟨pair.1, entry⟩, AList.mem_lookup_iff.mp found, rfl, here⟩
  · obtain ⟨name, entry⟩ := item
    obtain rfl : name = pair.1 := named
    exact ⟨entry, AList.mem_lookup_iff.mpr member, here⟩

theorem Consistent.corresponds {cap : Nat} {clock : Time} {d : Deliveries} (consistent : Consistent cap clock d) :
    Corresponds cap d where
  leases := by
    refine perm_of_pairs d.deadlines.distinct Prod.snd InFlightEntry.deadline fun id handle => ⟨?_, ?_⟩
    · intro ⟨slot, member, named, here⟩
      obtain ⟨entry, found, same⟩ := consistent.owned slot member
      exact ⟨entry, named ▸ found, same.trans here⟩
    · intro ⟨entry, found, here⟩
      obtain ⟨slot, member, same, named⟩ := consistent.leased id entry found
      exact ⟨slot, member, named, same.trans here⟩
  records := by
    refine perm_of_pairs d.completions.distinct Completion.token id fun token handle => ⟨?_, ?_⟩
    · intro ⟨slot, member, named, here⟩
      exact ⟨slot.handle, named ▸ consistent.recorded slot member, here⟩
    · intro ⟨entry, found, here⟩
      obtain ⟨slot, member, same, named⟩ := consistent.indexed token entry found
      exact ⟨slot, member, named, same.trans here⟩
  ordered := consistent.ordered
  apart := fun id entry found slot member same => by
    have indexed := consistent.recorded slot member
    rw [same] at indexed
    exact consistent.apart id entry found (AList.lookup_isSome.mp (Option.isSome_of_eq_some indexed))
  bounded := consistent.bounded

end Deliveries

/-- The delivery tables agree in every reachable state, and pruning with any budget at any time
keeps them so. -/
theorem delivery_indexes_correspond {σ : Type} [Ml.Inference σ] {cfg : HarbingerConfig} {s : System σ}
    (reachable : s.Reachable cfg) :
    s.broker.deliveries.Corresponds cfg.completionCacheMaxEntries ∧
    ∀ now budget, (Deliveries.pruneCompletionsLocked cfg now budget s.broker.deliveries).Corresponds
      cfg.completionCacheMaxEntries := by
  have tables := reachable.reached.sound.tables
  exact ⟨tables.corresponds, fun now budget => (tables.prune cfg now budget).corresponds⟩

section Sample
open Ml

theorem delivery_indexes_correspond_sample : ∃ s : System (PerKeyPredictor .plain), s.Reachable {} ∧
    s.broker.deliveries.inFlight.keys = [ascii "0-1"] ∧ s.broker.deliveries.completions.size = 1 ∧
    s.broker.deliveries.Corresponds 10000 := by
  have known : (Transition.run (System.step {}) sampleSettled (System.initial sampleBroker 0)).map (fun s =>
      (s.broker.deliveries.inFlight.keys, s.broker.deliveries.completions.size)) = some ([ascii "0-1"], 1) := rfl
  obtain ⟨s, ran, facts⟩ := Option.map_eq_some_iff.mp known
  obtain ⟨live, records⟩ := Prod.mk.inj facts
  exact ⟨s, sample_reachable ran, live, records, (delivery_indexes_correspond (sample_reachable ran)).1⟩

end Sample

end Harbinger
