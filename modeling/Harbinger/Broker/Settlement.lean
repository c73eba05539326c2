import Harbinger.Broker.DeliveryIndex
import Harbinger.Broker.System
import Harbinger.Queue.Operations

/-! What one settlement can do: which branch of `settle` a request takes, where
`finish_locked` sends the message, and which tables each part leaves alone. -/

namespace Harbinger
open Container

namespace Deliveries
variable {cfg : HarbingerConfig} {d d' : Deliveries} {call : Call} {recordAt leaseAt : Time}

theorem prune_tables (cfg : HarbingerConfig) (now : Time) (budget : Nat) (d : Deliveries) :
    (pruneCompletionsLocked cfg now budget d).inFlight = d.inFlight ∧
      (pruneCompletionsLocked cfg now budget d).deadlines = d.deadlines ∧
      (pruneCompletionsLocked cfg now budget d).completions.slots ⊆ d.completions.slots := by
  induction budget generalizing d with
  | zero => exact ⟨rfl, rfl, List.Subset.refl _⟩
  | succ budget ih =>
    unfold pruneCompletionsLocked
    split
    · exact ⟨rfl, rfl, List.Subset.refl _⟩
    · split
      · obtain ⟨inFlight, deadlines, completions⟩ := ih { d with
          completed := d.completed.erase _, completions := d.completions.popFront }
        exact ⟨inFlight, deadlines, fun slot member => List.mem_of_mem_tail (completions member)⟩
      · exact ⟨rfl, rfl, List.Subset.refl _⟩

/-- A retained record of this token and message, younger than the retention. -/
def Remembers (cfg : HarbingerConfig) (d : Deliveries) (token id : Bytes) (now : Time) (record : Completion) : Prop :=
  (∃ slot ∈ d.completions.slots, slot.value = record) ∧ record.token = token ∧ record.messageId = id ∧
    now - record.time < Clock.ofMillis cfg.completionRetention

/-- At most the record of `token` is gone, and only if it was past its retention at `now`. -/
inductive Forgets (cfg : HarbingerConfig) (d : Deliveries) (token : Bytes) (now : Time) : Deliveries → Prop where
  | nothing : Forgets cfg d token now d
  | expired (handle : Nat) (record : Completion) (known : d.completed.lookup token = some handle)
      (found : d.completions.find? handle = some record)
      (old : Clock.ofMillis cfg.completionRetention ≤ now - record.time) :
      Forgets cfg d token now { d with
        completions := d.completions.erase handle, completed := d.completed.erase token }

namespace Forgets
variable {token : Bytes} {now : Time}

theorem inFlight (forgets : Forgets cfg d token now d') : d'.inFlight = d.inFlight := by
  cases forgets <;> rfl

theorem deadlines (forgets : Forgets cfg d token now d') : d'.deadlines = d.deadlines := by
  cases forgets <;> rfl

theorem completions (forgets : Forgets cfg d token now d') : d'.completions.slots ⊆ d.completions.slots := by
  cases forgets with
  | nothing => exact List.Subset.refl _
  | expired => exact fun slot member => (LinkedList.mem_erase _ _ slot).mp member |>.1

theorem consistent {cap : Nat} {clock : Time} (forgets : Forgets cfg d token now d')
    (consistent : Consistent cap clock d) : Consistent cap clock d' := by
  cases forgets with
  | nothing => exact consistent
  | expired handle record known found old => exact consistent.forget known

end Forgets

/-- The two ways of `settle` under the lock: replay a retained record, or look at the live
attempt after forgetting at most an expired record. -/
theorem settleLocked_cases {cap : Nat} {clock : Time} (consistent : Consistent cap clock d)
    (cfg : HarbingerConfig) (call : Call) (recordAt leaseAt : Time) :
    (∃ record, d.Remembers cfg call.token call.id recordAt record ∧
      d.settleLocked cfg call recordAt leaseAt = (d, .reply (replay record call))) ∨
    (¬∃ record, d.Remembers cfg call.token call.id recordAt record) ∧
      ∃ d', Forgets cfg d call.token recordAt d' ∧
        d.settleLocked cfg call recordAt leaseAt = (d', d.settleLive call leaseAt) := by
  have unique : ∀ {handle record}, d.completed.lookup call.token = some handle →
      d.completions.find? handle = some record → ∀ other,
      d.Remembers cfg call.token call.id recordAt other → other = record := by
    intro handle record known found other remembered
    obtain ⟨⟨slot, member, rfl⟩, token, _, _⟩ := remembered
    have indexed := consistent.recorded slot member
    rw [token, known] at indexed
    have same := d.completions.find?_eq_some member
    rw [← Option.some.inj indexed, found] at same
    exact (Option.some.inj same).symm
  cases known : d.completed.lookup call.token with
  | none =>
    refine Or.inr ⟨?_, d, .nothing, by simp only [settleLocked, known]⟩
    intro ⟨record, ⟨slot, member, same⟩, token, _⟩
    have indexed := consistent.recorded slot member
    rw [same, token, known] at indexed
    cases indexed
  | some handle =>
    obtain ⟨slot, member, here, token, found⟩ := consistent.completion known
    by_cases old : Clock.ofMillis cfg.completionRetention ≤ recordAt - slot.value.time
    · refine Or.inr ⟨?_, _, .expired handle slot.value known found old, ?_⟩
      · intro ⟨record, remembered⟩
        have same := unique known found record remembered
        exact absurd (same ▸ remembered.2.2.2) (not_lt.mpr old)
      · simp only [settleLocked, known, found, if_pos old]
        rfl
    · by_cases named : slot.value.messageId = call.id
      · refine Or.inl ⟨slot.value, ⟨⟨slot, member, rfl⟩, token, named, not_le.mp old⟩, ?_⟩
        simp only [settleLocked, known, found, if_neg old, if_pos named]
      · refine Or.inr ⟨?_, d, .nothing, by simp only [settleLocked, known, found, if_neg old, if_neg named]⟩
        intro ⟨record, remembered⟩
        have same := unique known found record remembered
        exact named (same ▸ remembered.2.2.1)

/-- The request names the live attempt of its message. -/
def Owns (d : Deliveries) (call : Call) (entry : InFlightEntry) : Prop :=
  d.inFlight.lookup call.id = some entry ∧ entry.consumerId = call.owner ∧ entry.attemptToken = call.token

/-- What the lookup of the live attempt decides. -/
theorem settleLive_cases (d : Deliveries) (call : Call) (now : Time) :
    (∃ entry, d.Owns call entry ∧ ((d.leaseOver entry now ∧
        d.settleLive call now = .finish entry .expired leaseExpired none ⟨.failedPrecondition, leaseExpired⟩) ∨
      ¬d.leaseOver entry now ∧
        d.settleLive call now = .finish entry call.kind call.reason (some call.processingTimeMs) .ok)) ∨
    (¬∃ entry, d.Owns call entry) ∧ ∃ status, d.settleLive call now = .reply status ∧
      (status.code = .notFound ∨ status.code = .permissionDenied ∨ status.code = .failedPrecondition) := by
  unfold settleLive
  cases known : d.inFlight.lookup call.id with
  | none =>
    refine Or.inr ⟨?_, _, rfl, Or.inl rfl⟩
    intro ⟨entry, found, _⟩
    rw [known] at found
    cases found
  | some entry =>
    have unique : ∀ other, d.Owns call other → other = entry := fun other owns =>
      (Option.some.inj (known.symm.trans owns.1)).symm
    by_cases owner : entry.consumerId = call.owner
    · by_cases token : entry.attemptToken = call.token
      · refine Or.inl ⟨entry, ⟨known, owner, token⟩, ?_⟩
        by_cases past : d.leaseOver entry now
        · simp only [owner, token, past, ne_eq, not_true_eq_false, ↓reduceIte, true_and, false_and, or_false]
        · simp only [owner, token, past, ne_eq, not_true_eq_false, ↓reduceIte, not_false_eq_true, true_and,
            false_and, false_or]
      · simp only [owner, token, ne_eq, not_true_eq_false, not_false_eq_true, ↓reduceIte]
        exact Or.inr ⟨fun ⟨other, owns⟩ => token (unique other owns ▸ owns.2.2), _, rfl, Or.inr (Or.inr rfl)⟩
    · simp only [owner, ne_eq, not_false_eq_true, ↓reduceIte]
      exact Or.inr ⟨fun ⟨other, owns⟩ => owner (unique other owns ▸ owns.2.1), _, rfl, Or.inr (Or.inl rfl)⟩

theorem replay_ok {record : Completion} (accepted : replay record call = .ok) :
    record.owner = call.owner ∧ record.kind = call.kind := by
  unfold replay at accepted
  split at accepted
  · cases accepted
  next same =>
    split at accepted
    next kind => exact ⟨not_not.mp same, kind⟩
    · cases accepted

theorem settleLive_reply {now : Time} {status : Status} (decided : d.settleLive call now = .reply status) :
    status.code ≠ .ok := by
  rcases d.settleLive_cases call now with ⟨entry, _, ⟨_, verdict⟩ | ⟨_, verdict⟩⟩ | ⟨_, other, verdict, code⟩
  · rw [verdict] at decided
    cases decided
  · rw [verdict] at decided
    cases decided
  · rw [verdict] at decided
    cases decided
    intro ok
    rw [ok] at code
    simp at code

/-- The only answer with the code `OK` is the plain one. -/
theorem settleLocked_reply {status : Status} (decided : d.settleLocked cfg call recordAt leaseAt = (d', .reply status))
    (ok : status.code = .ok) : status = .ok := by
  unfold settleLocked at decided
  split at decided
  · exact absurd ok (settleLive_reply (Prod.mk.inj decided).2)
  · split at decided
    · exact absurd ok (settleLive_reply (Prod.mk.inj decided).2)
    · split at decided
      · exact absurd ok (settleLive_reply (Prod.mk.inj decided).2)
      · split at decided
        · obtain rfl := Verdict.reply.inj (Prod.mk.inj decided).2
          unfold replay at ok ⊢
          split at ok
          · cases ok
          next owner =>
            split at ok
            next kind => rw [if_neg owner, if_pos kind]
            · cases ok
        · exact absurd ok (settleLive_reply (Prod.mk.inj decided).2)

end Deliveries

namespace Broker
variable {σ : Type}

/-- Where `finish_locked` sends a message, by the fate that its readings decide. -/
inductive HandOff (b : Broker σ) (levelCost : Nat → ℚ) (msg : Message) (kind : Settlement)
    (r : FinishReadings) : Fate → Broker σ → Prop where
  | expired (details : Bytes) (dead : msg.isExpired r.expiryAt) :
      HandOff b levelCost msg kind r (.deadLettered .ttlExpired)
        { b with levelCost, dlq := b.dlq ++ [⟨msg, .ttlExpired, r.placeAt, details⟩] }
  | acknowledged (live : ¬msg.isExpired r.expiryAt) (success : kind = .ack) :
      HandOff b levelCost msg kind r .acknowledged { b with levelCost }
  | exhausted (details : Bytes) (live : ¬msg.isExpired r.expiryAt) (failure : kind ≠ .ack)
      (last : (failOnce msg).maxRetries ≤ (failOnce msg).retryCount) :
      HandOff b levelCost msg kind r (.deadLettered .maxRetriesExceeded)
        { b with levelCost, dlq := b.dlq ++ [⟨failOnce msg, .maxRetriesExceeded, r.placeAt, details⟩] }
  | retried (live : ¬msg.isExpired r.expiryAt) (failure : kind ≠ .ack)
      (more : (failOnce msg).retryCount < (failOnce msg).maxRetries) :
      HandOff b levelCost msg kind r .retried
        { b with
          levelCost
          queue := (b.queue.enqueue (levelShareCost { b with levelCost })
            { failOnce msg with priority := msg.originalPriority } r.placeAt).getD b.queue }

theorem noteLevelCost_eq (cfg : HarbingerConfig) (b : Broker σ) (level : Nat) (sample : Option Int) :
    ∃ levelCost, noteLevelCost cfg b level sample = { b with levelCost } := by
  unfold noteLevelCost
  split
  · exact ⟨_, rfl⟩
  · exact ⟨b.levelCost, rfl⟩

theorem finishHand_handOff (cfg : HarbingerConfig) (b : Broker σ) (entry : InFlightEntry)
    (kind : Settlement) (reason : Bytes) (measurement : Option Int) (r : FinishReadings) :
    ∃ levelCost, HandOff b levelCost entry.message kind r (System.fate entry.message kind r.expiryAt)
      (b.finishHand cfg entry kind reason measurement r).broker := by
  obtain ⟨levelCost, noted⟩ := noteLevelCost_eq cfg b entry.message.priority
    (taught cfg kind (entry.message.isExpired r.expiryAt) measurement)
  refine ⟨levelCost, ?_⟩
  simp only [finishHand, noted, System.fate, decide_eq_true_eq]
  by_cases dead : entry.message.isExpired r.expiryAt
  · simp only [dead, ↓reduceIte]
    exact .expired _ dead
  · by_cases success : kind = .ack
    · subst success
      simp only [dead, ↓reduceIte]
      exact .acknowledged dead rfl
    · by_cases last : (failOnce entry.message).maxRetries ≤ (failOnce entry.message).retryCount
      · simp only [dead, success, last, ↓reduceIte]
        exact .exhausted _ dead success last
      · simp only [dead, success, last, ↓reduceIte]
        exact .retried dead success (not_le.mp last)

namespace HandOff
variable {b after : Broker σ} {levelCost : Nat → ℚ} {msg : Message} {kind : Settlement} {r : FinishReadings}
  {fate : Fate}

theorem deliveries (handed : HandOff b levelCost msg kind r fate after) : after.deliveries = b.deliveries := by
  cases handed <;> rfl

theorem idCounter (handed : HandOff b levelCost msg kind r fate after) : after.idCounter = b.idCounter := by
  cases handed <;> rfl

theorem queue (handed : HandOff b levelCost msg kind r fate after) {now : Time} (valid : b.queue.Valid now)
    (inside : msg.originalPriority < b.queue.numLevels) :
    after.queue.Valid now ∧ after.queue.params = b.queue.params ∧
      (after.queue.messages.map Message.frozen).Perm
        ((if fate = .retried then [(failOnce msg).frozen] else []) ++ b.queue.messages.map Message.frozen) := by
  cases handed with
  | retried live failure more =>
    obtain ⟨queue, placed⟩ := @MultiLevelQueue.placeMessage_exists b.queue (levelShareCost { b with levelCost })
      { failOnce msg with priority := msg.originalPriority } inside false r.placeAt
    obtain ⟨kept, params, perm⟩ := MultiLevelQueue.placeMessage_spec valid le_rfl placed
    rw [MultiLevelQueue.enqueue, placed]
    exact ⟨kept, params, perm.map Message.frozen⟩
  | _ => exact ⟨valid, rfl, List.Perm.refl _⟩

end HandOff

end Broker

end Harbinger
