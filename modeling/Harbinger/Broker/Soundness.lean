import Harbinger.Broker.Abstraction
import Harbinger.Broker.Ingress
import Harbinger.Broker.Settlement

/-! The invariant of the running broker that its ledger does not express: the queue and the
delivery tables are consistent, threads hold what they may assume, generated texts are
distinct, and every retained record stands for a settlement that happened. -/

namespace Harbinger
open Container Ledger

/-- A text whose last part is a value that the counter has already passed. -/
def Numbered (counter : Nat) (text : Bytes) : Prop :=
  ∃ before value, value < counter ∧ text = before ++ 45 :: decimal value

theorem Numbered.mono {counter later : Nat} {text : Bytes} (numbered : Numbered counter text)
    (order : counter ≤ later) : Numbered later text := by
  obtain ⟨before, value, below, same⟩ := numbered
  exact ⟨before, value, below.trans_le order, same⟩

theorem Numbered.fresh {counter : Nat} {before text : Bytes} (numbered : Numbered counter text) :
    text ≠ before ++ 45 :: decimal counter := by
  obtain ⟨other, value, below, rfl⟩ := numbered
  intro same
  have digits := hyphenated_suffix (hyphen_notMem_decimal value) (hyphen_notMem_decimal counter) same
  exact below.ne (decimal_injective digits)

/-- Texts drawn from the counter, each once. -/
structure Drawn (counter : Nat) (texts : Multiset Bytes) : Prop where
  distinct : texts.Nodup
  numbered : ∀ text ∈ texts, Numbered counter text

namespace Drawn
variable {counter : Nat} {texts fewer : Multiset Bytes}

theorem of_le (drawn : Drawn counter texts) (included : fewer ≤ texts) : Drawn counter fewer where
  distinct := Multiset.nodup_of_le included drawn.distinct
  numbered := fun text member => drawn.numbered text (Multiset.subset_of_le included member)

theorem draw (drawn : Drawn counter texts) (before : Bytes) :
    Drawn (counter + 1) ((before ++ 45 :: decimal counter) ::ₘ texts) where
  distinct := Multiset.nodup_cons.mpr
    ⟨fun member => (drawn.numbered _ member).fresh rfl, drawn.distinct⟩
  numbered := Multiset.forall_mem_cons.mpr
    ⟨⟨before, counter, Nat.lt_succ_self counter, rfl⟩,
      fun text member => (drawn.numbered text member).mono (Nat.le_succ counter)⟩

end Drawn

theorem Broker.attemptToken_eq {σ : Type} (b : Broker σ) (now : Time) :
    b.attemptToken now = (b.instanceToken ++ 45 :: decimalInt now) ++ 45 :: decimal b.idCounter := by
  simp only [attemptToken, generateId, List.append_assoc, List.cons_append]

theorem Drawn.pass {σ : Type} {s s' : System σ} {counter : Nat} (drawn : Drawn counter s.drawn) {text : Bytes}
    (given : gather Task.drawn s.tasks = text ::ₘ gather Task.drawn s'.tasks)
    (taken : (↑((accepted s'.history).map Message.id) + ↑(issued s'.history) : Multiset Bytes) =
      text ::ₘ (↑((accepted s.history).map Message.id) + ↑(issued s.history))) : Drawn counter s'.drawn := by
  have same : s'.drawn = s.drawn := by
    rw [System.drawn, System.drawn, given, add_assoc, add_assoc, taken, Multiset.add_cons, Multiset.cons_add]
  rw [same]
  exact drawn

/-- What a thread may assume about the message it holds. -/
def Task.Ready (cfg : HarbingerConfig) : Task → Prop
  | .submitting msg => (msg.deliveryCount = 0 ∧ msg.retryCount = 0) ∧ msg.routingContext = none
  | .routed msg => (msg.deliveryCount = 0 ∧ msg.retryCount = 0) ∧
      msg.maxRetries = cfg.defaultMaxRetries.toNat ∧ msg.priority = msg.originalPriority ∧
      Broker.Admitted cfg msg
  | .selected _ msg => msg.priority < cfg.numLevels.toNat ∧ msg.priority ≤ msg.originalPriority
  | .staged _ msg _ => msg.priority < cfg.numLevels.toNat ∧ msg.priority ≤ msg.originalPriority
  | _ => True

/-- The entry that the holder of the lock is finishing is in the table, and its settlement is
on record; a request finishes its own attempt, and an answer `OK` means as it asked. -/
def Holder.Grounded (d : Deliveries) (history : List Event) : Holder → Prop
  | .settling call entry kind status _ => d.inFlight.lookup call.id = some entry ∧
      .settled entry.consumerId entry.attemptToken call.id kind ∈ history ∧
      entry.consumerId = call.owner ∧ entry.attemptToken = call.token ∧
      (status.code = .ok → status = .ok ∧ kind = call.kind)
  | .maintaining .. => True
  | .reclaiming _ _ _ id entry => d.inFlight.lookup id = some entry ∧
      .settled entry.consumerId entry.attemptToken id .expired ∈ history

theorem Holder.Grounded.mono {d : Deliveries} {history later : List Event} {holder : Holder}
    (grounded : holder.Grounded d history) (included : history ⊆ later) : holder.Grounded d later := by
  cases holder with
  | settling => exact ⟨grounded.1, included grounded.2.1, grounded.2.2⟩
  | maintaining => trivial
  | reclaiming => exact ⟨grounded.1, included grounded.2⟩

def Completion.event (record : Completion) : Event :=
  .settled record.owner record.token record.messageId record.kind

structure Sound {σ : Type} (cfg : HarbingerConfig) (s : System σ) : Prop where
  queue : s.broker.queue.Valid s.now
  levels : s.broker.queue.numLevels = cfg.numLevels.toNat
  weights : s.broker.queue.weights = cfg.levelWeights
  ready : ∀ task ∈ s.tasks, task.Ready cfg
  admitted : ∀ msg ∈ accepted s.history, Broker.Admitted cfg msg
  tables : s.broker.deliveries.Consistent cfg.completionCacheMaxEntries s.lockClock
  clock : s.lockClock ≤ s.now
  drawn : Drawn s.broker.idCounter s.drawn
  recorded : ∀ slot ∈ s.broker.deliveries.completions.slots, slot.value.event ∈ s.history
  attempt : ∀ id entry, s.broker.deliveries.inFlight.lookup id = some entry →
    entry.attemptId = entry.message.deliveryCount
  holding : ∀ holder, s.holder = some holder → holder.Grounded s.broker.deliveries s.history

namespace Sound
variable {σ : Type} {cfg : HarbingerConfig} {s : System σ}

theorem initial {b : Broker σ} {predictor : Option σ} {instanceToken : Bytes} {counter : Nat}
    (made : Broker.create cfg predictor instanceToken counter = .ok b) (now : Time) :
    Sound cfg (System.initial b now) := by
  obtain ⟨queue, valid, same⟩ := bind_ok.mp made
  obtain rfl := Except.ok.inj same
  have levels := (MultiLevelQueue.create_ok valid).1
  exact {
    queue := MultiLevelQueue.create_valid valid now
    levels := by rw [System.initial, levels]
    weights := by rw [System.initial, levels]
    ready := fun task member => by cases member
    admitted := fun msg member => by cases member
    tables := Deliveries.empty_consistent _ _
    clock := le_rfl
    drawn := ⟨Multiset.nodup_zero, fun text member => absurd member (Multiset.notMem_zero text)⟩
    recorded := fun slot member => by cases member
    attempt := fun id entry found => by cases found
    holding := fun holder held => by cases held }

theorem withQueue (sound : Sound cfg s) {queue : MultiLevelQueue} (valid : queue.Valid s.now)
    (params : queue.params = s.broker.queue.params) : Sound cfg (s.withQueue queue) :=
  { sound with
    queue := valid
    levels := (congrArg Prod.fst params).trans sound.levels
    weights := (congrArg (fun params => params.2.2.2) params).trans sound.weights }

theorem retask (sound : Sound cfg s) {tasks : List Task} (ready : ∀ task ∈ tasks, task.Ready cfg)
    (drawn : gather Task.drawn tasks ≤ gather Task.drawn s.tasks) : Sound cfg { s with tasks } :=
  { sound with
    ready := ready
    drawn := sound.drawn.of_le (add_le_add_left (add_le_add_left drawn _) _) }

theorem proceed (sound : Sound cfg s) {position : Nat} {task : Task} {next : List Task}
    (found : s.tasks[position]? = some task) (ready : ∀ task ∈ next, task.Ready cfg)
    (drawn : gather Task.drawn next ≤ ↑task.drawn) : Sound cfg (s.proceed position next) := by
  refine sound.retask ?_ ?_
  · exact List.forall_mem_append.mpr
      ⟨fun other member => sound.ready other (List.mem_of_mem_eraseIdx member), ready⟩
  · rw [gather_append, gather_eraseIdx found, add_comm]
    exact add_le_add_left drawn _

theorem log (sound : Sound cfg s) {events : List Event} (unaccepted : accepted events = [])
    (unissued : issued events = []) : Sound cfg (s.log events) :=
  { sound with
    admitted := fun msg member => by
      rw [System.log, accepted_append, unaccepted, List.append_nil] at member
      exact sound.admitted msg member
    drawn := by
      have same : (s.log events).drawn = s.drawn := by
        simp only [System.drawn, System.log, accepted_append, issued_append, unaccepted, unissued,
          List.append_nil]
      rw [same]
      exact sound.drawn
    recorded := fun slot member => List.mem_append_left _ (sound.recorded slot member)
    holding := fun holder held => (sound.holding holder held).mono (List.subset_append_left _ _) }

theorem spawn (sound : Sound cfg s) {task : Task} (ready : task.Ready cfg) (undrawn : task.drawn = []) :
    Sound cfg { s with tasks := s.tasks ++ [task] } := by
  refine sound.retask (List.forall_mem_append.mpr ⟨sound.ready, List.forall_mem_singleton.mpr ready⟩) ?_
  rw [gather_append, gather_singleton, undrawn, Multiset.coe_nil, add_zero]

theorem draw (sound : Sound cfg s) (before : Bytes) {tasks : List Task}
    (ready : ∀ task ∈ tasks, task.Ready cfg)
    (drawn : gather Task.drawn tasks = (before ++ 45 :: decimal s.broker.idCounter) ::ₘ gather Task.drawn s.tasks) :
    Sound cfg { s with broker := s.broker.countId, tasks } :=
  { sound with
    ready := ready
    drawn := by
      change Drawn (s.broker.idCounter + 1) (gather Task.drawn tasks + _ + _)
      rw [drawn, Multiset.cons_add, Multiset.cons_add]
      exact sound.drawn.draw before }

/-- The holder of the lock has handed its message on. -/
theorem handOver (sound : Sound cfg s) {b : Broker σ} (valid : b.queue.Valid s.now)
    (params : b.queue.params = s.broker.queue.params) (tables : b.deliveries = s.broker.deliveries)
    (counter : b.idCounter = s.broker.idCounter) {lockClock : Time} (started : s.lockClock ≤ lockClock)
    (bound : lockClock ≤ s.now) {events : List Event} (unaccepted : accepted events = [])
    (unissued : issued events = []) {holder : Holder}
    (grounded : holder.Grounded s.broker.deliveries (s.history ++ events)) (finished : List Message)
    (emitted : List Ml.FeedbackEvent) :
    Sound cfg { s with
      broker := b, lockClock, finished, emitted
      history := s.history ++ events
      holder := some holder } := by
  have logged := sound.log unaccepted unissued
  exact {
    queue := valid
    levels := (congrArg Prod.fst params).trans sound.levels
    weights := (congrArg (fun params => params.2.2.2) params).trans sound.weights
    ready := sound.ready
    admitted := logged.admitted
    tables := tables ▸ sound.tables.later started
    clock := bound
    drawn := by
      change Drawn b.idCounter (s.log events).drawn
      rw [counter]
      exact logged.drawn
    recorded := by
      change ∀ slot ∈ b.deliveries.completions.slots, slot.value.event ∈ s.history ++ events
      rw [tables]
      exact logged.recorded
    attempt := by
      change ∀ id entry, b.deliveries.inFlight.lookup id = some entry → _
      rw [tables]
      exact sound.attempt
    holding := by
      intro other held
      rw [← Option.some.inj held]
      change holder.Grounded b.deliveries _
      rw [tables]
      exact grounded }

theorem relock (sound : Sound cfg s) {lockClock : Time} (started : s.lockClock ≤ lockClock)
    (bound : lockClock ≤ s.now) : Sound cfg { s with lockClock } :=
  { sound with tables := sound.tables.later started, clock := bound }

theorem forget (sound : Sound cfg s) (free : s.holder = none) {token : Bytes} {now : Time} {d : Deliveries}
    (forgets : Deliveries.Forgets cfg s.broker.deliveries token now d) :
    Sound cfg { s with broker := { s.broker with deliveries := d } } :=
  { sound with
    tables := forgets.consistent sound.tables
    recorded := fun slot member => sound.recorded slot (forgets.completions member)
    attempt := fun id entry known => sound.attempt id entry (forgets.inFlight ▸ known)
    holding := fun holder held => by
      rw [show s.holder = some holder from held] at free
      cases free }

theorem prune (sound : Sound cfg s) {now : Time} (started : s.lockClock ≤ now) (bound : now ≤ s.now)
    (budget : Nat) : Sound cfg { s with
      broker := { s.broker with
        deliveries := Deliveries.pruneCompletionsLocked cfg now budget s.broker.deliveries }
      lockClock := now
      holder := none } := by
  obtain ⟨inFlight, _, completions⟩ := Deliveries.prune_tables cfg now budget s.broker.deliveries
  exact { sound with
    tables := (sound.tables.prune cfg now budget).later started
    clock := bound
    recorded := fun slot member => sound.recorded slot (completions member)
    attempt := fun id entry known => sound.attempt id entry (inFlight ▸ known)
    holding := fun holder held => by cases held }

/-- The attempt that was handed on becomes a record. -/
theorem closeEntry (sound : Sound cfg s) {id : Bytes} {entry : InFlightEntry} {kind : Settlement}
    (known : s.broker.deliveries.inFlight.lookup id = some entry)
    (logged : .settled entry.consumerId entry.attemptToken id kind ∈ s.history) {doneAt pruneAt : Time}
    (started : s.lockClock ≤ doneAt) (order : doneAt ≤ pruneAt) (bound : pruneAt ≤ s.now)
    {holder : Option Holder} (between : ∀ next, holder = some next → next.pending? = none) :
    Sound cfg { s.closeEntry cfg id entry kind doneAt pruneAt with holder } := by
  obtain ⟨inFlight, _, completions⟩ := Deliveries.prune_tables cfg pruneAt 1
    (s.broker.deliveries.record id entry kind doneAt)
  exact { sound with
    tables := (sound.tables.finishClose known kind started pruneAt).later order
    clock := bound
    recorded := fun slot member => by
      rcases List.mem_append.mp (LinkedList.slots_pushBack _ _ ▸ completions member) with old | new
      · exact sound.recorded slot old
      · rw [List.mem_singleton.mp new]
        exact logged
    attempt := fun other found present => by
      have remaining : (s.broker.deliveries.inFlight.erase id).lookup other = some found :=
        (congrArg (AList.lookup other) inFlight).symm.trans present
      by_cases same : other = id
      · rw [same, AList.lookup_erase] at remaining
        cases remaining
      · exact sound.attempt other found (AList.lookup_erase_ne same ▸ remaining)
    holding := fun next held => by
      have idle := between next held
      cases next with
      | maintaining => trivial
      | settling => cases idle
      | reclaiming => cases idle }

end Sound

end Harbinger
