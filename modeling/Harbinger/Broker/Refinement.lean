import Harbinger.Broker.Soundness

/-! Every step of the running broker is a run of its ledger: one lemma for each action, and
from them the laws of the ledger in every reachable state. -/

namespace Harbinger
open Container Ledger

/-- The step is a run of the ledger and keeps the invariant. -/
structure Refines {σ : Type} (cfg : HarbingerConfig) (s s' : System σ) : Prop where
  steps : Steps s.ledger s'.ledger
  sound : Sound cfg s'

namespace Refines
variable {σ : Type} {cfg : HarbingerConfig} {s s' : System σ}

theorem silent (same : s'.ledger = s.ledger) (sound : Sound cfg s') : Refines cfg s s' :=
  ⟨same ▸ .refl, sound⟩

theorem single {L : Ledger} (step : Step s.ledger L) (same : s'.ledger = L) (sound : Sound cfg s') :
    Refines cfg s s' := ⟨same ▸ .single step, sound⟩

section Ingress

theorem tick (sound : Sound cfg s) {now : Time} (order : s.now ≤ now) : Refines cfg s { s with now } :=
  silent rfl { sound with queue := sound.queue.mono order, clock := sound.clock.trans order }

theorem submit (sound : Sound cfg s) (req : SubmitRequest) (idAt arrivalAt : Time) :
    Refines cfg s { s with
      broker := s.broker.countId
      tasks := s.tasks ++ [.submitting (s.broker.accept req idAt arrivalAt)] } := by
  refine silent (System.ledger_spawn rfl rfl) (sound.draw (decimalInt idAt) ?_ ?_)
  · exact List.forall_mem_append.mpr ⟨sound.ready, List.forall_mem_singleton.mpr ⟨⟨rfl, rfl⟩, rfl⟩⟩
  · rw [gather_append, gather_singleton, add_comm]
    rfl

theorem route [Ml.Inference σ] (checked : cfg.Checked) (sound : Sound cfg s) {position : Nat} {msg : Message}
    (found : s.tasks[position]? = some (.submitting msg)) (r : Broker.PredictReadings) :
    Refines cfg s (System.proceed { s with broker := (s.broker.routeMessage cfg msg r).2 } position
      [.routed (s.broker.routeMessage cfg msg r).1]) := by
  obtain ⟨routed, predictor, same⟩ := s.broker.routeMessage_routed checked msg r
  obtain ⟨counts, unrouted⟩ := sound.ready _ (List.mem_of_getElem? found)
  have learned : Sound cfg { s with broker := { s.broker with predictor } } := { sound with }
  rw [same]
  refine silent ((System.ledger_proceed found rfl rfl).trans rfl) (learned.proceed found ?_ ?_)
  · refine List.forall_mem_singleton.mpr ⟨?_, routed.maxRetries, routed.native, routed.admitted unrouted⟩
    rw [routed.deliveryCount, routed.retryCount]
    exact counts
  · rw [gather_singleton]
    simp only [Task.drawn, routed.id, le_refl]

/-- The message enters the queue, and with it the ledger. -/
theorem enqueue (checked : cfg.Checked) (sound : Sound cfg s) {position : Nat} {msg : Message}
    (found : s.tasks[position]? = some (.routed msg)) {queue : MultiLevelQueue} {enqueueAt : Time}
    (placed : s.broker.queue.enqueue s.broker.levelShareCost msg enqueueAt = some queue)
    (emitted : List Ml.FeedbackEvent) :
    Refines cfg s (System.log { (s.withQueue queue).proceed position [] with emitted }
      [.accepted msg.frozen]) := by
  obtain ⟨⟨unsent, untried⟩, budget, native, admitted⟩ := sound.ready _ (List.mem_of_getElem? found)
  obtain ⟨valid, params, perm⟩ := MultiLevelQueue.placeMessage_spec sound.queue native.le placed
  have drawn := sound.drawn
  have texts : gather Task.drawn s.tasks = msg.id ::ₘ gather Task.drawn (s.tasks.eraseIdx position) := by
    rw [gather_eraseIdx found]
    rfl
  have fresh : msg.id ∉ (accepted s.history).map Message.id := by
    have distinct := drawn.distinct
    rw [System.drawn, texts, Multiset.cons_add, Multiset.cons_add, Multiset.nodup_cons] at distinct
    exact fun member => distinct.1 (Multiset.mem_add.mpr
      (Or.inl (Multiset.mem_add.mpr (Or.inr (Multiset.mem_coe.mpr member)))))
  have step := Step.accept s.ledger msg.frozen fresh unsent untried (budget ▸ checked.retries)
    (budget ▸ cfg.defaultMaxRetries.toNat_lt)
  refine single step ?_ ?_
  · apply Ledger.ext
    case waiting => exact Multiset.coe_eq_coe.mpr (perm.map Message.frozen)
    case held =>
      change gather Task.held (s.tasks.eraseIdx position ++ []) = gather Task.held s.tasks
      rw [List.append_nil, gather_eraseIdx found]
      exact (zero_add _).symm
    case condemned =>
      change gather Task.condemned (s.tasks.eraseIdx position ++ []) = gather Task.condemned s.tasks
      rw [List.append_nil, gather_eraseIdx found]
      exact (zero_add _).symm
    all_goals rfl
  · have quiet : Sound cfg ((s.withQueue queue).proceed position []) :=
      (sound.withQueue valid params).proceed found (fun _ member => by cases member) (Multiset.zero_le _)
    exact { quiet with
      admitted := by
        change ∀ other ∈ accepted (s.history ++ [.accepted msg.frozen]), _
        rw [accepted_append]
        exact List.forall_mem_append.mpr ⟨sound.admitted, List.forall_mem_singleton.mpr { admitted with }⟩
      drawn := by
        refine sound.drawn.pass (texts.trans (by rw [← List.append_nil (s.tasks.eraseIdx position)]; rfl)) ?_
        change (↑((accepted (s.history ++ [.accepted msg.frozen])).map Message.id) +
          ↑(issued (s.history ++ [.accepted msg.frozen])) : Multiset Bytes) = _
        rw [accepted_append, issued_append, List.map_append]
        change (↑((accepted s.history).map Message.id ++ [msg.id]) + ↑(issued s.history ++ ([] : List Bytes)) :
          Multiset Bytes) = _
        rw [coe_append_singleton, List.append_nil, Multiset.cons_add]
      recorded := fun slot member => List.mem_append_left _ (sound.recorded slot member)
      holding := fun holder held => (sound.holding holder held).mono (List.subset_append_left _ _) }

end Ingress

section Pull

/-- A batch leaves the queue and is in the hands of a thread, whichever one it is. -/
theorem sweep (sound : Sound cfg s) (errand : Errand) (reading : Time) {tasks : List Task}
    (ready : ∀ task ∈ tasks, task.Ready cfg) (held : gather Task.held tasks = gather Task.held s.tasks)
    (condemned : gather Task.condemned tasks =
      gather Task.condemned s.tasks + ↑(s.sweepFor cfg errand reading).2.condemned)
    (drawn : gather Task.drawn tasks ≤ gather Task.drawn s.tasks) :
    Refines cfg s { (s.sweepFor cfg errand reading).1 with tasks } := by
  obtain ⟨valid, params, expired, perm⟩ := MultiLevelQueue.sweepExpiredBatch_spec reading
    cfg.maintenanceBatchSize sound.queue
  have judgements : ∀ hand : List Message, accepted (hand.map (System.judgeExpired .sweep reading)) = [] ∧
      issued (hand.map (System.judgeExpired .sweep reading)) = [] := by
    intro hand
    simp [accepted, issued, System.judgeExpired, Event.accepted?, Event.issued?, List.filterMap_eq_nil_iff]
  have moved := @sweep_steps reading
    ((MultiLevelQueue.sweepExpiredBatch reading cfg.maintenanceBatchSize s.broker.queue).1.map Message.frozen)
    ↑((MultiLevelQueue.sweepExpiredBatch reading cfg.maintenanceBatchSize s.broker.queue).2.messages.map
      Message.frozen) s.ledger
    (by
      rw [Multiset.coe_add, ← List.map_append]
      exact Multiset.coe_eq_coe.mpr (perm.map Message.frozen))
    (by simpa using expired)
  refine ⟨?_, ?_⟩
  · convert moved using 1
    apply Ledger.ext
    case held => exact held
    case condemned =>
      refine condemned.trans ?_
      simp only [log, System.ledger, System.sweepFor, Task.condemned, List.map_map, Function.comp_def]
    case history =>
      simp only [log, System.ledger, System.sweepFor, System.log, List.map_map, Function.comp_def]
      rfl
    all_goals rfl
  · exact (((sound.withQueue valid params).log (judgements _).1 (judgements _).2).retask ready drawn)

variable {position : Nat} {consumer : Bytes} {msg : Message}

/-- One condemned message becomes a DLQ entry. -/
theorem bury (sound : Sound cfg s) {errand : Errand} {rest : List Message} {since dlqAt : Time}
    (found : s.tasks[position]? = some (.burying errand (msg :: rest) since)) (order : since ≤ dlqAt)
    (emitted : List Ml.FeedbackEvent) :
    Refines cfg s (System.proceed { s with
      broker := s.broker.pushDlq msg .ttlExpired dlqAt errand.details, emitted } position
        [.burying errand rest since]) := by
  have shape : s.ledger.condemned = (msg.frozen, since) ::ₘ
      (↑(rest.map fun msg => (msg.frozen, since)) + gather Task.condemned (s.tasks.eraseIdx position)) :=
    gather_eraseIdx found
  refine single (.bury s.ledger msg.frozen since _ shape dlqAt order errand.details) ?_ ?_
  · apply Ledger.ext
    case held =>
      change gather Task.held (s.tasks.eraseIdx position ++ [.burying errand rest since]) = gather Task.held s.tasks
      rw [gather_append, gather_eraseIdx found, add_comm]
      rfl
    case condemned =>
      change gather Task.condemned (s.tasks.eraseIdx position ++ [.burying errand rest since]) = _
      rw [gather_append, gather_singleton, add_comm]
      rfl
    case dead => exact List.map_append
    all_goals rfl
  · have buried : Sound cfg { s with
        broker := s.broker.pushDlq msg .ttlExpired dlqAt errand.details, emitted } := { sound with }
    exact buried.proceed found (List.forall_mem_singleton.mpr trivial) le_rfl

theorem dequeue (sound : Sound cfg s) (found : s.tasks[position]? = some (.swept consumer))
    {queue : MultiLevelQueue}
    (taken : s.broker.queue.dequeueLocked s.broker.levelShareCost = some (msg, queue)) :
    Refines cfg s ((s.withQueue queue).proceed position [.selected consumer msg]) := by
  obtain ⟨valid, params, perm⟩ := MultiLevelQueue.dequeueLocked_spec sound.queue taken
  have inside := MultiLevelQueue.mem_messages sound.queue (perm.mem_iff.mpr (List.mem_cons_self ..))
  have shape : s.ledger.waiting = msg.frozen ::ₘ ↑(queue.messages.map Message.frozen) :=
    Multiset.coe_eq_coe.mpr (perm.map Message.frozen)
  refine single (.take s.ledger msg.frozen _ shape) ?_ ?_
  · apply Ledger.ext
    case held =>
      change gather Task.held (s.tasks.eraseIdx position ++ [.selected consumer msg]) = _ ::ₘ gather Task.held s.tasks
      rw [gather_append, gather_eraseIdx found, add_comm]
      exact congrArg _ (zero_add _).symm
    case condemned =>
      change gather Task.condemned (s.tasks.eraseIdx position ++ [.selected consumer msg]) =
        gather Task.condemned s.tasks
      rw [gather_append, gather_eraseIdx found, add_comm]
      rfl
    all_goals rfl
  · refine (sound.withQueue valid params).proceed found ?_ (Multiset.zero_le _)
    exact List.forall_mem_singleton.mpr ⟨sound.levels ▸ inside.1, inside.2⟩

theorem held_eq (found : s.tasks[position]? = some (.selected consumer msg)) :
    s.ledger.held = msg.frozen ::ₘ gather Task.held (s.tasks.eraseIdx position) := gather_eraseIdx found

theorem condemn (sound : Sound cfg s) (found : s.tasks[position]? = some (.selected consumer msg))
    {expiryAt : Time} (expired : msg.isExpired expiryAt) :
    Refines cfg s ((s.log [System.judgeExpired .selection expiryAt msg]).proceed position
      [.burying (.pullExpiry consumer) [msg] expiryAt]) := by
  refine single (.condemn s.ledger msg.frozen _ (held_eq found) expiryAt expired) ?_ ?_
  · apply Ledger.ext
    case held =>
      change gather Task.held (s.tasks.eraseIdx position ++ _) = _
      rw [gather_append]
      exact add_zero _
    case condemned =>
      change gather Task.condemned (s.tasks.eraseIdx position ++ _) = _ ::ₘ gather Task.condemned s.tasks
      rw [gather_append, gather_eraseIdx found, add_comm]
      exact congrArg _ (zero_add _).symm
    all_goals rfl
  · exact (sound.log rfl rfl).proceed found (List.forall_mem_singleton.mpr trivial) (Multiset.zero_le _)

/-- A live selection gets its attempt token. -/
theorem keep (sound : Sound cfg s) (found : s.tasks[position]? = some (.selected consumer msg))
    {expiryAt : Time} (live : ¬msg.isExpired expiryAt) (idAt : Time) :
    Refines cfg s ((System.log { s with broker := s.broker.countId }
      [.judged .selection msg.frozen expiryAt .kept]).proceed position
        [.staged consumer msg (s.broker.attemptToken idAt)]) := by
  have present : msg.frozen ∈ s.ledger.held := held_eq found ▸ Multiset.mem_cons_self _ _
  refine single (.keep s.ledger msg.frozen present expiryAt live) ?_ ?_
  · apply Ledger.ext
    case held =>
      change gather Task.held (s.tasks.eraseIdx position ++ _) = gather Task.held s.tasks
      rw [gather_append, gather_eraseIdx found, add_comm]
      rfl
    case condemned =>
      change gather Task.condemned (s.tasks.eraseIdx position ++ _) = gather Task.condemned s.tasks
      rw [gather_append, gather_eraseIdx found, add_comm]
      rfl
    all_goals rfl
  · have judged : Sound cfg (s.log [.judged .selection msg.frozen expiryAt .kept]) := sound.log rfl rfl
    refine judged.draw (s.broker.instanceToken ++ 45 :: decimalInt idAt) ?_ ?_
    · refine List.forall_mem_append.mpr
        ⟨fun other member => sound.ready other (List.mem_of_mem_eraseIdx member), ?_⟩
      have ready : Task.Ready cfg (.selected consumer msg) := sound.ready _ (List.mem_of_getElem? found)
      exact List.forall_mem_singleton.mpr ready
    · change gather Task.drawn (s.tasks.eraseIdx position ++ _) = _ ::ₘ gather Task.drawn s.tasks
      rw [gather_append, gather_singleton, gather_eraseIdx found, add_comm, Broker.attemptToken_eq]
      exact congrArg _ (zero_add _).symm

theorem settled_issued (lawful : Lawful s.ledger) {owner token id : Bytes} {kind : Settlement}
    (member : .settled owner token id kind ∈ s.history) : token ∈ issued s.history := by
  have known : token ∈ settled s.history := List.mem_filterMap.mpr ⟨_, member, rfl⟩
  have spread := lawful.fenced.spread
  exact Multiset.mem_coe.mp (spread ▸ Multiset.mem_add.mpr (Or.inr (Multiset.mem_coe.mpr known)))

theorem leased_issued (lawful : Lawful s.ledger) {id : Bytes} {entry : InFlightEntry}
    (known : s.live.lookup id = some entry) : entry.attemptToken ∈ issued s.history := by
  have member : entry.lease ∈ s.ledger.leased :=
    Multiset.mem_coe.mpr (List.mem_map.mpr ⟨⟨id, entry⟩, AList.mem_lookup_iff.mp known, rfl⟩)
  have spread := lawful.fenced.spread
  exact Multiset.mem_coe.mp (spread ▸ Multiset.mem_add.mpr (Or.inl (Multiset.mem_map_of_mem Lease.token member)))

theorem deliver (sound : Sound cfg s) (lawful : Lawful s.ledger) (free : s.holder = none) {token : Bytes}
    (found : s.tasks[position]? = some (.staged consumer msg token)) {leaseAt pullAt : Time}
    (started : s.lockClock ≤ leaseAt) (order : leaseAt ≤ pullAt) (bound : pullAt ≤ s.now)
    (absent : msg.id ∉ s.broker.deliveries.inFlight) :
    Refines cfg s (System.proceed (System.log { s with
        broker := { s.broker with
          deliveries := s.broker.deliveries.install cfg msg consumer token leaseAt pullAt }
        lockClock := pullAt } [.delivered consumer token (begun msg.frozen)]) position []) := by
  have unheld : s.pending = none := by rw [System.pending, free]; rfl
  have texts : gather Task.drawn s.tasks = token ::ₘ gather Task.drawn (s.tasks.eraseIdx position) :=
    gather_eraseIdx found
  have fresh : token ∉ issued s.history := by
    have distinct := sound.drawn.distinct
    rw [System.drawn, texts, Multiset.cons_add, Multiset.cons_add, Multiset.nodup_cons] at distinct
    exact fun member => distinct.1 (Multiset.mem_add.mpr (Or.inr (Multiset.mem_coe.mpr member)))
  have unrecorded : token ∉ s.broker.deliveries.completed := by
    intro member
    obtain ⟨handle, known⟩ := Option.isSome_iff_exists.mp (AList.lookup_isSome.mpr member)
    obtain ⟨slot, present, _, same⟩ := sound.tables.indexed token handle known
    exact fresh (same ▸ settled_issued lawful (sound.recorded slot present))
  have unused : ∀ id entry, s.broker.deliveries.inFlight.lookup id = some entry → entry.attemptToken ≠ token :=
    fun id entry known same =>
      fresh (same ▸ leased_issued lawful (by rw [System.live_of_free unheld]; exact known))
  have shape : s.ledger.held = msg.frozen ::ₘ gather Task.held (s.tasks.eraseIdx position) :=
    gather_eraseIdx found
  refine single (.deliver s.ledger msg.frozen _ shape consumer token fresh) ?_ ?_
  · apply Ledger.ext
    case held =>
      change gather Task.held (s.tasks.eraseIdx position ++ []) = gather Task.held (s.tasks.eraseIdx position)
      rw [List.append_nil]
    case condemned =>
      change gather Task.condemned (s.tasks.eraseIdx position ++ []) = gather Task.condemned s.tasks
      rw [List.append_nil, gather_eraseIdx found]
      exact (zero_add _).symm
    case leased =>
      simp only [System.ledger, System.live, System.pending, System.proceed, System.log, free, Option.bind_none,
        Deliveries.install, AList.entries_insert_of_notMem absent, List.map_cons, ← Multiset.cons_coe, log]
      rfl
    all_goals rfl
  · have installed := sound.tables.install cfg consumer absent unrecorded unused leaseAt pullAt
    have later : s.lockClock ≤ pullAt := started.trans order
    have quiet : Sound cfg (s.proceed position []) :=
      sound.proceed found (fun _ member => by cases member) (Multiset.zero_le _)
    exact { quiet with
      admitted := by
        change ∀ other ∈ accepted (s.history ++ [.delivered consumer token (begun msg.frozen)]), _
        rw [accepted_append]
        exact List.forall_mem_append.mpr ⟨sound.admitted, fun _ member => by cases member⟩
      tables := installed.later later
      clock := bound
      drawn := by
        refine sound.drawn.pass (texts.trans (by rw [← List.append_nil (s.tasks.eraseIdx position)]; rfl)) ?_
        change (↑((accepted (s.history ++ [.delivered consumer token (begun msg.frozen)])).map Message.id) +
          ↑(issued (s.history ++ [.delivered consumer token (begun msg.frozen)])) : Multiset Bytes) = _
        rw [accepted_append, issued_append]
        change (↑((accepted s.history ++ []).map Message.id) + ↑(issued s.history ++ [token]) :
          Multiset Bytes) = _
        rw [coe_append_singleton, List.append_nil, Multiset.add_cons]
      recorded := fun slot member => List.mem_append_left _ (sound.recorded slot member)
      attempt := by
        intro id entry known
        by_cases same : id = msg.id
        · subst same
          have stored := Option.some.inj ((AList.lookup_insert _).symm.trans known)
          rw [← stored]
        · exact sound.attempt id entry ((AList.lookup_insert_ne same).symm.trans known)
      holding := fun holder held => by
        rw [show s.holder = some holder from held] at free
        cases free }

theorem restore (sound : Sound cfg s) {token : Bytes}
    (found : s.tasks[position]? = some (.staged consumer msg token)) :
    Refines cfg s ((s.withQueue
      ((s.broker.queue.requeueFront s.broker.levelShareCost msg).getD s.broker.queue)).proceed position []) := by
  obtain ⟨inside, native⟩ := sound.ready _ (List.mem_of_getElem? found)
  obtain ⟨queue, placed⟩ := s.broker.queue.placeMessage_exists s.broker.levelShareCost
    (sound.levels ▸ inside) true 0
  obtain ⟨valid, params, perm⟩ := MultiLevelQueue.placeMessage_spec sound.queue native placed
  have shape : s.ledger.held = msg.frozen ::ₘ gather Task.held (s.tasks.eraseIdx position) :=
    gather_eraseIdx found
  rw [MultiLevelQueue.requeueFront, placed, Option.getD_some]
  refine single (.restore s.ledger msg.frozen _ shape) ?_ ?_
  · apply Ledger.ext
    case waiting => exact Multiset.coe_eq_coe.mpr (perm.map Message.frozen)
    case held =>
      change gather Task.held (s.tasks.eraseIdx position ++ []) = gather Task.held (s.tasks.eraseIdx position)
      rw [List.append_nil]
    case condemned =>
      change gather Task.condemned (s.tasks.eraseIdx position ++ []) = gather Task.condemned s.tasks
      rw [List.append_nil, gather_eraseIdx found]
      exact (zero_add _).symm
    all_goals rfl
  · exact (sound.withQueue valid params).proceed found (fun _ member => by cases member) (Multiset.zero_le _)

theorem install (sound : Sound cfg s) (lawful : Lawful s.ledger) (free : s.holder = none) {token : Bytes}
    (found : s.tasks[position]? = some (.staged consumer msg token)) {leaseAt pullAt : Time}
    (started : s.lockClock ≤ leaseAt) (order : leaseAt ≤ pullAt) (bound : pullAt ≤ s.now)
    (cancelled : Bool) (fault : Deliveries.Fault) :
    Refines cfg s ((s.installFor cfg consumer msg token cancelled fault leaseAt pullAt).proceed position []) := by
  unfold System.installFor
  rcases Deliveries.installation_cases cfg s.broker.deliveries msg consumer token cancelled fault leaseAt pullAt with
    ⟨_, _, absent, same⟩ | ⟨status, failure, same⟩
  · rw [same]
    simp only [↓reduceIte]
    exact deliver sound lawful free found started order bound absent
  · rw [same]
    simp only [failure, ↓reduceIte]
    exact restore sound found

end Pull

section Settlement
variable {id : Bytes} {entry : InFlightEntry} {kind : Settlement} {r : Broker.FinishReadings}

theorem failOnce_eq {msg : Message} (room : msg.retryCount + 1 < 2 ^ 32) : Broker.failOnce msg = failed msg := by
  rw [Broker.failOnce, Nat.mod_eq_of_lt room]
  rfl

theorem leased_eq (unheld : s.pending = none) (known : s.broker.deliveries.inFlight.lookup id = some entry) :
    s.ledger.leased = entry.lease ::ₘ
      ↑((s.broker.deliveries.inFlight.erase id).entries.map fun item => item.2.lease) := by
  have split := (entries_perm_erase known).map fun item => item.2.lease
  change (↑(s.live.entries.map fun item => item.2.lease) : Multiset Lease) = _
  rw [System.live_of_free unheld]
  exact Multiset.coe_eq_coe.mpr split

theorem leased_counts (sound : Sound cfg s) (lawful : Lawful s.ledger) {lease : Lease}
    (member : lease ∈ s.ledger.leased) :
    Active lease.message ∧ lease.message.maxRetries < 2 ^ 32 ∧
      lease.message.originalPriority < cfg.numLevels.toNat := by
  have opened : lease.message ∈ s.ledger.census := by
    rw [census_eq]
    exact Multiset.mem_add.mpr (Or.inl (mem_opened.mpr (Or.inr (Or.inr ⟨lease, member, rfl⟩))))
  obtain ⟨source, accepted, same⟩ := lawful.conserved.origin opened
  have levels : source.originalPriority = lease.message.originalPriority := by
    change source.content.originalPriority = lease.message.content.originalPriority
    rw [same]
  exact ⟨lawful.counted.leased lease member, lawful.conserved.maxRetries_lt opened,
    levels ▸ (sound.admitted source accepted).level⟩

/-- `finish_locked` up to the hand-off settles the lease in the ledger. -/
theorem handed (sound : Sound cfg s) (lawful : Lawful s.ledger) (unheld : s.pending = none)
    (known : s.broker.deliveries.inFlight.lookup id = some entry) (started : s.lockClock ≤ r.expiryAt)
    (order : r.expiryAt ≤ r.placeAt) (bound : r.placeAt ≤ s.now) {holder : Holder}
    (named : holder.pending? = some id) {b : Broker σ} {fate : Fate} {levelCost : Nat → ℚ}
    (handed : Broker.HandOff s.broker levelCost entry.message kind r fate b)
    (grounded : holder.Grounded s.broker.deliveries
      (s.history ++ verdict entry.lease kind r.expiryAt fate)) (emitted : List Ml.FeedbackEvent) :
    Refines cfg s { s with
      broker := b
      lockClock := r.placeAt
      finished := if fate = .acknowledged then s.finished ++ [entry.message] else s.finished
      history := s.history ++ verdict entry.lease kind r.expiryAt fate
      emitted
      holder := some holder } := by
  have shape := leased_eq unheld known
  obtain ⟨active, width, inside⟩ := leased_counts sound lawful (shape ▸ Multiset.mem_cons_self _ _)
  have room : entry.message.retryCount + 1 < 2 ^ 32 := by
    have small : entry.message.retryCount + 1 ≤ entry.message.maxRetries := active.1 ▸ active.2
    exact lt_of_le_of_lt small width
  have freed : ∀ after : System σ, after.holder = some holder → after.broker.deliveries = s.broker.deliveries →
      after.ledger.leased = ↑((s.broker.deliveries.inFlight.erase id).entries.map fun item => item.2.lease) := by
    intro after held same
    simp only [System.ledger, System.live, System.pending, held, Option.bind_some, named, same]
  obtain ⟨unaccepted, unissued, _⟩ := verdict_reports entry.lease kind r.expiryAt fate
  obtain ⟨valid, params, perm⟩ := handed.queue sound.queue (sound.levels ▸ inside)
  refine ⟨?_, sound.handOver valid params handed.deliveries handed.idCounter (started.trans order) bound
    unaccepted unissued grounded _ _⟩
  cases handed with
  | expired details dead =>
    convert Relation.ReflTransGen.single
      (Step.expire s.ledger entry.lease _ shape kind r.expiryAt r.placeAt order details dead) using 1
    apply Ledger.ext
    case leased => exact freed _ rfl rfl
    case dead => exact List.map_append
    all_goals rfl
  | acknowledged live success =>
    subst success
    convert Relation.ReflTransGen.single (Step.acknowledge s.ledger entry.lease _ shape r.expiryAt live) using 1
    apply Ledger.ext
    case leased => exact freed _ rfl rfl
    case finished => exact List.map_append
    all_goals rfl
  | exhausted details live failure last =>
    rw [failOnce_eq room] at last
    convert Relation.ReflTransGen.single
      (Step.exhaust s.ledger entry.lease _ shape kind failure r.expiryAt r.placeAt details live last) using 1
    apply Ledger.ext
    case leased => exact freed _ rfl rfl
    case dead =>
      rw [failOnce_eq room]
      exact List.map_append
    all_goals rfl
  | retried live failure more =>
    rw [failOnce_eq room] at more
    convert Relation.ReflTransGen.single
      (Step.retry s.ledger entry.lease _ shape kind failure r.expiryAt live more) using 1
    apply Ledger.ext
    case waiting =>
      have same : (Broker.failOnce entry.message).frozen = failed entry.lease.message := by
        rw [failOnce_eq room]
        rfl
      refine Multiset.coe_eq_coe.mpr ?_
      rw [← same]
      exact perm
    case leased => exact freed _ rfl rfl
    all_goals rfl

theorem finish (sound : Sound cfg s) (lawful : Lawful s.ledger) (unheld : s.pending = none)
    (known : s.broker.deliveries.inFlight.lookup id = some entry) (started : s.lockClock ≤ r.expiryAt)
    (order : r.expiryAt ≤ r.placeAt) (bound : r.placeAt ≤ s.now) (holder : Holder)
    (named : holder.pending? = some id) (reason : Bytes) (measurement : Option Int)
    (grounded : .settled entry.consumerId entry.attemptToken id kind ∈
        s.history ++ verdict entry.lease kind r.expiryAt (System.fate entry.message kind r.expiryAt) →
      holder.Grounded s.broker.deliveries
        (s.history ++ verdict entry.lease kind r.expiryAt (System.fate entry.message kind r.expiryAt))) :
    Refines cfg s { s.handOff (s.broker.finishHand cfg entry kind reason measurement r) entry kind r with
      holder := some holder } := by
  obtain ⟨levelCost, passed⟩ := s.broker.finishHand_handOff cfg entry kind reason measurement r
  have same : entry.message.id = id := sound.tables.keyed id entry known
  refine handed sound lawful unheld known started order bound named passed (grounded ?_) _
  rw [← same]
  exact List.mem_append_right _ (List.mem_cons_of_mem _ (List.mem_singleton_self _))

theorem settle (sound : Sound cfg s) (lawful : Lawful s.ledger) (free : s.holder = none)
    (call : Deliveries.Call) {recordAt leaseAt : Time} (started : s.lockClock ≤ recordAt)
    (first : recordAt ≤ leaseAt) (second : leaseAt ≤ r.expiryAt) (order : r.expiryAt ≤ r.placeAt)
    (bound : r.placeAt ≤ s.now) : Refines cfg s (s.settleFor cfg call recordAt leaseAt r) := by
  have late : s.lockClock ≤ leaseAt := started.trans first
  have early : leaseAt ≤ s.now := second.trans (order.trans bound)
  unfold System.settleFor
  rcases Deliveries.settleLocked_cases sound.tables cfg call recordAt leaseAt with
    ⟨record, ⟨⟨slot, member, rfl⟩, token, named, _⟩, same⟩ | ⟨_, d, forgets, same⟩
  · rw [same]
    refine single (.answer s.ledger call _ ?_) rfl ((sound.relock late early).log rfl rfl)
    intro accepted
    obtain ⟨owner, kind⟩ := Deliveries.replay_ok accepted
    rw [← owner, ← token, ← named, ← kind]
    exact sound.recorded slot member
  · have kept : Sound cfg { s with broker := { s.broker with deliveries := d } } := sound.forget free forgets
    have unchanged : System.ledger { s with broker := { s.broker with deliveries := d } } = s.ledger := by
      cases forgets <;> rfl
    have unheld : System.pending { s with broker := { s.broker with deliveries := d } } = none := by
      change s.holder.bind Holder.pending? = none
      rw [free]
      rfl
    have answered : ∀ status : Status, status ≠ .ok → Refines cfg s
        (System.log { s with broker := { s.broker with deliveries := d }, lockClock := leaseAt }
          [.answered call status]) := by
      intro status failure
      refine single (.answer s.ledger call status fun accepted => absurd accepted failure) ?_
        ((kept.relock late early).log rfl rfl)
      exact congrArg (fun L : Ledger => L.log [.answered call status]) unchanged
    have finished : ∀ (entry : InFlightEntry) (kind : Settlement) (reason : Bytes) (measurement : Option Int)
        (status : Status), s.broker.deliveries.Owns call entry →
        (status.code = .ok → status = .ok ∧ kind = call.kind) →
        let out := Broker.finishHand cfg { s.broker with deliveries := d } entry kind reason measurement r
        Refines cfg s { s.handOff out entry kind r with
          holder := some (.settling call entry kind status out.update) } := by
      intro entry kind reason measurement status owns requested
      have known : d.inFlight.lookup call.id = some entry := forgets.inFlight ▸ owns.1
      have result := finish kept (unchanged ▸ lawful) unheld known (late.trans second) order bound
        (.settling call entry kind status
          (Broker.finishHand cfg { s.broker with deliveries := d } entry kind reason measurement r).update)
        rfl reason measurement (fun logged => ⟨known, logged, owns.2.1, owns.2.2, requested⟩)
      exact ⟨unchanged ▸ result.steps, result.sound⟩
    rw [same]
    rcases s.broker.deliveries.settleLive_cases call leaseAt with
      ⟨entry, owns, ⟨_, verdict⟩ | ⟨_, verdict⟩⟩ | ⟨_, status, verdict, code⟩
    · rw [verdict]
      exact finished entry .expired _ none _ owns fun ok => by cases ok
    · rw [verdict]
      exact finished entry call.kind _ _ _ owns fun _ => ⟨rfl, rfl⟩
    · rw [verdict]
      refine answered status fun ok => ?_
      rw [ok] at code
      simp [Status.ok] at code

/-- While `finish_locked` is at work its entry is not a lease; afterwards it is no entry. -/
theorem ledger_closeEntry (held : s.pending = some id) (doneAt pruneAt : Time) (holder : Option Holder)
    (between : holder.bind Holder.pending? = none) :
    System.ledger { s.closeEntry cfg id entry kind doneAt pruneAt with holder } = s.ledger := by
  have inFlight := (Deliveries.prune_tables cfg pruneAt 1
    (s.broker.deliveries.record id entry kind doneAt)).1
  apply Ledger.ext
  case leased =>
    simp only [System.ledger, System.live, held]
    simp only [System.pending, between, System.closeEntry, Deliveries.finishClose, inFlight]
    rfl
  all_goals rfl

theorem close (sound : Sound cfg s) {call : Deliveries.Call} {status : Status}
    {update : Option PredictorUpdate} (held : s.holder = some (.settling call entry kind status update))
    {doneAt pruneAt : Time} (started : s.lockClock ≤ doneAt) (order : doneAt ≤ pruneAt)
    (bound : pruneAt ≤ s.now) (lessons : List PredictorUpdate) :
    Refines cfg s (System.log { s.closeEntry cfg call.id entry kind doneAt pruneAt with
      holder := none, lessons } [.answered call status]) := by
  obtain ⟨known, logged, owner, token, requested⟩ := sound.holding _ held
  have pending : s.pending = some call.id := by
    rw [System.pending, held]
    rfl
  have closed : Sound cfg { s.closeEntry cfg call.id entry kind doneAt pruneAt with holder := none } :=
    sound.closeEntry known logged started order bound fun _ impossible => by cases impossible
  have quiet : Sound cfg { s.closeEntry cfg call.id entry kind doneAt pruneAt with
    holder := none, lessons } := { closed with }
  refine single (.answer s.ledger call status fun ok => ?_) ?_ (quiet.log rfl rfl)
  · rw [← owner, ← token, ← (requested (congrArg Status.code ok)).2]
    exact logged
  · exact congrArg (fun L : Ledger => L.log [.answered call status])
      (ledger_closeEntry pending doneAt pruneAt none rfl)

theorem maintain (sound : Sound cfg s) (free : s.holder = none) {reading : Time}
    (started : s.lockClock ≤ reading) (bound : reading ≤ s.now) :
    Refines cfg s { s with
      holder := some (.maintaining cfg.maintenanceBatchSize reading [])
      lockClock := reading } := by
  refine silent ?_ { sound.relock started bound with
    holding := fun holder held => by rw [← Option.some.inj held]; trivial }
  apply Ledger.ext
  case leased =>
    simp only [System.ledger, System.live, System.pending, free]
    rfl
  all_goals rfl

theorem reclaim (sound : Sound cfg s) (lawful : Lawful s.ledger) {budget : Nat} {reading : Time}
    {updates : List PredictorUpdate} (held : s.holder = some (.maintaining (budget + 1) reading updates))
    (known : s.broker.deliveries.inFlight.lookup id = some entry) (started : s.lockClock ≤ r.expiryAt)
    (order : r.expiryAt ≤ r.placeAt) (bound : r.placeAt ≤ s.now) :
    let out := s.broker.finishHand cfg entry .expired Deliveries.leaseExpired none r
    Refines cfg s { s.handOff out entry .expired r with
      holder := some (.reclaiming budget reading (updates ++ out.update.toList) id entry) } := by
  have unheld : s.pending = none := by
    rw [System.pending, held]
    rfl
  exact finish sound lawful unheld known started order bound (.reclaiming _ _ _ id entry) rfl _ none
    fun logged => ⟨known, logged⟩

theorem closeReclaim (sound : Sound cfg s) {budget : Nat} {reading : Time} {updates : List PredictorUpdate}
    (held : s.holder = some (.reclaiming budget reading updates id entry)) {doneAt pruneAt : Time}
    (started : s.lockClock ≤ doneAt) (order : doneAt ≤ pruneAt) (bound : pruneAt ≤ s.now) :
    Refines cfg s { s.closeEntry cfg id entry .expired doneAt pruneAt with
      holder := some (.maintaining budget reading updates) } := by
  obtain ⟨known, logged⟩ := sound.holding _ held
  have pending : s.pending = some id := by
    rw [System.pending, held]
    rfl
  refine silent (ledger_closeEntry pending doneAt pruneAt (some (.maintaining budget reading updates)) rfl)
    (sound.closeEntry known logged started order bound ?_)
  intro next same
  rw [← Option.some.inj same]
  rfl

theorem endMaintain (sound : Sound cfg s) {budget : Nat} {reading : Time} {updates : List PredictorUpdate}
    (held : s.holder = some (.maintaining budget reading updates)) {pruneAt : Time}
    (started : s.lockClock ≤ pruneAt) (bound : pruneAt ≤ s.now) (lessons : List PredictorUpdate) :
    Refines cfg s { s with
      broker := { s.broker with
        deliveries := Deliveries.pruneCompletionsLocked cfg pruneAt cfg.maintenanceBatchSize s.broker.deliveries }
      lockClock := pruneAt
      holder := none
      lessons } := by
  have inFlight := (Deliveries.prune_tables cfg pruneAt cfg.maintenanceBatchSize s.broker.deliveries).1
  refine silent ?_ { sound.prune started bound cfg.maintenanceBatchSize with }
  apply Ledger.ext
  case leased =>
    simp only [System.ledger, System.live, System.pending, held, inFlight]
    rfl
  all_goals rfl

end Settlement

theorem age (sound : Sound cfg s) (reading : Time) {readings : Nat → Time} (bound : ∀ visit, readings visit ≤ s.now) :
    Refines cfg s (s.withQueue (s.broker.queue.ageOnceLocked reading readings).1) := by
  obtain ⟨valid, params, perm⟩ := MultiLevelQueue.ageOnceLocked_spec reading bound sound.queue
  refine silent ?_ (sound.withQueue valid params)
  apply Ledger.ext
  case waiting => exact Multiset.coe_eq_coe.mpr perm
  all_goals rfl

end Refines

theorem Broker.settleRefused_ne_ok {σ : Type} (b : Broker σ) {call : Deliveries.Call} {status : Status}
    (refused : b.settleRefused call = some status) : status.code ≠ .ok := by
  unfold settleRefused at refused
  split at refused
  · cases refused
    exact nofun
  · split at refused
    · cases refused
      exact nofun
    · cases refused

/-- One step of the broker is a run of its ledger, and keeps the invariant. -/
theorem System.step_refines {σ : Type} [Ml.Inference σ] {cfg : HarbingerConfig} (checked : cfg.Checked)
    {s s' : System σ} (sound : Sound cfg s) (lawful : Lawful s.ledger) {action : Action}
    (moved : s.step cfg action = some s') : Refines cfg s s' := by
  cases action with
  | tick now =>
    obtain ⟨order, same⟩ := Option.ite_none_right_eq_some.mp moved
    obtain rfl := Option.some.inj same
    exact .tick sound order
  | registerProducer =>
    obtain rfl := Option.some.inj moved
    exact .silent rfl { sound with }
  | registerConsumer =>
    obtain rfl := Option.some.inj moved
    exact .silent rfl { sound with }
  | submit req idAt arrivalAt =>
    obtain ⟨_, same⟩ := Option.ite_none_right_eq_some.mp moved
    obtain rfl := Option.some.inj same
    exact .submit sound req idAt arrivalAt
  | route task r =>
    simp only [step] at moved
    split at moved
    next msg found =>
      obtain rfl := Option.some.inj moved
      exact .route checked sound found r
    · cases moved
  | enqueue task enqueueAt stamp =>
    simp only [step] at moved
    split at moved
    next msg found =>
      obtain ⟨_, moved⟩ := Option.ite_none_right_eq_some.mp moved
      split at moved
      · obtain rfl := Option.some.inj moved
        exact .silent (ledger_proceed found rfl rfl)
          (sound.proceed found (fun _ member => by cases member) (Multiset.zero_le _))
      next queue placed =>
        obtain rfl := Option.some.inj moved
        exact .enqueue checked sound found placed _
    · cases moved
  | pull consumer =>
    obtain ⟨_, same⟩ := Option.ite_none_right_eq_some.mp moved
    obtain rfl := Option.some.inj same
    exact .silent (ledger_spawn rfl rfl) (sound.spawn trivial rfl)
  | sweep task reading =>
    simp only [step] at moved
    split at moved
    next consumer found =>
      obtain ⟨_, moved⟩ := Option.ite_none_right_eq_some.mp moved
      obtain rfl := Option.some.inj moved
      refine .sweep sound (.pullSweep consumer) reading ?_ ?_ ?_ ?_
      · exact List.forall_mem_append.mpr ⟨fun other member => sound.ready other (List.mem_of_mem_eraseIdx member),
          List.forall_mem_singleton.mpr trivial⟩
      · change gather Task.held (s.tasks.eraseIdx task ++ _) = _
        rw [gather_append, gather_eraseIdx found, add_comm]
        rfl
      · change gather Task.condemned (s.tasks.eraseIdx task ++ _) = _
        rw [gather_append, gather_singleton, gather_eraseIdx found]
        exact congrArg (· + _) (zero_add _).symm
      · change gather Task.drawn (s.tasks.eraseIdx task ++ _) ≤ _
        rw [gather_append, gather_eraseIdx found, add_comm]
        exact le_rfl
    · cases moved
  | backgroundSweep reading =>
    obtain ⟨_, same⟩ := Option.ite_none_right_eq_some.mp moved
    obtain rfl := Option.some.inj same
    refine .sweep sound .backgroundSweep reading ?_ ?_ ?_ ?_
    · exact List.forall_mem_append.mpr ⟨sound.ready, List.forall_mem_singleton.mpr trivial⟩
    · exact (gather_append _ _ _).trans (add_zero _)
    · rw [gather_append, gather_singleton]
      rfl
    · exact ((gather_append _ _ _).trans (add_zero _)).le
  | bury task dlqAt stamp =>
    simp only [step] at moved
    split at moved
    next errand msg rest since found =>
      obtain ⟨⟨order, _⟩, moved⟩ := Option.ite_none_right_eq_some.mp moved
      obtain rfl := Option.some.inj moved
      exact .bury sound found order _
    · cases moved
  | resume task =>
    simp only [step] at moved
    split at moved
    next errand since found =>
      obtain rfl := Option.some.inj moved
      cases errand <;> exact .silent (ledger_proceed found rfl rfl)
        (sound.proceed found (by simp [Errand.resume, Task.Ready]) (Multiset.zero_le _))
    · cases moved
  | abandon task =>
    simp only [step] at moved
    split at moved
    next consumer found =>
      obtain rfl := Option.some.inj moved
      exact .silent (ledger_proceed found rfl rfl)
        (sound.proceed found (fun _ member => by cases member) (Multiset.zero_le _))
    next consumer found =>
      obtain rfl := Option.some.inj moved
      exact .silent (ledger_proceed found rfl rfl)
        (sound.proceed found (fun _ member => by cases member) (Multiset.zero_le _))
    · cases moved
  | dequeue task =>
    simp only [step] at moved
    split at moved
    next consumer found =>
      split at moved
      · obtain rfl := Option.some.inj moved
        exact .silent (ledger_proceed found rfl rfl)
          (sound.proceed found (List.forall_mem_singleton.mpr trivial) (Multiset.zero_le _))
      next msg queue taken =>
        obtain rfl := Option.some.inj moved
        exact .dequeue sound found taken
    · cases moved
  | inspect task expiryAt idAt =>
    simp only [step] at moved
    split at moved
    next consumer msg found =>
      obtain ⟨_, moved⟩ := Option.ite_none_right_eq_some.mp moved
      split at moved
      next expired =>
        obtain rfl := Option.some.inj moved
        exact .condemn sound found expired
      next live =>
        obtain rfl := Option.some.inj moved
        exact .keep sound found live idAt
    · cases moved
  | install task cancelled fault leaseAt pullAt =>
    simp only [step] at moved
    split at moved
    next consumer msg token free found =>
      obtain ⟨⟨started, order, bound⟩, moved⟩ := Option.ite_none_right_eq_some.mp moved
      obtain rfl := Option.some.inj moved
      exact .install sound lawful free found started order bound cancelled fault
    · cases moved
  | settle call recordAt leaseAt r =>
    simp only [step] at moved
    split at moved
    next status refused =>
      obtain rfl := Option.some.inj moved
      refine .single (.answer s.ledger call status fun ok => ?_) rfl (sound.log rfl rfl)
      exact absurd (congrArg Status.code ok) (s.broker.settleRefused_ne_ok refused)
    · obtain ⟨⟨free, started, first, second, order, bound⟩, moved⟩ := Option.ite_none_right_eq_some.mp moved
      obtain rfl := Option.some.inj moved
      exact .settle sound lawful (Option.isNone_iff_eq_none.mp free) call started first second order bound
  | close doneAt pruneAt =>
    simp only [step] at moved
    split at moved
    next call entry kind status update held =>
      obtain ⟨⟨started, order, bound⟩, moved⟩ := Option.ite_none_right_eq_some.mp moved
      obtain rfl := Option.some.inj moved
      exact .close sound held started order bound _
    · cases moved
  | maintain reading =>
    obtain ⟨⟨free, started, bound⟩, same⟩ := Option.ite_none_right_eq_some.mp moved
    obtain rfl := Option.some.inj same
    exact .maintain sound (Option.isNone_iff_eq_none.mp free) started bound
  | reclaim r =>
    simp only [step] at moved
    split at moved
    next budget reading updates held =>
      split at moved
      · cases moved
      · split at moved
        · cases moved
        next id _ entry known =>
          obtain ⟨⟨started, order, bound⟩, moved⟩ := Option.ite_none_right_eq_some.mp moved
          obtain rfl := Option.some.inj moved
          exact .reclaim sound lawful held known started order bound
    · cases moved
  | closeReclaim doneAt pruneAt =>
    simp only [step] at moved
    split at moved
    next budget reading updates id entry held =>
      obtain ⟨⟨started, order, bound⟩, moved⟩ := Option.ite_none_right_eq_some.mp moved
      obtain rfl := Option.some.inj moved
      exact .closeReclaim sound held started order bound
    · cases moved
  | endMaintain pruneAt =>
    simp only [step] at moved
    split at moved
    next budget reading updates held =>
      obtain ⟨⟨_, started, bound⟩, moved⟩ := Option.ite_none_right_eq_some.mp moved
      obtain rfl := Option.some.inj moved
      exact .endMaintain sound held started bound _
    · cases moved
  | age reading readings =>
    obtain ⟨⟨_, bound⟩, same⟩ := Option.ite_none_right_eq_some.mp moved
    obtain rfl := Option.some.inj same
    exact .age sound reading (MultiLevelQueue.getD_le bound)
  | learn lesson first second =>
    simp only [step] at moved
    split at moved
    · cases moved
    next update _ =>
      obtain rfl := Option.some.inj moved
      obtain ⟨predictor, same⟩ := s.broker.learn_eq update first second
      rw [same]
      exact .silent rfl { sound with }

/-- The invariant and the laws of the ledger together. -/
structure Reached {σ : Type} (cfg : HarbingerConfig) (s : System σ) : Prop where
  sound : Sound cfg s
  lawful : Lawful s.ledger

section Runs
variable {σ : Type} [Ml.Inference σ] {cfg : HarbingerConfig} {s s' : System σ} {actions : List Action}

theorem Reached.step (checked : cfg.Checked) (reached : Reached cfg s) {action : Action}
    (moved : s.step cfg action = some s') : Reached cfg s' :=
  have refines := System.step_refines checked reached.sound reached.lawful moved
  ⟨refines.sound, reached.lawful.steps refines.steps⟩

theorem Reached.run (checked : cfg.Checked) (reached : Reached cfg s)
    (ran : Transition.run (System.step cfg) actions s = some s') : Reached cfg s' :=
  Transition.run_invariant (Reached cfg) (fun _ _ _ known moved => known.step checked moved) reached ran

theorem Reached.run_steps (checked : cfg.Checked) (reached : Reached cfg s)
    (ran : Transition.run (System.step cfg) actions s = some s') : Steps s.ledger s'.ledger := by
  refine (Transition.run_invariant (fun next => Reached cfg next ∧ Steps s.ledger next.ledger) ?_
    ⟨reached, .refl⟩ ran).2
  intro middle action next ⟨known, before⟩ moved
  exact ⟨known.step checked moved,
    before.trans (System.step_refines checked known.sound known.lawful moved).steps⟩

/-- A state that some broker with the validated configuration `cfg` reaches. -/
def System.Reachable (cfg : HarbingerConfig) (s : System σ) : Prop :=
  ∃ (config : HarbingerConfig) (predictor : Option σ) (instanceToken : Bytes) (counter : Nat) (b : Broker σ)
    (now : Time) (actions : List Action), validateConfig config = .ok cfg ∧
      Broker.create cfg predictor instanceToken counter = .ok b ∧
      Transition.run (System.step cfg) actions (System.initial b now) = some s

omit [Ml.Inference σ] in
theorem System.ledger_initial {predictor : Option σ} {instanceToken : Bytes} {counter : Nat} {b : Broker σ}
    (made : Broker.create cfg predictor instanceToken counter = .ok b) (now : Time) :
    (System.initial b now).ledger = {} := by
  obtain ⟨queue, created, same⟩ := bind_ok.mp made
  obtain rfl := Except.ok.inj same
  have empty : queue.messages = [] := by
    obtain ⟨rfl, _, _⟩ := MultiLevelQueue.create_ok created
    simp [MultiLevelQueue.messages, MultiLevelQueue.nodes, concat]
  apply Ledger.ext
  case waiting => exact congrArg (fun list : List Message => (↑(list.map Message.frozen) : Multiset Message)) empty
  all_goals rfl

omit [Ml.Inference σ] in
theorem Reached.initial {predictor : Option σ} {instanceToken : Bytes} {counter : Nat} {b : Broker σ}
    (made : Broker.create cfg predictor instanceToken counter = .ok b) (now : Time) :
    Reached cfg (System.initial b now) := by
  refine ⟨Sound.initial made now, ?_⟩
  rw [System.ledger_initial made]
  exact Lawful.empty

theorem System.Reachable.checked (reachable : s.Reachable cfg) : cfg.Checked := by
  obtain ⟨config, _, _, _, _, _, _, valid, _⟩ := reachable
  exact .of_validateConfig valid

theorem System.Reachable.reached (reachable : s.Reachable cfg) : Reached cfg s := by
  obtain ⟨config, predictor, instanceToken, counter, b, now, actions, valid, made, ran⟩ := reachable
  exact (Reached.initial made now).run (.of_validateConfig valid) ran

end Runs

end Harbinger
