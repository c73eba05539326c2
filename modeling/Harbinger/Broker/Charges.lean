import Harbinger.Broker.Fencing
import Harbinger.Queue.Share

/-! The accounts of the level share across a whole `Pull`: what is charged at the dequeue, and
what becomes of the charge when the message is delivered, found expired, or put back. The bill
is kept beside the broker; no step reads it. -/

namespace Harbinger
open Container Ml Deliveries

/-- A message as it was dequeued, with what its level was charged for it and the average cost of
the level at that time. -/
structure Charge where
  message : Message
  cost : ℚ
  average : ℚ
  deriving DecidableEq

/-- What a message is charged under an average. -/
def price (msg : Message) (average : ℚ) : ℚ :=
  max (msg.prediction.getD (if 0 < average then average else MultiLevelQueue.minCostMs)) MultiLevelQueue.minCostMs

/-- The charge of a pull that takes this message out of the queue. -/
def Broker.charge {σ : Type} (b : Broker σ) (msg : Message) : Charge :=
  ⟨msg, MultiLevelQueue.chargeLocked b.levelShareCost msg, b.levelCost msg.priority⟩

/-- The charges of the pulls, by what has become of them; the ones that were put back are dropped. -/
structure Bill where
  held : List Charge := []
  delivered : List Charge := []
  expired : List Charge := []

/-- How many of the charges are of the level. -/
def tally (charges : List Charge) (level : Nat) : Nat := charges.countP fun charge => charge.message.priority = level

/-- What the charges of the level add up to. -/
def worth (charges : List Charge) (level : Nat) : ℚ :=
  ((charges.filter fun charge => charge.message.priority = level).map Charge.cost).sum

/-- The message that a pull holds between its dequeue and its end. -/
def Task.pulled : Task → List Message
  | .selected _ msg | .staged _ msg _ => [msg]
  | _ => []

namespace Bill
variable {σ : Type}

/-- The charge of a message that a pull holds. -/
def chargeOf (bill : Bill) (msg : Message) : Charge :=
  (bill.held.find? fun charge => charge.message.id = msg.id).getD ⟨msg, 0, 0⟩

def release (bill : Bill) (msg : Message) : Bill :=
  { bill with held := bill.held.eraseP fun charge => charge.message.id = msg.id }

/-- The bill after a step of the broker from state `s`. -/
def after (cfg : HarbingerConfig) (s : System σ) (bill : Bill) : Action → Bill
  | .dequeue task =>
    match s.tasks[task]?, s.broker.queue.dequeueLocked s.broker.levelShareCost with
    | some (.swept _), some (msg, _) => { bill with held := s.broker.charge msg :: bill.held }
    | _, _ => bill
  | .inspect task expiryAt _ =>
    match s.tasks[task]? with
    | some (.selected _ msg) =>
      if msg.isExpired expiryAt then { bill.release msg with expired := bill.chargeOf msg :: bill.expired } else bill
    | _ => bill
  | .install task cancelled fault leaseAt pullAt =>
    match s.tasks[task]? with
    | some (.staged consumer msg token) =>
      if (s.broker.deliveries.installation cfg msg consumer token cancelled fault leaseAt pullAt).2 = .ok then
        { bill.release msg with delivered := bill.chargeOf msg :: bill.delivered }
      else bill.release msg
    | _ => bill
  | _ => bill

end Bill

/-- A step of the broker with its bill. -/
def billedStep {σ : Type} [Inference σ] (cfg : HarbingerConfig) (state : System σ × Bill) (action : Action) :
    Option (System σ × Bill) :=
  (state.1.step cfg action).map fun next => (next, state.2.after cfg state.1 action)

section Sums
variable {charges : List Charge} {charge : Charge} {level : Nat}

theorem tally_cons (charge : Charge) (charges : List Charge) (level : Nat) :
    tally (charge :: charges) level = tally charges level + if charge.message.priority = level then 1 else 0 := by
  simp only [tally, List.countP_cons, decide_eq_true_eq]

theorem worth_cons (charge : Charge) (charges : List Charge) (level : Nat) :
    worth (charge :: charges) level = worth charges level + if charge.message.priority = level then charge.cost else 0 := by
  unfold worth
  by_cases here : charge.message.priority = level
  · rw [if_pos here, List.filter_cons_of_pos (by simpa using here), List.map_cons, List.sum_cons, add_comm]
  · rw [if_neg here, List.filter_cons_of_neg (by simpa using here), add_zero]

theorem update_add {K : Type*} [AddZeroClass K] (account : Nat → K) (here : Nat) (amount : K) (level : Nat) :
    Function.update account here (account here + amount) level = account level + if here = level then amount else 0 := by
  by_cases same : here = level
  · subst same
    rw [Function.update_self, if_pos rfl]
  · rw [Function.update_of_ne (Ne.symm same), if_neg same, add_zero]

theorem tally_perm {charges charges' : List Charge} (same : charges.Perm charges') : tally charges level = tally charges' level :=
  same.countP_eq _

theorem worth_perm {charges charges' : List Charge} (same : charges.Perm charges') : worth charges level = worth charges' level :=
  ((same.filter _).map _).sum_eq

theorem worth_nonneg (priced : ∀ charge ∈ charges, 0 ≤ charge.cost) (level : Nat) : 0 ≤ worth charges level := by
  refine List.sum_nonneg fun cost member => ?_
  obtain ⟨charge, kept, rfl⟩ := List.mem_map.mp member
  exact priced charge (List.mem_of_mem_filter kept)

/-- The message has a charge, and no other held message has its id. -/
structure Bill.Holds (bill : Bill) (msg : Message) : Prop where
  member : msg ∈ bill.held.map Charge.message
  alone : ∀ charge ∈ bill.held, charge.message.id = msg.id → charge.message = msg

theorem held_perm {bill : Bill} {msg : Message} (holds : bill.Holds msg) :
    bill.held.Perm (bill.chargeOf msg :: (bill.release msg).held) ∧ (bill.chargeOf msg).message = msg := by
  obtain ⟨charge, member, same⟩ := List.mem_map.mp holds.member
  have some_found : (bill.held.find? fun charge => charge.message.id = msg.id).isSome :=
    List.find?_isSome.mpr ⟨charge, member, by rw [same]; exact decide_eq_true rfl⟩
  obtain ⟨first, found⟩ := Option.isSome_iff_exists.mp some_found
  have chosen : bill.chargeOf msg = first := by rw [Bill.chargeOf, found]; rfl
  rw [chosen]
  obtain ⟨here, before, behind, split, others⟩ := List.find?_eq_some_iff_append.mp found
  refine ⟨?_, holds.alone first (List.mem_of_find?_eq_some found) (of_decide_eq_true here)⟩
  have rest : (bill.release msg).held = before ++ behind := by
    change bill.held.eraseP _ = _
    rw [split, List.eraseP_append_right _ fun charge member => by simpa using others charge member,
      List.eraseP_cons_of_pos (p := fun charge : Charge => decide (charge.message.id = msg.id)) here]
  rw [rest, split]
  exact List.perm_middle

end Sums

namespace MultiLevelQueue
variable {q q' : MultiLevelQueue} {cost : CostFunction} {msg : Message}

theorem dequeue_accounts {now : Time} (valid : q.Valid now) (weighted : q.weights.isSome = true)
    (taken : q.dequeueLocked cost = some (msg, q')) :
    q'.weights = q.weights ∧ q'.pulls = Function.update q.pulls msg.priority (q.pulls msg.priority + 1) ∧
      q'.charged = Function.update q.charged msg.priority (q.charged msg.priority + chargeLocked cost msg) ∧
      q'.vclock = Function.update q.vclock msg.priority
        (q.vclock msg.priority + chargeLocked cost msg / q.weight msg.priority) := by
  obtain ⟨level, node, rest, -, front, rfl, rfl⟩ := dequeueLocked_weighted weighted taken
  have here : node.message.priority = level := valid.structured.priority level node (by rw [front]; exact List.mem_cons_self)
  rw [here]
  exact ⟨rfl, rfl, rfl, rfl⟩

/-- The clock of a level when a message is put into it. -/
def joined (q : MultiLevelQueue) (level : Nat) : ℚ :=
  if (q.queues level).isEmpty then max (q.vclock level) q.vfloor else q.vclock level

/-- What a restore refunds. -/
theorem requeueFront_accounts (weighted : q.weights.isSome = true) (placed : q.requeueFront cost msg = some q') :
    q'.weights = q.weights ∧ q'.pulls = Function.update q.pulls msg.priority (q.pulls msg.priority - 1) ∧
      q'.charged = Function.update q.charged msg.priority (max 0 (q.charged msg.priority - chargeLocked cost msg)) ∧
      q'.vclock = Function.update q.vclock msg.priority
        (q.joined msg.priority - chargeLocked cost msg / q.weight msg.priority) := by
  obtain ⟨nextAging, noted⟩ := (q.linkNode msg true).noteAgingDeadline_eq msg.priority msg.enqueueTime
  have shared : ¬(({ q.linkNode msg true with nextAging } : MultiLevelQueue).weights.isNone = true) := by
    rw [Option.isNone_iff_eq_none]
    exact Option.isSome_iff_ne_none.mp weighted
  simp only [requeueFront, placeMessage, placeShare, ↓reduceIte, noted, if_neg shared] at placed
  split at placed
  · cases placed
  · obtain rfl := Option.some.inj placed
    by_cases empty : (q.queues msg.priority).isEmpty
    · simp only [if_pos empty, joined]
      refine ⟨rfl, rfl, rfl, (Function.update_idem ..).trans ?_⟩
      exact congrArg (fun base => Function.update q.vclock msg.priority (base - _)) (Function.update_self ..)
    · simp only [if_neg empty, joined]
      exact ⟨rfl, rfl, rfl, rfl⟩

end MultiLevelQueue

section Steps
variable {σ : Type} {cfg : HarbingerConfig} {s s' : System σ} {bill : Bill}

theorem chargeLocked_levelShareCost (b : Broker σ) (msg : Message) :
    MultiLevelQueue.chargeLocked b.levelShareCost msg = price msg (b.levelCost msg.priority) := by
  unfold MultiLevelQueue.chargeLocked Broker.levelShareCost price
  cases msg.prediction with
  | some predicted => rfl
  | none => rfl

/-- The charges that have not been undone. -/
def Bill.standing (bill : Bill) : List Charge := bill.held ++ (bill.delivered ++ bill.expired)

theorem standing_release {msg : Message} (holds : bill.Holds msg) :
    bill.standing.Perm (bill.chargeOf msg :: (bill.release msg).standing) := (held_perm holds).1.append_right _

theorem standing_delivered (bill : Bill) (charge : Charge) :
    { bill with delivered := charge :: bill.delivered : Bill }.standing.Perm (charge :: bill.standing) := List.perm_middle

theorem standing_expired (bill : Bill) (charge : Charge) :
    { bill with expired := charge :: bill.expired : Bill }.standing.Perm (charge :: bill.standing) := by
  unfold Bill.standing
  rw [← List.append_assoc, ← List.append_assoc]
  exact List.perm_middle

/-- The accounts of the queue against the bill. -/
structure Balanced (s : System σ) (bill : Bill) : Prop where
  weighted : s.broker.queue.weights.isSome = true
  held : (↑(bill.held.map Charge.message) : Multiset Message) = gather Task.pulled s.tasks
  priced : ∀ charge ∈ bill.standing, charge.cost = price charge.message charge.average
  pulls : ∀ level, s.broker.queue.pulls level = tally bill.standing level
  charged : ∀ level, s.broker.queue.charged level = worth bill.standing level

/-- The share accounts are untouched, but levels may join at the floor. -/
structure SameAccounts (q q' : MultiLevelQueue) : Prop where
  weights : q'.weights = q.weights
  pulls : q'.pulls = q.pulls
  charged : q'.charged = q.charged
  raised : ∀ level, q'.vclock level = q.vclock level ∨ q'.vclock level = max (q.vclock level) q.vfloor

theorem SameAccounts.refl (q : MultiLevelQueue) : SameAccounts q q := ⟨rfl, rfl, rfl, fun _ => .inl rfl⟩

theorem SameAccounts.of_carries {q q' : MultiLevelQueue} (carries : MultiLevelQueue.Carries q q') : SameAccounts q q' :=
  ⟨carries.weights, carries.pulls, carries.charged, carries.lifts.raised⟩

theorem SameAccounts.of_eq {q q' : MultiLevelQueue} (same : q' = q) : SameAccounts q q' := same ▸ .refl q

/-- A clock advances by what its level is charged, over its weight; apart from that a level only joins at the floor. -/
def ClocksFollow (q q' : MultiLevelQueue) : Prop :=
  ∀ level, ∃ base, (base = q.vclock level ∨ base = max (q.vclock level) q.vfloor) ∧
    q'.vclock level = base + (q'.charged level - q.charged level) / q.weight level

theorem SameAccounts.clocksFollow {q q' : MultiLevelQueue} (same : SameAccounts q q') : ClocksFollow q q' := by
  intro level
  refine ⟨q'.vclock level, same.raised level, ?_⟩
  rw [same.charged, sub_self, zero_div, add_zero]

/-- A step that neither charges nor refunds. -/
structure Quiet (s s' : System σ) : Prop extends SameAccounts s.broker.queue s'.broker.queue where
  held : gather Task.pulled s'.tasks = gather Task.pulled s.tasks

theorem Balanced.quiet (balanced : Balanced s bill) (quiet : Quiet s s') : Balanced s' bill where
  weighted := quiet.weights ▸ balanced.weighted
  held := by rw [balanced.held, quiet.held]
  priced := balanced.priced
  pulls := fun level => by rw [quiet.pulls, balanced.pulls]
  charged := fun level => by rw [quiet.charged, balanced.charged]

theorem pulled_proceed {task : Nat} {item : Task} (found : s.tasks[task]? = some item) {next : List Task}
    (same : gather Task.pulled next = ↑item.pulled) : gather Task.pulled (s.proceed task next).tasks = gather Task.pulled s.tasks := by
  change gather Task.pulled (s.tasks.eraseIdx task ++ next) = _
  rw [gather_append, gather_eraseIdx found, same, add_comm]

theorem pulled_spawn {task : Task} (idle : task.pulled = []) :
    gather Task.pulled (s.tasks ++ [task]) = gather Task.pulled s.tasks := by
  rw [gather_append, gather_singleton, idle, Multiset.coe_nil, add_zero]

theorem Errand.resume_pulled (errand : Errand) : gather Task.pulled errand.resume = ↑([] : List Message) := by
  cases errand <;> rfl

theorem finishHand_accounts (b : Broker σ) (weighted : b.queue.weights.isSome = true) (entry : InFlightEntry)
    (kind : Settlement) (reason : Bytes) (measurement : Option Int) (r : Broker.FinishReadings) :
    SameAccounts b.queue (b.finishHand cfg entry kind reason measurement r).broker.queue := by
  obtain ⟨levelCost, handed⟩ := Broker.finishHand_handOff cfg b entry kind reason measurement r
  generalize System.fate entry.message kind r.expiryAt = fate at handed
  generalize (b.finishHand cfg entry kind reason measurement r).broker = after at handed
  cases handed with
  | expired => exact .refl _
  | acknowledged => exact .refl _
  | exhausted => exact .refl _
  | retried =>
    cases placed : b.queue.enqueue (Broker.levelShareCost { b with levelCost })
        { Broker.failOnce entry.message with priority := entry.message.originalPriority } r.placeAt with
    | none => exact .refl _
    | some queue => exact .of_carries (MultiLevelQueue.carries_enqueue _ weighted placed)

theorem settleFor_quiet (weighted : s.broker.queue.weights.isSome = true) (call : Call) (recordAt leaseAt : Time)
    (r : Broker.FinishReadings) : Quiet s (s.settleFor cfg call recordAt leaseAt r) := by
  unfold System.settleFor
  split
  · exact ⟨.refl _, rfl⟩
  next deliveries entry kind reason measurement status _ =>
    exact ⟨finishHand_accounts { s.broker with deliveries } weighted entry kind reason measurement r, rfl⟩

/-- The three steps of a pull between its dequeue and its end. -/
def Action.Billed : Action → Prop
  | .dequeue .. | .inspect .. | .install .. => True
  | _ => False

theorem after_plain {action : Action} (plain : ¬action.Billed) : bill.after cfg s action = bill := by
  cases action with
  | dequeue | inspect | install => exact absurd trivial plain
  | _ => rfl

theorem Task.pulled_subset {item : Task} {msg : Message} (member : msg ∈ item.pulled) : msg ∈ item.inHand := by
  cases item with
  | selected | staged => exact member
  | _ => exact absurd member List.not_mem_nil

theorem mem_whereabouts {msg : Message} (pulled : msg ∈ gather Task.pulled s.tasks) : ∃ place, (place, msg) ∈ s.whereabouts := by
  obtain ⟨item, member, taken⟩ := List.mem_flatMap.mp (Multiset.mem_coe.mp pulled)
  obtain ⟨task, inside, rfl⟩ := List.mem_iff_getElem.mp member
  refine ⟨.hands task, List.mem_append_left _ (List.mem_append_left _ (List.mem_append_left _ (List.mem_append_right _ ?_)))⟩
  exact List.mem_flatMap.mpr ⟨(s.tasks[task], task), List.mem_zipIdx_iff_getElem?.mpr (List.getElem?_eq_getElem inside),
    List.mem_map.mpr ⟨msg, Task.pulled_subset taken, rfl⟩⟩

theorem Balanced.holds (lawful : Ledger.Lawful s.ledger) (balanced : Balanced s bill) {task : Nat} {item : Task}
    (found : s.tasks[task]? = some item) {msg : Message} (pulled : item.pulled = [msg]) : bill.Holds msg := by
  have member : msg ∈ gather Task.pulled s.tasks := by
    rw [gather_eraseIdx found, pulled]
    exact Multiset.mem_add.mpr (Or.inl (Multiset.mem_singleton_self msg))
  refine ⟨by rw [← Multiset.mem_coe, balanced.held]; exact member, fun charge held named => ?_⟩
  have other : charge.message ∈ gather Task.pulled s.tasks :=
    balanced.held ▸ Multiset.mem_coe.mpr (List.mem_map_of_mem held)
  obtain ⟨place, here⟩ := mem_whereabouts member
  obtain ⟨place', there⟩ := mem_whereabouts other
  have only := System.alone lawful here
  have both : (place', charge.message) ∈ s.whereabouts.filter fun other => other.2.id = msg.id :=
    List.mem_filter.mpr ⟨there, decide_eq_true named⟩
  rw [only] at both
  exact congrArg Prod.snd (List.mem_singleton.mp both)

theorem Balanced.held_release (lawful : Ledger.Lawful s.ledger) (balanced : Balanced s bill) {task : Nat} {item : Task} (found : s.tasks[task]? = some item)
    {msg : Message} (pulled : item.pulled = [msg]) :
    (↑((bill.release msg).held.map Charge.message) : Multiset Message) = gather Task.pulled (s.tasks.eraseIdx task) := by
  obtain ⟨split, own⟩ := held_perm (balanced.holds lawful found pulled)
  have all : (↑(bill.held.map Charge.message) : Multiset Message) =
      msg ::ₘ ↑((bill.release msg).held.map Charge.message) := by
    rw [Multiset.cons_coe]
    have mapped := split.map Charge.message
    rw [List.map_cons, own] at mapped
    exact Multiset.coe_eq_coe.mpr mapped
  rw [balanced.held, gather_eraseIdx found, pulled, Multiset.coe_singleton, Multiset.singleton_add] at all
  exact ((Multiset.cons_inj_right msg).mp all).symm

theorem Balanced.regroup (balanced : Balanced s bill) {after : Bill} (accounts : SameAccounts s.broker.queue s'.broker.queue)
    (held : (↑(after.held.map Charge.message) : Multiset Message) = gather Task.pulled s'.tasks)
    (same : bill.standing.Perm after.standing) : Balanced s' after where
  weighted := accounts.weights ▸ balanced.weighted
  held := held
  priced := fun charge member => balanced.priced charge (same.mem_iff.mpr member)
  pulls := fun level => by rw [accounts.pulls, balanced.pulls, tally_perm same]
  charged := fun level => by rw [accounts.charged, balanced.charged, worth_perm same]

variable [Inference σ]

theorem routeMessage_queue (b : Broker σ) (msg : Message) (r : Broker.PredictReadings) :
    (b.routeMessage cfg msg r).2.queue = b.queue := by
  obtain ⟨predictor, same⟩ := b.routeMessage_eq cfg msg r
  rw [same]

theorem learn_queue (b : Broker σ) (update : PredictorUpdate) (first second : Time) :
    (b.learn update first second).queue = b.queue := by
  obtain ⟨predictor, same⟩ := b.learn_eq update first second
  rw [same]

/-- Every other step leaves the accounts alone. -/
theorem step_quiet {action : Action} (weighted : s.broker.queue.weights.isSome = true) (plain : ¬action.Billed)
    (moved : s.step cfg action = some s') : Quiet s s' := by
  cases action with
  | dequeue | inspect | install => exact absurd trivial plain
  | submit req idAt arrivalAt =>
    simp only [System.step] at moved
    split at moved
    · obtain rfl := Option.some.inj moved
      exact ⟨.refl _, pulled_spawn rfl⟩
    · cases moved
  | route task r =>
    simp only [System.step] at moved
    split at moved
    next msg found =>
      obtain rfl := Option.some.inj moved
      have same : (s.broker.routeMessage cfg msg r).2.queue = s.broker.queue := routeMessage_queue ..
      exact ⟨.of_eq same, pulled_proceed found rfl⟩
    · cases moved
  | enqueue task enqueueAt stamp =>
    simp only [System.step] at moved
    split at moved
    next found =>
      split at moved
      · split at moved
        · obtain rfl := Option.some.inj moved
          exact ⟨.refl _, pulled_proceed found rfl⟩
        next placed =>
          obtain rfl := Option.some.inj moved
          exact ⟨.of_carries (MultiLevelQueue.carries_enqueue _ weighted placed), pulled_proceed found rfl⟩
      · cases moved
    · cases moved
  | pull consumer =>
    simp only [System.step] at moved
    split at moved
    · obtain rfl := Option.some.inj moved
      exact ⟨.refl _, pulled_spawn rfl⟩
    · cases moved
  | sweep task reading =>
    simp only [System.step] at moved
    split at moved
    next found =>
      split at moved
      · obtain rfl := Option.some.inj moved
        exact ⟨.of_carries (MultiLevelQueue.carries_sweepExpiredBatch ..), pulled_proceed found rfl⟩
      · cases moved
    · cases moved
  | backgroundSweep reading =>
    simp only [System.step] at moved
    split at moved
    · obtain rfl := Option.some.inj moved
      exact ⟨.of_carries (MultiLevelQueue.carries_sweepExpiredBatch ..), pulled_spawn rfl⟩
    · cases moved
  | bury task dlqAt stamp =>
    simp only [System.step] at moved
    split at moved
    next found =>
      split at moved
      · obtain rfl := Option.some.inj moved
        exact ⟨.refl _, pulled_proceed found rfl⟩
      · cases moved
    · cases moved
  | resume task =>
    simp only [System.step] at moved
    split at moved
    next errand since found =>
      obtain rfl := Option.some.inj moved
      exact ⟨.refl _, pulled_proceed found errand.resume_pulled⟩
    · cases moved
  | abandon task =>
    simp only [System.step] at moved
    split at moved
    next found =>
      obtain rfl := Option.some.inj moved
      exact ⟨.refl _, pulled_proceed found rfl⟩
    next found =>
      obtain rfl := Option.some.inj moved
      exact ⟨.refl _, pulled_proceed found rfl⟩
    · cases moved
  | settle call recordAt leaseAt r =>
    simp only [System.step] at moved
    split at moved
    · obtain rfl := Option.some.inj moved
      exact ⟨.refl _, rfl⟩
    · split at moved
      · obtain rfl := Option.some.inj moved
        exact settleFor_quiet weighted ..
      · cases moved
  | reclaim r =>
    simp only [System.step] at moved
    repeat' split at moved
    all_goals first
      | cases moved; done
      | (obtain rfl := Option.some.inj moved; exact ⟨finishHand_accounts _ weighted .., rfl⟩)
  | age reading readings =>
    simp only [System.step] at moved
    split at moved
    · obtain rfl := Option.some.inj moved
      exact ⟨.of_carries (MultiLevelQueue.carries_ageOnceLocked _ _ _ weighted), rfl⟩
    · cases moved
  | learn lesson first second =>
    simp only [System.step] at moved
    split at moved
    · cases moved
    next update _ =>
      obtain rfl := Option.some.inj moved
      have same := learn_queue s.broker update first second
      exact ⟨.of_eq same, rfl⟩
  | _ =>
    simp only [System.step] at moved
    repeat' split at moved
    all_goals first
      | cases moved; done
      | (obtain rfl := Option.some.inj moved; exact ⟨.refl _, rfl⟩)

/-- A dequeue is charged, and the charge is held. -/
theorem Balanced.dequeue (sound : Sound cfg s) (balanced : Balanced s bill) {task : Nat}
    (moved : s.step cfg (.dequeue task) = some s') :
    Balanced s' (bill.after cfg s (.dequeue task)) ∧ ClocksFollow s.broker.queue s'.broker.queue := by
  simp only [System.step] at moved
  split at moved
  next consumer found =>
    split at moved
    next empty =>
      obtain rfl := Option.some.inj moved
      simp only [Bill.after, found, empty]
      exact ⟨balanced.quiet ⟨.refl _, pulled_proceed found rfl⟩, (SameAccounts.refl _).clocksFollow⟩
    next msg queue taken =>
      obtain rfl := Option.some.inj moved
      simp only [Bill.after, found, taken]
      obtain ⟨weights, pulls, charged, vclock⟩ := MultiLevelQueue.dequeue_accounts sound.queue balanced.weighted taken
      refine ⟨⟨?_, ?_, ?_, fun level => ?_, fun level => ?_⟩, fun level => ?_⟩
      · exact (congrArg Option.isSome weights).trans balanced.weighted
      · change _ = gather Task.pulled (s.tasks.eraseIdx task ++ [Task.selected consumer msg])
        have before : (↑(bill.held.map Charge.message) : Multiset Message) = 0 + gather Task.pulled (s.tasks.eraseIdx task) :=
          balanced.held.trans (gather_eraseIdx found)
        rw [gather_append, gather_singleton, List.map_cons, ← Multiset.cons_coe, before, zero_add, add_comm]
        exact (Multiset.singleton_add ..).symm
      · intro charge member
        rcases List.mem_cons.mp member with rfl | earlier
        · exact chargeLocked_levelShareCost ..
        · exact balanced.priced charge earlier
      · change queue.pulls level = tally (s.broker.charge msg :: bill.standing) level
        rw [pulls, tally_cons, ← balanced.pulls, update_add]
        rfl
      · change queue.charged level = worth (s.broker.charge msg :: bill.standing) level
        rw [charged, worth_cons, ← balanced.charged, update_add]
        rfl
      · refine ⟨s.broker.queue.vclock level, Or.inl rfl, ?_⟩
        change queue.vclock level = _ + (queue.charged level - _) / _
        rw [vclock, charged, update_add, update_add, add_sub_cancel_left]
        by_cases here : msg.priority = level
        · subst here
          rw [if_pos rfl, if_pos rfl]
        · rw [if_neg here, if_neg here, zero_div]
  · cases moved

/-- Finding the message expired drops it without a refund. -/
theorem Balanced.inspect (reached : Reached cfg s) (balanced : Balanced s bill) {task : Nat} {expiryAt idAt : Time}
    (moved : s.step cfg (.inspect task expiryAt idAt) = some s') :
    Balanced s' (bill.after cfg s (.inspect task expiryAt idAt)) ∧ SameAccounts s.broker.queue s'.broker.queue := by
  simp only [System.step] at moved
  split at moved
  next consumer msg found =>
    split at moved
    · split at moved
      next dead =>
        obtain rfl := Option.some.inj moved
        simp only [Bill.after, found, if_pos dead]
        refine ⟨balanced.regroup (.refl _) ?_ ?_, .refl _⟩
        · refine (balanced.held_release reached.lawful found rfl).trans ?_
          change _ = gather Task.pulled (s.tasks.eraseIdx task ++ [Task.burying (.pullExpiry consumer) [msg] expiryAt])
          rw [gather_append, gather_singleton]
          exact (add_zero _).symm
        · exact (standing_release (balanced.holds reached.lawful found rfl)).trans (standing_expired ..).symm
      next live =>
        obtain rfl := Option.some.inj moved
        simp only [Bill.after, found, if_neg live]
        exact ⟨balanced.quiet ⟨.refl _, pulled_proceed found rfl⟩, .refl _⟩
    · cases moved
  · cases moved

/-- The restore of a message refunds what it would be charged now. -/
def refund (s : System σ) (msg : Message) : ℚ := price msg (s.broker.levelCost msg.priority)

omit [Inference σ] in
/-- A restore that refunds the charge takes it off the bill. -/
theorem Balanced.restore (reached : Reached cfg s) (balanced : Balanced s bill) {task : Nat} {consumer token : Bytes}
    {msg : Message} (found : s.tasks[task]? = some (.staged consumer msg token))
    (fair : refund s msg = (bill.chargeOf msg).cost) {deliveries : Deliveries} (broker : s'.broker = { s.broker with
      deliveries, queue := (s.broker.queue.requeueFront s.broker.levelShareCost msg).getD s.broker.queue })
    (tasks : s'.tasks = s.tasks.eraseIdx task) :
    Balanced s' (bill.release msg) ∧ ClocksFollow s.broker.queue s'.broker.queue ∧
      s'.broker.queue.charged msg.priority = s.broker.queue.charged msg.priority - (bill.chargeOf msg).cost ∧
      s'.broker.queue.vclock msg.priority = s.broker.queue.joined msg.priority -
        (bill.chargeOf msg).cost / s.broker.queue.weight msg.priority := by
  obtain ⟨inside, -⟩ := reached.sound.ready _ (List.mem_of_getElem? found)
  obtain ⟨queue, placed⟩ := s.broker.queue.placeMessage_exists s.broker.levelShareCost (reached.sound.levels ▸ inside) true 0
  obtain ⟨weights, pulls, charged, vclock⟩ := MultiLevelQueue.requeueFront_accounts balanced.weighted placed
  have held := balanced.holds reached.lawful found rfl
  have own := (held_perm held).2
  have split := standing_release held
  have count : ∀ level, s.broker.queue.pulls level =
      tally (bill.release msg).standing level + if msg.priority = level then 1 else 0 := by
    intro level
    rw [balanced.pulls, tally_perm split, tally_cons, own]
  have sum : ∀ level, s.broker.queue.charged level =
      worth (bill.release msg).standing level + if msg.priority = level then (bill.chargeOf msg).cost else 0 := by
    intro level
    rw [balanced.charged, worth_perm split, worth_cons, own]
  have priced : ∀ charge ∈ (bill.release msg).standing, charge.cost = price charge.message charge.average :=
    fun charge member => balanced.priced charge (split.mem_iff.mpr (List.mem_cons_of_mem _ member))
  have nonneg : 0 ≤ worth (bill.release msg).standing msg.priority := by
    refine worth_nonneg (fun charge member => ?_) _
    rw [priced charge member]
    exact zero_le_one.trans (le_max_right _ _)
  have refunded : MultiLevelQueue.chargeLocked s.broker.levelShareCost msg = (bill.chargeOf msg).cost :=
    (chargeLocked_levelShareCost ..).trans fair
  have same : s'.broker.queue = queue := by rw [broker, MultiLevelQueue.requeueFront, placed, Option.getD_some]
  have left : ∀ level, queue.charged level = worth (bill.release msg).standing level := by
    intro level
    rw [charged, refunded]
    by_cases here : level = msg.priority
    · subst here
      rw [Function.update_self, sum, if_pos rfl, add_sub_cancel_right, max_eq_right nonneg]
    · rw [Function.update_of_ne here, sum, if_neg (Ne.symm here), add_zero]
  have clock : ∀ level, queue.vclock level = (if msg.priority = level then s.broker.queue.joined level else
      s.broker.queue.vclock level) + (queue.charged level - s.broker.queue.charged level) / s.broker.queue.weight level := by
    intro level
    rw [vclock, refunded, left, sum]
    by_cases here : level = msg.priority
    · subst here
      rw [Function.update_self, if_pos rfl, if_pos rfl]
      ring
    · rw [Function.update_of_ne here, if_neg (Ne.symm here), if_neg (Ne.symm here)]
      ring
  rw [same]
  refine ⟨⟨?_, ?_, priced, fun level => ?_, fun level => ?_⟩, fun level => ?_, ?_, ?_⟩
  · rw [same, weights]
    exact balanced.weighted
  · rw [tasks]
    exact balanced.held_release reached.lawful found rfl
  · rw [same, pulls]
    by_cases here : level = msg.priority
    · subst here
      rw [Function.update_self, count, if_pos rfl, Nat.add_sub_cancel]
    · rw [Function.update_of_ne here, count, if_neg (Ne.symm here), add_zero]
  · rw [same, left]
  · refine ⟨_, ?_, clock level⟩
    split
    · unfold MultiLevelQueue.joined
      split
      · exact Or.inr rfl
      · exact Or.inl rfl
    · exact Or.inl rfl
  · rw [left, sum, if_pos rfl, add_sub_cancel_right]
  · rw [vclock, Function.update_self, refunded]

/-- A pull that ends here is delivered, or its message carries a prediction, or the average of its level is what it
was at the dequeue. -/
def SteadyEnd (cfg : HarbingerConfig) (state : System σ × Bill) (cancelled : Bool) (fault : Fault) (leaseAt pullAt : Time) :
    Task → Prop
  | .staged consumer msg token =>
    (state.1.broker.deliveries.installation cfg msg consumer token cancelled fault leaseAt pullAt).2 = .ok ∨
      msg.prediction.isSome = true ∨ state.1.broker.levelCost msg.priority = (state.2.chargeOf msg).average
  | _ => True

/-- No restore after the average of the level has moved. -/
def Steady (cfg : HarbingerConfig) (state : System σ × Bill) : Action → Prop
  | .install task cancelled fault leaseAt pullAt =>
    ∀ item ∈ state.1.tasks[task]?, SteadyEnd cfg state cancelled fault leaseAt pullAt item
  | _ => True

omit [Inference σ] in
theorem refund_eq (balanced : Balanced s bill) {msg : Message} (held : bill.Holds msg)
    (steady : msg.prediction.isSome = true ∨ s.broker.levelCost msg.priority = (bill.chargeOf msg).average) :
    refund s msg = (bill.chargeOf msg).cost := by
  obtain ⟨split, own⟩ := held_perm held
  have member : bill.chargeOf msg ∈ bill.standing := (standing_release held).mem_iff.mpr List.mem_cons_self
  rw [balanced.priced _ member, own]
  rcases steady with predicted | same
  · obtain ⟨prediction, known⟩ := Option.isSome_iff_exists.mp predicted
    simp only [refund, price, known, Option.getD_some]
  · rw [refund, same]

theorem Balanced.install (reached : Reached cfg s) (balanced : Balanced s bill) {task : Nat} {cancelled : Bool} {fault : Fault}
    {leaseAt pullAt : Time} (steady : Steady cfg (s, bill) (.install task cancelled fault leaseAt pullAt))
    (moved : s.step cfg (.install task cancelled fault leaseAt pullAt) = some s') :
    Balanced s' (bill.after cfg s (.install task cancelled fault leaseAt pullAt)) ∧
      ClocksFollow s.broker.queue s'.broker.queue := by
  simp only [System.step] at moved
  split at moved
  next consumer msg token free found =>
    split at moved
    · obtain rfl := Option.some.inj moved
      have steady : SteadyEnd .. := steady _ found
      simp only [Bill.after, found]
      by_cases delivered :
          (s.broker.deliveries.installation cfg msg consumer token cancelled fault leaseAt pullAt).2 = .ok
      · simp only [System.installFor, if_pos delivered]
        refine ⟨balanced.regroup (.refl _) ?_ ?_, (SameAccounts.refl _).clocksFollow⟩
        · refine (balanced.held_release reached.lawful found rfl).trans ?_
          change _ = gather Task.pulled (s.tasks.eraseIdx task ++ [])
          rw [List.append_nil]
        · exact (standing_release (balanced.holds reached.lawful found rfl)).trans (standing_delivered ..).symm
      · simp only [System.installFor, if_neg delivered]
        have fair := refund_eq balanced (balanced.holds reached.lawful found rfl) (steady.resolve_left delivered)
        exact And.imp_right And.left (balanced.restore reached found fair rfl (List.append_nil _))
    · cases moved
  · cases moved

theorem Balanced.step (reached : Reached cfg s) (balanced : Balanced s bill) {action : Action}
    (steady : Steady cfg (s, bill) action) (moved : s.step cfg action = some s') :
    Balanced s' (bill.after cfg s action) ∧ ClocksFollow s.broker.queue s'.broker.queue := by
  by_cases billed : action.Billed
  · cases action with
    | dequeue task => exact balanced.dequeue reached.sound moved
    | inspect task expiryAt idAt =>
      obtain ⟨kept, same⟩ := balanced.inspect reached moved
      exact ⟨kept, same.clocksFollow⟩
    | install task cancelled fault leaseAt pullAt => exact balanced.install reached steady moved
    | _ => exact absurd billed id
  · have quiet := step_quiet balanced.weighted billed moved
    rw [after_plain billed]
    exact ⟨balanced.quiet quiet, quiet.toSameAccounts.clocksFollow⟩

instance (cfg : HarbingerConfig) (state : System σ × Bill) (cancelled : Bool) (fault : Fault) (leaseAt pullAt : Time)
    (item : Task) : Decidable (SteadyEnd cfg state cancelled fault leaseAt pullAt item) := by
  cases item <;> unfold SteadyEnd <;> infer_instance

instance (cfg : HarbingerConfig) (state : System σ × Bill) (action : Action) : Decidable (Steady cfg state action) := by
  cases action <;> unfold Steady <;> infer_instance

/-- The message that a pull has taken is live. -/
def FreshItem (expiryAt : Time) : Task → Prop
  | .selected _ msg => ¬msg.isExpired expiryAt
  | _ => True

/-- A step in which no pull finds the message that it has taken expired. -/
def Fresh (s : System σ) : Action → Prop
  | .inspect task expiryAt _ => ∀ item ∈ s.tasks[task]?, FreshItem expiryAt item
  | _ => True

instance (expiryAt : Time) (item : Task) : Decidable (FreshItem expiryAt item) := by
  cases item <;> unfold FreshItem <;> infer_instance

instance (s : System σ) (action : Action) : Decidable (Fresh s action) := by
  cases action <;> unfold Fresh <;> infer_instance

omit [Inference σ] in
theorem after_expired {action : Action} (fresh : Fresh s action) : (bill.after cfg s action).expired = bill.expired := by
  cases action with
  | dequeue task => simp only [Bill.after]; split <;> rfl
  | inspect task expiryAt idAt =>
    simp only [Bill.after]
    split
    next found => rw [if_neg (fresh _ found)]
    · rfl
  | install task cancelled fault leaseAt pullAt =>
    simp only [Bill.after]
    split
    · split <;> rfl
    · rfl
  | _ => rfl

end Steps

section Runs
variable {σ : Type} [Inference σ] {config cfg : HarbingerConfig} {predictor : Option σ} {instanceToken : Bytes} {counter : Nat}
  {b : Broker σ} {now : Time} {actions : List Action} {s : System σ} {bill : Bill}

omit [Inference σ] in
theorem balanced_initial (weighted : cfg.levelWeights.isSome = true)
    (made : Broker.create cfg predictor instanceToken counter = .ok b) : Balanced (System.initial b now) {} := by
  have sound := Sound.initial made now
  obtain ⟨queue, created, same⟩ := bind_ok.mp made
  obtain rfl := Except.ok.inj same
  refine ⟨sound.weights ▸ weighted, rfl, fun _ member => absurd member List.not_mem_nil, fun level => ?_, fun level => ?_⟩
  · obtain ⟨rfl, _, _⟩ := MultiLevelQueue.create_ok created
    rfl
  · obtain ⟨rfl, _, _⟩ := MultiLevelQueue.create_ok created
    rfl

theorem balanced_run (valid : validateConfig config = .ok cfg) (weighted : cfg.levelWeights.isSome = true)
    (made : Broker.create cfg predictor instanceToken counter = .ok b)
    (steady : Transition.Along (billedStep cfg) (Steady cfg) actions (System.initial b now, {}))
    (ran : Transition.run (billedStep cfg) actions (System.initial b now, {}) = some (s, bill)) :
    Reached cfg s ∧ Balanced s bill := by
  refine Transition.run_along (fun state : System σ × Bill => Reached cfg state.1 ∧ Balanced state.1 state.2) ?_
    ⟨.initial made now, balanced_initial weighted made⟩ steady ran
  intro state action next steady known billed
  obtain ⟨after, moved, rfl⟩ := Option.map_eq_some_iff.mp billed
  exact ⟨known.1.step (.of_validateConfig valid) moved, (known.2.step known.1 steady moved).1⟩

/-- What a level has been charged is the sum over the pulls that were not undone, and a restore takes
off its account and its clock just what the message was charged. -/
theorem refund_returns_charge (valid : validateConfig config = .ok cfg) (weighted : cfg.levelWeights.isSome = true)
    (made : Broker.create cfg predictor instanceToken counter = .ok b)
    (steady : Transition.Along (billedStep cfg) (Steady cfg) actions (System.initial b now, {}))
    (ran : Transition.run (billedStep cfg) actions (System.initial b now, {}) = some (s, bill)) :
    (∀ level, s.broker.queue.charged level = worth bill.standing level) ∧
      ∀ task cancelled fault leaseAt pullAt consumer msg token s',
        s.tasks[task]? = some (.staged consumer msg token) →
        Steady cfg (s, bill) (.install task cancelled fault leaseAt pullAt) →
        (s.broker.deliveries.installation cfg msg consumer token cancelled fault leaseAt pullAt).2 ≠ .ok →
        s.step cfg (.install task cancelled fault leaseAt pullAt) = some s' →
        (bill.chargeOf msg ∈ bill.held ∧ (bill.chargeOf msg).message = msg) ∧
          s'.broker.queue.charged msg.priority = s.broker.queue.charged msg.priority - (bill.chargeOf msg).cost ∧
          s'.broker.queue.vclock msg.priority = s.broker.queue.joined msg.priority -
            (bill.chargeOf msg).cost / s.broker.queue.weight msg.priority := by
  obtain ⟨reached, balanced⟩ := balanced_run valid weighted made steady ran
  refine ⟨balanced.charged, ?_⟩
  intro task cancelled fault leaseAt pullAt consumer msg token s' found same restored moved
  have held := balanced.holds reached.lawful found rfl
  obtain ⟨split, own⟩ := held_perm held
  refine ⟨⟨split.mem_iff.mpr List.mem_cons_self, own⟩, ?_⟩
  have same : SteadyEnd .. := same _ found
  have fair := refund_eq balanced held (same.resolve_left restored)
  simp only [System.step, found] at moved
  split at moved
  next free taken =>
    obtain ⟨rfl, rfl, rfl⟩ := Task.staged.inj (Option.some.inj taken)
    split at moved
    · obtain rfl := Option.some.inj moved
      simp only [System.installFor, if_neg restored]
      exact (balanced.restore reached found fair rfl (List.append_nil _)).2.2
    · cases moved
  · cases moved

/-- When no pull is under way, the statistics of a level count its deliveries and what they were charged;
and its clock moves only with what it is charged, or to join at the floor. -/
theorem share_counts_deliveries (valid : validateConfig config = .ok cfg) (weighted : cfg.levelWeights.isSome = true)
    (made : Broker.create cfg predictor instanceToken counter = .ok b)
    (fresh : Transition.Along (billedStep cfg) (fun state action => Steady cfg state action ∧ Fresh state.1 action) actions
      (System.initial b now, {}))
    (ran : Transition.run (billedStep cfg) actions (System.initial b now, {}) = some (s, bill)) :
    ((∀ task ∈ s.tasks, task.pulled = []) → ∀ level, s.broker.queue.pulls level = tally bill.delivered level ∧
      s.broker.queue.charged level = worth bill.delivered level) ∧
    ∀ action s', Steady cfg (s, bill) action → s.step cfg action = some s' → ClocksFollow s.broker.queue s'.broker.queue := by
  obtain ⟨reached, balanced⟩ := balanced_run valid weighted made (fresh.imp fun _ _ => And.left) ran
  have none_expired : bill.expired = [] := by
    refine Transition.run_along (fun state : System σ × Bill => state.2.expired = []) ?_ rfl fresh ran
    intro state action next condition none billed
    obtain ⟨after, moved, rfl⟩ := Option.map_eq_some_iff.mp billed
    exact (after_expired condition.2).trans none
  refine ⟨fun idle level => ?_, fun action s' steady moved => (balanced.step reached steady moved).2⟩
  have none_held : bill.held = [] := by
    have empty : gather Task.pulled s.tasks = 0 := by
      rw [gather, List.flatMap_eq_nil_iff.mpr idle, Multiset.coe_nil]
    exact List.map_eq_nil_iff.mp (Multiset.coe_eq_zero _ |>.mp (balanced.held.trans empty))
  have standing : bill.standing = bill.delivered := by
    rw [Bill.standing, none_held, none_expired, List.nil_append, List.append_nil]
  rw [balanced.pulls, balanced.charged, standing]
  exact ⟨rfl, rfl⟩

section Sample

def weighedConfig : HarbingerConfig := { levelWeights := some [8, 3, 1] }

def weighedBroker : Broker (PerKeyPredictor .plain) :=
  { queue := { numLevels := 3, selection := .weightedTime, aging := none, weights := some [8, 3, 1] } }

theorem weighed_valid : validateConfig weighedConfig = .ok weighedConfig := rfl

theorem weighed_created : Broker.create weighedConfig (none : Option (PerKeyPredictor .plain)) [] 0 = .ok weighedBroker := rfl

/-- Two messages are accepted, the first is delivered, and a second pull takes the other. -/
def secondPull : List Action :=
  sampleRun ++ [.pull (ascii "consumer-0"), .sweep 0 0, .resume 0, .dequeue 0, .inspect 0 0 0]

/-- In between, the first one is acknowledged after 40 ms, which teaches the level its first average. -/
def crossingAck : List Action :=
  [.settle { sampleAck with processingTimeMs := 40 } 0 0 (sampleReadings 0), .close 0 0]

def crossing : Option (System (PerKeyPredictor .plain) × Bill) :=
  Transition.run (billedStep weighedConfig) (secondPull ++ crossingAck) (System.initial weighedBroker 0, {})

/-- The second pull is cancelled: it was charged 1 ms, and 40 ms are refunded, so that nothing is left of what the
first was charged. -/
theorem refund_exceeds_charge :
    validateConfig weighedConfig = .ok weighedConfig ∧
    Broker.create weighedConfig (none : Option (PerKeyPredictor .plain)) [] 0 = .ok weighedBroker ∧
    ∃ s bill s' bill', crossing = some (s, bill) ∧
      billedStep weighedConfig (s, bill) (.install 0 true .none 0 0) = some (s', bill') ∧
      (bill.held.map fun charge => (charge.message.priority, charge.cost)) = [(1, 1)] ∧
      (s.broker.queue.charged 1, worth bill.standing 1) = (2, 2) ∧
      (s'.broker.queue.charged 1, worth bill'.standing 1) = (0, 1) ∧
      s'.broker.queue.vclock 1 = s.broker.queue.joined 1 - 40 / 3 := by
  refine ⟨weighed_valid, weighed_created, ?_⟩
  have known : (crossing.bind fun state => (billedStep weighedConfig state (.install 0 true .none 0 0)).map fun next =>
      (state.2.held.map fun charge => (charge.message.priority, charge.cost), (state.1.broker.queue.charged 1, worth state.2.standing 1),
        (next.1.broker.queue.charged 1, worth next.2.standing 1),
        next.1.broker.queue.vclock 1 - state.1.broker.queue.joined 1)) =
      some ([(1, 1)], (2, 2), (0, 1), -(40 / 3)) := by decide +kernel
  obtain ⟨⟨s, bill⟩, before, rest⟩ := Option.bind_eq_some_iff.mp known
  obtain ⟨⟨s', bill'⟩, moved, facts⟩ := Option.map_eq_some_iff.mp rest
  obtain ⟨held, facts⟩ := Prod.mk.inj facts
  obtain ⟨charged, facts⟩ := Prod.mk.inj facts
  obtain ⟨refunded, clock⟩ := Prod.mk.inj facts
  exact ⟨s, bill, s', bill', before, moved, held, charged, refunded, by linarith⟩

def cancelledPull : List Action := secondPull ++ [.install 0 true .none 0 0]

/-- Cancelled before the acknowledgement, the second pull gets back what it was charged. -/
theorem refund_returns_charge_undisturbed : ∃ s bill,
    Transition.run (billedStep weighedConfig) cancelledPull (System.initial weighedBroker 0, {}) = some (s, bill) ∧
      (s.broker.queue.charged 1, s.broker.queue.pulls 1) = (1, 1) ∧
      ∀ level, s.broker.queue.charged level = worth bill.standing level := by
  have steady : Transition.Along (billedStep weighedConfig) (Steady weighedConfig) cancelledPull
      (System.initial weighedBroker 0, {}) := by decide +kernel
  have known : (Transition.run (billedStep weighedConfig) cancelledPull (System.initial weighedBroker 0, {})).map
      (fun state => (state.1.broker.queue.charged 1, state.1.broker.queue.pulls 1)) = some (1, 1) := by decide +kernel
  obtain ⟨⟨s, bill⟩, ran, facts⟩ := Option.map_eq_some_iff.mp known
  exact ⟨s, bill, ran, facts, (refund_returns_charge weighed_valid rfl weighed_created steady ran).1⟩

/-- A message with a TTL of 1 ms that a pull takes out of the queue at once and inspects 2 ms later. -/
def latePull : List Action :=
  [.registerProducer, .registerConsumer, .submit { producerId := ascii "producer-0", ttlMs := some 1 } 0 0, .route 0 ⟨0, 0, 0⟩,
    .enqueue 0 0 ⟨0, 0⟩, .pull (ascii "consumer-0"), .sweep 0 0, .resume 0, .dequeue 0, .tick 2000000,
    .inspect 0 2000000 2000000, .bury 0 2000000 ⟨2000000, 2000000⟩, .resume 0, .abandon 0]

/-- Nothing was delivered and no pull is under way, but the level has been charged for a pull. -/
theorem expired_pull_charged : ∃ s bill,
    Transition.run (billedStep weighedConfig) latePull (System.initial weighedBroker 0, {}) = some (s, bill) ∧
      s.tasks = [] ∧ bill.delivered = [] ∧ s.broker.dlq.length = 1 ∧
      (s.broker.queue.pulls 1, tally bill.delivered 1) = (1, 0) ∧
      (s.broker.queue.charged 1, worth bill.delivered 1) = (1, 0) ∧ s.broker.queue.vclock 1 = 1 / 3 := by
  have known : (Transition.run (billedStep weighedConfig) latePull (System.initial weighedBroker 0, {})).map
      (fun state => ([state.1.tasks.length, state.2.delivered.length, state.1.broker.dlq.length],
        [state.1.broker.queue.pulls 1, tally state.2.delivered 1],
        [state.1.broker.queue.charged 1, worth state.2.delivered 1, state.1.broker.queue.vclock 1])) =
      some ([0, 0, 1], [1, 0], [1, 0, 1 / 3]) := by decide +kernel
  obtain ⟨⟨s, bill⟩, ran, facts⟩ := Option.map_eq_some_iff.mp known
  simp only [Prod.mk.injEq, List.cons.injEq, and_true] at facts
  obtain ⟨⟨tasks, delivered, dead⟩, ⟨pulls, none⟩, charged, zero, clock⟩ := facts
  exact ⟨s, bill, ran, List.length_eq_zero_iff.mp tasks, List.length_eq_zero_iff.mp delivered, dead,
    Prod.ext pulls none, Prod.ext charged zero, clock⟩

theorem share_counts_deliveries_cancelled : ∃ s bill,
    Transition.run (billedStep weighedConfig) cancelledPull (System.initial weighedBroker 0, {}) = some (s, bill) ∧
      s.tasks = [] ∧ s.broker.queue.pulls 1 = 1 ∧ ∀ level, s.broker.queue.pulls level = tally bill.delivered level ∧
        s.broker.queue.charged level = worth bill.delivered level := by
  have fresh : Transition.Along (billedStep weighedConfig)
      (fun state action => Steady weighedConfig state action ∧ Fresh state.1 action) cancelledPull
      (System.initial weighedBroker 0, {}) := by decide +kernel
  have known : (Transition.run (billedStep weighedConfig) cancelledPull (System.initial weighedBroker 0, {})).map
      (fun state => (state.1.tasks.length, state.1.broker.queue.pulls 1)) = some (0, 1) := by decide +kernel
  obtain ⟨⟨s, bill⟩, ran, facts⟩ := Option.map_eq_some_iff.mp known
  obtain ⟨tasks, pulls⟩ := Prod.mk.inj facts
  have idle : s.tasks = [] := List.length_eq_zero_iff.mp tasks
  exact ⟨s, bill, ran, idle, pulls, (share_counts_deliveries weighed_valid rfl weighed_created fresh ran).1 fun task member =>
    absurd (idle ▸ member) List.not_mem_nil⟩

end Sample

end Runs

end Harbinger
