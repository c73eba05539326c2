import Harbinger.Ledger.Basic

/-! The laws of the ledger: messages are conserved and counted, tokens are issued and
settled once, and what has been ended stays ended. -/

namespace Harbinger.Ledger

variable {L L' : Ledger}

section Histories
variable (first second : List Event)

@[simp] theorem accepted_append : accepted (first ++ second) = accepted first ++ accepted second :=
  List.filterMap_append

@[simp] theorem issued_append : issued (first ++ second) = issued first ++ issued second :=
  List.filterMap_append

@[simp] theorem settled_append : settled (first ++ second) = settled first ++ settled second :=
  List.filterMap_append

@[simp] theorem attempts_append (id : Bytes) :
    attempts (first ++ second) id = attempts first id ++ attempts second id :=
  List.filterMap_append

theorem mem_answers {history : List Event} {call : Deliveries.Call} {status : Status} :
    (call, status) ∈ answers history ↔ .answered call status ∈ history := by
  simp only [answers, List.mem_filterMap]
  refine ⟨fun ⟨event, member, same⟩ => ?_, fun member => ⟨_, member, rfl⟩⟩
  cases event with
  | answered other reply =>
    cases same
    exact member
  | _ => cases same

end Histories

theorem verdict_reports (lease : Lease) (kind : Settlement) (reading : Time) (fate : Fate) :
    accepted (verdict lease kind reading fate) = [] ∧ issued (verdict lease kind reading fate) = [] ∧
      settled (verdict lease kind reading fate) = [lease.token] ∧
      ∀ id, attempts (verdict lease kind reading fate) id = [] :=
  ⟨rfl, rfl, rfl, fun _ => rfl⟩

theorem coe_append_singleton {α : Type} (list : List α) (last : α) :
    (↑(list ++ [last]) : Multiset α) = last ::ₘ ↑list := by
  rw [← Multiset.coe_add, Multiset.coe_singleton, add_comm, Multiset.singleton_add]

/-- What a step does to the census: it admits a message, moves one, or leaves all of them. -/
inductive Effect (L L' : Ledger) : Prop where
  | admitted (msg : Message) (joined : L'.census = msg ::ₘ L.census)
      (logged : accepted L'.history = accepted L.history ++ [msg])
      (fresh : msg.id ∉ (accepted L.history).map Message.id) (unsent : msg.deliveryCount = 0)
      (width : msg.maxRetries < 2 ^ 32) (same : ∀ id, attempts L'.history id = attempts L.history id)
  | still (kept : L'.census = L.census) (logged : accepted L'.history = accepted L.history)
      (same : ∀ id, attempts L'.history id = attempts L.history id)
  | moved (before after : Message) (rest : Multiset Message) (source : L.census = before ::ₘ rest)
      (target : L'.census = after ::ₘ rest) (content : after.content = before.content)
      (count : after.deliveryCount = before.deliveryCount)
      (logged : accepted L'.history = accepted L.history)
      (same : ∀ id, attempts L'.history id = attempts L.history id)
  | delivered (before : Message) (rest : Multiset Message) (source : L.census = before ::ₘ rest)
      (target : L'.census = begun before ::ₘ rest) (logged : accepted L'.history = accepted L.history)
      (more : ∀ id, attempts L'.history id =
        attempts L.history id ++ if before.id = id then [before.deliveryCount + 1] else [])

theorem Step.effect (step : Step L L') : Effect L L' := by
  cases step with
  | accept msg fresh unsent untried budget width =>
    refine .admitted msg ?_ ?_ fresh unsent width ?_
    · simp only [census, log, Multiset.cons_add]
    · simp [log, accepted, Event.accepted?]
    · simp [log, attempts, Event.attempt?]
  | take msg rest shape =>
    refine .still ?_ rfl fun _ => rfl
    simp only [census, shape, Multiset.cons_add, Multiset.add_cons]
  | sweep msg rest shape reading expired =>
    refine .still ?_ (by simp [log, accepted, Event.accepted?]) (by simp [log, attempts, Event.attempt?])
    simp only [census, log, shape, Multiset.map_cons, Multiset.cons_add, Multiset.add_cons]
  | condemn msg rest shape reading expired =>
    refine .still ?_ (by simp [log, accepted, Event.accepted?]) (by simp [log, attempts, Event.attempt?])
    simp only [census, log, shape, Multiset.map_cons, Multiset.cons_add, Multiset.add_cons]
  | keep msg present reading live =>
    exact .still rfl (by simp [log, accepted, Event.accepted?]) (by simp [log, attempts, Event.attempt?])
  | bury msg since rest shape time order details =>
    refine .still ?_ rfl fun _ => rfl
    simp only [census, shape, List.map_append, List.map_cons, List.map_nil, coe_append_singleton,
      Multiset.map_cons, Multiset.cons_add, Multiset.add_cons]
  | restore msg rest shape =>
    refine .still ?_ rfl fun _ => rfl
    simp only [census, shape, Multiset.cons_add, Multiset.add_cons]
  | deliver msg rest shape owner token fresh =>
    refine .delivered msg (L.waiting + rest + L.condemned.map Prod.fst + L.leased.map Lease.message +
      ↑(L.dead.map DLQEntry.message) + ↑L.finished) ?_ ?_ ?_ ?_
    · simp only [census, shape, Multiset.cons_add, Multiset.add_cons]
    · simp only [census, log, Multiset.map_cons, Multiset.cons_add, Multiset.add_cons]
    · simp [log, accepted, Event.accepted?]
    · intro id
      simp only [log, attempts_append]
      congr 1
      by_cases same : msg.id = id <;> simp [attempts, Event.attempt?, begun, same]
  | expire lease rest shape kind reading time order details expired =>
    refine .still ?_ ?_ ?_
    · simp only [census, log, shape, List.map_append, List.map_cons, List.map_nil, coe_append_singleton,
        Multiset.map_cons, Multiset.cons_add, Multiset.add_cons]
    · simp [log, verdict_reports]
    · simp [log, verdict_reports]
  | acknowledge lease rest shape reading live =>
    refine .still ?_ ?_ ?_
    · simp only [census, log, shape, coe_append_singleton, Multiset.map_cons, Multiset.cons_add,
        Multiset.add_cons]
    · simp [log, verdict_reports]
    · simp [log, verdict_reports]
  | exhaust lease rest shape kind failure reading time details live last =>
    refine .moved lease.message (failed lease.message) (L.waiting + L.held + L.condemned.map Prod.fst +
      rest.map Lease.message + ↑(L.dead.map DLQEntry.message) + ↑L.finished) ?_ ?_ rfl rfl ?_ ?_
    · simp only [census, shape, Multiset.map_cons, Multiset.cons_add, Multiset.add_cons]
    · simp only [census, log, List.map_append, List.map_cons, List.map_nil, coe_append_singleton,
        Multiset.cons_add, Multiset.add_cons]
    · simp [log, verdict_reports]
    · simp [log, verdict_reports]
  | retry lease rest shape kind failure reading live more =>
    refine .moved lease.message (failed lease.message) (L.waiting + L.held + L.condemned.map Prod.fst +
      rest.map Lease.message + ↑(L.dead.map DLQEntry.message) + ↑L.finished) ?_ ?_ rfl rfl ?_ ?_
    · simp only [census, shape, Multiset.map_cons, Multiset.cons_add, Multiset.add_cons]
    · simp only [census, log, Multiset.cons_add]
    · simp [log, verdict_reports]
    · simp [log, verdict_reports]
  | answer call status grounded =>
    exact .still rfl (by simp [log, accepted, Event.accepted?]) (by simp [log, attempts, Event.attempt?])

/-- Every accepted message is in the census once, with the number of its deliveries. -/
structure Conserved (L : Ledger) : Prop where
  same : L.census.map Message.content = ↑((accepted L.history).map Message.content)
  distinct : ((accepted L.history).map Message.id).Nodup
  width : ∀ msg ∈ accepted L.history, msg.maxRetries < 2 ^ 32
  attempted : ∀ msg ∈ L.census, attempts L.history msg.id = List.range' 1 msg.deliveryCount
  unseen : ∀ id, id ∉ (accepted L.history).map Message.id → attempts L.history id = []

namespace Conserved

theorem ids (conserved : Conserved L) :
    L.census.map Message.id = ↑((accepted L.history).map Message.id) := by
  have mapped := congrArg (Multiset.map Message.id) conserved.same
  rwa [Multiset.map_map, Multiset.map_coe, List.map_map] at mapped

theorem nodup (conserved : Conserved L) : (L.census.map Message.id).Nodup := by
  rw [conserved.ids, Multiset.coe_nodup]
  exact conserved.distinct

theorem mem_accepted (conserved : Conserved L) {msg : Message} (member : msg ∈ L.census) :
    msg.id ∈ (accepted L.history).map Message.id := by
  have present := Multiset.mem_map_of_mem Message.id member
  rwa [conserved.ids, Multiset.mem_coe] at present

theorem origin (conserved : Conserved L) {msg : Message} (member : msg ∈ L.census) :
    ∃ source ∈ accepted L.history, source.content = msg.content := by
  have present := Multiset.mem_map_of_mem Message.content member
  rw [conserved.same, Multiset.mem_coe] at present
  exact List.mem_map.mp present

theorem maxRetries_lt (conserved : Conserved L) {msg : Message} (member : msg ∈ L.census) :
    msg.maxRetries < 2 ^ 32 := by
  obtain ⟨source, accepted, same⟩ := conserved.origin member
  rw [← Message.maxRetries_eq_of_content same]
  exact conserved.width source accepted

theorem step (conserved : Conserved L) (step : Step L L') : Conserved L' := by
  cases step.effect with
  | admitted msg joined logged fresh unsent width same =>
    refine ⟨?_, ?_, ?_, ?_, ?_⟩
    · rw [joined, logged, Multiset.map_cons, List.map_append, List.map_singleton, coe_append_singleton,
        conserved.same]
    · rw [logged, List.map_append, List.map_singleton]
      exact (List.nodup_append_comm.mp (List.nodup_cons.mpr ⟨fresh, conserved.distinct⟩))
    · intro other member
      rw [logged] at member
      rcases List.mem_append.mp member with old | new
      · exact conserved.width other old
      · rw [List.mem_singleton.mp new]
        exact width
    · intro other member
      rw [joined] at member
      rw [same]
      rcases Multiset.mem_cons.mp member with rfl | old
      · rw [unsent, conserved.unseen _ fresh]
        rfl
      · exact conserved.attempted other old
    · intro id absent
      rw [same]
      apply conserved.unseen
      intro member
      exact absent (by rw [logged, List.map_append]; exact List.mem_append_left _ member)
  | still kept logged same =>
    refine ⟨?_, ?_, ?_, ?_, ?_⟩
    · rw [kept, logged]; exact conserved.same
    · rw [logged]; exact conserved.distinct
    · rw [logged]; exact conserved.width
    · intro msg member
      rw [same]
      exact conserved.attempted msg (kept ▸ member)
    · intro id absent
      rw [same]
      exact conserved.unseen id (logged ▸ absent)
  | moved before after rest source target content count logged same =>
    have identity := Message.id_eq_of_content content
    refine ⟨?_, ?_, ?_, ?_, ?_⟩
    · have old := conserved.same
      rw [source, Multiset.map_cons] at old
      rw [target, logged, Multiset.map_cons, content, old]
    · rw [logged]; exact conserved.distinct
    · rw [logged]; exact conserved.width
    · intro msg member
      rw [target] at member
      rw [same]
      rcases Multiset.mem_cons.mp member with rfl | old
      · rw [identity, count]
        exact conserved.attempted before (source ▸ Multiset.mem_cons_self _ _)
      · exact conserved.attempted msg (source ▸ Multiset.mem_cons_of_mem old)
    · intro id absent
      rw [same]
      exact conserved.unseen id (logged ▸ absent)
  | delivered before rest source target logged more =>
    have here : before ∈ L.census := source ▸ Multiset.mem_cons_self _ _
    have alone := conserved.nodup
    rw [source, Multiset.map_cons, Multiset.nodup_cons] at alone
    refine ⟨?_, ?_, ?_, ?_, ?_⟩
    · have old := conserved.same
      rw [source, Multiset.map_cons] at old
      rw [target, logged, Multiset.map_cons]
      exact old
    · rw [logged]; exact conserved.distinct
    · rw [logged]; exact conserved.width
    · intro msg member
      rw [target] at member
      rw [more]
      rcases Multiset.mem_cons.mp member with rfl | old
      · change (attempts L.history before.id ++ if before.id = before.id then _ else _) =
          List.range' 1 (before.deliveryCount + 1)
        rw [if_pos rfl, conserved.attempted before here, List.range'_1_concat, Nat.add_comm 1]
      · have different : before.id ≠ msg.id := fun same =>
          alone.1 (same ▸ Multiset.mem_map_of_mem Message.id old)
        rw [if_neg different, List.append_nil]
        exact conserved.attempted msg (source ▸ Multiset.mem_cons_of_mem old)
    · intro id absent
      rw [logged] at absent
      have different : before.id ≠ id := fun same => absent (same ▸ conserved.mem_accepted here)
      rw [more, if_neg different, List.append_nil]
      exact conserved.unseen id absent

end Conserved

/-- Messages that may still be delivered, and messages that may not. -/
def opened (L : Ledger) : Multiset Message := L.waiting + L.held + L.leased.map Lease.message

def shut (L : Ledger) : Multiset Message :=
  L.condemned.map Prod.fst + ↑(L.dead.map DLQEntry.message) + ↑L.finished

theorem mem_opened {msg : Message} : msg ∈ L.opened ↔
    msg ∈ L.waiting ∨ msg ∈ L.held ∨ ∃ lease ∈ L.leased, lease.message = msg := by
  simp [opened, or_assoc]

theorem mem_shut {msg : Message} : msg ∈ L.shut ↔ (∃ since, (msg, since) ∈ L.condemned) ∨
    (∃ entry ∈ L.dead, entry.message = msg) ∨ msg ∈ L.finished := by
  simp [shut, or_assoc]

theorem census_eq (L : Ledger) : L.census = L.opened + L.shut := by
  unfold census opened shut
  abel

theorem Conserved.id_ne (conserved : Conserved L) {msg other : Message} (here : msg ∈ L.opened)
    (there : other ∈ L.shut) : msg.id ≠ other.id := by
  have apart := conserved.nodup
  rw [census_eq, Multiset.map_add, Multiset.nodup_add] at apart
  intro same
  exact Multiset.disjoint_left.mp apart.2.2 (Multiset.mem_map_of_mem Message.id here)
    (same ▸ Multiset.mem_map_of_mem Message.id there)

theorem Step.grows (step : Step L L') :
    L.dead <+: L'.dead ∧ L.finished <+: L'.finished ∧ L.history <+: L'.history := by
  cases step <;> refine ⟨?_, ?_, ?_⟩ <;> first
    | exact List.prefix_refl _
    | exact List.prefix_append _ _

theorem Steps.grows (steps : Steps L L') :
    L.dead <+: L'.dead ∧ L.finished <+: L'.finished ∧ L.history <+: L'.history := by
  induction steps with
  | refl => exact ⟨List.prefix_refl _, List.prefix_refl _, List.prefix_refl _⟩
  | tail _ step known =>
    obtain ⟨dead, finished, history⟩ := step.grows
    exact ⟨known.1.trans dead, known.2.1.trans finished, known.2.2.trans history⟩

section Counts

/-- Not yet delivered in this round of the retry budget. -/
def Idle (msg : Message) : Prop := msg.deliveryCount = msg.retryCount ∧ msg.retryCount < msg.maxRetries

def Active (msg : Message) : Prop :=
  msg.deliveryCount = msg.retryCount + 1 ∧ msg.deliveryCount ≤ msg.maxRetries

def Spent (msg : Message) : Prop := msg.retryCount ≤ msg.maxRetries ∧ msg.deliveryCount ≤ msg.maxRetries

variable {msg : Message}

theorem Idle.spent (idle : Idle msg) : Spent msg := by
  unfold Idle at idle
  unfold Spent
  omega

theorem Active.spent (active : Active msg) : Spent msg := by
  unfold Active at active
  unfold Spent
  omega

theorem Idle.begun (idle : Idle msg) : Active (begun msg) := by
  unfold Idle at idle
  simp only [Active, Ledger.begun]
  omega

theorem Active.failed_idle (active : Active msg) (more : msg.retryCount + 1 < msg.maxRetries) :
    Idle (failed msg) := by
  unfold Active at active
  simp only [Idle, failed]
  omega

theorem Active.failed_spent (active : Active msg) : Spent (failed msg) := by
  unfold Active at active
  simp only [Spent, failed]
  omega

structure Counted (L : Ledger) : Prop where
  waiting : ∀ msg ∈ L.waiting, Idle msg
  held : ∀ msg ∈ L.held, Idle msg
  condemned : ∀ item ∈ L.condemned, Idle item.1
  leased : ∀ lease ∈ L.leased, Active lease.message
  dead : ∀ entry ∈ L.dead, Spent entry.message
  finished : ∀ msg ∈ L.finished, Spent msg

theorem Counted.step (counted : Counted L) (step : Step L L') : Counted L' := by
  have waiting := counted.waiting
  have held := counted.held
  have condemned := counted.condemned
  have leased := counted.leased
  cases step with
  | accept msg fresh unsent untried budget width =>
    have idle : Idle msg := ⟨unsent.trans untried.symm, untried ▸ budget⟩
    exact { counted with waiting := Multiset.forall_mem_cons.mpr ⟨idle, waiting⟩ }
  | take msg rest shape =>
    rw [shape, Multiset.forall_mem_cons] at waiting
    exact { counted with waiting := waiting.2, held := Multiset.forall_mem_cons.mpr ⟨waiting.1, held⟩ }
  | sweep msg rest shape reading expired =>
    rw [shape, Multiset.forall_mem_cons] at waiting
    exact { counted with
      waiting := waiting.2, condemned := Multiset.forall_mem_cons.mpr ⟨waiting.1, condemned⟩ }
  | condemn msg rest shape reading expired =>
    rw [shape, Multiset.forall_mem_cons] at held
    exact { counted with
      held := held.2, condemned := Multiset.forall_mem_cons.mpr ⟨held.1, condemned⟩ }
  | keep msg present reading live => exact { counted with }
  | bury msg since rest shape time order details =>
    rw [shape, Multiset.forall_mem_cons] at condemned
    exact { counted with
      condemned := condemned.2
      dead := List.forall_mem_append.mpr ⟨counted.dead, List.forall_mem_singleton.mpr condemned.1.spent⟩ }
  | restore msg rest shape =>
    rw [shape, Multiset.forall_mem_cons] at held
    exact { counted with held := held.2, waiting := Multiset.forall_mem_cons.mpr ⟨held.1, waiting⟩ }
  | deliver msg rest shape owner token fresh =>
    rw [shape, Multiset.forall_mem_cons] at held
    exact { counted with
      held := held.2, leased := Multiset.forall_mem_cons.mpr ⟨held.1.begun, leased⟩ }
  | expire lease rest shape kind reading time order details expired =>
    rw [shape, Multiset.forall_mem_cons] at leased
    exact { counted with
      leased := leased.2
      dead := List.forall_mem_append.mpr ⟨counted.dead, List.forall_mem_singleton.mpr leased.1.spent⟩ }
  | acknowledge lease rest shape reading live =>
    rw [shape, Multiset.forall_mem_cons] at leased
    exact { counted with
      leased := leased.2
      finished := List.forall_mem_append.mpr
        ⟨counted.finished, List.forall_mem_singleton.mpr leased.1.spent⟩ }
  | exhaust lease rest shape kind failure reading time details live last =>
    rw [shape, Multiset.forall_mem_cons] at leased
    exact { counted with
      leased := leased.2
      dead := List.forall_mem_append.mpr
        ⟨counted.dead, List.forall_mem_singleton.mpr leased.1.failed_spent⟩ }
  | retry lease rest shape kind failure reading live more =>
    rw [shape, Multiset.forall_mem_cons] at leased
    exact { counted with
      leased := leased.2
      waiting := Multiset.forall_mem_cons.mpr ⟨leased.1.failed_idle more, waiting⟩ }
  | answer call status grounded => exact { counted with }

end Counts

/-- Every issued token is leased or settled, and none twice. -/
structure Fenced (L : Ledger) : Prop where
  spread : L.leased.map Lease.token + ↑(settled L.history) = ↑(issued L.history)
  distinct : (issued L.history).Nodup

theorem Fenced.settle (fenced : Fenced L) {lease : Lease} {rest : Multiset Lease}
    (shape : L.leased = lease ::ₘ rest) (kind : Settlement) (reading : Time) (fate : Fate) {next : Ledger}
    (leased : next.leased = rest) (history : next.history = L.history ++ verdict lease kind reading fate) :
    Fenced next := by
  have spread := fenced.spread
  obtain ⟨_, none, token, _⟩ := verdict_reports lease kind reading fate
  constructor
  · rw [shape, Multiset.map_cons] at spread
    rw [leased, history, settled_append, issued_append, none, token, List.append_nil, coe_append_singleton,
      ← spread, Multiset.cons_add, Multiset.add_cons]
  · rw [history, issued_append, none, List.append_nil]
    exact fenced.distinct

theorem Fenced.step (fenced : Fenced L) (step : Step L L') : Fenced L' := by
  have quiet : ∀ {next : Ledger} (events : List Event), next.leased = L.leased →
      next.history = L.history ++ events → settled events = [] → issued events = [] → Fenced next := by
    intro next events leased history unsettled unissued
    constructor
    · rw [leased, history, settled_append, issued_append, unsettled, unissued, List.append_nil, List.append_nil]
      exact fenced.spread
    · rw [history, issued_append, unissued, List.append_nil]
      exact fenced.distinct
  cases step with
  | accept msg => exact quiet [.accepted msg] rfl rfl rfl rfl
  | take => exact quiet [] rfl (List.append_nil _).symm rfl rfl
  | sweep msg _ _ reading =>
    exact quiet [.judged .sweep msg reading (.deadLettered .ttlExpired)] rfl rfl rfl rfl
  | condemn msg _ _ reading =>
    exact quiet [.judged .selection msg reading (.deadLettered .ttlExpired)] rfl rfl rfl rfl
  | keep msg _ reading => exact quiet [.judged .selection msg reading .kept] rfl rfl rfl rfl
  | bury => exact quiet [] rfl (List.append_nil _).symm rfl rfl
  | restore => exact quiet [] rfl (List.append_nil _).symm rfl rfl
  | deliver msg rest shape owner token fresh =>
    have one : issued [Event.delivered owner token (begun msg)] = [token] := rfl
    have none : settled [Event.delivered owner token (begun msg)] = [] := rfl
    constructor
    · simp only [log, settled_append, issued_append, one, none, List.append_nil, coe_append_singleton,
        Multiset.map_cons, Multiset.cons_add, fenced.spread]
    · simp only [log, issued_append, one]
      exact List.nodup_append_comm.mp (List.nodup_cons.mpr ⟨fresh, fenced.distinct⟩)
  | expire lease rest shape kind reading =>
    exact fenced.settle shape kind reading (.deadLettered .ttlExpired) rfl rfl
  | acknowledge lease rest shape reading => exact fenced.settle shape .ack reading .acknowledged rfl rfl
  | exhaust lease rest shape kind _ reading =>
    exact fenced.settle shape kind reading (.deadLettered .maxRetriesExceeded) rfl rfl
  | retry lease rest shape kind _ reading => exact fenced.settle shape kind reading .retried rfl rfl
  | answer call status => exact quiet [.answered call status] rfl rfl rfl rfl

end Harbinger.Ledger
