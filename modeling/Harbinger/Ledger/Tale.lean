import Harbinger.Ledger.Final

/-! What the history tells about each message: the outcome of every attempt that was settled
and an expiry in the queue. Until a message has ended its attempts have all been retried, in
order, and one last outcome ends it. -/

namespace Harbinger

/-- The message that an event decides, the attempt if there is one, and the outcome. -/
def Event.told? : Event → Option (Bytes × Option Nat × Fate)
  | .judged (.settlement _) msg _ fate => some (msg.id, some msg.deliveryCount, fate)
  | .judged _ msg _ (.deadLettered reason) => some (msg.id, none, .deadLettered reason)
  | _ => none

namespace Ledger

def tale (history : List Event) : List (Bytes × Option Nat × Fate) := history.filterMap Event.told?

/-- The part of a tale that is about one message. -/
def about {α : Type} (id : Bytes) (tale : List (Bytes × α)) : List α :=
  (tale.filter fun item => item.1 = id).map Prod.snd

theorem tale_append (first second : List Event) : tale (first ++ second) = tale first ++ tale second :=
  List.filterMap_append ..

section About
variable {α : Type} {id : Bytes}

@[simp] theorem about_nil : about id ([] : List (Bytes × α)) = [] := rfl

theorem about_append (first second : List (Bytes × α)) :
    about id (first ++ second) = about id first ++ about id second := by
  simp only [about, List.filter_append, List.map_append]

theorem about_here (item : α) : about id [(id, item)] = [item] := by
  simp [about]

theorem about_other {other : Bytes} (different : other ≠ id) (item : α) : about id [(other, item)] = [] := by
  simp [about, different]

end About

/-- Where a message stands, as far as the tale about it goes. -/
inductive Stage where
  | waiting | leased | condemned | ended
  deriving DecidableEq

def retries (count : Nat) : List (Option Nat × Fate) :=
  (List.range' 1 count).map fun attempt => (some attempt, .retried)

theorem retries_succ (count : Nat) : retries (count + 1) = retries count ++ [(some (count + 1), .retried)] := by
  rw [retries, List.range'_1_concat, List.map_append, Nat.add_comm 1 count]
  rfl

def Fate.Terminal : Fate → Prop
  | .acknowledged => True
  | .deadLettered _ => True
  | _ => False

/-- The tales that a message can have at each stage. -/
def Fits : Stage → Message → List (Option Nat × Fate) → Prop
  | .waiting, msg, tale => tale = retries msg.deliveryCount
  | .leased, msg, tale => 0 < msg.deliveryCount ∧ tale = retries (msg.deliveryCount - 1)
  | .condemned, msg, tale => tale = retries msg.deliveryCount ++ [(none, .deadLettered .ttlExpired)]
  | .ended, msg, tale => tale = retries msg.deliveryCount ++ [(none, .deadLettered .ttlExpired)] ∨
      0 < msg.deliveryCount ∧ ∃ fate, Fate.Terminal fate ∧
        tale = retries (msg.deliveryCount - 1) ++ [(some msg.deliveryCount, fate)]

def stages (L : Ledger) : Multiset (Stage × Message) :=
  (L.waiting + L.held).map (fun msg => (.waiting, msg)) + L.condemned.map (fun item => (.condemned, item.1)) +
    L.leased.map (fun lease => (.leased, lease.message)) +
    (↑L.dead : Multiset DLQEntry).map (fun entry => (.ended, entry.message)) +
    (↑L.finished : Multiset Message).map (fun msg => (.ended, msg))

theorem stages_census (L : Ledger) : L.stages.map Prod.snd = L.census := by
  simp only [stages, census, Multiset.map_add, Multiset.map_map, Function.comp_def, Multiset.map_id',
    ← Multiset.map_coe]

structure Recited (L : Ledger) : Prop where
  fits : ∀ item ∈ L.stages, Fits item.1 item.2 (about item.2.id (tale L.history))
  unseen : ∀ id, id ∉ (accepted L.history).map Message.id → about id (tale L.history) = []

variable {L L' : Ledger}

theorem Conserved.stages_nodup (conserved : Conserved L) : (L.stages.map fun item => item.2.id).Nodup := by
  have distinct := conserved.nodup
  rwa [← stages_census, Multiset.map_map] at distinct

namespace Recited

theorem still (recited : Recited L) (stages : L'.stages = L.stages) (logged : accepted L'.history = accepted L.history)
    (told : tale L'.history = tale L.history) : Recited L' where
  fits := fun item member => by
    rw [told]
    exact recited.fits item (stages ▸ member)
  unseen := fun id absent => by
    rw [told]
    exact recited.unseen id (logged ▸ absent)

/-- A step that moves one message to another stage and tells something about that message only. -/
theorem moved (recited : Recited L) (conserved : Conserved L) (stage stage' : Stage)
    (added : List (Option Nat × Fate)) {msg msg' : Message} {rest : Multiset (Stage × Message)}
    (source : L.stages = (stage, msg) ::ₘ rest) (target : L'.stages = (stage', msg') ::ₘ rest)
    (same : msg'.id = msg.id) (logged : accepted L'.history = accepted L.history)
    (told : tale L'.history = tale L.history ++ added.map (Prod.mk msg.id))
    (fits : ∀ known, Fits stage msg known → Fits stage' msg' (known ++ added)) : Recited L' := by
  have here : about msg.id (added.map (Prod.mk msg.id)) = added := by
    simp [about, List.filter_map, Function.comp_def]
  have elsewhere : ∀ id, id ≠ msg.id → about id (added.map (Prod.mk msg.id)) = [] := by
    intro id different
    simp [about, List.filter_map, Function.comp_def, different.symm]
  have apart := conserved.stages_nodup
  rw [source, Multiset.map_cons, Multiset.nodup_cons] at apart
  constructor
  · intro item member
    rw [told, about_append]
    rw [target] at member
    rcases Multiset.mem_cons.mp member with rfl | other
    · rw [same, here]
      exact fits _ (recited.fits _ (source ▸ Multiset.mem_cons_self _ _))
    · have different : item.2.id ≠ msg.id := fun equal => apart.1 (equal ▸ Multiset.mem_map_of_mem _ other)
      rw [elsewhere _ different, List.append_nil]
      exact recited.fits item (source ▸ Multiset.mem_cons_of_mem other)
  · intro id absent
    rw [logged] at absent
    have known : msg.id ∈ (accepted L.history).map Message.id := by
      apply conserved.mem_accepted
      rw [← stages_census, source, Multiset.map_cons]
      exact Multiset.mem_cons_self _ _
    have different : id ≠ msg.id := fun equal => absent (equal ▸ known)
    rw [told, about_append, elsewhere id different, recited.unseen id absent, List.append_nil]

theorem settled (recited : Recited L) (conserved : Conserved L) (stage : Stage) (msg : Message) {lease : Lease}
    {rest : Multiset Lease} (shape : L.leased = lease ::ₘ rest) {kind : Settlement} {reading : Time} {fate : Fate}
    (history : L'.history = L.history ++ verdict lease kind reading fate)
    (target : L'.stages = (stage, msg) ::ₘ { L with leased := rest }.stages) (same : msg.id = lease.message.id)
    (fits : ∀ count, lease.message.deliveryCount = count + 1 →
      Fits stage msg (retries count ++ [(some (count + 1), fate)])) : Recited L' := by
  refine recited.moved conserved .leased stage [(some lease.message.deliveryCount, fate)] ?_ target same ?_ ?_ ?_
  · simp only [stages, shape, Multiset.map_cons, Multiset.cons_add, Multiset.add_cons]
  · rw [history, accepted_append, (verdict_reports lease kind reading fate).1, List.append_nil]
  · rw [history, tale_append]
    rfl
  · intro known leased
    obtain ⟨positive, rfl⟩ := leased
    obtain ⟨count, succ⟩ := Nat.exists_eq_succ_of_ne_zero positive.ne'
    rw [succ, Nat.succ_sub_one]
    exact fits count succ

theorem fits_ended {msg : Message} (fate : Fate) (final : Fate.Terminal fate) {count : Nat}
    (succ : msg.deliveryCount = count + 1) : Fits .ended msg (retries count ++ [(some (count + 1), fate)]) := by
  refine Or.inr ⟨by omega, fate, final, ?_⟩
  rw [succ, Nat.add_sub_cancel]

theorem step (recited : Recited L) (conserved : Conserved L) (step : Step L L') : Recited L' := by
  cases step with
  | accept msg fresh unsent untried budget width =>
    have told : tale (L.history ++ [.accepted msg]) = tale L.history := by
      rw [tale_append]
      exact List.append_nil _
    constructor
    · intro item member
      change Fits item.1 item.2 (about item.2.id (tale (L.history ++ [.accepted msg])))
      rw [told]
      simp only [stages, log, Multiset.cons_add, Multiset.map_cons] at member
      rcases Multiset.mem_cons.mp member with rfl | other
      · rw [recited.unseen _ fresh]
        simp only [Fits, unsent]
        rfl
      · exact recited.fits item other
    · intro id absent
      change about id (tale (L.history ++ [.accepted msg])) = []
      rw [told]
      refine recited.unseen id fun known => absent ?_
      simp only [log, accepted_append, List.map_append]
      exact List.mem_append_left _ known
  | take msg rest shape =>
    refine recited.still ?_ rfl rfl
    simp only [stages, shape, Multiset.cons_add, Multiset.add_cons]
  | sweep msg rest shape reading expired =>
    have source : L.stages = (.waiting, msg) ::ₘ { L with waiting := rest }.stages := by
      simp only [stages, shape, Multiset.cons_add, Multiset.map_cons]
    have target : stages (log { L with waiting := rest, condemned := (msg, reading) ::ₘ L.condemned }
        [.judged .sweep msg reading (.deadLettered .ttlExpired)]) =
        (.condemned, msg) ::ₘ { L with waiting := rest }.stages := by
      simp only [stages, log, Multiset.map_cons, Multiset.cons_add, Multiset.add_cons]
    refine recited.moved conserved .waiting .condemned [(none, .deadLettered .ttlExpired)] source target rfl ?_
      (tale_append _ _) fun _ waiting => ?_
    · simp [log, accepted, Event.accepted?]
    · rw [waiting]
      rfl
  | condemn msg rest shape reading expired =>
    have source : L.stages = (.waiting, msg) ::ₘ { L with held := rest }.stages := by
      simp only [stages, shape, Multiset.add_cons, Multiset.cons_add, Multiset.map_cons]
    have target : stages (log { L with held := rest, condemned := (msg, reading) ::ₘ L.condemned }
        [.judged .selection msg reading (.deadLettered .ttlExpired)]) =
        (.condemned, msg) ::ₘ { L with held := rest }.stages := by
      simp only [stages, log, Multiset.map_cons, Multiset.cons_add, Multiset.add_cons]
    refine recited.moved conserved .waiting .condemned [(none, .deadLettered .ttlExpired)] source target rfl ?_
      (tale_append _ _) fun _ waiting => ?_
    · simp [log, accepted, Event.accepted?]
    · rw [waiting]
      rfl
  | keep msg present reading live =>
    refine recited.still rfl ?_ ?_
    · simp [log, accepted, Event.accepted?]
    · simp [log, tale, Event.told?]
  | bury msg since rest shape time order details =>
    have source : L.stages = (.condemned, msg) ::ₘ { L with condemned := rest }.stages := by
      simp only [stages, shape, Multiset.map_cons, Multiset.cons_add, Multiset.add_cons]
    have target : stages { L with condemned := rest, dead := L.dead ++ [⟨msg, .ttlExpired, time, details⟩] } =
        (.ended, msg) ::ₘ { L with condemned := rest }.stages := by
      simp only [stages, coe_append_singleton, Multiset.map_cons, Multiset.cons_add, Multiset.add_cons]
    refine recited.moved conserved .condemned .ended [] source target rfl rfl (List.append_nil _).symm ?_
    intro known condemned
    rw [condemned, List.append_nil]
    exact Or.inl rfl
  | restore msg rest shape =>
    refine recited.still ?_ rfl rfl
    simp only [stages, shape, Multiset.cons_add, Multiset.add_cons]
  | deliver msg rest shape owner token fresh =>
    have source : L.stages = (.waiting, msg) ::ₘ { L with held := rest }.stages := by
      simp only [stages, shape, Multiset.add_cons, Multiset.cons_add, Multiset.map_cons]
    have target : stages (log { L with held := rest, leased := ⟨owner, token, begun msg⟩ ::ₘ L.leased }
        [.delivered owner token (begun msg)]) = (.leased, begun msg) ::ₘ { L with held := rest }.stages := by
      simp only [stages, log, Multiset.map_cons, Multiset.cons_add, Multiset.add_cons]
    refine recited.moved conserved .waiting .leased [] source target rfl ?_ (tale_append _ _) fun _ waiting => ?_
    · simp [log, accepted, Event.accepted?]
    · rw [waiting, List.append_nil]
      exact ⟨Nat.succ_pos _, rfl⟩
  | expire lease rest shape kind reading time order details expired =>
    refine recited.settled conserved .ended lease.message shape rfl ?_ rfl fun _ succ => fits_ended _ ?_ succ
    · simp only [stages, log, coe_append_singleton, Multiset.map_cons, Multiset.cons_add, Multiset.add_cons]
    · trivial
  | acknowledge lease rest shape reading live =>
    refine recited.settled conserved .ended lease.message shape rfl ?_ rfl fun _ succ => fits_ended _ ?_ succ
    · simp only [stages, log, coe_append_singleton, Multiset.map_cons, Multiset.add_cons]
    · trivial
  | exhaust lease rest shape kind failure reading time details live last =>
    refine recited.settled conserved .ended (failed lease.message) shape rfl ?_ rfl fun _ succ => fits_ended _ ?_ succ
    · simp only [stages, log, coe_append_singleton, Multiset.map_cons, Multiset.cons_add, Multiset.add_cons]
    · trivial
  | retry lease rest shape kind failure reading live more =>
    refine recited.settled conserved .waiting (failed lease.message) shape rfl ?_ rfl fun count succ => ?_
    · simp only [stages, log, Multiset.map_cons, Multiset.cons_add]
    · rw [← retries_succ, ← succ]
      rfl
  | answer call status grounded =>
    refine recited.still rfl ?_ ?_
    · simp [log, accepted, Event.accepted?]
    · simp [log, tale, Event.told?]

theorem empty : Recited {} where
  fits := fun item member => by cases member
  unseen := fun _ _ => rfl

end Recited

theorem Lawful.recited_steps (lawful : Lawful L) (recited : Recited L) (steps : Steps L L') : Recited L' := by
  induction steps with
  | refl => exact recited
  | tail before step known => exact known.step (lawful.steps before).conserved step

end Ledger

end Harbinger
