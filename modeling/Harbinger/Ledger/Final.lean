import Harbinger.Ledger.Sound

/-! What the history of a ledger proves: why each message is dead, that an acknowledged
message is finished or expired, and that an ended message is never touched again. -/

namespace Harbinger.Ledger

variable {L L' : Ledger}

/-- The judgement that put an entry into the DLQ. -/
def Justified (history : List Event) (entry : DLQEntry) : Prop :=
  (entry.reason = .ttlExpired ∧ ∃ occasion reading,
    .judged occasion entry.message reading (.deadLettered .ttlExpired) ∈ history ∧
      entry.message.isExpired reading ∧ reading ≤ entry.dlqTime) ∨
  (entry.reason = .maxRetriesExceeded ∧ entry.message.retryCount = entry.message.maxRetries ∧
    ∃ kind before reading, .judged (.settlement kind) before reading (.deadLettered .maxRetriesExceeded) ∈ history ∧
      entry.message = failed before ∧ ¬before.isExpired reading)

theorem Justified.mono {history later : List Event} (included : history ⊆ later) {entry : DLQEntry}
    (justified : Justified history entry) : Justified later entry := by
  rcases justified with ⟨reason, occasion, reading, member, found⟩ |
    ⟨reason, spent, kind, before, reading, member, found⟩
  · exact Or.inl ⟨reason, occasion, reading, included member, found⟩
  · exact Or.inr ⟨reason, spent, kind, before, reading, included member, found⟩

/-- Dead by expiry, or finished. -/
def Closed (L : Ledger) (id : Bytes) : Prop :=
  (∃ entry ∈ L.dead, entry.message.id = id ∧ entry.reason = .ttlExpired) ∨ ∃ msg ∈ L.finished, msg.id = id

/-- On the way to the DLQ as expired, or there. -/
def Doomed (L : Ledger) (msg : Message) : Prop :=
  (∃ since, (msg, since) ∈ L.condemned) ∨ ∃ entry ∈ L.dead, entry.message = msg ∧ entry.reason = .ttlExpired

/-- No event after one that ends a message touches that message. -/
def Quiet (earlier later : Event) : Prop :=
  ∀ id, earlier.closes? = some id → later.touches? ≠ some id

structure Final (L : Ledger) : Prop where
  acked : ∀ owner token id, .settled owner token id .ack ∈ L.history → L.Closed id
  grounded : ∀ call, .answered call .ok ∈ L.history →
    .settled call.owner call.token call.id call.kind ∈ L.history
  doomed : ∀ occasion msg reading fate, .judged occasion msg reading fate ∈ L.history →
    msg.isExpired reading → fate = .deadLettered .ttlExpired ∧ L.Doomed msg
  spared : ∀ occasion msg reading fate, .judged occasion msg reading fate ∈ L.history →
    ¬msg.isExpired reading → fate ≠ .deadLettered .ttlExpired
  condemned : ∀ item ∈ L.condemned, item.1.isExpired item.2 ∧
    ∃ occasion, .judged occasion item.1 item.2 (.deadLettered .ttlExpired) ∈ L.history
  dead : ∀ entry ∈ L.dead, Justified L.history entry
  quiet : L.history.Pairwise Quiet

theorem Closed.shut {id : Bytes} (closed : L.Closed id) : ∃ msg ∈ L.shut, msg.id = id := by
  rcases closed with ⟨entry, member, named, _⟩ | ⟨msg, member, named⟩
  · exact ⟨entry.message, mem_shut.mpr (Or.inr (Or.inl ⟨entry, member, rfl⟩)), named⟩
  · exact ⟨msg, mem_shut.mpr (Or.inr (Or.inr member)), named⟩

theorem Doomed.shut {msg : Message} (doomed : L.Doomed msg) : msg ∈ L.shut := by
  rcases doomed with ⟨since, member⟩ | ⟨entry, member, same, _⟩
  · exact mem_shut.mpr (Or.inl ⟨since, member⟩)
  · exact mem_shut.mpr (Or.inr (Or.inl ⟨entry, member, same⟩))

theorem Final.closes_shut (final : Final L) {event : Event} (member : event ∈ L.history) {id : Bytes}
    (closes : event.closes? = some id) : ∃ msg ∈ L.shut, msg.id = id := by
  cases event with
  | accepted msg => cases closes
  | delivered owner token msg => cases closes
  | judged occasion msg reading fate =>
    simp only [Event.closes?, Option.ite_none_right_eq_some, Option.some.injEq] at closes
    exact ⟨msg, (final.doomed occasion msg reading fate member closes.1).2.shut, closes.2⟩
  | settled owner token other kind =>
    cases kind with
    | ack => exact Option.some.inj closes ▸ (final.acked owner token other member).shut
    | nack => cases closes
    | expired => cases closes
  | answered call status =>
    simp only [Event.closes?, Option.ite_none_right_eq_some, Option.some.injEq] at closes
    obtain ⟨⟨rfl, kind⟩, rfl⟩ := closes
    have settled := final.grounded call member
    rw [kind] at settled
    exact (final.acked call.owner call.token call.id settled).shut

theorem Final.quiet_append (final : Final L) (conserved : Conserved L) {events : List Event}
    (inner : events.Pairwise Quiet)
    (opened : ∀ event ∈ events, ∀ id, event.touches? = some id → ∃ msg ∈ L.opened, msg.id = id) :
    (L.history ++ events).Pairwise Quiet := by
  refine List.pairwise_append.mpr ⟨final.quiet, inner, ?_⟩
  intro earlier member later present id closes touches
  obtain ⟨ended, there, named⟩ := final.closes_shut member closes
  obtain ⟨msg, here, same⟩ := opened later present id touches
  exact conserved.id_ne here there (same.trans named.symm)

theorem Doomed.mono {msg : Message} (doomed : L.Doomed msg) (condemned : L.condemned ⊆ L'.condemned)
    (dead : L.dead ⊆ L'.dead) : L'.Doomed msg := by
  rcases doomed with ⟨since, member⟩ | ⟨entry, member, found⟩
  · exact Or.inl ⟨since, condemned member⟩
  · exact Or.inr ⟨entry, dead member, found⟩

theorem Closed.step {id : Bytes} (closed : L.Closed id) (step : Step L L') : L'.Closed id := by
  obtain ⟨dead, finished, _⟩ := step.grows
  rcases closed with ⟨entry, member, found⟩ | ⟨msg, member, found⟩
  · exact Or.inl ⟨entry, dead.subset member, found⟩
  · exact Or.inr ⟨msg, finished.subset member, found⟩

theorem Doomed.step {msg : Message} (doomed : L.Doomed msg) (step : Step L L') : L'.Doomed msg := by
  have dead := step.grows.1.subset
  cases step with
  | bury other since rest shape time order details =>
    rcases doomed with ⟨begin, member⟩ | ⟨entry, member, found⟩
    · rw [shape] at member
      rcases Multiset.mem_cons.mp member with same | old
      · rw [(Prod.mk.inj same).1]
        exact Or.inr ⟨_, List.mem_append_right _ (List.mem_singleton_self _), rfl, rfl⟩
      · exact Or.inl ⟨begin, old⟩
    · exact Or.inr ⟨entry, dead member, found⟩
  | sweep => exact doomed.mono (Multiset.subset_cons _ _) dead
  | condemn => exact doomed.mono (Multiset.subset_cons _ _) dead
  | _ => exact doomed.mono (Multiset.Subset.refl _) dead

/-- What the new events of a step have to satisfy for `Final` to persist. -/
structure Extends (L L' : Ledger) (events : List Event) : Prop where
  history : L'.history = L.history ++ events
  acked : ∀ owner token id, .settled owner token id .ack ∈ events → L'.Closed id
  grounded : ∀ call, .answered call .ok ∈ events →
    .settled call.owner call.token call.id call.kind ∈ L.history
  doomed : ∀ occasion msg reading fate, .judged occasion msg reading fate ∈ events →
    msg.isExpired reading → fate = .deadLettered .ttlExpired ∧ L'.Doomed msg
  spared : ∀ occasion msg reading fate, .judged occasion msg reading fate ∈ events →
    ¬msg.isExpired reading → fate ≠ .deadLettered .ttlExpired
  condemned : ∀ item ∈ L'.condemned, item ∈ L.condemned ∨ (item.1.isExpired item.2 ∧
    ∃ occasion, .judged occasion item.1 item.2 (.deadLettered .ttlExpired) ∈ events)
  dead : ∀ entry ∈ L'.dead, entry ∈ L.dead ∨ Justified L'.history entry
  inner : events.Pairwise Quiet
  opened : ∀ event ∈ events, ∀ id, event.touches? = some id → ∃ msg ∈ L.opened, msg.id = id

theorem Final.extend (final : Final L) (conserved : Conserved L) (step : Step L L') {events : List Event}
    (extension : Extends L L' events) : Final L' := by
  have included : L.history ⊆ L'.history := step.grows.2.2.subset
  have split : ∀ {event}, event ∈ L'.history → event ∈ L.history ∨ event ∈ events := fun member =>
    List.mem_append.mp (extension.history ▸ member)
  constructor
  · intro owner token id member
    rcases split member with old | new
    · exact (final.acked owner token id old).step step
    · exact extension.acked owner token id new
  · intro call member
    rcases split member with old | new
    · exact included (final.grounded call old)
    · exact included (extension.grounded call new)
  · intro occasion msg reading fate member expired
    rcases split member with old | new
    · obtain ⟨same, doomed⟩ := final.doomed occasion msg reading fate old expired
      exact ⟨same, doomed.step step⟩
    · exact extension.doomed occasion msg reading fate new expired
  · intro occasion msg reading fate member live
    rcases split member with old | new
    · exact final.spared occasion msg reading fate old live
    · exact extension.spared occasion msg reading fate new live
  · intro item member
    rcases extension.condemned item member with old | ⟨expired, occasion, judged⟩
    · obtain ⟨expired, occasion, judged⟩ := final.condemned item old
      exact ⟨expired, occasion, included judged⟩
    · exact ⟨expired, occasion, extension.history ▸ List.mem_append_right _ judged⟩
  · intro entry member
    rcases extension.dead entry member with old | new
    · exact (final.dead entry old).mono included
    · exact new
  · rw [extension.history]
    exact final.quiet_append conserved extension.inner extension.opened

/-- A step whose events, if any, are neither judgements nor settlements nor answers. -/
theorem Extends.plain {events : List Event} (history : L'.history = L.history ++ events)
    (plain : ∀ event ∈ events, (∃ msg, event = .accepted msg) ∨
      ∃ owner token msg, event = .delivered owner token msg ∧ ∃ source ∈ L.opened, source.id = msg.id)
    (inner : events.Pairwise Quiet) (condemned : ∀ item ∈ L'.condemned, item ∈ L.condemned)
    (dead : ∀ entry ∈ L'.dead, entry ∈ L.dead ∨ Justified L'.history entry) : Extends L L' events where
  history := history
  acked := fun owner token id member => by
    rcases plain _ member with ⟨_, impossible⟩ | ⟨_, _, _, impossible, _⟩ <;> cases impossible
  grounded := fun call member => by
    rcases plain _ member with ⟨_, impossible⟩ | ⟨_, _, _, impossible, _⟩ <;> cases impossible
  doomed := fun occasion msg reading fate member => by
    rcases plain _ member with ⟨_, impossible⟩ | ⟨_, _, _, impossible, _⟩ <;> cases impossible
  spared := fun occasion msg reading fate member => by
    rcases plain _ member with ⟨_, impossible⟩ | ⟨_, _, _, impossible, _⟩ <;> cases impossible
  condemned := fun item member => Or.inl (condemned item member)
  dead := dead
  inner := inner
  opened := fun event member id touches => by
    rcases plain event member with ⟨_, rfl⟩ | ⟨_, _, msg, rfl, source, present, named⟩
    · cases touches
    · exact ⟨source, present, named.trans (Option.some.inj touches)⟩

/-- A step that logs one judgement of a message not yet settled. -/
theorem Extends.judgement {occasion : Occasion} {msg : Message} {reading : Time} {fate : Fate}
    (history : L'.history = L.history ++ [.judged occasion msg reading fate]) (opened : msg ∈ L.opened)
    (doomed : msg.isExpired reading → fate = .deadLettered .ttlExpired ∧ L'.Doomed msg)
    (spared : ¬msg.isExpired reading → fate ≠ .deadLettered .ttlExpired)
    (condemned : ∀ item ∈ L'.condemned, item ∈ L.condemned ∨
      (item = (msg, reading) ∧ msg.isExpired reading ∧ fate = .deadLettered .ttlExpired))
    (dead : ∀ entry ∈ L'.dead, entry ∈ L.dead) :
    Extends L L' [.judged occasion msg reading fate] where
  history := history
  acked := fun owner token id member => by cases List.mem_singleton.mp member
  grounded := fun call member => by cases List.mem_singleton.mp member
  doomed := fun _ _ _ _ member => by cases List.mem_singleton.mp member; exact doomed
  spared := fun _ _ _ _ member => by cases List.mem_singleton.mp member; exact spared
  condemned := fun item member => (condemned item member).imp_right fun ⟨same, expired, verdict⟩ => by
    subst same
    exact ⟨expired, occasion, by rw [verdict]; exact List.mem_singleton_self _⟩
  dead := fun entry member => Or.inl (dead entry member)
  inner := List.pairwise_singleton _ _
  opened := fun event member id touches => by
    cases List.mem_singleton.mp member
    exact ⟨msg, opened, Option.some.inj touches⟩

/-- A step that settles a lease. -/
theorem Extends.settlement {lease : Lease} {kind : Settlement} {reading : Time} {fate : Fate}
    (history : L'.history = L.history ++ verdict lease kind reading fate) (leased : lease ∈ L.leased)
    (acked : kind = .ack → L'.Closed lease.message.id)
    (doomed : lease.message.isExpired reading → fate = .deadLettered .ttlExpired ∧ L'.Doomed lease.message)
    (spared : ¬lease.message.isExpired reading → fate ≠ .deadLettered .ttlExpired)
    (condemned : L'.condemned = L.condemned)
    (dead : ∀ entry ∈ L'.dead, entry ∈ L.dead ∨ Justified L'.history entry) :
    Extends L L' (verdict lease kind reading fate) where
  history := history
  acked := fun owner token id member => by
    simp only [verdict, List.mem_cons, reduceCtorEq, Event.settled.injEq, List.not_mem_nil, or_false,
      false_or] at member
    obtain ⟨_, _, rfl, same⟩ := member
    exact acked same.symm
  grounded := fun call member => by simp [verdict] at member
  doomed := fun _ _ _ _ member => by
    simp only [verdict, List.mem_cons, reduceCtorEq, Event.judged.injEq, List.not_mem_nil, or_false] at member
    obtain ⟨_, rfl, rfl, rfl⟩ := member
    exact doomed
  spared := fun _ _ _ _ member => by
    simp only [verdict, List.mem_cons, reduceCtorEq, Event.judged.injEq, List.not_mem_nil, or_false] at member
    obtain ⟨_, rfl, rfl, rfl⟩ := member
    exact spared
  condemned := fun item member => Or.inl (condemned ▸ member)
  dead := dead
  inner := by
    refine List.pairwise_pair.mpr ?_
    intro id _ touches
    cases touches
  opened := fun event member id touches => by
    simp only [verdict, List.mem_cons, List.not_mem_nil, or_false] at member
    rcases member with rfl | rfl
    · exact ⟨lease.message, mem_opened.mpr (Or.inr (Or.inr ⟨lease, leased, rfl⟩)), Option.some.inj touches⟩
    · cases touches

theorem justified_verdict {entry : DLQEntry} {lease : Lease} {kind : Settlement} {reading : Time}
    (expired : entry.message.isExpired reading) (same : entry.message = lease.message)
    (reason : entry.reason = .ttlExpired) (order : reading ≤ entry.dlqTime) (history : List Event) :
    Justified (history ++ verdict lease kind reading (.deadLettered .ttlExpired)) entry := by
  refine Or.inl ⟨reason, .settlement kind, reading, List.mem_append_right _ ?_, expired, order⟩
  rw [same]
  exact List.mem_cons_self ..

theorem Final.step (final : Final L) (conserved : Conserved L) (counted : Counted L) (step : Step L L') :
    Final L' := by
  cases step with
  | accept msg fresh unsent untried budget width =>
    refine final.extend conserved (.accept L msg fresh unsent untried budget width)
      (.plain rfl ?_ (List.pairwise_singleton _ _) (fun _ member => member) fun _ member => Or.inl member)
    exact fun event member => Or.inl ⟨msg, List.mem_singleton.mp member⟩
  | take msg rest shape =>
    exact final.extend conserved (.take L msg rest shape) (.plain (List.append_nil _).symm
      (fun _ member => by cases member) .nil (fun _ member => member) fun _ member => Or.inl member)
  | sweep msg rest shape reading expired =>
    refine final.extend conserved (.sweep L msg rest shape reading expired) (.judgement rfl ?_ ?_ ?_ ?_ ?_)
    · exact mem_opened.mpr (Or.inl (shape ▸ Multiset.mem_cons_self _ _))
    · exact fun _ => ⟨rfl, Or.inl ⟨reading, Multiset.mem_cons_self _ _⟩⟩
    · exact fun live => absurd expired live
    · exact fun item member => (Multiset.mem_cons.mp member).symm.imp_right fun same => ⟨same, expired, rfl⟩
    · exact fun _ member => member
  | condemn msg rest shape reading expired =>
    refine final.extend conserved (.condemn L msg rest shape reading expired) (.judgement rfl ?_ ?_ ?_ ?_ ?_)
    · exact mem_opened.mpr (Or.inr (Or.inl (shape ▸ Multiset.mem_cons_self _ _)))
    · exact fun _ => ⟨rfl, Or.inl ⟨reading, Multiset.mem_cons_self _ _⟩⟩
    · exact fun live => absurd expired live
    · exact fun item member => (Multiset.mem_cons.mp member).symm.imp_right fun same => ⟨same, expired, rfl⟩
    · exact fun _ member => member
  | keep msg present reading live =>
    refine final.extend conserved (.keep L msg present reading live) (.judgement rfl ?_ ?_ ?_ ?_ ?_)
    · exact mem_opened.mpr (Or.inr (Or.inl present))
    · exact fun expired => absurd expired live
    · exact fun _ => Fate.noConfusion
    · exact fun _ member => Or.inl member
    · exact fun _ member => member
  | bury msg since rest shape time order details =>
    refine final.extend conserved (.bury L msg since rest shape time order details)
      (.plain (List.append_nil _).symm (fun _ member => by cases member) .nil ?_ ?_)
    · exact fun item member => shape ▸ Multiset.mem_cons_of_mem member
    · intro entry member
      rcases List.mem_append.mp member with old | new
      · exact Or.inl old
      · obtain ⟨expired, occasion, judged⟩ :=
          final.condemned (msg, since) (shape ▸ Multiset.mem_cons_self _ _)
        rw [List.mem_singleton.mp new]
        exact Or.inr (Or.inl ⟨rfl, occasion, since, judged, expired, order⟩)
  | restore msg rest shape =>
    exact final.extend conserved (.restore L msg rest shape) (.plain (List.append_nil _).symm
      (fun _ member => by cases member) .nil (fun _ member => member) fun _ member => Or.inl member)
  | deliver msg rest shape owner token fresh =>
    refine final.extend conserved (.deliver L msg rest shape owner token fresh)
      (.plain rfl ?_ (List.pairwise_singleton _ _) (fun _ member => member) fun _ member => Or.inl member)
    intro event member
    refine Or.inr ⟨owner, token, begun msg, List.mem_singleton.mp member, msg, ?_, rfl⟩
    exact mem_opened.mpr (Or.inr (Or.inl (shape ▸ Multiset.mem_cons_self _ _)))
  | expire lease rest shape kind reading time order details expired =>
    refine final.extend conserved (.expire L lease rest shape kind reading time order details expired)
      (.settlement rfl (shape ▸ Multiset.mem_cons_self _ _) ?_ ?_ ?_ rfl ?_)
    · exact fun _ => Or.inl ⟨_, List.mem_append_right _ (List.mem_singleton_self _), rfl, rfl⟩
    · exact fun _ => ⟨rfl, Or.inr ⟨_, List.mem_append_right _ (List.mem_singleton_self _), rfl, rfl⟩⟩
    · exact fun live => absurd expired live
    · intro entry member
      rcases List.mem_append.mp member with old | new
      · exact Or.inl old
      · rw [List.mem_singleton.mp new]
        exact Or.inr (justified_verdict expired rfl rfl order _)
  | acknowledge lease rest shape reading live =>
    refine final.extend conserved (.acknowledge L lease rest shape reading live)
      (.settlement rfl (shape ▸ Multiset.mem_cons_self _ _) ?_ ?_ ?_ rfl fun _ member => Or.inl member)
    · exact fun _ => Or.inr ⟨lease.message, List.mem_append_right _ (List.mem_singleton_self _), rfl⟩
    · exact fun expired => absurd expired live
    · exact fun _ => Fate.noConfusion
  | exhaust lease rest shape kind failure reading time details live last =>
    have active : Active lease.message := counted.leased lease (shape ▸ Multiset.mem_cons_self _ _)
    refine final.extend conserved (.exhaust L lease rest shape kind failure reading time details live last)
      (.settlement rfl (shape ▸ Multiset.mem_cons_self _ _) ?_ ?_ ?_ rfl ?_)
    · exact fun ack => absurd ack failure
    · exact fun expired => absurd expired live
    · intro _ same
      injection same with same
      cases same
    · intro entry member
      rcases List.mem_append.mp member with old | new
      · exact Or.inl old
      · rw [List.mem_singleton.mp new]
        refine Or.inr (Or.inr ⟨rfl, ?_, kind, lease.message, reading, ?_, rfl, live⟩)
        · unfold Active at active
          simp only [failed]
          omega
        · exact List.mem_append_right _ (List.mem_cons_self ..)
  | retry lease rest shape kind failure reading live more =>
    refine final.extend conserved (.retry L lease rest shape kind failure reading live more)
      (.settlement rfl (shape ▸ Multiset.mem_cons_self _ _) ?_ ?_ ?_ rfl fun _ member => Or.inl member)
    · exact fun ack => absurd ack failure
    · exact fun expired => absurd expired live
    · exact fun _ => Fate.noConfusion
  | answer call status grounded =>
    refine final.extend conserved (.answer L call status grounded)
      ⟨rfl, ?_, ?_, ?_, ?_, fun _ member => Or.inl member, fun _ member => Or.inl member,
        List.pairwise_singleton _ _, ?_⟩
    · exact fun _ _ _ member => by cases List.mem_singleton.mp member
    · intro other member
      obtain ⟨rfl, rfl⟩ := Event.answered.inj (List.mem_singleton.mp member)
      exact grounded rfl
    · exact fun _ _ _ _ member => by cases List.mem_singleton.mp member
    · exact fun _ _ _ _ member => by cases List.mem_singleton.mp member
    · intro event member id touches
      cases List.mem_singleton.mp member
      cases touches

/-- All the laws together. -/
structure Lawful (L : Ledger) : Prop where
  conserved : Conserved L
  counted : Counted L
  fenced : Fenced L
  final : Final L

theorem Lawful.empty : Lawful {} where
  conserved := ⟨rfl, List.nodup_nil, by simp [accepted], by simp [census], fun _ _ => rfl⟩
  counted := by constructor <;> simp
  fenced := ⟨rfl, List.nodup_nil⟩
  final := by constructor <;> simp

theorem Lawful.steps (lawful : Lawful L) (steps : Steps L L') : Lawful L' := by
  induction steps with
  | refl => exact lawful
  | tail _ step known =>
    exact ⟨known.conserved.step step, known.counted.step step, known.fenced.step step,
      known.final.step known.conserved known.counted step⟩

end Harbinger.Ledger
