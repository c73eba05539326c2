import Harbinger.Broker.Delivery

/-! The four delivery tables and their handles agree. `Consistent` says so for at most `cap`
records with times up to `clock`; each locked operation keeps it. -/

namespace Harbinger.Deliveries
open Container

structure Consistent (cap : Nat) (clock : Time) (d : Deliveries) : Prop where
  keyed : ∀ id entry, d.inFlight.lookup id = some entry → entry.message.id = id
  leased : ∀ id entry, d.inFlight.lookup id = some entry →
    ∃ slot ∈ d.deadlines.slots, slot.handle = entry.deadline ∧ slot.value.2 = id
  owned : ∀ slot ∈ d.deadlines.slots, ∃ entry,
    d.inFlight.lookup slot.value.2 = some entry ∧ entry.deadline = slot.handle
  recorded : ∀ slot ∈ d.completions.slots, d.completed.lookup slot.value.token = some slot.handle
  indexed : ∀ token handle, d.completed.lookup token = some handle →
    ∃ slot ∈ d.completions.slots, slot.handle = handle ∧ slot.value.token = token
  ordered : d.completions.slots.Pairwise fun first second => first.value.time ≤ second.value.time
  past : ∀ slot ∈ d.completions.slots, slot.value.time ≤ clock
  apart : ∀ id entry, d.inFlight.lookup id = some entry → entry.attemptToken ∉ d.completed
  fenced : ∀ first second entry other, d.inFlight.lookup first = some entry →
    d.inFlight.lookup second = some other → entry.attemptToken = other.attemptToken → first = second
  bounded : d.completions.size ≤ cap

variable {cap : Nat} {clock : Time} {d : Deliveries}

theorem empty_consistent (cap : Nat) (clock : Time) : Consistent cap clock {} := by
  constructor <;> simp [Multimap.empty, LinkedList.size]

theorem Consistent.later (consistent : Consistent cap clock d) {later : Time} (order : clock ≤ later) :
    Consistent cap later d :=
  { consistent with past := fun slot member => (consistent.past slot member).trans order }

theorem Consistent.completion (consistent : Consistent cap clock d) {token : Bytes} {handle : Nat}
    (known : d.completed.lookup token = some handle) :
    ∃ slot ∈ d.completions.slots, slot.handle = handle ∧ slot.value.token = token ∧
      d.completions.find? handle = some slot.value := by
  obtain ⟨slot, member, same, named⟩ := consistent.indexed token handle known
  exact ⟨slot, member, same, named, same ▸ d.completions.find?_eq_some member⟩

theorem Consistent.install (cfg : HarbingerConfig) (consistent : Consistent cap clock d) {msg : Message} (owner : Bytes)
    {token : Bytes} (absent : msg.id ∉ d.inFlight) (unrecorded : token ∉ d.completed)
    (fresh : ∀ id entry, d.inFlight.lookup id = some entry → entry.attemptToken ≠ token)
    (leaseAt pullAt : Time) : Consistent cap clock (d.install cfg msg owner token leaseAt pullAt) := by
  have found : ∀ id entry, (d.install cfg msg owner token leaseAt pullAt).inFlight.lookup id = some entry →
      (id = msg.id ∧ entry.message.id = msg.id ∧ entry.attemptToken = token ∧
        entry.deadline = d.deadlines.next) ∨ (id ≠ msg.id ∧ d.inFlight.lookup id = some entry) := by
    intro id entry known
    by_cases same : id = msg.id
    · subst same
      simp only [Deliveries.install, AList.lookup_insert, Option.some.injEq] at known
      subst known
      exact Or.inl ⟨rfl, rfl, rfl, rfl⟩
    · simp only [Deliveries.install, AList.lookup_insert_ne same] at known
      exact Or.inr ⟨same, known⟩
  have kept : ∀ id entry, d.inFlight.lookup id = some entry → id ≠ msg.id := by
    rintro id entry known rfl
    exact absent (AList.lookup_isSome.mp (by rw [known]; rfl))
  constructor
  · intro id entry known
    rcases found id entry known with ⟨rfl, named, _⟩ | ⟨_, old⟩
    · exact named
    · exact consistent.keyed id entry old
  · intro id entry known
    rcases found id entry known with ⟨rfl, _, _, handle⟩ | ⟨_, old⟩
    · exact ⟨_, (Multimap.mem_emplace ..).mpr (Or.inl rfl), handle.symm, rfl⟩
    · obtain ⟨slot, member, rest⟩ := consistent.leased id entry old
      exact ⟨slot, (Multimap.mem_emplace ..).mpr (Or.inr member), rest⟩
  · intro slot member
    rcases (Multimap.mem_emplace ..).mp member with rfl | old
    · exact ⟨_, AList.lookup_insert _, rfl⟩
    · obtain ⟨entry, known, handle⟩ := consistent.owned slot old
      exact ⟨entry, (AList.lookup_insert_ne (kept _ _ known)).trans known, handle⟩
  · exact consistent.recorded
  · exact consistent.indexed
  · exact consistent.ordered
  · exact consistent.past
  · intro id entry known
    rcases found id entry known with ⟨rfl, _, named, _⟩ | ⟨_, old⟩
    · exact named ▸ unrecorded
    · exact consistent.apart id entry old
  · intro first second entry other here there same
    rcases found first entry here with ⟨rfl, _, named, _⟩ | ⟨_, old⟩ <;>
      rcases found second other there with ⟨rfl, _, named', _⟩ | ⟨_, old'⟩
    · rfl
    · exact absurd (same.symm.trans named) (fresh second other old')
    · exact absurd (same.trans named') (fresh first entry old)
    · exact consistent.fenced first second entry other old old' same
  · exact consistent.bounded

/-- Records may be dropped anywhere in the list as long as their tokens go with them. -/
theorem Consistent.forget (consistent : Consistent cap clock d) {token : Bytes} {handle : Nat}
    (known : d.completed.lookup token = some handle) :
    Consistent cap clock { d with
      completions := d.completions.erase handle, completed := d.completed.erase token } := by
  have tokenOf : ∀ slot ∈ d.completions.slots, slot.handle ≠ handle → slot.value.token ≠ token := by
    intro slot member different same
    have found := consistent.recorded slot member
    rw [same, known] at found
    exact different (Option.some.inj found).symm
  refine { consistent with recorded := ?_, indexed := ?_, ordered := ?_, past := ?_, apart := ?_, bounded := ?_ }
  · intro slot member
    obtain ⟨present, different⟩ := (LinkedList.mem_erase ..).mp member
    exact (AList.lookup_erase_ne (tokenOf slot present different)).trans (consistent.recorded slot present)
  · intro other handle' found
    by_cases same : other = token
    · subst same
      rw [AList.lookup_erase] at found
      cases found
    · rw [AList.lookup_erase_ne same] at found
      obtain ⟨slot, member, rfl, named⟩ := consistent.indexed other handle' found
      refine ⟨slot, (LinkedList.mem_erase ..).mpr ⟨member, fun equal => same ?_⟩, rfl, named⟩
      obtain ⟨slot', member', handle'', named'⟩ := consistent.indexed token handle known
      rw [← named, ← named', d.completions.slot_unique member member' (equal.trans handle''.symm)]
  · exact consistent.ordered.sublist List.filter_sublist
  · exact fun slot member => consistent.past slot ((LinkedList.mem_erase ..).mp member).1
  · exact fun id entry live recorded => consistent.apart id entry live (AList.mem_erase.mp recorded).2
  · exact (LinkedList.size_erase ..).trans consistent.bounded

theorem Consistent.prune (cfg : HarbingerConfig) (consistent : Consistent cap clock d) (now : Time) (budget : Nat) :
    Consistent cap clock (pruneCompletionsLocked cfg now budget d) := by
  induction budget generalizing d with
  | zero => exact consistent
  | succ budget ih =>
    unfold pruneCompletionsLocked
    split
    · exact consistent
    next slot front =>
      split
      · apply ih
        rw [LinkedList.popFront_eq_erase _ front]
        exact consistent.forget (consistent.recorded slot (List.mem_of_mem_head? front))
      · exact consistent

theorem lookup_emplaceCompleted {completed : AList fun _ : Bytes => Nat} {token : Bytes} {handle : Nat}
    (absent : token ∉ completed) (other : Bytes) :
    (emplaceCompleted completed token handle).lookup other =
      if other = token then some handle else completed.lookup other := by
  rw [emplaceCompleted, if_neg absent]
  by_cases same : other = token
  · rw [if_pos same, same, AList.lookup_insert]
  · rw [if_neg same, AList.lookup_insert_ne same]

/-- Turning a live attempt into a record, before the cache is pruned. -/
theorem Consistent.record (consistent : Consistent cap clock d) {id : Bytes} {entry : InFlightEntry}
    (live : d.inFlight.lookup id = some entry) (kind : Settlement) {time : Time} (order : clock ≤ time) :
    Consistent (cap + 1) time (d.record id entry kind time) := by
  have unrecorded := consistent.apart id entry live
  have lookup := @lookup_emplaceCompleted _ _ d.completions.next unrecorded
  have remaining : ∀ other found, (d.record id entry kind time).inFlight.lookup other = some found →
      other ≠ id ∧ d.inFlight.lookup other = some found := by
    intro other found known
    by_cases same : other = id
    · subst same
      simp [Deliveries.record, AList.lookup_erase] at known
    · exact ⟨same, by rwa [Deliveries.record, AList.lookup_erase_ne same] at known⟩
  constructor
  · exact fun other found known => consistent.keyed other found (remaining other found known).2
  · intro other found known
    obtain ⟨different, old⟩ := remaining other found known
    obtain ⟨slot, member, handle, value⟩ := consistent.leased other found old
    obtain ⟨own, ownMember, ownHandle, ownValue⟩ := consistent.leased id entry live
    refine ⟨slot, (Multimap.mem_erase ..).mpr ⟨member, fun same => different ?_⟩, handle, value⟩
    rw [← value, ← ownValue, d.deadlines.slot_unique member ownMember (same.trans ownHandle.symm)]
  · intro slot member
    obtain ⟨present, different⟩ := (Multimap.mem_erase ..).mp member
    obtain ⟨found, known, handle⟩ := consistent.owned slot present
    have other : slot.value.2 ≠ id := by
      intro same
      rw [same, live] at known
      exact different (by rw [← handle, Option.some.inj known])
    exact ⟨found, (AList.lookup_erase_ne other).trans known, handle⟩
  · intro slot member
    rw [Deliveries.record, LinkedList.slots_pushBack] at member
    change (emplaceCompleted _ _ _).lookup slot.value.token = some slot.handle
    rw [lookup]
    rcases List.mem_append.mp member with old | new
    · have known := consistent.recorded slot old
      have different : slot.value.token ≠ entry.attemptToken := by
        intro same
        exact unrecorded (AList.lookup_isSome.mp (by rw [← same, known]; rfl))
      rw [if_neg different, known]
    · rw [List.mem_singleton.mp new, if_pos rfl]
  · intro token handle known
    change (emplaceCompleted _ _ _).lookup token = some handle at known
    rw [lookup] at known
    simp only [Deliveries.record, LinkedList.slots_pushBack, List.mem_append, List.mem_singleton]
    split at known
    next same => exact ⟨_, Or.inr rfl, Option.some.inj known, same.symm⟩
    next =>
      obtain ⟨slot, member, found⟩ := consistent.indexed token handle known
      exact ⟨slot, Or.inl member, found⟩
  · rw [Deliveries.record, LinkedList.slots_pushBack]
    refine List.pairwise_append.mpr ⟨consistent.ordered, List.pairwise_singleton _ _, ?_⟩
    intro first early second last
    rw [List.mem_singleton.mp last]
    exact (consistent.past first early).trans order
  · intro slot member
    rcases List.mem_append.mp member with old | new
    · exact (consistent.past slot old).trans order
    · rw [List.mem_singleton.mp new]
  · intro other found known recorded
    obtain ⟨different, old⟩ := remaining other found known
    have token : found.attemptToken ≠ entry.attemptToken := fun same =>
      different (consistent.fenced other id found entry old live same)
    have present : ((emplaceCompleted d.completed entry.attemptToken d.completions.next).lookup
        found.attemptToken).isSome := AList.lookup_isSome.mpr recorded
    rw [lookup, if_neg token] at present
    exact consistent.apart other found old (AList.lookup_isSome.mp present)
  · intro first second found other here there
    exact consistent.fenced first second found other (remaining first found here).2
      (remaining second other there).2
  · change (d.completions.slots ++ [_]).length ≤ cap + 1
    have bounded : d.completions.slots.length ≤ cap := consistent.bounded
    simp only [List.length_append, List.length_singleton]
    omega

theorem prune_one_size (cfg : HarbingerConfig) (now : Time)
    (near : d.completions.size ≤ cfg.completionCacheMaxEntries + 1) :
    (pruneCompletionsLocked cfg now 1 d).completions.size ≤ cfg.completionCacheMaxEntries := by
  unfold pruneCompletionsLocked
  split
  next empty =>
    rw [LinkedList.size, List.head?_eq_none_iff.mp empty]
    exact Nat.zero_le _
  next slot front =>
    split
    · change d.completions.slots.tail.length ≤ _
      rw [List.length_tail]
      have length : d.completions.slots.length ≤ cfg.completionCacheMaxEntries + 1 := near
      omega
    next room => exact not_lt.mp fun above => room (Or.inl above)

theorem Consistent.finishClose {cfg : HarbingerConfig}
    (consistent : Consistent cfg.completionCacheMaxEntries clock d) {id : Bytes} {entry : InFlightEntry}
    (live : d.inFlight.lookup id = some entry) (kind : Settlement) {recordAt : Time}
    (order : clock ≤ recordAt) (pruneAt : Time) :
    Consistent cfg.completionCacheMaxEntries recordAt (d.finishClose cfg id entry kind recordAt pruneAt) :=
  have recorded := consistent.record live kind order
  { recorded.prune cfg pruneAt 1 with bounded := prune_one_size cfg pruneAt recorded.bounded }

/-- The locked part of `Pull` installs the attempt or leaves all tables as they were. -/
theorem installation_cases (cfg : HarbingerConfig) (d : Deliveries) (msg : Message) (owner token : Bytes)
    (cancelled : Bool) (fault : Fault) (leaseAt pullAt : Time) :
    (cancelled = false ∧ msg.deliveryCount ≠ 2 ^ 64 - 1 ∧ msg.id ∉ d.inFlight ∧
      d.installation cfg msg owner token cancelled fault leaseAt pullAt =
        (d.install cfg msg owner token leaseAt pullAt, .ok)) ∨
    ∃ status, status ≠ .ok ∧
      d.installation cfg msg owner token cancelled fault leaseAt pullAt = (d, status) := by
  unfold installation
  split
  · exact Or.inr ⟨_, by decide, rfl⟩
  next running =>
    split
    · exact Or.inr ⟨⟨.resourceExhausted, _⟩, fun same => (by cases same), rfl⟩
    next countable =>
      split
      · exact Or.inr ⟨installationFailed, fun same => (by cases same), rfl⟩
      next free =>
        have absent : msg.id ∉ d.inFlight := fun member => free (Or.inr member)
        split
        · refine Or.inr ⟨installationFailed, fun same => (by cases same), ?_⟩
          have undone : (d.inFlight.insert msg.id { message := msg }).erase msg.id = d.inFlight := by
            apply AList.ext
            change List.kerase msg.id (d.inFlight.insert msg.id { message := msg }).entries = d.inFlight.entries
            rw [AList.entries_insert_of_notMem absent]
            exact List.kerase_cons_eq rfl
          rw [undone]
        · exact Or.inl ⟨Bool.eq_false_iff.mpr running, countable, absent, rfl⟩

end Harbinger.Deliveries
