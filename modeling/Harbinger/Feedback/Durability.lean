import Harbinger.Feedback.Storage

/-! The durability counters of the feedback writer, read off the segments: every complete record is synced, waiting
for the next sync, or uncertain, whichever calls of the storage fail. -/

namespace Harbinger.Feedback

variable {ρ : Type}

/-- How many records no `fsync` has covered. -/
def Segment.exposed (s : Segment ρ) : Nat := s.records.length - s.synced

/-- What a segment adds to `written`, to `synced`, and to `uncertain` and `unsynced` together. -/
def Segment.weight (s : Segment ρ) : Nat × Nat × Nat := (s.records.length, s.synced, s.exposed + s.failed.toNat)

namespace Files
variable {f : Files ρ}

/-- All segments in the order of their generations. -/
def segments (f : Files ρ) : List (Segment ρ) := f.parted.map Prod.fst ++ f.active.toList

/-- The written records in their order. -/
def contents (f : Files ρ) : List ρ := f.segments.flatMap Segment.records

structure Sound (f : Files ρ) : Prop where
  totals : (f.written, f.synced, f.uncertain + f.unsynced) = (f.segments.map Segment.weight).sum
  covered : ∀ s ∈ f.segments, s.synced ≤ s.records.length
  unsynced : f.unsynced = if f.fd then (f.active.map Segment.exposed).getD 0 else 0
  whole : ∀ s, (s, true) ∈ f.parted → s.synced = s.records.length ∧ s.failed = false

theorem Sound.written (sound : f.Sound) : f.written = f.contents.length := by
  have total := congrArg (AddMonoidHom.fst Nat (Nat × Nat)) sound.totals
  rw [map_list_sum, List.map_map] at total
  rw [contents, List.length_flatMap]
  exact total

/-- Every record is synced or exposed. -/
theorem sum_weight {segments : List (Segment ρ)} (covered : ∀ s ∈ segments, s.synced ≤ s.records.length) :
    ∃ synced exposed, (segments.map Segment.weight).sum =
      (synced + exposed, synced, exposed + segments.countP Segment.failed) := by
  induction segments with
  | nil => exact ⟨0, 0, rfl⟩
  | cons s rest ih =>
    obtain ⟨synced, exposed, total⟩ := ih fun t member => covered t (List.mem_cons_of_mem s member)
    have short := covered s List.mem_cons_self
    refine ⟨s.synced + synced, s.exposed + exposed, ?_⟩
    rw [List.map_cons, List.sum_cons, total]
    cases failed : s.failed <;> simp [Segment.weight, Segment.exposed, failed] <;> omega

/-- The descriptor is open on a file to which no write has failed. -/
def Ready (f : Files ρ) : Prop := f.fd = true ∧ ∃ s, f.active = some s ∧ s.failed = false

/-- The same records are on disk, and the counters agree with them. -/
def Keeps (f g : Files ρ) : Prop := g.Sound ∧ g.contents = f.contents ∧ g.healthy = f.healthy

/-- What a routine returns, and what it leaves behind when it throws. -/
def Ends (result : Except (Files ρ) (Files ρ)) (returned thrown : Files ρ → Prop) : Prop :=
  match result with
  | .ok f => returned f
  | .error f => thrown f

section Rules
variable {result : Except (Files ρ) (Files ρ)} {next : Files ρ → Except (Files ρ) (Files ρ)} {fails : Bool}
  {between returned thrown : Files ρ → Prop}

theorem Ends.bind (done : Ends result between thrown) (later : ∀ f, between f → Ends (next f) returned thrown) :
    Ends (result >>= next) returned thrown := by
  cases result with
  | error f => exact done
  | ok f => exact later f done

/-- A call of the storage either throws or changes nothing here. -/
theorem ends_call (error : thrown f) (done : returned f) : Ends (call fails f) returned thrown := by
  cases fails
  · exact done
  · exact error

theorem Ends.after_call (error : thrown f) (later : Ends (next f) returned thrown) :
    Ends (call fails f >>= next) returned thrown :=
  Ends.bind (ends_call error (Eq.refl f)) fun _ same => same ▸ later

end Rules

theorem segments_part (f : Files ρ) (sealing : Bool) : (f.part sealing).segments = f.segments := by
  cases known : f.active <;> simp [segments, part, known]

theorem contents_part (f : Files ρ) (sealing : Bool) : (f.part sealing).contents = f.contents := by
  rw [contents, segments_part, contents]

/-- A closed file is renamed; if it is sealed, all of it is synced. -/
theorem Sound.part (sound : f.Sound) (closed : f.fd = false) {sealing : Bool}
    (entire : sealing = true → ∀ s ∈ f.active, s.synced = s.records.length ∧ s.failed = false) :
    (f.part sealing).Sound where
  totals := by rw [segments_part]; exact sound.totals
  covered := by rw [segments_part]; exact sound.covered
  unsynced := by
    have none := sound.unsynced
    rw [closed] at none
    simp [Files.part, closed, none]
  whole s member := by
    rcases List.mem_append.mp member with old | new
    · exact sound.whole s old
    · obtain ⟨known, rfl⟩ : f.active = some s ∧ sealing = true := by simpa using new
      exact entire rfl s known

theorem ends_openSegment (fault : Fault) {e : Files ρ} (kept : Keeps e f) (closed : f.fd = false) (parted : f.active = none) :
    Ends (openSegment fault f) (fun g => Keeps e g ∧ g.Ready) (Keeps e) := by
  refine Ends.after_call kept (Ends.after_call kept ?_)
  dsimp only
  split
  · rw [← closed, ← parted]
    exact ⟨{ kept.1 with }, kept.2⟩
  · have quiet : f.unsynced = 0 := by simpa [closed] using kept.1.unsynced
    have fresh : Keeps e { f with
        generation := f.generation + 1, fd := true, active := some {}, activeBytes := 0, unsynced := 0 } := by
      refine ⟨⟨?_, ?_, rfl, kept.1.whole⟩, ?_, kept.2.2⟩
      · simpa [segments, parted, quiet, Segment.weight, Segment.exposed, Prod.mk_zero_zero] using kept.1.totals
      · simpa [segments, parted, or_imp, forall_and] using kept.1.covered
      · simpa [contents, segments, parted] using kept.2.1
    exact ends_call fresh ⟨fresh, rfl, {}, rfl, rfl⟩

/-- The file under its `.active` name changes, and the counters with it. -/
theorem Sound.update (sound : f.Sound) {s t : Segment ρ} (known : f.active = some s) {g : Files ρ}
    (parted : g.parted = f.parted) (active : g.active = some t)
    (change : (g.written, g.synced, g.uncertain + g.unsynced) + s.weight =
      (f.written, f.synced, f.uncertain + f.unsynced) + t.weight)
    (covered : t.synced ≤ t.records.length) (unsynced : g.unsynced = if g.fd then t.exposed else 0) : g.Sound := by
  have before : f.segments = f.parted.map Prod.fst ++ [s] := by rw [segments, known]; rfl
  have after : g.segments = f.parted.map Prod.fst ++ [t] := by rw [segments, active, parted]; rfl
  refine ⟨?_, ?_, by rw [unsynced, active]; rfl, by rw [parted]; exact sound.whole⟩
  · rw [sound.totals, before] at change
    rw [after]
    simp only [List.map_append, List.map_singleton, List.sum_append, List.sum_singleton] at change ⊢
    exact add_right_cancel (change.trans (add_right_comm ..))
  · have earlier := sound.covered
    rw [before, List.forall_mem_append] at earlier
    rw [after, List.forall_mem_append]
    exact ⟨earlier.1, List.forall_mem_singleton.mpr covered⟩

theorem Sound.waiting (sound : f.Sound) (opened : f.fd = true) {s : Segment ρ} (known : f.active = some s) :
    f.unsynced = s.exposed ∧ s.synced ≤ s.records.length :=
  ⟨by simpa [opened, known] using sound.unsynced, sound.covered s (by simp [segments, known])⟩

theorem ends_syncActive (fault : Fault) (sound : f.Sound) (ready : f.Ready) :
    Ends (syncActive fault f) (fun g => Keeps f g ∧ g.Ready ∧ g.unsynced = 0 ∧ ∀ s ∈ g.active, s.synced = s.records.length)
      (Keeps f) := by
  obtain ⟨opened, s, known, intact⟩ := ready
  obtain ⟨waiting, short⟩ := sound.waiting opened known
  unfold syncActive
  rw [opened]
  refine Ends.after_call ⟨sound, rfl, rfl⟩ ?_
  refine ⟨⟨?_, ?_, rfl⟩, ⟨opened, { s with synced := s.records.length }, by simp [known], intact⟩, rfl, ?_⟩
  · refine sound.update (t := { s with synced := s.records.length }) known rfl (by simp [known]) ?_ le_rfl ?_
    · simp [Segment.weight, waiting, Segment.exposed]
      omega
    · simp [Segment.exposed]
  · simp [contents, segments, known]
  · simp [known]

theorem ends_sealActive (fault : Fault) (sound : f.Sound) (ready : f.Ready) :
    Ends (sealActive fault f) (fun g => Keeps f g ∧ g.fd = false ∧ g.active = none) (Keeps f) := by
  refine Ends.bind (ends_syncActive fault sound ready) ?_
  rintro g ⟨kept, ⟨_, s, known, intact⟩, quiet, entire⟩
  have closed : Keeps f { g with fd := false } := ⟨{ kept.1 with unsynced := quiet }, kept.2⟩
  have sealed : (part true { g with fd := false }).Sound := by
    refine closed.1.part rfl fun _ t active => ?_
    obtain rfl : s = t := Option.some.inj (known.symm.trans active)
    exact ⟨entire s known, intact⟩
  have final : Keeps f { part true { g with fd := false } with activeBytes := 0 } :=
    ⟨{ sealed with }, (contents_part _ true).trans kept.2.1, kept.2.2⟩
  exact Ends.after_call closed (Ends.after_call closed (ends_call final ⟨final, rfl, rfl⟩))

theorem ends_rotate (fault : Fault) (segmentBytes bytes : Nat) (sound : f.Sound) (ready : f.Ready) :
    Ends (rotate fault segmentBytes bytes f) (fun g => Keeps f g ∧ g.Ready) (Keeps f) := by
  unfold rotate
  split
  · refine Ends.bind (ends_sealActive fault sound ready) ?_
    rintro g ⟨kept, closed, parted⟩
    exact ends_openSegment fault kept closed parted
  · exact ⟨⟨sound, rfl, rfl⟩, ready⟩

/-- A record is added to the contents, or an exception leaves them as they are. -/
theorem ends_append (fault : Fault) (segmentBytes : Nat) (size : ρ → Nat) (record : ρ) (sound : f.Sound) (ready : f.Ready) :
    Ends (append fault segmentBytes size record f)
      (fun g => g.Sound ∧ g.Ready ∧ g.contents = f.contents ++ [record] ∧ g.healthy = f.healthy) (Keeps f) := by
  refine Ends.bind (ends_rotate fault segmentBytes (size record) sound ready) ?_
  rintro g ⟨kept, opened, s, known, intact⟩
  obtain ⟨sound', same, healthy⟩ := id kept
  obtain ⟨waiting, short⟩ := sound'.waiting opened known
  refine Ends.after_call kept ?_
  rw [← same]
  split
  · refine ⟨sound'.update (t := { s with failed := true }) known rfl (by simp [known]) ?_ short ?_, ?_, healthy⟩
    · simp [Segment.weight, intact, Segment.exposed]
      omega
    · rw [if_pos opened]
      exact waiting
    · rw [← same]
      simp [contents, segments, known]
  · refine ⟨sound'.update (t := { s with records := s.records ++ [record] }) known rfl (by simp [known]) ?_ ?_ ?_,
      ⟨opened, { s with records := s.records ++ [record] }, by simp [known], intact⟩, ?_, healthy⟩
    · simp [Segment.weight, intact, Segment.exposed]
      omega
    · simp only [List.length_append]
      omega
    · simp only [opened, waiting, Segment.exposed, List.length_append, List.length_singleton, if_true]
      omega
    · simp [contents, segments, known]

theorem Sound.abandon (sound : f.Sound) (renamed : Bool) : (f.abandon renamed).Sound ∧
    (f.abandon renamed).contents = f.contents ∧ (f.abandon renamed).fd = false ∧ (f.abandon renamed).healthy = false := by
  have closed : ({ f with healthy := false, uncertain := f.uncertain + f.unsynced, unsynced := 0, fd := false } :
      Files ρ).Sound := { sound with unsynced := rfl }
  cases renamed with
  | false => exact ⟨closed, rfl, rfl, rfl⟩
  | true => exact ⟨closed.part rfl (by simp), contents_part _ false, rfl, rfl⟩

theorem ends_recover (fault : Fault) (sound : f.Sound) (closed : f.fd = false) {ended : Prop} :
    Ends (recover fault f) (fun g => g.Sound ∧ g.contents = f.contents ∧ g.healthy = true ∧ (ended ∨ g.Ready))
      (Keeps f) := by
  have kept : Keeps f (f.part false) := ⟨sound.part closed (by simp), contents_part f false, rfl⟩
  refine Ends.after_call ⟨sound, rfl, rfl⟩ (Ends.bind (ends_openSegment fault kept closed rfl) ?_)
  rintro g ⟨⟨sound', same, _⟩, ready⟩
  exact ⟨{ sound' with }, same, rfl, .inr ready⟩

end Files
end Harbinger.Feedback
