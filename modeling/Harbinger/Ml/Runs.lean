import Harbinger.Ml.RoundTrip

/-! The states a predictor reaches by its calls on a steady clock, with snapshots loaded in
between: files that some predictor saved, or, if `foreign` is set, any files at all. -/

namespace Harbinger

/-- A reading of the steady clock. -/
def Clock.Reading (now : Time) : Prop := 0 ≤ now ∧ now ≤ Clock.max

namespace Ml.PerKeyPredictor
variable {platform : Platform}

inductive Reachable (host : Host) (foreign : Bool) : PerKeyPredictor platform → Time → Prop
  | created {config : PerKeyPredictorConfig} {layout : Layout} {p : PerKeyPredictor platform} {now : Time}
      (fits : layout.Fits config) (made : create platform config layout = .ok p) (reading : Clock.Reading now) :
      Reachable host foreign p now
  | predicted {p : PerKeyPredictor platform} {earlier now : Time} (before : Reachable host foreign p earlier)
      (later : earlier ≤ now) (reading : Clock.Reading now) (key : Bytes) :
      Reachable host foreign (p.predict now key).2 now
  | observed {p : PerKeyPredictor platform} {earlier now : Time} (before : Reachable host foreign p earlier)
      (later : earlier ≤ now) (reading : Clock.Reading now) (key parent : Bytes) (duration : ℚ) :
      Reachable host foreign (p.observe now key parent duration).2 now
  | censored {p : PerKeyPredictor platform} {earlier now : Time} (before : Reachable host foreign p earlier)
      (later : earlier ≤ now) (reading : Clock.Reading now) (key : Bytes) :
      Reachable host foreign (p.observeCensored now key).2 now
  | restored {p q : PerKeyPredictor platform} {earlier now saved : Time} (before : Reachable host foreign p earlier)
      (later : earlier ≤ now) (reading : Clock.Reading now) (source : Reachable host foreign q saved)
      (storable : q.Storable host saved) {context : Bytes} (short : context.length ≤ maxContextBytes)
      (bounded : (q.save host saved context).length ≤ maxSnapshotBytes) (other : Bytes) :
      Reachable host foreign (p.load host now other (q.save host saved context)).state now
  | loaded {p : PerKeyPredictor platform} {earlier now : Time} (before : Reachable host foreign p earlier)
      (later : earlier ≤ now) (reading : Clock.Reading now) (any : foreign = true) (context file : Bytes) :
      Reachable host foreign (p.load host now context file).state now

theorem Reachable.reading {host : Host} {foreign : Bool} {p : PerKeyPredictor platform} {now : Time}
    (reachable : Reachable host foreign p now) : Clock.Reading now := by
  cases reachable <;> assumption

theorem load_cases (host : Host) (p : PerKeyPredictor platform) (now : Time) (context file : Bytes) :
    (∃ message, (p.load host now context file).outcome = .error message ∧ (p.load host now context file).state = p) ∨
      ∃ contents, (parseSnapshot host p.config context file).1 = .ok contents ∧ contents.Valid p.config ∧
        (p.load host now context file).outcome = .ok (p.applySnapshot host now contents).1 ∧
        (p.load host now context file).state = (p.applySnapshot host now contents).2 := by
  unfold load
  split
  next message reads parsed => exact .inl ⟨message, rfl, rfl⟩
  next contents reads parsed =>
    have accepted : (parseSnapshot host p.config context file).1 = .ok contents := by rw [parsed]
    exact .inr ⟨contents, accepted, parseSnapshot_valid accepted, rfl, rfl⟩

theorem load_of_parsed {host : Host} {p : PerKeyPredictor platform} {context file : Bytes} {contents : SnapshotContents}
    (accepted : (parseSnapshot host p.config context file).1 = .ok contents) (now : Time) :
    (p.load host now context file).outcome = .ok (p.applySnapshot host now contents).1 ∧
      (p.load host now context file).state = (p.applySnapshot host now contents).2 := by
  unfold load
  split
  next message reads parsed =>
    rw [parsed] at accepted
    cases accepted
  next contents' reads parsed =>
    rw [parsed] at accepted
    obtain rfl := Except.ok.inj accepted
    exact ⟨rfl, rfl⟩

theorem restoredAt_range {now : Time} (reading : Clock.Reading now) {k : KeyCopy} (aged : 0 ≤ k.ageMs)
    (range : -2 ^ 63 ≤ now - Clock.ofMillis k.ageMs) : k.restoredAt now = now - Clock.ofMillis k.ageMs := by
  have old : now - Clock.ofMillis k.ageMs ≤ now := Int.sub_le_self _ (Int.mul_nonneg aged (by decide))
  have small : now < 2 ^ 63 := reading.2.trans_lt (by decide)
  have exact_difference : ∀ ticks : Int, -2 ^ 63 ≤ ticks → ticks < 2 ^ 63 → Int.bmod ticks (2 ^ 64) = ticks := by
    intro ticks _ _
    exact Int.bmod_eq_of_le_mul_two (by norm_num; omega) (by norm_num; omega)
  exact exact_difference _ range (old.trans_lt small)

theorem restoredAt_eq {now : Time} (reading : Clock.Reading now) {k : KeyCopy} (aged : 0 ≤ k.ageMs)
    (fits : Clock.ofMillis k.ageMs < 2 ^ 63) : k.restoredAt now = now - Clock.ofMillis k.ageMs := by
  have positive := reading.1
  have range : ∀ now age : Int, 0 ≤ now → age < 2 ^ 63 → -2 ^ 63 ≤ now - age := by omega
  exact restoredAt_range reading aged (range now _ positive fits)

theorem ofMillis_ageMs_lt (entry : Entry) (now : Time) : Clock.ofMillis (max 0 (entry.ageMs now)) < 2 ^ 63 := by
  have bound : Int.bmod (now - entry.lastActivity) (2 ^ 64) < 2 ^ 63 := (Int.bmod_lt (by decide)).trans_le (by decide)
  have scaled : ∀ ticks : Int, ticks < 2 ^ 63 → max 0 (ticks.tdiv 1000000) * 1000000 < 2 ^ 63 := by
    intro ticks small
    rcases le_total 0 ticks with nonnegative | negative
    · rw [Int.tdiv_eq_ediv_of_nonneg nonnegative]
      omega
    · have quotient := tdiv_million_le ticks
      omega
  exact scaled _ bound

theorem Reachable.sound (lawful : platform.Lawful) {host : Host} {foreign : Bool} {p : PerKeyPredictor platform}
    {now : Time} (reachable : Reachable host foreign p now) : p.Sound fun t => foreign = true ∨ t ≤ now := by
  have advance : ∀ {p : PerKeyPredictor platform} {earlier now : Time}, earlier ≤ now →
      p.Sound (fun t => foreign = true ∨ t ≤ earlier) → p.Sound fun t => foreign = true ∨ t ≤ now :=
    fun later sound => sound.mono fun t timely => timely.imp_right later.trans'
  have current : ∀ now : Time, foreign = true ∨ now ≤ now := fun now => .inr le_rfl
  induction reachable with
  | created fits made reading => exact .create fits made
  | predicted before later reading key known => exact (advance later known).predict (current _) key
  | observed before later reading key parent duration known =>
    exact (advance later known).observe lawful (current _) key parent duration
  | censored before later reading key known => exact (advance later known).observeCensored lawful (current _) key
  | restored before later reading source storable short bounded other known origin =>
    rename_i p q earlier now saved context
    rcases load_cases host p now other (q.save host saved context) with ⟨_, _, same⟩ | ⟨contents, accepted, valid, _, same⟩
    · rw [same]
      exact advance later known
    · rw [same]
      have held := contents_of_saved origin storable short bounded accepted
      refine (applySnapshot_sound (known.mono fun _ _ => trivial) host valid fun k member => .inr ?_).1
      have aged := (valid.keys k member).age
      rw [held] at member
      obtain ⟨copy, copied, rfl⟩ := List.mem_map.mp member
      obtain ⟨key, entry, _, rfl⟩ := (mem_copyKeys origin).mp copied
      rw [restoredAt_eq reading aged (ofMillis_ageMs_lt entry saved)]
      exact Int.sub_le_self _ (Int.mul_nonneg aged (by decide))
  | loaded before later reading any context file known =>
    rename_i p earlier now
    rcases load_cases host p now context file with ⟨_, _, same⟩ | ⟨contents, _, valid, _, same⟩
    · rw [same]
      exact advance later known
    · rw [same]
      exact (applySnapshot_sound (known.mono fun _ _ => trivial) host valid fun _ _ => .inl any).1

theorem Reachable.steady (lawful : platform.Lawful) {host : Host} {p : PerKeyPredictor platform} {now : Time}
    (reachable : Reachable host false p now) : p.Sound (· ≤ now) :=
  (reachable.sound lawful).mono fun _ timely => timely.resolve_left Bool.false_ne_true

end Ml.PerKeyPredictor

end Harbinger
