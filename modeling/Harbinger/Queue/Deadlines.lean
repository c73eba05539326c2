import Harbinger.Arithmetic.Checked
import Harbinger.Ml.Runs
import Harbinger.Queue.Runs

/-! The deadlines of TTL and aging on the signed 64-bit clock. The functions are those of the queue
with each operation checked for overflow; the queue without the checks computes the same. -/

namespace Harbinger
open Container Transition

namespace Clock

theorem fits_of_nonneg {x : Time} (low : 0 ≤ x) (high : x ≤ max) : Checked.Fits 64 x :=
  ⟨le_trans (by decide) low, Int.lt_add_one_of_le high⟩

theorem convert {duration : Millis} (low : 0 ≤ duration) (high : duration < maxMs) :
    Checked.mul 64 duration 1000000 = some (ofMillis duration) ∧ 0 ≤ ofMillis duration ∧ ofMillis duration ≤ max := by
  have bounds : ∀ n : Int, 0 ≤ n → n < 9223372036854 → 0 ≤ n * 1000000 ∧ n * 1000000 ≤ 9223372036854775807 := by omega
  have range := bounds duration low high
  exact ⟨Checked.mul_of_fits (fits_of_nonneg range.1 range.2), range⟩

theorem elapsed {earlier later : Time} (first : Reading earlier) (second : Reading later) :
    Checked.sub 64 later earlier = some (later - earlier) := by
  have bounds : ∀ x y : Int, 0 ≤ x → x ≤ 9223372036854775807 → 0 ≤ y → y ≤ 9223372036854775807 →
      -9223372036854775808 ≤ y - x ∧ y - x < 9223372036854775808 := by omega
  have fits : Checked.Fits 64 (later - earlier) := bounds earlier later first.1 first.2 second.1 second.2
  exact Checked.sub_of_fits fits

/-- The time that lies a duration after a reading; `none` for the outer option is an overflow, for
the inner one a time past the end of the clock. -/
def after (start : Time) (duration : Millis) : Option (Option Time) :=
  if maxMs ≤ duration then some none
  else do
    let delay ← Checked.mul 64 duration 1000000
    let latest ← Checked.sub 64 max delay
    if latest < start then some none else (Checked.add 64 start delay).map some

theorem after_eq {start : Time} {duration : Millis} (reading : Reading start) (positive : 0 < duration) :
    after start duration = some (if duration < maxMs ∧ start + ofMillis duration ≤ max then some (start + ofMillis duration)
      else none) := by
  unfold after
  by_cases long : maxMs ≤ duration
  · rw [if_pos long, if_neg fun range => absurd range.1 (not_lt.mpr long)]
  · have short := not_le.mp long
    obtain ⟨converted, low, high⟩ := convert positive.le short
    have latest : Checked.sub 64 max (ofMillis duration) = some (max - ofMillis duration) :=
      Checked.sub_of_fits (fits_of_nonneg (sub_nonneg.mpr high) (sub_le_self _ low))
    simp only [if_neg long, converted, latest, Option.bind_eq_bind, Option.bind_some, short, true_and]
    by_cases late : max - ofMillis duration < start
    · rw [if_pos late, if_neg fun fits => absurd (le_sub_iff_add_le.mpr fits) (not_le.mpr late)]
    · have fits := le_sub_iff_add_le.mp (not_lt.mp late)
      rw [if_neg late, if_pos fits, Checked.add_of_fits (fits_of_nonneg (add_nonneg reading.1 low) fits)]
      rfl

end Clock

namespace Message

def expiryTimeChecked (msg : Message) : Option Time :=
  (Clock.after msg.arrivalTime msg.ttl).map (·.getD Clock.max)

def isExpiredChecked (msg : Message) (now : Time) : Option Bool :=
  if msg.ttl ≤ 0 then some false else msg.expiryTimeChecked.map (· ≤ now)

theorem expiryTime_eq (msg : Message) : msg.expiryTime =
    if msg.ttl < Clock.maxMs ∧ msg.arrivalTime + Clock.ofMillis msg.ttl ≤ Clock.max then
      msg.arrivalTime + Clock.ofMillis msg.ttl
    else Clock.max := by
  unfold expiryTime
  by_cases long : Clock.maxMs ≤ msg.ttl
  · rw [if_pos long, if_neg fun range => absurd range.1 (not_lt.mpr long)]
  · have order : Clock.max - Clock.ofMillis msg.ttl < msg.arrivalTime ↔
        ¬msg.arrivalTime + Clock.ofMillis msg.ttl ≤ Clock.max := by
      rw [← not_le, le_sub_iff_add_le]
    rw [if_neg long]
    simp only [order, not_le.mp long, true_and, ite_not]

theorem expiryTimeChecked_eq {msg : Message} (reading : Clock.Reading msg.arrivalTime) (positive : 0 < msg.ttl) :
    msg.expiryTimeChecked = some msg.expiryTime := by
  rw [expiryTimeChecked, Clock.after_eq reading positive, expiryTime_eq, Option.map_some]
  split <;> rfl

theorem isExpiredChecked_eq {msg : Message} (reading : Clock.Reading msg.arrivalTime) (now : Time) :
    msg.isExpiredChecked now = some (decide (msg.isExpired now)) := by
  unfold isExpiredChecked isExpired
  by_cases positive : 0 < msg.ttl
  · rw [if_neg (not_le.mpr positive), expiryTimeChecked_eq reading positive]
    simp only [positive, true_and, Option.map_some]
  · rw [if_pos (not_lt.mp positive)]
    simp only [positive, false_and, decide_false]

theorem expiryTime_mono {first second : Message} (ttl : first.ttl ≤ second.ttl)
    (arrival : first.arrivalTime ≤ second.arrivalTime) : first.expiryTime ≤ second.expiryTime := by
  have longer : Clock.ofMillis first.ttl ≤ Clock.ofMillis second.ttl := Int.mul_le_mul_of_nonneg_right ttl (by decide)
  have sum := add_le_add arrival longer
  rw [expiryTime_eq, expiryTime_eq]
  by_cases fits : second.ttl < Clock.maxMs ∧ second.arrivalTime + Clock.ofMillis second.ttl ≤ Clock.max
  · rw [if_pos fits, if_pos ⟨ttl.trans_lt fits.1, sum.trans fits.2⟩]
    exact sum
  · rw [if_neg fits]
    split
    next inside => exact inside.2
    · exact le_rfl

theorem arrivalTime_le_expiryTime {msg : Message} (reading : Clock.Reading msg.arrivalTime) (positive : 0 < msg.ttl) :
    msg.arrivalTime ≤ msg.expiryTime := by
  rw [expiryTime_eq]
  split
  · exact le_add_of_nonneg_right (mul_nonneg positive.le (by decide))
  · exact reading.2

end Message

namespace MultiLevelQueue

def agingDeadlineChecked (cfg : AgingConfig) (enqueued : Time) : Option (Option Time) :=
  Clock.after enqueued cfg.threshold

def noteAgingDeadlineChecked (q : MultiLevelQueue) (level : Nat) (enqueued : Time) : Option MultiLevelQueue :=
  match q.aging with
  | none => some q
  | some cfg =>
    if level = 0 then some q
    else (agingDeadlineChecked cfg enqueued).map fun
      | none => q
      | some due =>
        { q with nextAging := Function.update q.nextAging level (some (earlier (q.nextAging level) due)) }

def pausedLockedChecked (q : MultiLevelQueue) (cfg : AgingConfig) (level : Nat) (now : Time) : Option Bool :=
  if !pausing cfg || q.promotedIn (level - 1) == 0 then some false
  else match q.queues (level - 1) with
    | [] => some false
    | head :: _ => do
      let waited ← Checked.sub 64 now head.message.arrivalTime
      let threshold ← Checked.mul 64 cfg.threshold 1000000
      some (threshold ≤ waited)

def promoteChecked (q : MultiLevelQueue) (level : Nat) (node : Node) (now : Time) : Option MultiLevelQueue :=
  let spliced := q.splice level node now
  let active := if q.weights.isSome && (q.queues (level - 1)).isEmpty
    then spliced.activateLocked (level - 1) else spliced
  active.noteAgingDeadlineChecked (level - 1) now

def ageScanChecked (cfg : AgingConfig) (now : Time) (reading : Nat → Time) (level : Nat) (dueBefore : Time) :
    List Node → MultiLevelQueue × Nat → Option (MultiLevelQueue × Nat)
  | [], state => some state
  | node :: rest, (q, visited) => do
    let expired ← node.message.isExpiredChecked (reading visited)
    if expired then ageScanChecked cfg now reading level dueBefore rest (q, visited + 1)
    else
      let deadline ← agingDeadlineChecked cfg node.message.enqueueTime
      if ∃ due ∈ deadline, due ≤ now then
        let promoted ← q.promoteChecked level node now
        if pausing cfg then
          some ({ promoted with nextAging := Function.update promoted.nextAging level (some dueBefore) }, visited + 1)
        else ageScanChecked cfg now reading level dueBefore rest (promoted, visited + 1)
      else
        let noted ← q.noteAgingDeadlineChecked level node.message.enqueueTime
        ageScanChecked cfg now reading level dueBefore rest (noted, visited + 1)

def ageLevelChecked (cfg : AgingConfig) (now : Time) (reading : Nat → Time) (level : Nat) :
    MultiLevelQueue × Nat → Option (MultiLevelQueue × Nat)
  | (q, visited) =>
    match q.nextAging level with
    | none => some (q, visited)
    | some dueBefore =>
      if now < dueBefore then some (q, visited)
      else do
        let paused ← q.pausedLockedChecked cfg level now
        let cleared := { q with nextAging := Function.update q.nextAging level none }
        if paused then some (q, visited)
        else ageScanChecked cfg now reading level dueBefore (q.queues level) (cleared, visited)

def ageLevelsChecked (cfg : AgingConfig) (now : Time) (reading : Nat → Time) :
    Nat → MultiLevelQueue × Nat → Option (MultiLevelQueue × Nat)
  | 0, state => some state
  | level + 1, state => do
    let state ← ageLevelChecked cfg now reading (level + 1) state
    ageLevelsChecked cfg now reading level state

def ageOnceLockedChecked (q : MultiLevelQueue) (now : Time) (reading : Nat → Time) : Option (MultiLevelQueue × Nat) :=
  match q.aging with
  | none => some (q, 0)
  | some cfg => ageLevelsChecked cfg now reading (q.numLevels - 1) (q, 0)

theorem agingDeadline_eq (cfg : AgingConfig) (enqueued : Time) : agingDeadline cfg enqueued =
    if cfg.threshold < Clock.maxMs ∧ enqueued + Clock.ofMillis cfg.threshold ≤ Clock.max then
      some (enqueued + Clock.ofMillis cfg.threshold)
    else none := by
  unfold agingDeadline
  by_cases long : Clock.maxMs ≤ cfg.threshold
  · rw [if_pos long, if_neg fun range => absurd range.1 (not_lt.mpr long)]
  · have order : Clock.max - Clock.ofMillis cfg.threshold < enqueued ↔
        ¬enqueued + Clock.ofMillis cfg.threshold ≤ Clock.max := by
      rw [← not_le, le_sub_iff_add_le]
    rw [if_neg long]
    simp only [order, not_le.mp long, true_and, ite_not]

theorem agingDeadlineChecked_eq {cfg : AgingConfig} {enqueued : Time} (reading : Clock.Reading enqueued)
    (positive : 0 < cfg.threshold) : agingDeadlineChecked cfg enqueued = some (agingDeadline cfg enqueued) := by
  rw [agingDeadlineChecked, Clock.after_eq reading positive, agingDeadline_eq]

/-- The configured threshold is positive, the times of the messages are readings of the clock, and a
level has a deadline only if the threshold is in the range of the clock. -/
structure Timed (q : MultiLevelQueue) : Prop where
  threshold : ∀ cfg ∈ q.aging, 0 < cfg.threshold
  arrival : ∀ level, ∀ node ∈ q.queues level, Clock.Reading node.message.arrivalTime
  enqueued : ∀ level, ∀ node ∈ q.queues level, Clock.Reading node.message.enqueueTime
  cached : ∀ level, q.nextAging level ≠ none → ∃ cfg ∈ q.aging, cfg.threshold < Clock.maxMs

section Timed
variable {q q' : MultiLevelQueue} {cfg : AgingConfig} {level : Nat} {node : Node} {now stamp : Time}

theorem Timed.shrink (timed : q.Timed) (aging : q'.aging = q.aging)
    (queues : ∀ level, ∀ node ∈ q'.queues level, node ∈ q.queues level)
    (cache : ∀ level, q'.nextAging level ≠ none → q.nextAging level ≠ none) : q'.Timed where
  threshold := aging ▸ timed.threshold
  arrival level node member := timed.arrival level node (queues level node member)
  enqueued level node member := timed.enqueued level node (queues level node member)
  cached level known := aging ▸ timed.cached level (cache level known)

theorem noteAgingDeadlineChecked_eq (timed : q.Timed) (reading : Clock.Reading stamp) :
    q.noteAgingDeadlineChecked level stamp = some (q.noteAgingDeadline level stamp) := by
  unfold noteAgingDeadlineChecked noteAgingDeadline
  cases aging : q.aging with
  | none => rfl
  | some cfg =>
    dsimp only
    by_cases top : level = 0
    · rw [if_pos top, if_pos top]
    · rw [if_neg top, if_neg top]
      refine (congrArg (Option.map _) (agingDeadlineChecked_eq reading (timed.threshold cfg aging))).trans ?_
      cases agingDeadline cfg stamp <;> rfl

theorem Timed.noteAgingDeadline (timed : q.Timed) (level : Nat) (stamp : Time) : (q.noteAgingDeadline level stamp).Timed := by
  unfold MultiLevelQueue.noteAgingDeadline
  cases aging : q.aging with
  | none => exact timed
  | some cfg =>
    dsimp only
    split
    · exact timed
    · cases due : agingDeadline cfg stamp with
      | none => exact timed
      | some due' =>
        have short : cfg.threshold < Clock.maxMs := by
          rw [agingDeadline_eq] at due
          exact (Option.ite_none_right_eq_some.mp due).1.1
        exact {
          threshold := aging ▸ timed.threshold
          arrival := timed.arrival
          enqueued := timed.enqueued
          cached := fun _ _ => ⟨cfg, rfl, short⟩ }

theorem Timed.activateLocked (timed : q.Timed) (level : Nat) : (q.activateLocked level).Timed :=
  timed.shrink rfl (fun _ _ member => member) fun _ known => known

theorem Timed.splice (timed : q.Timed) (arrived : Clock.Reading node.message.arrivalTime) (reading : Clock.Reading now) :
    (q.splice level node now).Timed := by
  have among : ∀ other, ∀ found ∈ (q.splice level node now).queues other,
      found = promotedNode node level now ∨ ∃ source, found ∈ q.queues source := by
    intro other found present
    simp only [MultiLevelQueue.splice] at present
    by_cases above : other = level - 1
    · rw [above, Function.update_self, List.mem_append, List.mem_singleton] at present
      exact present.symm.imp_right fun old => ⟨_, old⟩
    · rw [Function.update_of_ne above] at present
      by_cases own : other = level
      · rw [own, Function.update_self] at present
        exact .inr ⟨_, List.mem_of_mem_eraseP present⟩
      · rw [Function.update_of_ne own] at present
        exact .inr ⟨_, present⟩
  exact {
    threshold := timed.threshold
    arrival := fun other found present => by
      rcases among other found present with rfl | ⟨source, old⟩
      · exact arrived
      · exact timed.arrival source found old
    enqueued := fun other found present => by
      rcases among other found present with rfl | ⟨source, old⟩
      · exact reading
      · exact timed.enqueued source found old
    cached := timed.cached }

theorem promoteChecked_eq (timed : q.Timed) (arrived : Clock.Reading node.message.arrivalTime) (reading : Clock.Reading now) :
    q.promoteChecked level node now = some (q.promote level node now) ∧ (q.promote level node now).Timed := by
  have spliced : (q.splice level node now).Timed := timed.splice arrived reading
  unfold promoteChecked promote
  dsimp only
  split
  · exact ⟨noteAgingDeadlineChecked_eq (spliced.activateLocked _) reading, (spliced.activateLocked _).noteAgingDeadline _ _⟩
  · exact ⟨noteAgingDeadlineChecked_eq spliced reading, spliced.noteAgingDeadline _ _⟩

theorem pausedLockedChecked_eq (timed : q.Timed) (aging : q.aging = some cfg) (cached : q.nextAging level ≠ none)
    (reading : Clock.Reading now) : q.pausedLockedChecked cfg level now = some (q.pausedLocked cfg level now) := by
  have short : cfg.threshold < Clock.maxMs := by
    obtain ⟨known, same, short⟩ := timed.cached level cached
    exact Option.some.inj (aging.symm.trans same) ▸ short
  have converted := (Clock.convert (timed.threshold cfg aging).le short).1
  unfold pausedLockedChecked pausedLocked
  cases pausing cfg with
  | false => rfl
  | true =>
    by_cases none_promoted : q.promotedIn (level - 1) = 0
    · simp [none_promoted]
    · cases above : q.queues (level - 1) with
      | nil => simp
      | cons head rest =>
        have waited := Clock.elapsed (timed.arrival _ head (above ▸ List.mem_cons_self ..)) reading
        simp [none_promoted, waited, converted]

/-- The inner loop over the rest of a level: nothing overflows, whatever it promotes. -/
theorem ageScanChecked_eq (aging : q.aging = some cfg) (short : cfg.threshold < Clock.maxMs) (stamped : Clock.Reading now)
    (reading : Nat → Time) (level : Nat) (dueBefore : Time) (todo : List Node) (timed : q.Timed) (visited : Nat)
    (arrived : ∀ node ∈ todo, Clock.Reading node.message.arrivalTime)
    (enqueued : ∀ node ∈ todo, Clock.Reading node.message.enqueueTime) :
    ageScanChecked cfg now reading level dueBefore todo (q, visited) =
        some (ageScan cfg now reading level dueBefore todo (q, visited)) ∧
      (ageScan cfg now reading level dueBefore todo (q, visited)).1.Timed ∧
      (ageScan cfg now reading level dueBefore todo (q, visited)).1.aging = some cfg := by
  induction todo generalizing q visited with
  | nil => exact ⟨rfl, timed, aging⟩
  | cons node rest ih =>
    obtain ⟨arrives, arrived⟩ := List.forall_mem_cons.mp arrived
    obtain ⟨enters, enqueued⟩ := List.forall_mem_cons.mp enqueued
    have expired := Message.isExpiredChecked_eq arrives (reading visited)
    have deadline := agingDeadlineChecked_eq enters (timed.threshold cfg aging)
    simp only [ageScanChecked, ageScan, expired, deadline, Option.bind_eq_bind, Option.bind_some, decide_eq_true_eq]
    split
    · exact ih aging timed (visited + 1) arrived enqueued
    · split
      · obtain ⟨promoted, still⟩ : q.promoteChecked level node now = some (q.promote level node now) ∧
            (q.promote level node now).Timed := promoteChecked_eq timed arrives stamped
        have config : (q.promote level node now).aging = some cfg := (promote_aging ..).trans aging
        rw [promoted, Option.bind_some]
        split
        · exact ⟨rfl, { still with cached := fun _ _ => ⟨cfg, config, short⟩ }, config⟩
        · exact ih config still (visited + 1) arrived enqueued
      · rw [noteAgingDeadlineChecked_eq timed enters, Option.bind_some]
        exact ih ((noteAgingDeadline_aging ..).trans aging) (timed.noteAgingDeadline ..) (visited + 1) arrived enqueued

theorem ageLevelChecked_eq (timed : q.Timed) (aging : q.aging = some cfg) (stamped : Clock.Reading now)
    (reading : Nat → Time) (level visited : Nat) :
    ageLevelChecked cfg now reading level (q, visited) = some (ageLevel cfg now reading level (q, visited)) ∧
      (ageLevel cfg now reading level (q, visited)).1.Timed ∧
      (ageLevel cfg now reading level (q, visited)).1.aging = some cfg := by
  dsimp only [ageLevelChecked, ageLevel]
  cases due : q.nextAging level with
  | none => exact ⟨rfl, timed, aging⟩
  | some dueBefore =>
    have known : q.nextAging level ≠ none := by simp [due]
    dsimp only
    split
    · exact ⟨rfl, timed, aging⟩
    · rw [pausedLockedChecked_eq timed aging known stamped, Option.bind_eq_bind, Option.bind_some]
      split
      · exact ⟨rfl, timed, aging⟩
      · obtain ⟨found, same, short⟩ := timed.cached level known
        obtain rfl := Option.some.inj (aging.symm.trans same)
        have cleared : Timed { q with nextAging := Function.update q.nextAging level none } := by
          refine timed.shrink rfl (fun _ _ member => member) fun other cached => ?_
          dsimp only at cached
          by_cases own : other = level
          · simp [own] at cached
          · rwa [Function.update_of_ne own] at cached
        have config : { q with nextAging := Function.update q.nextAging level none }.aging = some cfg := aging
        exact ageScanChecked_eq config short stamped reading level dueBefore _ cleared visited (timed.arrival level)
          (timed.enqueued level)

theorem ageLevelsChecked_eq (timed : q.Timed) (aging : q.aging = some cfg) (stamped : Clock.Reading now)
    (reading : Nat → Time) (levels visited : Nat) :
    ageLevelsChecked cfg now reading levels (q, visited) = some (ageLevels cfg now reading levels (q, visited)) ∧
      (ageLevels cfg now reading levels (q, visited)).1.Timed := by
  induction levels generalizing q visited with
  | zero => exact ⟨rfl, timed⟩
  | succ level ih =>
    obtain ⟨first, still, config⟩ := ageLevelChecked_eq timed aging stamped reading (level + 1) visited
    rw [ageLevelsChecked, first, Option.bind_eq_bind, Option.bind_some]
    exact ih still config _

theorem ageOnceLockedChecked_eq (timed : q.Timed) (stamped : Clock.Reading now) (reading : Nat → Time) :
    q.ageOnceLockedChecked now reading = some (q.ageOnceLocked now reading) ∧ (q.ageOnceLocked now reading).1.Timed := by
  unfold ageOnceLockedChecked ageOnceLocked
  cases aging : q.aging with
  | none => exact ⟨rfl, timed⟩
  | some cfg => exact ageLevelsChecked_eq timed aging stamped reading _ 0

/-! ### Over a run -/

theorem Timed.linkNode (timed : q.Timed) {msg : Message} (arrived : Clock.Reading msg.arrivalTime)
    (entered : Clock.Reading msg.enqueueTime) (front : Bool) : (q.linkNode msg front).Timed := by
  have among : ∀ level, ∀ node ∈ (q.linkNode msg front).queues level, node.message = msg ∨ node ∈ q.queues level := by
    intro level node member
    simp only [MultiLevelQueue.linkNode] at member
    by_cases own : level = msg.priority
    · rw [own, Function.update_self] at member
      have split : node = q.newNode msg ∨ node ∈ q.queues msg.priority := by
        cases front <;> simpa [or_comm] using member
      rcases split with rfl | old
      · exact .inl rfl
      · exact .inr (own ▸ old)
    · rw [Function.update_of_ne own] at member
      exact .inr member
  exact { timed with
    arrival := fun level node member => by
      rcases among level node member with same | old
      · exact same ▸ arrived
      · exact timed.arrival level node old
    enqueued := fun level node member => by
      rcases among level node member with same | old
      · exact same ▸ entered
      · exact timed.enqueued level node old }

theorem Timed.placeMessage (timed : q.Timed) {cost : CostFunction} {msg : Message} {front : Bool}
    (arrived : Clock.Reading msg.arrivalTime) (entered : Clock.Reading (if front then msg.enqueueTime else stamp))
    (placed : q.placeMessage cost msg front stamp = some q') : q'.Timed := by
  unfold MultiLevelQueue.placeMessage at placed
  split at placed
  · cases placed
  · obtain rfl := Option.some.inj placed
    have linked : ∀ msg : Message, Clock.Reading msg.arrivalTime → Clock.Reading msg.enqueueTime → ∀ wasEmpty,
        (((q.linkNode msg front).noteAgingDeadline msg.priority msg.enqueueTime).placeShare cost msg wasEmpty front).Timed := by
      intro msg arrived entered wasEmpty
      have noted := (timed.linkNode arrived entered front).noteAgingDeadline msg.priority msg.enqueueTime
      unfold placeShare
      split
      · exact noted
      · cases wasEmpty <;> cases front <;> exact noted.shrink rfl (fun _ _ member => member) fun _ known => known
    cases front with
    | true => exact linked msg arrived entered _
    | false => exact linked { msg with enqueueTime := stamp } arrived entered _

theorem Timed.removeLocked (timed : q.Timed) (level : Nat) (node : Node) : (q.removeLocked level node).Timed := by
  have aging : (q.removeLocked level node).aging = q.aging := rfl
  refine timed.shrink aging ?_ ?_
  · intro other found member
    simp only [MultiLevelQueue.removeLocked] at member
    by_cases own : other = level
    · rw [own, Function.update_self] at member
      exact own ▸ List.mem_of_mem_eraseP member
    · rwa [Function.update_of_ne own] at member
  · intro other cached
    simp only [MultiLevelQueue.removeLocked] at cached
    split at cached
    · by_cases own : other = level
      · simp [own] at cached
      · rwa [Function.update_of_ne own] at cached
    · exact cached

theorem Timed.dequeueLocked (timed : q.Timed) {cost : CostFunction} {msg : Message}
    (pulled : q.dequeueLocked cost = some (msg, q')) : q'.Timed := by
  have charged : ∀ level price, (q.chargePull level price).Timed := fun level price =>
    timed.shrink rfl (fun _ _ member => member) fun _ known => known
  unfold MultiLevelQueue.dequeueLocked at pulled
  split at pulled
  · split at pulled
    · cases pulled
    · split at pulled
      · cases pulled
      · cases pulled
        exact (charged _ _).removeLocked _ _
  · split at pulled
    · cases pulled
    next level chosen =>
      split at pulled
      · cases pulled
      next node rest here =>
        cases pulled
        have removed := timed.removeLocked level node
        split
        · exact removed.shrink rfl (fun _ _ member => member) fun _ known => known
        · exact removed

theorem Timed.sweepExpiredBatch (timed : q.Timed) (now : Time) (limit : Nat) :
    (MultiLevelQueue.sweepExpiredBatch now limit q).2.Timed := by
  induction limit generalizing q with
  | zero => exact timed
  | succ limit ih =>
    unfold MultiLevelQueue.sweepExpiredBatch
    split
    · exact timed
    · split
      · split
        · exact timed
        · exact ih (timed.removeLocked _ _)
      · exact timed

theorem Timed.sweepScan (timed : q.Timed) (reading : Nat → Time) (todo : List (Nat × Node)) (visited : Nat) :
    (MultiLevelQueue.sweepScan reading todo visited q).2.Timed := by
  induction todo generalizing q visited with
  | nil => exact timed
  | cons item rest ih =>
    unfold MultiLevelQueue.sweepScan
    split
    · exact ih (timed.removeLocked _ _) _
    · exact ih timed _

theorem Timed.sweepExpired (timed : q.Timed) (now : Time) (reading : Nat → Time) : (q.sweepExpired now reading).2.Timed := by
  unfold MultiLevelQueue.sweepExpired
  split
  · exact timed
  · split
    · exact timed
    · exact timed.sweepScan _ _ _

/-- The times that an operation brings into the queue are readings of the clock. -/
def Operation.Timed : Operation → Prop
  | .enqueue _ msg reading => Clock.Reading msg.arrivalTime ∧ Clock.Reading reading
  | .requeueFront _ msg => Clock.Reading msg.arrivalTime ∧ Clock.Reading msg.enqueueTime
  | .ageOnce reading _ => Clock.Reading reading
  | _ => True

theorem Clocked.step_timed {s next : Clocked} {operation : Operation} (timed : s.queue.Timed) (times : operation.Timed)
    (moved : s.step operation = some next) : next.queue.Timed := by
  have placed : ∀ {cost msg front stamp}, Clock.Reading msg.arrivalTime →
      Clock.Reading (if front then msg.enqueueTime else stamp) →
      ((s.queue.placeMessage cost msg front stamp).getD s.queue).Timed := by
    intro cost msg front stamp arrived entered
    cases result : s.queue.placeMessage cost msg front stamp with
    | none => exact timed
    | some q' => exact timed.placeMessage arrived entered result
  cases operation with
  | advance now =>
    obtain ⟨_, rfl⟩ := step_spec moved
    exact timed
  | enqueue cost msg reading =>
    obtain ⟨_, rfl⟩ := step_spec moved
    exact placed times.1 times.2
  | requeueFront cost msg =>
    obtain ⟨_, rfl⟩ := step_spec moved
    exact placed times.1 times.2
  | dequeue cost =>
    rw [show next = _ from step_spec moved]
    cases result : s.queue.dequeueLocked cost with
    | none => exact timed
    | some pulled => exact timed.dequeueLocked result
  | sweepExpiredBatch limit reading =>
    obtain ⟨_, rfl⟩ := step_spec moved
    exact timed.sweepExpiredBatch reading limit
  | sweepExpired reading readings =>
    obtain ⟨_, rfl⟩ := step_spec moved
    exact timed.sweepExpired _ _
  | ageOnce reading readings =>
    obtain ⟨_, rfl⟩ := step_spec moved
    exact (ageOnceLockedChecked_eq timed times _).2

theorem run_timed {operations : List Operation} (times : ∀ operation ∈ operations, operation.Timed) {s next : Clocked}
    (timed : s.queue.Timed) (ran : run Clocked.step operations s = some next) : next.queue.Timed := by
  induction operations generalizing s with
  | nil => exact Option.some.inj ran ▸ timed
  | cons operation rest ih =>
    obtain ⟨middle, moved, later⟩ := run_cons.mp ran
    obtain ⟨here, others⟩ := List.forall_mem_cons.mp times
    exact ih others (Clocked.step_timed timed here moved) later

theorem create_timed {numLevels : Nat} {aging : Option AgingConfig} {selection : QueueSelection}
    {weights : Option (List Nat)} (made : create numLevels aging selection weights = .ok q) : q.Timed := by
  obtain ⟨rfl, _, positive⟩ := create_ok made
  exact {
    threshold := positive
    arrival := fun _ _ member => by cases member
    enqueued := fun _ _ member => by cases member
    cached := fun _ known => absurd rfl known }

end Timed

/-- Deadlines of TTL and aging never overflow. The expiry time is arrival plus TTL as far as the clock
goes and its end otherwise; the aging deadline is exact or absent; and in every run an aging
pass computes without overflow what it computes on integers, its pausing test included. -/
theorem deadlines_never_overflow :
    (∀ msg : Message, Clock.Reading msg.arrivalTime → 0 < msg.ttl → msg.ttl < 2 ^ 63 →
      msg.expiryTimeChecked = some msg.expiryTime ∧
      (∀ now, msg.isExpiredChecked now = some (decide (msg.expiryTime ≤ now))) ∧
      msg.expiryTime = (if msg.ttl < Clock.maxMs ∧ msg.arrivalTime + Clock.ofMillis msg.ttl ≤ Clock.max then
        msg.arrivalTime + Clock.ofMillis msg.ttl else Clock.max) ∧
      msg.arrivalTime ≤ msg.expiryTime) ∧
    (∀ first second : Message, first.ttl ≤ second.ttl → first.arrivalTime ≤ second.arrivalTime →
      first.expiryTime ≤ second.expiryTime) ∧
    (∀ cfg enqueued, Clock.Reading enqueued → 0 < cfg.threshold → cfg.threshold < 2 ^ 63 →
      agingDeadlineChecked cfg enqueued = some (agingDeadline cfg enqueued) ∧
      agingDeadline cfg enqueued = if cfg.threshold < Clock.maxMs ∧ enqueued + Clock.ofMillis cfg.threshold ≤ Clock.max then
        some (enqueued + Clock.ofMillis cfg.threshold) else none) ∧
    ∀ numLevels aging selection weights q operations start s, create numLevels aging selection weights = .ok q →
      (∀ operation ∈ operations, operation.Timed) → run Clocked.step operations ⟨q, start⟩ = some s →
      ∀ now, Clock.Reading now →
        (∀ reading, s.queue.ageOnceLockedChecked now reading = some (s.queue.ageOnceLocked now reading)) ∧
        ∀ cfg ∈ s.queue.aging, ∀ level, s.queue.nextAging level ≠ none →
          ∃ paused, s.queue.pausedLockedChecked cfg level now = some paused ∧
            (paused = true ↔ pausing cfg = true ∧ s.queue.promotedIn (level - 1) ≠ 0 ∧
              ∃ head ∈ (s.queue.queues (level - 1)).head?,
                Clock.ofMillis cfg.threshold ≤ now - head.message.arrivalTime) := by
  refine ⟨fun msg reading positive _ => ?_, fun _ _ ttl arrival => Message.expiryTime_mono ttl arrival,
    fun cfg enqueued reading positive _ => ⟨agingDeadlineChecked_eq reading positive, agingDeadline_eq cfg enqueued⟩,
    fun _ _ _ _ q operations start s made times ran now reading => ?_⟩
  · refine ⟨Message.expiryTimeChecked_eq reading positive, fun now => ?_, Message.expiryTime_eq msg,
      Message.arrivalTime_le_expiryTime reading positive⟩
    rw [Message.isExpiredChecked_eq reading now]
    simp only [Message.isExpired, positive, true_and]
  · have timed : s.queue.Timed := run_timed times (create_timed made) ran
    refine ⟨fun readings => (ageOnceLockedChecked_eq timed reading readings).1, fun cfg aging level cached => ?_⟩
    refine ⟨_, pausedLockedChecked_eq timed aging cached reading, ?_⟩
    rw [pausedLocked]
    cases s.queue.queues (level - 1) with
    | nil => simp
    | cons head rest => simp [and_assoc]

def sampleHasty : AgingConfig := { threshold := 1, pauseWhenBehind := some true }

/-- Of two messages the first is promoted, and the other one stays due. -/
def sampleDue : List Operation :=
  [.enqueue (fun _ => none) { id := [1], ttl := 2 ^ 63 - 1 } 0, .enqueue (fun _ => none) { id := [2], ttl := 2 ^ 63 - 1 } 0,
    .advance 2000000, .ageOnce 2000000 []]

/-- The longest TTL, the longest threshold, and a run that leaves a level due. -/
theorem deadlines_never_overflow_longest :
    Message.expiryTimeChecked { id := [1], arrivalTime := Clock.max, ttl := 2 ^ 63 - 1 } = some Clock.max ∧
      agingDeadlineChecked { threshold := 2 ^ 63 - 1 } 0 = some none ∧
      ∃ q s, create 2 (some sampleHasty) .strictPriority none = .ok q ∧ run Clocked.step sampleDue ⟨q, 0⟩ = some s ∧
        s.queue.nextAging 1 ≠ none ∧
        s.queue.ageOnceLockedChecked 2000000 (fun _ => 2000000) = some (s.queue.ageOnceLocked 2000000 fun _ => 2000000) := by
  obtain ⟨expiry, _, aging, runs⟩ := deadlines_never_overflow
  have zero : Clock.Reading 0 := ⟨le_rfl, by decide⟩
  have stamp : Clock.Reading 2000000 := ⟨by decide, by decide⟩
  have times : ∀ operation ∈ sampleDue, operation.Timed := by
    simp only [sampleDue, List.forall_mem_cons, Operation.Timed, List.not_mem_nil, false_implies, implies_true, and_true]
    exact ⟨⟨zero, zero⟩, ⟨zero, zero⟩, trivial, stamp⟩
  have made : create 2 (some sampleHasty) .strictPriority none = .ok _ := rfl
  have ran : run Clocked.step sampleDue
    ⟨{ numLevels := 2, selection := .strictPriority, aging := some sampleHasty, weights := none }, 0⟩ = some _ := rfl
  exact ⟨(expiry _ ⟨by decide, le_rfl⟩ (by decide) (by decide)).1.trans (by decide),
    (aging _ 0 zero (by decide) (by decide)).1.trans (by decide), _, _, made, ran, by decide +kernel,
    (runs _ _ _ _ _ _ 0 _ made times ran _ stamp).1 _⟩

end MultiLevelQueue

end Harbinger
