import Harbinger.Broker.Settlement
import Harbinger.Ml.Predictor

/-! Paging through the dead letters. The DLQ only grows at its end, so a client of `InspectDlq`
that goes on where its last page ended reads the entries in the order of their arrival, while
any other thread may push. -/

namespace Harbinger
open Ml

/-- `DeadLetterQueue::snapshot`. -/
def snapshotDlq (entries : List DLQEntry) (offset limit : Nat) : List DLQEntry :=
  if entries.length ≤ offset ∨ limit = 0 then []
  else (entries.drop offset).take (min limit (entries.length - offset))

/-- An entry of the response of `InspectDlq`. -/
structure InspectedEntry where
  messageId : Bytes
  payload : Bytes
  headers : Headers
  reason : DLQReason
  details : Bytes
  dlqAgeMs : Millis
  retryCount : Nat

def InspectedEntry.of (now : Time) (entry : DLQEntry) : InspectedEntry where
  messageId := entry.message.id
  payload := entry.message.payload
  headers := entry.message.headers
  reason := entry.reason
  details := entry.details
  dlqAgeMs := (now - entry.dlqTime).tdiv 1000000
  retryCount := entry.message.retryCount

/-- The limit that `InspectDlq` uses for the requested one. -/
def effectiveLimit (limit : Int) : Nat := (max 1 (min (if limit ≤ 0 then 10 else limit) 100)).toNat

/-- A call of `InspectDlq` between its two visits to the DLQ, with the DLQ at the first one. -/
structure InspectCall where
  limit : Nat
  entries : List DLQEntry
  stored : List DLQEntry

/-- A page in the hands of the client, with everything it has seen so far and the DLQ at the call. -/
structure Page where
  limit : Nat
  entries : List InspectedEntry
  totalSize : Nat
  seen : List InspectedEntry
  stored : List DLQEntry

/-- The broker and a client that pages through the DLQ. -/
structure Inspection (σ : Type) where
  system : System σ
  call : Option InspectCall := none
  offset : Int := 0
  pages : List Page := []

inductive InspectAction where
  | other (action : Action)
  | snapshot (limit : Int)
  | respond (reading : Time)

namespace Inspection
variable {σ : Type}

/-- The concatenation of the returned pages. -/
def seen (v : Inspection σ) : List InspectedEntry := v.pages.flatMap Page.entries

variable [Inference σ]

/-- The client asks again only after the response, and while its offset is an `int32`. -/
def step (cfg : HarbingerConfig) (v : Inspection σ) : InspectAction → Option (Inspection σ)
  | .other action => (v.system.step cfg action).map fun system => { v with system }
  | .snapshot limit =>
    if v.call.isNone ∧ v.offset < 2 ^ 31 then
      let entries := snapshotDlq v.system.broker.dlq (max v.offset 0).toNat (effectiveLimit limit)
      some { v with call := some ⟨effectiveLimit limit, entries, v.system.broker.dlq⟩ }
    else none
  | .respond reading =>
    match v.call with
    | none => none
    | some call =>
      let entries := call.entries.map (InspectedEntry.of reading)
      some { v with
        call := none
        offset := v.offset + entries.length
        pages := v.pages ++
          [⟨call.limit, entries, v.system.broker.dlq.length, v.seen ++ entries, call.stored⟩] }

end Inspection

section Growth
variable {σ : Type} {cfg : HarbingerConfig} {s s' : System σ}

theorem finishHand_dlq (b : Broker σ) (entry : InFlightEntry) (kind : Settlement) (reason : Bytes)
    (measurement : Option Int) (r : Broker.FinishReadings) :
    b.dlq <+: (b.finishHand cfg entry kind reason measurement r).broker.dlq := by
  obtain ⟨levelCost, handed⟩ := b.finishHand_handOff cfg entry kind reason measurement r
  generalize (b.finishHand cfg entry kind reason measurement r).broker = after at handed ⊢
  generalize System.fate entry.message kind r.expiryAt = fate at handed
  cases handed with
  | expired => exact List.prefix_append _ _
  | acknowledged => exact List.prefix_rfl
  | exhausted => exact List.prefix_append _ _
  | retried => exact List.prefix_rfl

variable [Inference σ]

/-- No step removes or moves an entry of the DLQ. -/
theorem step_dlq {action : Action} (moved : s.step cfg action = some s') : s.broker.dlq <+: s'.broker.dlq := by
  cases action with
  | route task r =>
    simp only [System.step] at moved
    split at moved
    next msg found =>
      obtain rfl := Option.some.inj moved
      obtain ⟨predictor, same⟩ := s.broker.routeMessage_eq cfg msg r
      change s.broker.dlq <+: (s.broker.routeMessage cfg msg r).2.dlq
      rw [same]
    · cases moved
  | bury task dlqAt stamp =>
    simp only [System.step] at moved
    split at moved
    · obtain ⟨_, moved⟩ := Option.ite_none_right_eq_some.mp moved
      obtain rfl := Option.some.inj moved
      exact List.prefix_append _ _
    · cases moved
  | install task cancelled fault leaseAt pullAt =>
    simp only [System.step] at moved
    split at moved
    · obtain ⟨_, moved⟩ := Option.ite_none_right_eq_some.mp moved
      obtain rfl := Option.some.inj moved
      simp only [System.proceed, System.installFor]
      split <;> exact List.prefix_rfl
    · cases moved
  | settle call recordAt leaseAt r =>
    simp only [System.step] at moved
    split at moved
    · obtain rfl := Option.some.inj moved
      exact List.prefix_rfl
    · obtain ⟨_, moved⟩ := Option.ite_none_right_eq_some.mp moved
      obtain rfl := Option.some.inj moved
      unfold System.settleFor
      split
      · exact List.prefix_rfl
      next deliveries entry kind reason measurement status _ =>
        exact finishHand_dlq { s.broker with deliveries } entry kind reason measurement r
  | reclaim r =>
    simp only [System.step] at moved
    repeat' split at moved
    all_goals first
      | cases moved; done
      | (obtain rfl := Option.some.inj moved; exact finishHand_dlq ..)
  | learn lesson first second =>
    simp only [System.step] at moved
    split at moved
    · cases moved
    next update _ =>
      obtain rfl := Option.some.inj moved
      obtain ⟨predictor, same⟩ := s.broker.learn_eq update first second
      change s.broker.dlq <+: (s.broker.learn update first second).dlq
      rw [same]
  | _ =>
    simp only [System.step] at moved
    repeat' split at moved
    all_goals first
      | cases moved; done
      | (obtain rfl := Option.some.inj moved; exact List.prefix_rfl)

end Growth

/-- The client was shown these entries of the DLQ, each at some reading of the clock. -/
def Shows (shown : List InspectedEntry) (entries : List DLQEntry) : Prop :=
  List.Forall₂ (fun shown entry => ∃ now, shown = InspectedEntry.of now entry) shown entries

theorem Shows.of_map (now : Time) (entries : List DLQEntry) : Shows (entries.map (InspectedEntry.of now)) entries := by
  unfold Shows
  rw [List.forall₂_map_left_iff]
  exact List.forall₂_same.mpr fun entry _ => ⟨now, rfl⟩

/-- A snapshot behind what has been seen goes on with it. -/
theorem snapshotDlq_continues (entries : List DLQEntry) (offset limit : Nat) (inside : offset ≤ entries.length) :
    entries.take offset ++ snapshotDlq entries offset limit =
      entries.take (offset + (snapshotDlq entries offset limit).length) ∧
    offset + (snapshotDlq entries offset limit).length ≤ entries.length ∧
    ((snapshotDlq entries offset limit).length < limit →
      offset + (snapshotDlq entries offset limit).length = entries.length) := by
  unfold snapshotDlq
  split
  next nothing =>
    refine ⟨by simp, by simpa using inside, fun fewer => ?_⟩
    rcases nothing with past | none
    · simpa using le_antisymm inside past
    · simp [none] at fewer
  · have length : ((entries.drop offset).take (min limit (entries.length - offset))).length =
        min limit (entries.length - offset) := by
      rw [List.length_take, List.length_drop]
      omega
    rw [length, List.take_add]
    exact ⟨rfl, by omega, fun fewer => by omega⟩

namespace Inspection
variable {σ : Type} {cfg : HarbingerConfig} {v v' : Inspection σ}

/-- What the client has seen is where the DLQ starts, and an open call reads on from there. -/
structure Following (v : Inspection σ) : Prop where
  offset : v.offset = v.seen.length
  inside : v.seen.length ≤ v.system.broker.dlq.length
  seen : Shows v.seen (v.system.broker.dlq.take v.seen.length)
  call : ∀ call ∈ v.call, call.stored <+: v.system.broker.dlq ∧ v.seen.length ≤ call.stored.length ∧
    call.entries = snapshotDlq call.stored v.seen.length call.limit
  pages : ∀ page ∈ v.pages, page.entries.length < page.limit → Shows page.seen page.stored

theorem take_of_grown {short long : List DLQEntry} (grown : short <+: long) {count : Nat} (inside : count ≤ short.length) :
    long.take count = short.take count := by
  obtain ⟨added, rfl⟩ := grown
  exact List.take_append_of_le_length inside

variable [Inference σ]

theorem Following.step (follows : v.Following) {action : InspectAction} (moved : v.step cfg action = some v') :
    v'.Following := by
  cases action with
  | other action =>
    obtain ⟨system, stepped, rfl⟩ := Option.map_eq_some_iff.mp moved
    have grown := step_dlq stepped
    refine ⟨follows.offset, follows.inside.trans grown.length_le, ?_, fun call opened => ?_, follows.pages⟩
    · change Shows v.seen (system.broker.dlq.take v.seen.length)
      rw [take_of_grown grown follows.inside]
      exact follows.seen
    · obtain ⟨stored, read⟩ := follows.call call opened
      exact ⟨stored.trans grown, read⟩
  | snapshot limit =>
    obtain ⟨_, moved⟩ := Option.ite_none_right_eq_some.mp moved
    obtain rfl := Option.some.inj moved
    refine ⟨follows.offset, follows.inside, follows.seen, fun call opened => ?_, follows.pages⟩
    obtain rfl := Option.some.inj opened
    refine ⟨List.prefix_rfl, follows.inside, ?_⟩
    dsimp only
    rw [follows.offset, max_eq_left (Int.natCast_nonneg _), Int.toNat_natCast]
    rfl
  | respond reading =>
    simp only [Inspection.step] at moved
    split at moved
    · cases moved
    next call opened =>
      obtain rfl := Option.some.inj moved
      obtain ⟨stored, enough, read⟩ := follows.call call opened
      obtain ⟨goes, within, whole⟩ := snapshotDlq_continues call.stored v.seen.length call.limit enough
      rw [← read] at goes within whole
      let shown := call.entries.map (InspectedEntry.of reading)
      let later : Inspection σ := { v with
        call := none
        offset := v.offset + shown.length
        pages := v.pages ++ [⟨call.limit, shown, v.system.broker.dlq.length, v.seen ++ shown, call.stored⟩] }
      have seen : later.seen = v.seen ++ shown := by
        simp only [later, Inspection.seen, List.flatMap_append, List.flatMap_cons, List.flatMap_nil, List.append_nil]
      have length : later.seen.length = v.seen.length + call.entries.length := by
        rw [seen, List.length_append, List.length_map]
      have matched : Shows (v.seen ++ shown) (call.stored.take (v.seen.length + call.entries.length)) := by
        rw [← goes, ← take_of_grown stored enough]
        exact List.rel_append follows.seen (Shows.of_map reading call.entries)
      change later.Following
      refine ⟨?_, ?_, ?_, fun _ closed => (Option.not_mem_none _ closed).elim, ?_⟩
      · rw [length, Nat.cast_add, ← follows.offset]
        exact congrArg (fun count : Nat => v.offset + count) (List.length_map _)
      · exact length ▸ within.trans stored.length_le
      · rw [length, seen]
        exact (take_of_grown stored within) ▸ matched
      · intro page member fewer
        rcases List.mem_append.mp member with earlier | new
        · exact follows.pages page earlier fewer
        · obtain rfl := List.mem_singleton.mp new
          rw [List.length_map] at fewer
          rw [whole fewer, List.take_length] at matched
          exact matched

/-- A client that starts at the front and goes on where its last page ended has at every point
seen a first part of the DLQ in the order of the pushes, and after a page that is shorter than
its limit everything that was there at the call. -/
theorem pages_follow_dlq (s : System σ) {actions : List InspectAction}
    (ran : Transition.run (step cfg) actions { system := s } = some v) :
    v.offset = v.seen.length ∧ v.seen.length ≤ v.system.broker.dlq.length ∧
      Shows v.seen (v.system.broker.dlq.take v.seen.length) ∧
      ∀ page ∈ v.pages, page.entries.length < page.limit → Shows page.seen page.stored := by
  have start : Following { system := s } := ⟨rfl, Nat.zero_le _, .nil, fun _ closed => (Option.not_mem_none _ closed).elim,
    fun _ member => (List.not_mem_nil member).elim⟩
  have follows : v.Following := Transition.run_invariant Following (fun _ _ _ kept moved => kept.step moved) start ran
  exact ⟨follows.offset, follows.inside, follows.seen, follows.pages⟩

section Sample

/-- One entry is in the DLQ and a sweep is about to push a second one. -/
def sampleDead : System (PerKeyPredictor .plain) where
  broker := {
    queue := { numLevels := 1, selection := .strictPriority, aging := none, weights := none }
    dlq := [⟨{ id := ascii "0-0" }, .maxRetriesExceeded, 0, ascii "failed"⟩] }
  tasks := [.burying .backgroundSweep [{ id := ascii "0-1" }] 0]
  now := 0
  lockClock := 0

/-- The second entry arrives while the first page is on its way. -/
theorem pages_follow_dlq_growing : ∃ v, Transition.run (step {})
      [.snapshot 1, .other (.bury 0 0 ⟨0, 0⟩), .respond 0, .snapshot 7, .respond 0] { system := sampleDead } = some v ∧
    v.seen.map InspectedEntry.messageId = [ascii "0-0", ascii "0-1"] ∧
    Shows v.seen (v.system.broker.dlq.take v.seen.length) := by
  have known : (Transition.run (step {})
      [.snapshot 1, .other (.bury 0 0 ⟨0, 0⟩), .respond 0, .snapshot 7, .respond 0] { system := sampleDead }).map
        (fun v => v.seen.map InspectedEntry.messageId) = some [ascii "0-0", ascii "0-1"] := rfl
  obtain ⟨v, ran, shown⟩ := Option.map_eq_some_iff.mp known
  exact ⟨v, ran, shown, (pages_follow_dlq sampleDead ran).2.2.1⟩

end Sample

end Inspection

end Harbinger
