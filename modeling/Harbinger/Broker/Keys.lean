import Harbinger.Broker.Isolation
import Harbinger.Replay.Keys

/-! What a derived key says: the producer, the usable job label and the size bin, one behind the
other. A job label that is spelled like a bin is the only way to read a key in two ways. -/

namespace Harbinger
open Ml
open Replay (sampleReader)

/-- The texts behind the producer, each after a separator. -/
def joined (producer : Bytes) (parts : List Bytes) : Bytes := producer ++ parts.flatMap fun part => unitSeparator :: part

theorem joined_cons (producer part : Bytes) (parts : List Bytes) :
    joined producer (part :: parts) = producer ++ unitSeparator :: joined part parts := by
  simp [joined]

theorem joined_append (producer : Bytes) (parts others : List Bytes) :
    joined producer (parts ++ others) = joined (joined producer parts) others := by
  simp [joined]

theorem joined_injective {producer producer' : Bytes} {parts parts' : List Bytes} (plain : unitSeparator ∉ producer)
    (plain' : unitSeparator ∉ producer') (clean : ∀ part ∈ parts, unitSeparator ∉ part)
    (clean' : ∀ part ∈ parts', unitSeparator ∉ part) (same : joined producer parts = joined producer' parts') :
    producer = producer' ∧ parts = parts' := by
  induction parts generalizing producer producer' parts' with
  | nil =>
    cases parts' with
    | nil => exact ⟨by simpa [joined] using same, rfl⟩
    | cons part rest =>
      rw [joined_cons] at same
      have inside : unitSeparator ∈ joined producer [] := same ▸ List.mem_append_right _ (List.mem_cons_self ..)
      exact absurd (by simpa [joined] using inside) plain
  | cons part rest ih =>
    cases parts' with
    | nil =>
      rw [joined_cons] at same
      have inside : unitSeparator ∈ joined producer' [] := same ▸ List.mem_append_right _ (List.mem_cons_self ..)
      exact absurd (by simpa [joined] using inside) plain'
    | cons part' rest' =>
      rw [joined_cons, joined_cons] at same
      have first : producer = producer' := BelongsTo.unique plain plain' (.inr ⟨_, rfl⟩) (.inr ⟨_, same⟩)
      have behind : joined part rest = joined part' rest' :=
        (List.cons.inj (List.append_cancel_left (first ▸ same : producer' ++ _ = producer' ++ _))).2
      obtain ⟨head, others⟩ := ih (clean part (List.mem_cons_self ..)) (clean' part' (List.mem_cons_self ..))
        (fun other member => clean other (List.mem_cons_of_mem _ member))
        (fun other member => clean' other (List.mem_cons_of_mem _ member)) behind
      exact ⟨first, by rw [head, others]⟩

/-- The usable job label of a message. -/
def jobLabel (policy : PredictorKeyPolicy) (headers : Headers) : Option Bytes :=
  (headerText headers policy.jobHeader).filter usableJob

/-- The size that the policy reads of a message. -/
def messageSize (σ : Type) [Inference σ] (headers : Headers) (policy : PredictorKeyPolicy) (payloadSize : Nat) : Option ℚ :=
  match policy.sizeSource with
  | .none => none
  | .payload => some payloadSize
  | .header =>
    if policy.sizeHeader = [] then none
    else (headers.lookup policy.sizeHeader).bind (parseSizeHint (Inference.decimals σ))

/-- The size bin of a message. -/
def sizeBin (σ : Type) [Inference σ] (headers : Headers) (policy : PredictorKeyPolicy) (payloadSize : Nat) : Option Bytes :=
  (messageSize σ headers policy payloadSize).map sizeBinLabel

theorem jobLabel_clean {policy : PredictorKeyPolicy} {headers : Headers} {label : Bytes}
    (known : jobLabel policy headers = some label) : unitSeparator ∉ label ∧ label.length ≤ maxJobKeyBytes := by
  have usable := (Option.filter_eq_some_iff.mp known).2
  simp only [usableJob, Bool.and_eq_true, decide_eq_true_eq, List.all_eq_true] at usable
  refine ⟨fun member => ?_, usable.1⟩
  have printable := usable.2 _ member
  revert printable
  decide

theorem sizeBinLabel_clean (size : ℚ) : unitSeparator ∉ sizeBinLabel size ∧ (sizeBinLabel size).length ≤ 3 := by
  constructor
  · intro member
    rcases List.mem_append.mp member with fixed | digit
    · revert fixed
      decide
    · exact absurd (digit_of_mem_decimal digit).1 (by decide)
  · have digits : (decimal (min 63 (Nat.log 2 ⌊max size 1⌋.toNat))).length ≤ 2 :=
      decimal_length_le (by decide) (by omega)
    have first : (ascii "s").length = 1 := by decide
    rw [sizeBinLabel, List.length_append, first]
    omega

section Derived
variable {policy : PredictorKeyPolicy} {headers headers' : Headers} {counter counter' : Nat} {payloadSize payloadSize' : Nat}

theorem derivePredictorKey_joined (perProducer : policy.scopeByProducer = true) (small : counter < 2 ^ 64)
    (assigned : headerText headers policy.producerHeader = some (producerName counter)) :
    derivePredictorKey headers policy = some (joined (producerName counter) (jobLabel policy headers).toList) ∧
      (joined (producerName counter) (jobLabel policy headers).toList).length ≤ 158 := by
  have short := producerName_short small
  have limits : maxJobKeyBytes = 128 ∧ maxPredictorKeyBytes = 256 := ⟨rfl, rfl⟩
  have derived : derivePredictorKey headers policy =
      (some (joined (producerName counter) (jobLabel policy headers).toList)).filter fun key =>
        key.length ≤ maxPredictorKeyBytes := by
    simp only [derivePredictorKey, perProducer, assigned, if_true, jobLabel]
    cases (headerText headers policy.jobHeader).filter usableJob with
    | none => simp [joined]
    | some job => simp [joined]
  have bounded : (joined (producerName counter) (jobLabel policy headers).toList).length ≤ 158 := by
    cases known : jobLabel policy headers with
    | none =>
      simp only [Option.toList_none, joined, List.flatMap_nil, List.append_nil]
      omega
    | some label =>
      have size := (jobLabel_clean known).2
      simp only [Option.toList_some, joined, List.flatMap_cons, List.flatMap_nil, List.append_nil, List.length_append,
        List.length_cons]
      omega
  refine ⟨derived.trans (Option.filter_eq_some_iff.mpr ⟨rfl, ?_⟩), bounded⟩
  exact decide_eq_true (bounded.trans (by decide))

/-- A broker-assigned producer leaves room for the bin, so a message with a size is binned. -/
theorem derivePredictorKeys_joined (σ : Type) [Inference σ] (perProducer : policy.scopeByProducer = true)
    (small : counter < 2 ^ 64) (assigned : headerText headers policy.producerHeader = some (producerName counter)) :
    derivePredictorKeys σ headers policy payloadSize = some ⟨joined (producerName counter)
      ((jobLabel policy headers).toList ++ (sizeBin σ headers policy payloadSize).toList),
      (sizeBin σ headers policy payloadSize).map fun _ => joined (producerName counter) (jobLabel policy headers).toList⟩ := by
  obtain ⟨derived, bounded⟩ := derivePredictorKey_joined perProducer small assigned
  have shape : derivePredictorKeys σ headers policy payloadSize = (derivePredictorKey headers policy).map fun key =>
      binPredictorKey key (messageSize σ headers policy payloadSize) := rfl
  rw [shape, derived, Option.map_some, sizeBin]
  cases messageSize σ headers policy payloadSize with
  | none => simp [binPredictorKey]
  | some size =>
    have label := (sizeBinLabel_clean size).2
    have fits : (joined (producerName counter) (jobLabel policy headers).toList ++
        unitSeparator :: sizeBinLabel size).length ≤ maxPredictorKeyBytes := by
      have limit : maxPredictorKeyBytes = 256 := rfl
      rw [List.length_append, List.length_cons]
      omega
    simp only [binPredictorKey, if_pos fits, Option.map_some, Option.toList_some, joined_append]
    simp [joined]

theorem parts_clean (σ : Type) [Inference σ] : ∀ part ∈ (jobLabel policy headers).toList ++
    (sizeBin σ headers policy payloadSize).toList, unitSeparator ∉ part := by
  intro part member
  rcases List.mem_append.mp member with label | bin
  · exact (jobLabel_clean (Option.mem_toList.mp label)).1
  · obtain ⟨size, _, rfl⟩ := Option.map_eq_some_iff.mp (Option.mem_toList.mp bin)
    exact (sizeBinLabel_clean size).1

/-- A label is not spelled like the bin of any size. -/
def Distinct (label : Option Bytes) : Prop := ∀ text ∈ label, ∀ size, text ≠ sizeBinLabel size

theorem toList_injective {bin bin' : Option Bytes} (same : bin.toList = bin'.toList) : bin = bin' := by
  cases bin <;> cases bin' <;> simp_all

theorem parts_unique {label label' bin bin' : Option Bytes} (distinct : Distinct label) (distinct' : Distinct label')
    (binned : ∀ text ∈ bin, ∃ size, text = sizeBinLabel size) (binned' : ∀ text ∈ bin', ∃ size, text = sizeBinLabel size)
    (same : label.toList ++ bin.toList = label'.toList ++ bin'.toList) : label = label' ∧ bin = bin' := by
  cases label with
  | none =>
    cases label' with
    | none => exact ⟨rfl, toList_injective same⟩
    | some text =>
      cases bin with
      | none => simp at same
      | some first =>
        obtain ⟨size, spelled⟩ := binned first rfl
        have equal : first = text := by simpa using (List.cons.inj same).1
        exact absurd (equal.symm.trans spelled) (distinct' text rfl size)
  | some text =>
    cases label' with
    | none =>
      cases bin' with
      | none => simp at same
      | some first =>
        obtain ⟨size, spelled⟩ := binned' first rfl
        have equal : text = first := by simpa using (List.cons.inj same).1
        exact absurd (equal.trans spelled) (distinct text rfl size)
    | some other =>
      obtain ⟨head, rest⟩ := List.cons.inj same
      exact ⟨congrArg some head, toList_injective rest⟩

theorem sizeBin_spelled (σ : Type) [Inference σ] : ∀ text ∈ sizeBin σ headers policy payloadSize,
    ∃ size, text = sizeBinLabel size := by
  intro text member
  obtain ⟨size, _, same⟩ := Option.map_eq_some_iff.mp member
  exact ⟨size, same.symm⟩

theorem producerName_injective {counter counter' : Nat} (same : producerName counter = producerName counter') :
    counter = counter' :=
  decimal_injective (List.append_cancel_left same)

end Derived

def sampleScoped : PredictorKeyPolicy := { sizeSource := .header, sizeHeader := ascii "rows" }

/-- The headers of a message of the first producer. -/
def sampleLabelled (job rows : Bytes) : Headers :=
  ((AList.insert (ascii "job_type") job ∅).insert (ascii "rows") rows).insert (ascii "__producer_id") (producerName 0)

theorem sampleLabelled_distinct : Distinct (jobLabel sampleScoped (sampleLabelled (ascii "thumb") (ascii "8"))) := by
  have label : jobLabel sampleScoped (sampleLabelled (ascii "thumb") (ascii "8")) = some (ascii "thumb") := by decide +kernel
  rw [label]
  rintro text ⟨⟩ size same
  have long : (sizeBinLabel size).length = 5 := by rw [← same]; decide
  have short := (sizeBinLabel_clean size).2
  omega

end Harbinger
