import Mathlib

/-! Samples of weighted values in a linear order: the weight of a part of a sample, and the
quantiles that the weights define. -/

namespace Sample

variable {α K : Type*} [Field K]

/-- The weight of the values in a part of the order. -/
def weight (sample : List (α × K)) (part : α → Prop) [DecidablePred part] : K :=
  ((sample.filter fun item => part item.1).map Prod.snd).sum

def total (sample : List (α × K)) : K := (sample.map Prod.snd).sum

/-- All weights times the same factor. -/
def scale (factor : K) (sample : List (α × K)) : List (α × K) := sample.map fun item => (item.1, item.2 * factor)

section Weights
variable {sample : List (α × K)} {part : α → Prop} [DecidablePred part]

theorem weight_cons (value : α) (weighs : K) (sample : List (α × K)) :
    weight ((value, weighs) :: sample) part = (if part value then weighs else 0) + weight sample part := by
  simp only [weight, List.filter_cons, decide_eq_true_eq]
  split <;> simp

theorem weight_scale (factor : K) : weight (scale factor sample) part = weight sample part * factor := by
  induction sample with
  | nil => simp [weight, scale]
  | cons item rest known =>
    change weight ((item.1, item.2 * factor) :: scale factor rest) part = weight ((item.1, item.2) :: rest) part * factor
    rw [weight_cons, weight_cons, known, add_mul, ite_mul, zero_mul]

theorem total_scale (factor : K) : total (scale factor sample) = total sample * factor := by
  rw [total, total, scale, List.map_map, ← List.sum_map_mul_right]
  rfl

theorem weight_congr {other : α → Prop} [DecidablePred other] (same : ∀ value, part value ↔ other value) :
    weight sample part = weight sample other := by
  simp only [weight, same]

theorem weight_or {other : α → Prop} [DecidablePred other] (disjoint : ∀ value, part value → ¬other value) :
    weight sample (fun value => part value ∨ other value) = weight sample part + weight sample other := by
  induction sample with
  | nil => simp [weight]
  | cons item rest known =>
    change weight ((item.1, item.2) :: rest) _ = weight ((item.1, item.2) :: rest) part + weight ((item.1, item.2) :: rest) other
    rw [weight_cons, weight_cons, weight_cons, known]
    by_cases here : part item.1
    · simp only [here, disjoint _ here, true_or, if_true, if_false]
      ring
    · simp only [here, false_or, if_false]
      ring

theorem weight_all (covers : ∀ item ∈ sample, part item.1) : weight sample part = total sample := by
  rw [weight, total, List.filter_eq_self.mpr fun item member => decide_eq_true (covers item member)]

end Weights

section Order
variable [LinearOrder K] [IsStrictOrderedRing K] {sample : List (α × K)}

theorem weight_mono (nonneg : ∀ item ∈ sample, 0 ≤ item.2) {small large : α → Prop} [DecidablePred small]
    [DecidablePred large] (within : ∀ item ∈ sample, small item.1 → large item.1) :
    weight sample small ≤ weight sample large := by
  induction sample with
  | nil => exact le_rfl
  | cons item rest known =>
    have here := nonneg item (List.mem_cons_self ..)
    change weight ((item.1, item.2) :: rest) small ≤ weight ((item.1, item.2) :: rest) large
    rw [weight_cons, weight_cons]
    refine add_le_add ?_ (known (fun other member => nonneg other (List.mem_cons_of_mem _ member))
      fun other member => within other (List.mem_cons_of_mem _ member))
    by_cases inside : small item.1
    · rw [if_pos inside, if_pos (within item (List.mem_cons_self ..) inside)]
    · rw [if_neg inside]
      split
      · exact here
      · exact le_rfl

theorem weight_nonneg (nonneg : ∀ item ∈ sample, 0 ≤ item.2) (part : α → Prop) [DecidablePred part] :
    0 ≤ weight sample part :=
  List.sum_nonneg fun _ member =>
    have ⟨_, kept, same⟩ := List.mem_map.mp member
    same ▸ nonneg _ (List.mem_of_mem_filter kept)

theorem total_pos (positive : ∀ item ∈ sample, 0 < item.2) (nonempty : sample ≠ []) : 0 < total sample :=
  List.sum_pos _ (List.forall_mem_map.mpr positive) (by simpa using nonempty)

variable [LinearOrder α]

/-- The least value of the sample at or below which there is the given share of the weight. -/
def IsQuantile (sample : List (α × K)) (q : K) (value : α) : Prop :=
  IsLeast {value | value ∈ sample.map Prod.fst ∧ q * total sample ≤ weight sample (· ≤ value)} value

section Extremes
variable (property : α → Prop) {values : List α} {value : α} (member : value ∈ values) (holds : property value)
include member holds

theorem exists_least : ∃ least, IsLeast {value | value ∈ values ∧ property value} least := by
  classical
  have nonempty : (values.toFinset.filter property).Nonempty :=
    ⟨value, Finset.mem_filter.mpr ⟨List.mem_toFinset.mpr member, holds⟩⟩
  have least := Finset.isLeast_min' _ nonempty
  simp only [Finset.coe_filter, List.mem_toFinset] at least
  exact ⟨_, least⟩

theorem exists_greatest : ∃ greatest, IsGreatest {value | value ∈ values ∧ property value} greatest := by
  classical
  have nonempty : (values.toFinset.filter property).Nonempty :=
    ⟨value, Finset.mem_filter.mpr ⟨List.mem_toFinset.mpr member, holds⟩⟩
  have greatest := Finset.isGreatest_max' _ nonempty
  simp only [Finset.coe_filter, List.mem_toFinset] at greatest
  exact ⟨_, greatest⟩

end Extremes

theorem exists_quantile (positive : ∀ item ∈ sample, 0 < item.2) (nonempty : sample ≠ []) {q : K} (small : q ≤ 1) :
    ∃ value, IsQuantile sample q value := by
  have heavy := total_pos positive nonempty
  -- the largest value has everything at or below it
  have first : (sample.head nonempty).1 ∈ sample.map Prod.fst := List.mem_map.mpr ⟨_, List.head_mem nonempty, rfl⟩
  obtain ⟨top, greatest⟩ := exists_greatest (fun _ => True) first trivial
  have covers : ∀ item ∈ sample, item.1 ≤ top := fun item member =>
    greatest.2 ⟨List.mem_map.mpr ⟨item, member, rfl⟩, trivial⟩
  refine exists_least _ greatest.1.1 ?_
  rw [weight_all covers]
  exact mul_le_of_le_one_left heavy.le small

theorem IsQuantile.below (nonneg : ∀ item ∈ sample, 0 ≤ item.2) {q : K} (share : 0 < q * total sample) {value : α}
    (quantile : IsQuantile sample q value) : weight sample (· < value) < q * total sample := by
  by_contra enough
  have reached := not_lt.mp enough
  have some_below : ∃ item ∈ sample, item.1 < value := by
    by_contra none_below
    have empty : weight sample (· < value) = 0 := by
      rw [weight, List.filter_eq_nil_iff.mpr fun item member => by
        simpa using fun below => none_below ⟨item, member, below⟩]
      rfl
    exact absurd (empty ▸ reached) (not_le.mpr share)
  obtain ⟨item, member, below⟩ := some_below
  -- the largest value below it would reach the share as well
  obtain ⟨largest, greatest⟩ := exists_greatest (· < value) (List.mem_map.mpr ⟨item, member, rfl⟩) below
  have within : ∀ item ∈ sample, item.1 < value → item.1 ≤ largest := fun item member below =>
    greatest.2 ⟨List.mem_map.mpr ⟨item, member, rfl⟩, below⟩
  have lower := quantile.2 ⟨greatest.1.1, reached.trans (weight_mono nonneg within)⟩
  exact absurd lower (not_le.mpr greatest.1.2)

end Order

end Sample
