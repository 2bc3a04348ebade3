import Mathlib.Algebra.BigOperators.Group.Finset.Basic
import Mathlib.Algebra.BigOperators.Group.Finset.Piecewise
import Mathlib.Data.Finset.Card

/-!
# Counting in an indexed family

`tally S p f` is the number of indices in `S` whose value satisfies `p`. The
rule `tally_update` says how a single store changes it; the others compare it
with the size of a set of indices.
-/

namespace LibComm.Tally
variable {ι α : Type*}

def tally (S : Finset ι) (p : α → Bool) (f : ι → α) : ℕ := (S.filter fun i => p (f i)).card

/-- A store into an index of `S` trades the old value's share for the new one's. -/
theorem tally_update [DecidableEq ι] {S : Finset ι} {i : ι} (hi : i ∈ S) (p : α → Bool)
    (f : ι → α) (a : α) :
    tally S p (Function.update f i a) + (if p (f i) then 1 else 0) =
      tally S p f + (if p a then 1 else 0) := by
  have hrest : ∀ j ∈ S.erase i, (if p (Function.update f i a j) then 1 else 0) =
      if p (f j) then 1 else 0 := by
    intro j hj
    rw [Function.update_of_ne (Finset.ne_of_mem_erase hj)]
  simp only [tally, Finset.card_filter]
  rw [← Finset.add_sum_erase S _ hi, ← Finset.add_sum_erase S _ hi, Finset.sum_congr rfl hrest,
    Function.update_self]
  omega

theorem tally_insert [DecidableEq ι] {S : Finset ι} {i : ι} (hi : i ∉ S) (p : α → Bool)
    (f : ι → α) (a : α) :
    tally (insert i S) p (Function.update f i a) = tally S p f + if p a then 1 else 0 := by
  have hrest : (S.filter fun j => p (Function.update f i a j)) = S.filter fun j => p (f j) := by
    refine Finset.filter_congr fun j hj => ?_
    rw [Function.update_of_ne (ne_of_mem_of_not_mem hj hi)]
  simp only [tally, Finset.filter_insert, Function.update_self, hrest]
  by_cases ha : p a = true
  · rw [if_pos ha, if_pos ha, Finset.card_insert_of_notMem fun hm => hi (Finset.mem_filter.mp hm).1]
  · rw [if_neg ha, if_neg ha, add_zero]

theorem tally_eq_zero_iff {S : Finset ι} {p : α → Bool} {f : ι → α} :
    tally S p f = 0 ↔ ∀ i ∈ S, p (f i) = false := by
  simp [tally, Finset.filter_eq_empty_iff]

theorem tally_le_of_support {S T : Finset ι} {p : α → Bool} {f : ι → α}
    (h : ∀ i ∈ S, p (f i) = true → i ∈ T) : tally S p f ≤ T.card := by
  refine Finset.card_le_card fun i hi => ?_
  obtain ⟨hS, hp⟩ := Finset.mem_filter.mp hi
  exact h i hS hp

theorem tally_eq_card_iff {S T : Finset ι} {p : α → Bool} {f : ι → α} (hTS : T ⊆ S)
    (h : ∀ i ∈ S, p (f i) = true → i ∈ T) :
    tally S p f = T.card ↔ ∀ i ∈ T, p (f i) = true := by
  have hsub : (S.filter fun i => p (f i)) ⊆ T := fun i hi =>
    h i (Finset.mem_filter.mp hi).1 (Finset.mem_filter.mp hi).2
  constructor
  · intro hc i hi
    have he : i ∈ S.filter fun i => p (f i) := by
      rw [Finset.eq_of_subset_of_card_le hsub hc.ge]
      exact hi
    exact (Finset.mem_filter.mp he).2
  · intro hT
    refine congrArg Finset.card (hsub.antisymm fun i hi => ?_)
    exact Finset.mem_filter.mpr ⟨hTS hi, hT i hi⟩

end LibComm.Tally
