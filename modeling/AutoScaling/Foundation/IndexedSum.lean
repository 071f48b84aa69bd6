import Mathlib.Algebra.BigOperators.Group.Finset.Basic
import Mathlib.Data.Finset.Insert
import Mathlib.Algebra.Order.Group.Multiset

/-! # Sums over a family of which one member changes

A system of many parties keeps a family of local states and changes one of them at a
time. A quantity summed over the parties then changes by the difference of that one
party, which is stated without subtraction so that it also serves for multisets.
-/
namespace IndexedSum
variable {ι α M : Type*} [DecidableEq ι] [AddCommMonoid M]

theorem sum_update_add {s : Finset ι} {i : ι} (hi : i ∈ s) (f : ι → α) (p : α) (w : ι → α → M) :
    ∑ j ∈ s, w j (Function.update f i p j) + w i (f i) = ∑ j ∈ s, w j (f j) + w i p := by
  have hrest : ∑ j ∈ s.erase i, w j (Function.update f i p j) = ∑ j ∈ s.erase i, w j (f j) := by
    apply Finset.sum_congr rfl
    intro j hj
    rw [Function.update_of_ne (Finset.ne_of_mem_erase hj)]
  have hnew := Finset.sum_erase_add s (fun j => w j (Function.update f i p j)) hi
  have hold := Finset.sum_erase_add s (fun j => w j (f j)) hi
  simp only [Function.update_self] at hnew
  rw [← hnew, ← hold, hrest]
  exact add_right_comm _ _ _

theorem sum_update_of_notMem {s : Finset ι} {i : ι} (hi : i ∉ s) (f : ι → α) (p : α)
    (w : ι → α → M) : ∑ j ∈ s, w j (Function.update f i p j) = ∑ j ∈ s, w j (f j) := by
  apply Finset.sum_congr rfl
  intro j hj
  have hne : j ≠ i := fun h => hi (h ▸ hj)
  rw [Function.update_of_ne hne]

theorem sum_map_filter {β γ : Type*} {s : Finset ι} (key : β → ι) (f : β → γ) {l : List β}
    (h : ∀ x ∈ l, key x ∈ s) :
    ∑ i ∈ s, (((l.filter (fun x => decide (key x = i))).map f : List γ) : Multiset γ) = (l.map f : List γ) := by
  induction l with
  | nil => simp
  | cons x l ih =>
    rw [List.forall_mem_cons] at h
    have hone : ∑ i ∈ s, (((([x].filter (fun x => decide (key x = i))).map f : List γ) : Multiset γ)) = {f x} := by
      rw [Finset.sum_eq_single_of_mem (key x) h.1]
      · simp
      · intro i _ hi
        simp [Ne.symm hi]
    have hsplit : ∀ i, ((((x :: l).filter (fun x => decide (key x = i))).map f : List γ) : Multiset γ) =
        (([x].filter (fun x => decide (key x = i))).map f : List γ) +
          ((l.filter (fun x => decide (key x = i))).map f : List γ) := by
      intro i
      rw [← List.singleton_append, List.filter_append, List.map_append, ← Multiset.coe_add]
    rw [Finset.sum_congr rfl (fun i _ => hsplit i), Finset.sum_add_distrib, hone, ih h.2, List.map_cons,
      ← Multiset.cons_coe, Multiset.singleton_add]

end IndexedSum
