import Mathlib.Logic.Function.Basic

/-! # A monitor and the threads inside it

The monitor names the thread that holds it. Where it names just the threads whose program
point is inside the guarded code, at most one is, and entering and leaving keep it so.
-/
namespace Monitor
variable {ι α : Type*}

/-- The threads inside the guarded code are the one that the monitor names. -/
def Guards (m : Option ι) (inside : α → Bool) (pc : ι → α) : Prop :=
  ∀ i, inside (pc i) = true ↔ m = some i

variable {m : Option ι} {inside : α → Bool} {pc : ι → α} {i : ι} {p : α}

theorem Guards.exclusive (h : Guards m inside pc) {j : ι} (hi : inside (pc i) = true)
    (hj : inside (pc j) = true) : i = j :=
  Option.some.inj (((h i).mp hi).symm.trans ((h j).mp hj))

theorem Guards.holder (h : Guards m inside pc) (hm : m ≠ none) : ∃ i, inside (pc i) = true := by
  obtain ⟨i,hi⟩ := Option.ne_none_iff_exists'.mp hm
  exact ⟨i,(h i).mpr hi⟩

variable [DecidableEq ι]

theorem Guards.stay (h : Guards m inside pc) (hp : inside p = inside (pc i)) :
    Guards m inside (Function.update pc i p) := by
  intro j
  by_cases hj : j = i
  · rw [hj, Function.update_self, hp]
    exact h i
  · rw [Function.update_of_ne hj]
    exact h j

theorem Guards.enter (h : Guards none inside pc) (hp : inside p = true) :
    Guards (some i) inside (Function.update pc i p) := by
  intro j
  by_cases hj : j = i
  · rw [hj, Function.update_self]
    exact iff_of_true hp rfl
  · rw [Function.update_of_ne hj, h j]
    exact iff_of_false (fun he => by cases he) (fun he => hj (Option.some.inj he).symm)

theorem Guards.leave (h : Guards m inside pc) (hi : inside (pc i) = true) (hp : inside p = false) :
    Guards none inside (Function.update pc i p) := by
  intro j
  by_cases hj : j = i
  · rw [hj, Function.update_self, hp]
    exact iff_of_false Bool.false_ne_true (fun he => by cases he)
  · rw [Function.update_of_ne hj]
    refine iff_of_false (fun hin => hj (h.exclusive hin hi)) (fun he => by cases he)

end Monitor
