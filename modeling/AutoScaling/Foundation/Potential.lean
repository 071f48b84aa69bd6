import AutoScaling.Foundation.LabelledSystem
import Mathlib.Data.Nat.Notation

/-! # What the steps of a run cost

The potential method: where each step is paid for, by what it brings in or by a fall of
the potential, a whole run is paid for by what it brings in and the potential it began
with. A party that can only wait for others a bounded number of times is a case of it.
-/
namespace LabelledSystem
variable {σ α : Type*} (S : LabelledSystem σ α)

def total (f : σ → α → ℕ) : σ → List α → ℕ
  | _, [] => 0
  | s, a :: as => f s a + (S.step s a).elim 0 (fun t => total f t as)

variable {S}

theorem total_cons {f : σ → α → ℕ} {s t : σ} {a : α} {as : List α} (hs : S.step s a = some t) :
    S.total f s (a :: as) = f s a + S.total f t as := by
  rw [total, hs, Option.elim_some]

theorem total_eq_countP {p : α → Bool} (n : ℕ) {s t : σ} {as : List α} (hr : S.run s as = some t) :
    S.total (fun _ a => if p a then n else 0) s as = n * as.countP p := by
  induction as generalizing s with
  | nil => rfl
  | cons a as ih =>
    obtain ⟨u,hu,hr⟩ := S.run_cons_eq_some.mp hr
    rw [total_cons hu, ih hr, List.countP_cons, Nat.mul_add, Nat.add_comm]
    split <;> simp

/-- The rule for runs: `c` is what a step costs, `b` what it brings. -/
theorem total_le {I : σ → Prop} {G : σ → α → Prop} {w : σ → ℕ} {c b : σ → α → ℕ}
    (hI : ∀ s a t, I s → G s a → S.step s a = some t → I t)
    (hstep : ∀ s a t, I s → G s a → S.step s a = some t → c s a + w t ≤ b s a + w s)
    {s t : σ} {as : List α} (hr : S.run s as = some t) (hg : S.Meets G s as) (hs : I s) :
    S.total c s as + w t ≤ S.total b s as + w s := by
  induction as generalizing s with
  | nil =>
    cases hr
    exact Nat.le_refl _
  | cons a as ih =>
    obtain ⟨u,hu,hr⟩ := S.run_cons_eq_some.mp hr
    rw [meets_cons hu] at hg
    have hfirst := hstep s a u hs hg.1 hu
    have hrest := ih hr hg.2 (hI s a u hs hg.1 hu)
    rw [total_cons hu, total_cons hu]
    omega

/-- Actions that each lower a rank, which certain other actions raise by at most `n`, are
bounded by it. -/
theorem countP_le {I : σ → Prop} {w : σ → ℕ} {p q : α → Bool} (n : ℕ)
    (hI : ∀ s a t, I s → S.step s a = some t → I t)
    (hstep : ∀ s a t, I s → S.step s a = some t →
      (if p a then 1 else 0) + w t ≤ (if q a then n else 0) + w s)
    {s t : σ} {as : List α} (hr : S.run s as = some t) (hs : I s) :
    as.countP p + w t ≤ n * as.countP q + w s := by
  have hle := total_le (G := fun _ _ => True) (c := fun _ a => if p a then 1 else 0)
    (b := fun _ a => if q a then n else 0) (fun s a t hs _ => hI s a t hs)
    (fun s a t hs _ ht => hstep s a t hs ht) hr (meets_true hr) hs
  rwa [total_eq_countP 1 hr, total_eq_countP n hr, Nat.one_mul] at hle

end LabelledSystem
