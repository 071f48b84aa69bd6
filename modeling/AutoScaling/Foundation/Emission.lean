import AutoScaling.Foundation.LabelledSystem
import Mathlib.Algebra.Group.Defs
import Mathlib.Data.List.Induction

/-! # What a run emits

Each step of a run may emit something that its action and the state before it say. An
invariant may then speak of the state and of everything emitted so far, and a quantity
of the state changes over a run by what the steps bring into it and take out.
-/
namespace LabelledSystem
variable {σ α β γ : Type*} (S : LabelledSystem σ α)

/-- All that the steps of a run emit, in order. -/
def emitted (f : σ → α → List β) : σ → List α → List β
  | _, [] => []
  | s, a :: as => f s a ++ (S.step s a).elim [] (fun t => emitted f t as)

variable {S}

theorem emitted_cons {f : σ → α → List β} {s t : σ} {a : α} {as : List α} (hs : S.step s a = some t) :
    S.emitted f s (a :: as) = f s a ++ S.emitted f t as := by
  rw [emitted, hs, Option.elim_some]

theorem emitted_append {f : σ → α → List β} {s t : σ} {as bs : List α} (hr : S.run s as = some t) :
    S.emitted f s (as ++ bs) = S.emitted f s as ++ S.emitted f t bs := by
  induction as generalizing s with
  | nil =>
    cases hr
    rfl
  | cons a as ih =>
    obtain ⟨u,hu,hr⟩ := S.run_cons_eq_some.mp hr
    rw [List.cons_append, emitted_cons hu, emitted_cons hu, ih hr, List.append_assoc]

theorem emitted_concat {f : σ → α → List β} {s t u : σ} {as : List α} {a : α} (hr : S.run s as = some t)
    (hs : S.step t a = some u) : S.emitted f s (as ++ [a]) = S.emitted f s as ++ f t a := by
  rw [emitted_append hr, emitted_cons hs, emitted, List.append_nil]

theorem emitted_eq_flatMap (f : σ → α → List β) (s : σ) (as : List α) :
    S.emitted f s as = (S.emitted (fun u a => [(u,a)]) s as).flatMap (fun p => f p.1 p.2) := by
  induction as generalizing s with
  | nil => rfl
  | cons a as ih =>
    simp only [emitted,List.flatMap_append,List.flatMap_singleton]
    cases S.step s a with
    | none => rfl
    | some t => rw [Option.elim_some, Option.elim_some, ih]

/-- The induction rule for runs, with the actions so far in the invariant. -/
theorem run_invariant_of_past {s₀ : σ} {I : List α → σ → Prop}
    (hstep : ∀ as s a t, S.run s₀ as = some s → I as s → S.step s a = some t → I (as ++ [a]) t)
    {s : σ} {as : List α} (hr : S.run s₀ as = some s) (h : I [] s₀) : I as s := by
  induction as using List.reverseRecOn generalizing s with
  | nil =>
    cases hr
    exact h
  | append_singleton as a ih =>
    obtain ⟨u,hu,hlast⟩ := run_append_eq_some.mp hr
    obtain ⟨v,hs,hnil⟩ := S.run_cons_eq_some.mp hlast
    cases hnil
    exact hstep as u a s hu (ih hu) hs

/-- A step with `P` was taken in the run, and `n` steps of kind `own` since. -/
def Since (S : LabelledSystem σ α) (s₀ : σ) (own : α → Bool) (P : List α → σ → α → Prop)
    (as : List α) (n : ℕ) : Prop :=
  ∃ pre a post s, as = pre ++ a :: post ∧ S.run s₀ pre = some s ∧ P pre s a ∧ post.countP own = n

theorem Since.now {s₀ s : σ} {own : α → Bool} {P : List α → σ → α → Prop} {as : List α} {a : α}
    (hr : S.run s₀ as = some s) (hP : P as s a) : S.Since s₀ own P (as ++ [a]) 0 :=
  ⟨as,a,[],s,rfl,hr,hP,rfl⟩

theorem Since.own {s₀ : σ} {own : α → Bool} {P : List α → σ → α → Prop} {as : List α} {n : ℕ}
    (h : S.Since s₀ own P as n) {a : α} (ha : own a = true) : S.Since s₀ own P (as ++ [a]) (n + 1) := by
  obtain ⟨pre,b,post,s,rfl,hr,hP,hn⟩ := h
  refine ⟨pre,b,post ++ [a],s,by simp,hr,hP,?_⟩
  rw [List.countP_append, hn, List.countP_singleton, if_pos ha]

theorem Since.other {s₀ : σ} {own : α → Bool} {P : List α → σ → α → Prop} {as : List α} {n : ℕ}
    (h : S.Since s₀ own P as n) {a : α} (ha : own a = false) : S.Since s₀ own P (as ++ [a]) n := by
  obtain ⟨pre,b,post,s,rfl,hr,hP,hn⟩ := h
  refine ⟨pre,b,post ++ [a],s,by simp,hr,hP,?_⟩
  rw [List.countP_append, hn, List.countP_singleton, if_neg (by simp [ha]), Nat.add_zero]

/-- The induction rule for runs, with all that has been emitted in the invariant. -/
theorem emitted_invariant {f : σ → α → List β} {G : σ → α → Prop} {I : List β → σ → Prop}
    (hstep : ∀ l s a t, I l s → G s a → S.step s a = some t → I (l ++ f s a) t)
    {s t : σ} {as : List α} (hr : S.run s as = some t) (hg : S.Meets G s as) (hs : I [] s) :
    I (S.emitted f s as) t := by
  have hafter : ∀ l, I l s → I (l ++ S.emitted f s as) t := by
    clear hs
    induction as generalizing s with
    | nil =>
      cases hr
      intro l hl
      rw [emitted, List.append_nil]
      exact hl
    | cons a as ih =>
      obtain ⟨u,hu,hr⟩ := S.run_cons_eq_some.mp hr
      rw [meets_cons hu] at hg
      intro l hl
      rw [emitted_cons hu, ← List.append_assoc]
      exact ih hr hg.2 _ (hstep l s a u hl hg.1 hu)
  exact hafter [] hs

/-- What holds of each thing when it is emitted and is kept by every later step. -/
theorem forall_mem_emitted {f : σ → α → List β} {G : σ → α → Prop} {I : σ → Prop} {P : β → σ → Prop}
    (hI : ∀ s a t, I s → G s a → S.step s a = some t → I t)
    (hnew : ∀ s a t, I s → G s a → S.step s a = some t → ∀ x ∈ f s a, P x t)
    (hkeep : ∀ x s a t, I s → S.step s a = some t → P x s → P x t)
    {s t : σ} {as : List α} (hr : S.run s as = some t) (hg : S.Meets G s as) (hs : I s) :
    ∀ x ∈ S.emitted f s as, P x t := by
  have hboth := emitted_invariant (f := f) (I := fun l u => I u ∧ ∀ x ∈ l, P x u) ?_ hr hg
    ⟨hs,fun x hx => by cases hx⟩
  · exact hboth.2
  · rintro l u a v ⟨hu,hl⟩ ha hv
    refine ⟨hI u a v hu ha hv,?_⟩
    intro x hx
    rcases List.mem_append.mp hx with hx | hx
    · exact hkeep x u a v hu hv (hl x hx)
    · exact hnew u a v hu ha hv x hx

/-- The balance rule: what a run brings into a quantity has been taken out again or is
still there. The quantity may be a count, a multiset, or a queue with its order. -/
theorem emitted_balance {M : Type*} [AddMonoid M] {w : σ → M} {into : σ → α → List β}
    {outOf : σ → α → List γ} (c : List β → M) (d : List γ → M) (hc : ∀ l l', c (l ++ l') = c l + c l')
    (hd : ∀ l l', d (l ++ l') = d l + d l') (hc0 : c [] = 0) (hd0 : d [] = 0) {I : σ → Prop}
    {G : σ → α → Prop} (hI : ∀ s a t, I s → G s a → S.step s a = some t → I t)
    (hstep : ∀ s a t, I s → G s a → S.step s a = some t → w s + c (into s a) = d (outOf s a) + w t)
    {s t : σ} {as : List α} (hr : S.run s as = some t) (hg : S.Meets G s as) (hs : I s) :
    w s + c (S.emitted into s as) = d (S.emitted outOf s as) + w t := by
  induction as generalizing s with
  | nil =>
    cases hr
    rw [emitted, emitted, hc0, hd0, add_zero, zero_add]
  | cons a as ih =>
    obtain ⟨u,hu,hr⟩ := S.run_cons_eq_some.mp hr
    rw [meets_cons hu] at hg
    have hrest := ih hr hg.2 (hI s a u hs hg.1 hu)
    rw [emitted_cons hu, emitted_cons hu, hc, hd, ← add_assoc, hstep s a u hs hg.1 hu, add_assoc, hrest,
      add_assoc]

end LabelledSystem
