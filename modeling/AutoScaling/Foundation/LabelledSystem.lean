import Mathlib.Logic.Basic
import Mathlib.Data.Option.Basic

/-! # Labelled step functions, their runs, and runs whose steps meet a condition

A system is a partial step function on labelled actions. Every outside choice
(which party moves, what a clock shows) is part of the action, so a run is a list
of actions and can be evaluated. A condition on runs is judged in the state before
each step.
-/
structure LabelledSystem (σ α : Type*) where
  step : σ → α → Option σ

namespace LabelledSystem
variable {σ α : Type*} (S : LabelledSystem σ α)

/-- The state after a list of actions, when each of them is enabled in turn. -/
def run : σ → List α → Option σ
  | s, [] => some s
  | s, a :: as => (S.step s a).bind (fun t => run t as)

/-- Every action of the run meets `G` in the state before it. -/
def Meets (G : σ → α → Prop) : σ → List α → Prop
  | _, [] => True
  | s, a :: as => G s a ∧ (S.step s a).elim True (fun t => Meets G t as)

/-- Every state visited by the run, both ends included, satisfies `P`. -/
def Along (P : σ → Prop) : σ → List α → Prop
  | s, [] => P s
  | s, a :: as => P s ∧ (S.step s a).elim True (fun t => Along P t as)

def Reachable (s t : σ) : Prop := ∃ as, S.run s as = some t

@[simp] theorem run_nil (s : σ) : S.run s [] = some s := rfl
theorem run_cons (s : σ) (a : α) (as : List α) :
    S.run s (a :: as) = (S.step s a).bind (fun t => S.run t as) := rfl

theorem run_cons_eq_some {s u : σ} {a : α} {as : List α} :
    S.run s (a :: as) = some u ↔ ∃ t, S.step s a = some t ∧ S.run t as = some u := by
  rw [run_cons, Option.bind_eq_some_iff]

theorem run_append (s : σ) (as bs : List α) :
    S.run s (as ++ bs) = (S.run s as).bind (fun t => S.run t bs) := by
  induction as generalizing s with
  | nil => rfl
  | cons a as ih =>
    rw [List.cons_append, run_cons, run_cons, Option.bind_assoc]
    exact congrArg _ (funext ih)

variable {S}

theorem run_append_eq_some {s u : σ} {as bs : List α} :
    S.run s (as ++ bs) = some u ↔ ∃ t, S.run s as = some t ∧ S.run t bs = some u := by
  rw [run_append, Option.bind_eq_some_iff]

theorem run_singleton {s t : σ} {a : α} (hs : S.step s a = some t) : S.run s [a] = some t := by
  rw [run_cons, hs, Option.bind_some, run_nil]

theorem run_concat {s t u : σ} {as : List α} {a : α} (hr : S.run s as = some t)
    (hs : S.step t a = some u) : S.run s (as ++ [a]) = some u := by
  rw [run_append, hr, Option.bind_some, run_cons, hs, Option.bind_some, run_nil]

theorem meets_cons {G : σ → α → Prop} {s t : σ} {a : α} {as : List α} (hs : S.step s a = some t) :
    S.Meets G s (a :: as) ↔ G s a ∧ S.Meets G t as := by
  rw [Meets, hs, Option.elim_some]

theorem along_cons {P : σ → Prop} {s t : σ} {a : α} {as : List α} (hs : S.step s a = some t) :
    S.Along P s (a :: as) ↔ P s ∧ S.Along P t as := by
  rw [Along, hs, Option.elim_some]

theorem Along.head {P : σ → Prop} {s : σ} {as : List α} (h : S.Along P s as) : P s := by
  cases as with
  | nil => exact h
  | cons a as => exact h.1

theorem Along.last {P : σ → Prop} {s t : σ} {as : List α} (h : S.Along P s as)
    (hr : S.run s as = some t) : P t := by
  induction as generalizing s with
  | nil => cases hr; exact h
  | cons a as ih =>
    obtain ⟨u, hu, hr⟩ := S.run_cons_eq_some.mp hr
    exact ih ((along_cons hu).mp h).2 hr

instance decidableMeets (G : σ → α → Prop) [∀ s a, Decidable (G s a)] :
    (s : σ) → (as : List α) → Decidable (S.Meets G s as)
  | _, [] => .isTrue trivial
  | s, a :: as =>
    match hs : S.step s a with
    | none => decidable_of_iff (G s a) (by rw [Meets, hs, Option.elim_none, and_true])
    | some t =>
      haveI := decidableMeets G t as
      decidable_of_iff (G s a ∧ S.Meets G t as) (meets_cons hs).symm

instance decidableRunEnds (P : σ → Prop) [DecidablePred P] (s : σ) (as : List α) :
    Decidable (∃ t, S.run s as = some t ∧ P t) :=
  inferInstanceAs (Decidable (∃ t ∈ S.run s as, P t))

/-- The induction rule for runs whose actions meet a condition: what one step preserves, a
run preserves. -/
theorem run_invariant_of_meets {I : σ → Prop} {G : σ → α → Prop}
    (hstep : ∀ s a t, I s → G s a → S.step s a = some t → I t)
    {s t : σ} {as : List α} (hr : S.run s as = some t) (hg : S.Meets G s as) (hs : I s) : I t := by
  induction as generalizing s with
  | nil => cases hr; exact hs
  | cons a as ih =>
    obtain ⟨u, hu, hr⟩ := S.run_cons_eq_some.mp hr
    rw [meets_cons hu] at hg
    exact ih hr hg.2 (hstep s a u hs hg.1 hu)

theorem meets_of_forall {G : α → Prop} {s t : σ} {as : List α} (hr : S.run s as = some t)
    (h : ∀ a ∈ as, G a) : S.Meets (fun _ => G) s as := by
  induction as generalizing s with
  | nil => trivial
  | cons a as ih =>
    obtain ⟨u, hu, hr⟩ := S.run_cons_eq_some.mp hr
    exact (meets_cons hu).mpr ⟨h a List.mem_cons_self,ih hr (fun b hb => h b (List.mem_cons_of_mem a hb))⟩

theorem meets_true {s t : σ} {as : List α} (hr : S.run s as = some t) :
    S.Meets (fun _ _ => True) s as :=
  meets_of_forall hr (fun _ _ => trivial)

theorem run_invariant {I : σ → Prop} (hstep : ∀ s a t, I s → S.step s a = some t → I t)
    {s t : σ} {as : List α} (hr : S.run s as = some t) (hs : I s) : I t :=
  run_invariant_of_meets (fun s a t hs _ => hstep s a t hs) hr (meets_true hr) hs

theorem meets_append {G : σ → α → Prop} {s t : σ} {as bs : List α} (hr : S.run s as = some t) :
    S.Meets G s (as ++ bs) ↔ S.Meets G s as ∧ S.Meets G t bs := by
  induction as generalizing s with
  | nil =>
    cases hr
    exact (and_iff_right trivial).symm
  | cons a as ih =>
    obtain ⟨u, hu, hr⟩ := S.run_cons_eq_some.mp hr
    rw [List.cons_append, meets_cons hu, meets_cons hu, ih hr, and_assoc]

theorem Meets.and {G H : σ → α → Prop} {s t : σ} {as : List α} (hr : S.run s as = some t)
    (hg : S.Meets G s as) (hh : S.Meets H s as) : S.Meets (fun s a => G s a ∧ H s a) s as := by
  induction as generalizing s with
  | nil => trivial
  | cons a as ih =>
    obtain ⟨u, hu, hr⟩ := S.run_cons_eq_some.mp hr
    rw [meets_cons hu] at hg hh ⊢
    exact ⟨⟨hg.1,hh.1⟩,ih hr hg.2 hh.2⟩

theorem meets_of_invariant {I : σ → Prop} {G H : σ → α → Prop}
    (hstep : ∀ s a t, I s → G s a → S.step s a = some t → I t ∧ H s a)
    {s t : σ} {as : List α} (hr : S.run s as = some t) (hg : S.Meets G s as) (hs : I s) :
    S.Meets H s as := by
  induction as generalizing s with
  | nil => trivial
  | cons a as ih =>
    obtain ⟨u, hu, hr⟩ := S.run_cons_eq_some.mp hr
    rw [meets_cons hu] at hg ⊢
    obtain ⟨hnext,hfirst⟩ := hstep s a u hs hg.1 hu
    exact ⟨hfirst,ih hr hg.2 hnext⟩

theorem along_of_meets {I P : σ → Prop} {G : σ → α → Prop}
    (hstep : ∀ s a t, I s → G s a → S.step s a = some t → I t) (hP : ∀ s, I s → P s)
    {s t : σ} {as : List α} (hr : S.run s as = some t) (hg : S.Meets G s as) (hs : I s) :
    S.Along P s as := by
  induction as generalizing s with
  | nil => exact hP s hs
  | cons a as ih =>
    obtain ⟨u, hu, hr⟩ := S.run_cons_eq_some.mp hr
    rw [meets_cons hu] at hg
    exact (along_cons hu).mpr ⟨hP s hs,ih hr hg.2 (hstep s a u hs hg.1 hu)⟩

/-- Where each step keeps `Good` just when its action meets `G`, a run keeps it just
when all its actions do. `P` is what every run of interest obeys. -/
theorem run_good_iff {I Good : σ → Prop} {P G : σ → α → Prop}
    (hI : ∀ s a t, I s → P s a → S.step s a = some t → I t)
    (hstep : ∀ s a t, I s → P s a → S.step s a = some t → (Good t ↔ Good s ∧ G s a))
    {s t : σ} {as : List α} (hr : S.run s as = some t) (hp : S.Meets P s as) (hs : I s) :
    Good t ↔ Good s ∧ S.Meets G s as := by
  induction as generalizing s with
  | nil =>
    cases hr
    exact (and_iff_left trivial).symm
  | cons a as ih =>
    obtain ⟨u, hu, hr⟩ := S.run_cons_eq_some.mp hr
    rw [meets_cons hu] at hp
    rw [ih hr hp.2 (hI s a u hs hp.1 hu), hstep s a u hs hp.1 hu, meets_cons hu, and_assoc]

/-- The same for what may be lost and won again: it holds all along a run just when no
action loses it. -/
theorem along_iff_meets {I Q : σ → Prop} {P G : σ → α → Prop}
    (hI : ∀ s a t, I s → P s a → S.step s a = some t → I t)
    (hstep : ∀ s a t, I s → P s a → Q s → S.step s a = some t → (Q t ↔ G s a))
    {s t : σ} {as : List α} (hr : S.run s as = some t) (hp : S.Meets P s as) (hs : I s)
    (hq : Q s) : S.Along Q s as ↔ S.Meets G s as := by
  induction as generalizing s with
  | nil => exact iff_of_true hq trivial
  | cons a as ih =>
    obtain ⟨u, hu, hr⟩ := S.run_cons_eq_some.mp hr
    rw [meets_cons hu] at hp
    rw [along_cons hu, meets_cons hu, and_iff_right hq, ← hstep s a u hs hp.1 hq hu]
    constructor
    · intro h
      have hqu : Q u := h.head
      exact ⟨hqu,(ih hr hp.2 (hI s a u hs hp.1 hu) hqu).mp h⟩
    · rintro ⟨hqu, h⟩
      exact (ih hr hp.2 (hI s a u hs hp.1 hu) hqu).mpr h

end LabelledSystem
