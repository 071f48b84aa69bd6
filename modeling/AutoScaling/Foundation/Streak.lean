import Mathlib.Data.List.Chain
import Mathlib.Data.List.DropRight
import Mathlib.Data.List.Induction
import Mathlib.Tactic.Linarith
import Mathlib.Tactic.Ring

/-! # Streaks at the end of a list, and entries that need one

A counter that some entries raise and the others reset is the length of the streak at
the end of what it has seen. Where some entries come only after a streak of `k` others,
at most one entry in `k + 1` is of that sort. Where each number is more than `d` above the
one before, `k` of them need more than `k * d`.
-/
namespace Streak
variable {α : Type*} {p q : α → Bool}

/-- The length of the longest final part whose entries all satisfy `p`. -/
def streak (p : α → Bool) (l : List α) : ℕ := (l.rtakeWhile p).length

@[simp] theorem streak_nil : streak p [] = 0 := by simp [streak]

theorem streak_concat (l : List α) (a : α) :
    streak p (l ++ [a]) = if p a then streak p l + 1 else 0 := by
  unfold streak
  by_cases h : p a
  · rw [List.rtakeWhile_concat_pos _ _ _ h, if_pos h, List.length_append, List.length_singleton]
  · rw [List.rtakeWhile_concat_neg _ _ _ h, if_neg h, List.length_nil]

theorem streak_le_length (l : List α) : streak p l ≤ l.length :=
  (List.rtakeWhile_suffix p l).length_le

theorem length_le_streak (l₀ : List α) {l₁ : List α} (h : ∀ a ∈ l₁, p a) :
    l₁.length ≤ streak p (l₀ ++ l₁) := by
  induction l₁ using List.reverseRecOn with
  | nil => exact Nat.zero_le _
  | append_singleton l₁ a ih =>
    have hall := ih (fun b hb => h b (List.mem_append_left _ hb))
    rw [← List.append_assoc, streak_concat, if_pos (h a (by simp)), List.length_append,
      List.length_singleton]
    omega

theorem le_streak_iff {k : ℕ} {l : List α} :
    k ≤ streak p l ↔ ∃ l₀ l₁, l = l₀ ++ l₁ ∧ l₁.length = k ∧ ∀ a ∈ l₁, p a := by
  constructor
  · intro hk
    have hsplit := List.rdropWhile_append_rtakeWhile (p := p) (l := l)
    let run := l.rtakeWhile p
    refine ⟨l.rdropWhile p ++ run.take (run.length - k),run.drop (run.length - k),?_,?_,?_⟩
    · rw [List.append_assoc, List.take_append_drop, hsplit]
    · have hlen : k ≤ run.length := hk
      rw [List.length_drop]
      omega
    · exact fun a ha => List.mem_rtakeWhile_imp (List.mem_of_mem_drop ha)
  · rintro ⟨l₀,l₁,rfl,rfl,h⟩
    exact length_le_streak l₀ h

theorem le_streak_iff_drop {k : ℕ} {l : List α} :
    k ≤ streak p l ↔ k ≤ l.length ∧ ∀ a ∈ l.drop (l.length - k), p a := by
  rw [le_streak_iff]
  constructor
  · rintro ⟨l₀,l₁,rfl,rfl,h⟩
    have hlen : (l₀ ++ l₁).length - l₁.length = l₀.length := by simp
    refine ⟨by simp,?_⟩
    rw [hlen, List.drop_left]
    exact h
  · rintro ⟨hk,h⟩
    refine ⟨l.take (l.length - k),l.drop (l.length - k),(List.take_append_drop _ _).symm,?_,h⟩
    rw [List.length_drop]
    omega

theorem forall_mem_concat {P : α → Prop} {l : List α} {a : α} :
    (∀ x ∈ l ++ [a], P x) ↔ (∀ x ∈ l, P x) ∧ P a := by
  rw [List.forall_mem_append, List.forall_mem_singleton]

/-- Every entry of the list stands in the relation `P` to the entries before it. -/
def Each (P : List α → α → Prop) (l : List α) : Prop :=
  ∀ before a after, l = before ++ a :: after → P before a

theorem Each.nil {P : List α → α → Prop} : Each P [] := by
  intro before a after hl
  simp at hl

theorem each_concat {P : List α → α → Prop} {l : List α} {a : α} :
    Each P (l ++ [a]) ↔ Each P l ∧ P l a := by
  constructor
  · intro h
    refine ⟨?_,h l a [] rfl⟩
    intro before b after hl
    exact h before b (after ++ [a]) (by rw [hl, List.append_assoc, List.cons_append])
  · rintro ⟨h,ha⟩ before b after hl
    rcases List.eq_nil_or_concat after with rfl | ⟨after',c,rfl⟩
    · obtain ⟨rfl,rfl⟩ := List.append_singleton_inj.mp hl
      exact ha
    · rw [List.concat_eq_append, ← List.cons_append, ← List.append_assoc] at hl
      exact h before b after' (List.append_singleton_inj.mp hl).1

theorem Each.take {P : List α → α → Prop} {l : List α} (h : Each P l) (n : ℕ) : Each P (l.take n) := by
  intro before a after hl
  refine h before a (after ++ l.drop n) ?_
  rw [← List.cons_append, ← List.append_assoc, ← hl, List.take_append_drop]

/-- Every entry with `q` comes right after `k` entries in a row with `p`. -/
def EachAfter (p : α → Bool) (k : ℕ) (q : α → Bool) : List α → Prop :=
  Each (fun before a => q a → k ≤ streak p before)

/-- Where `q` excludes `p`, each entry with `q` uses up its own `k` others. -/
theorem EachAfter.countP_mul_add_streak_le {k : ℕ} {l : List α} (hpq : ∀ a, q a → p a = false)
    (h : EachAfter p k q l) : l.countP q * (k + 1) + streak p l ≤ l.length := by
  induction l using List.reverseRecOn with
  | nil => simp
  | append_singleton l a ih =>
    obtain ⟨hbefore,hk⟩ := each_concat.mp h
    have hl := ih hbefore
    rw [List.countP_append, streak_concat, List.length_append, List.length_singleton,
      List.countP_singleton]
    by_cases ha : q a
    · have hk := hk ha
      rw [if_pos ha, hpq a ha, if_neg Bool.false_ne_true, Nat.add_mul]
      omega
    · rw [if_neg ha, Nat.add_zero]
      split <;> omega

theorem EachAfter.countP_take_le {k : ℕ} {l : List α} (hpq : ∀ a, q a → p a = false)
    (h : EachAfter p k q l) (n : ℕ) : (l.take n).countP q ≤ n / (k + 1) := by
  have htake : EachAfter p k q (l.take n) := h.take n
  have hcount := htake.countP_mul_add_streak_le hpq
  have hlen : (l.take n).length ≤ n := List.length_take_le n l
  apply (Nat.le_div_iff_mul_le (Nat.succ_pos k)).mpr
  exact (Nat.le_add_right _ _).trans (hcount.trans hlen)

theorem mul_length_lt_of_isChain {d a b : ℤ} {l : List ℤ} (h : (a :: l).IsChain (fun x y => d < y - x))
    (hb : l.getLast? = some b) : d * l.length < b - a := by
  induction l generalizing a with
  | nil => cases hb
  | cons c l ih =>
    obtain ⟨hc,hl⟩ := List.isChain_cons_cons.mp h
    rw [List.length_cons]
    push_cast
    cases l with
    | nil =>
      cases hb
      simpa using hc
    | cons c' l =>
      have hrest := ih hl (by simpa using hb)
      linarith

end Streak
