import AutoScaling.Cluster.Server
import AutoScaling.Foundation.Streak
import Mathlib.Order.Nat

/-! # Scaling in a front server

`frontScaleIn` keeps one counter, and it is the length of the streak of short readings at
the end of all that the server has read. So the first shutdown is a matter of the last 56
readings and the last count.
-/
namespace AutoScaling
open Streak

/-- What one call of `frontScaleIn` reads: `getVMCount(0)`, then `getRequestLength()`. -/
structure FrontReading where
  frontMasterCnt : ℤ
  masterRequestLen : ℤ
  deriving DecidableEq

def FrontReading.short (x : FrontReading) : Bool := x.masterRequestLen < 2

namespace Statics

def afterScaleIns (st : Statics) (xs : List FrontReading) : Statics :=
  xs.foldl (fun st x => (st.frontScaleIn x.frontMasterCnt x.masterRequestLen).1) st

/-- The call of `frontScaleIn` that shuts the server down, the first call being number 1. -/
def firstShutDown (st : Statics) : List FrontReading → Option ℕ
  | [] => none
  | x :: xs =>
    let scaledIn := st.frontScaleIn x.frontMasterCnt x.masterRequestLen
    if scaledIn.2 then some 1 else (firstShutDown scaledIn.1 xs).map (· + 1)

theorem frontScaleIn_shortQueueCount (st : Statics) (cnt len : ℤ) :
    (st.frontScaleIn cnt len).1.shortQueueCount =
      if len < 2 then intInc st.shortQueueCount else 0 := by
  unfold frontScaleIn
  split <;> rfl

/-- A call shuts down just when it leaves more than 55 in the counter and is not alone. -/
theorem frontScaleIn_shuts_iff (st : Statics) (cnt len : ℤ) :
    (st.frontScaleIn cnt len).2 = true ↔
      55 < (st.frontScaleIn cnt len).1.shortQueueCount ∧ 1 < cnt := by
  unfold frontScaleIn
  split <;> simp

theorem afterScaleIns_concat (st : Statics) (xs : List FrontReading) (x : FrontReading) :
    st.afterScaleIns (xs ++ [x]) =
      ((st.afterScaleIns xs).frontScaleIn x.frontMasterCnt x.masterRequestLen).1 := by
  simp only [afterScaleIns,List.foldl_append,List.foldl_cons,List.foldl_nil]

/-- The counter is the streak of short readings, in 32 bits. -/
theorem shortQueueCount_afterScaleIns (xs : List FrontReading) :
    (initial.afterScaleIns xs).shortQueueCount = (streak FrontReading.short xs : ℤ).bmod (2 ^ 32) := by
  induction xs using List.reverseRecOn with
  | nil => rw [streak_nil]; rfl
  | append_singleton xs x ih =>
    rw [afterScaleIns_concat, frontScaleIn_shortQueueCount, ih, streak_concat]
    by_cases hx : x.masterRequestLen < 2
    · have hshort : x.short = true := decide_eq_true hx
      rw [if_pos hx, if_pos hshort, intInc_bmod]
      push_cast
      rfl
    · have hlong : ¬ x.short = true := by simpa [FrontReading.short] using hx
      rw [if_neg hx, if_neg hlong]
      rfl

theorem shuts_afterScaleIns_iff (xs : List FrontReading) (x : FrontReading) :
    ((initial.afterScaleIns xs).frontScaleIn x.frontMasterCnt x.masterRequestLen).2 = true ↔
      55 < (streak FrontReading.short (xs ++ [x]) : ℤ).bmod (2 ^ 32) ∧ 1 < x.frontMasterCnt := by
  rw [frontScaleIn_shuts_iff, ← afterScaleIns_concat, shortQueueCount_afterScaleIns]

def ShutsAt (st : Statics) (xs : List FrontReading) (n : ℕ) : Prop :=
  ∃ x, 0 < n ∧ xs[n - 1]? = some x ∧
    ((st.afterScaleIns (xs.take (n - 1))).frontScaleIn x.frontMasterCnt x.masterRequestLen).2 = true

theorem shutsAt_cons_succ {st : Statics} {x : FrontReading} {xs : List FrontReading} {n : ℕ}
    (hn : 0 < n) : st.ShutsAt (x :: xs) (n + 1) ↔
      (st.frontScaleIn x.frontMasterCnt x.masterRequestLen).1.ShutsAt xs n := by
  obtain ⟨n,rfl⟩ : ∃ k, n = k + 1 := ⟨n - 1,by omega⟩
  simp [ShutsAt,afterScaleIns]

theorem shutsAt_cons_one {st : Statics} {x : FrontReading} {xs : List FrontReading} :
    st.ShutsAt (x :: xs) 1 ↔ (st.frontScaleIn x.frontMasterCnt x.masterRequestLen).2 = true := by
  simp [ShutsAt,afterScaleIns]

theorem firstShutDown_iff_isLeast (st : Statics) (xs : List FrontReading) (n : ℕ) :
    st.firstShutDown xs = some n ↔ IsLeast {n | st.ShutsAt xs n} n := by
  induction xs generalizing st n with
  | nil =>
    refine iff_of_false (fun h => by cases h) ?_
    rintro ⟨⟨x,_,hx,_⟩,_⟩
    cases hx
  | cons x xs ih =>
    simp only [firstShutDown]
    split
    · rename_i hx
      rw [Option.some.injEq]
      have hleast : IsLeast {n | st.ShutsAt (x :: xs) n} 1 :=
        ⟨shutsAt_cons_one.mpr hx,fun m hm => hm.choose_spec.1⟩
      exact ⟨fun h => h ▸ hleast,fun h => hleast.unique h⟩
    · rename_i hx
      have hone : ¬ st.ShutsAt (x :: xs) 1 := fun h => hx (shutsAt_cons_one.mp h)
      have hpos : ∀ m, st.ShutsAt (x :: xs) m → ∃ k, 0 < k ∧ m = k + 1 := by
        rintro m hm
        have hm0 := hm.choose_spec.1
        have hm1 : m ≠ 1 := fun he => hone (he ▸ hm)
        exact ⟨m - 1,by omega,by omega⟩
      rw [Option.map_eq_some_iff]
      constructor
      · rintro ⟨k,hk,rfl⟩
        obtain ⟨hk,hleast⟩ := (ih _ k).mp hk
        refine ⟨(shutsAt_cons_succ hk.choose_spec.1).mpr hk,?_⟩
        intro m hm
        obtain ⟨j,hj,rfl⟩ := hpos m hm
        exact Nat.succ_le_succ (hleast ((shutsAt_cons_succ hj).mp hm))
      · rintro ⟨hn,hleast⟩
        obtain ⟨k,hk,rfl⟩ := hpos n hn
        refine ⟨k,(ih _ k).mpr ⟨(shutsAt_cons_succ hk).mp hn,?_⟩,rfl⟩
        intro j hj
        exact Nat.le_of_succ_le_succ (hleast ((shutsAt_cons_succ hj.choose_spec.1).mpr hj))

/-- Call `n` reads a count over 1, and it and the 55 calls before it a length under 2. -/
def WindowCloses (xs : List FrontReading) (n : ℕ) : Prop :=
  56 ≤ n ∧ (∃ x, xs[n - 1]? = some x ∧ 1 < x.frontMasterCnt) ∧
    ∀ y ∈ (xs.take n).drop (n - 56), y.masterRequestLen < 2

theorem streak_bmod {p : FrontReading → Bool} {xs : List FrontReading} (h : xs.length < 2 ^ 31) :
    (streak p xs : ℤ).bmod (2 ^ 32) = streak p xs := by
  have hle := streak_le_length (p := p) xs
  apply Int.bmod_eq_of_le <;> omega

theorem shutsAt_iff_windowCloses {xs : List FrontReading} (h : xs.length < 2 ^ 31) (n : ℕ) :
    initial.ShutsAt xs n ↔ WindowCloses xs n := by
  have hcall : ∀ x, 0 < n → xs[n - 1]? = some x →
      (((initial.afterScaleIns (xs.take (n - 1))).frontScaleIn x.frontMasterCnt
        x.masterRequestLen).2 = true ↔
      (56 ≤ n ∧ ∀ y ∈ (xs.take n).drop (n - 56), y.masterRequestLen < 2) ∧ 1 < x.frontMasterCnt) := by
    intro x hn hx
    obtain ⟨hlt,_⟩ := List.getElem?_eq_some_iff.mp hx
    have htake : xs.take (n - 1) ++ [x] = xs.take n := by
      rw [← Nat.sub_add_cancel hn, List.take_add_one, Nat.sub_add_cancel hn, hx]
      rfl
    have hlen : (xs.take n).length = n := List.length_take_of_le (by omega)
    have hwindow := le_streak_iff_drop (p := FrontReading.short) (k := 56) (l := xs.take n)
    simp only [hlen,FrontReading.short,decide_eq_true_eq] at hwindow
    rw [shuts_afterScaleIns_iff, htake, streak_bmod (by omega), ← hwindow]
    refine and_congr_left' ?_
    unfold FrontReading.short
    omega
  unfold ShutsAt WindowCloses
  constructor
  · rintro ⟨x,hn,hx,hshuts⟩
    obtain ⟨⟨hn,hwindow⟩,hcnt⟩ := (hcall x hn hx).mp hshuts
    exact ⟨hn,⟨x,hx,hcnt⟩,hwindow⟩
  · rintro ⟨hn,⟨x,hx,hcnt⟩,hwindow⟩
    have hpos : 0 < n := by omega
    exact ⟨x,hpos,hx,(hcall x hpos hx).mpr ⟨⟨hn,hwindow⟩,hcnt⟩⟩

theorem firstShutDown_iff_windowCloses {xs : List FrontReading} (h : xs.length < 2 ^ 31) (n : ℕ) :
    initial.firstShutDown xs = some n ↔ IsLeast {n | WindowCloses xs n} n := by
  have hset : {n | initial.ShutsAt xs n} = {n | WindowCloses xs n} :=
    Set.ext (fun n => shutsAt_iff_windowCloses h n)
  rw [firstShutDown_iff_isLeast, hset]

theorem not_windowCloses_of_firstShutDown_eq_none {xs : List FrontReading} (h : xs.length < 2 ^ 31)
    (hnone : initial.firstShutDown xs = none) (n : ℕ) : ¬ WindowCloses xs n := by
  intro hn
  classical
  have hleast := Nat.isLeast_find (p := WindowCloses xs) ⟨n,hn⟩
  rw [(firstShutDown_iff_windowCloses h _).mpr hleast] at hnone
  cases hnone

theorem windowCloses_take {xs : List FrontReading} {n k : ℕ} (hkn : k ≤ n) :
    WindowCloses (xs.take n) k ↔ WindowCloses xs k := by
  unfold WindowCloses
  rw [List.take_take, Nat.min_eq_left hkn]
  refine and_congr_right (fun hk => and_congr_left' ?_)
  rw [List.getElem?_take_of_lt (by omega)]

/-- The first shutdown is the first call that closes a window of 56 short readings with a
count over 1. A long reading restarts the window; a window that closes on a count of 1 or
less stays armed until the next long reading. -/
theorem frontScaleIn_slidingWindow (xs : List FrontReading) (h : xs.length < 2 ^ 31) :
    (∀ n, initial.firstShutDown xs = some n ↔ IsLeast {n | WindowCloses xs n} n) ∧
    (∀ m x, 0 < m → xs[m - 1]? = some x → 2 ≤ x.masterRequestLen →
      ∀ n, m ≤ n → n < m + 56 → initial.firstShutDown xs ≠ some n) ∧
    (∀ n m x, 56 ≤ n → n < m → initial.firstShutDown (xs.take (n - 1)) = none →
      (∀ y ∈ (xs.take m).drop (n - 56), y.masterRequestLen < 2) →
      (∀ y ∈ (xs.take (m - 1)).drop (n - 1), y.frontMasterCnt ≤ 1) →
      xs[m - 1]? = some x → 1 < x.frontMasterCnt → initial.firstShutDown xs = some m) := by
  refine ⟨firstShutDown_iff_windowCloses h,?_,?_⟩
  · intro m x hm hx hlong n hmn hnm hshut
    obtain ⟨⟨_,_,hwindow⟩,_⟩ := (firstShutDown_iff_windowCloses h n).mp hshut
    have hmem : x ∈ (xs.take n).drop (n - 56) := by
      apply List.mem_iff_getElem?.mpr
      refine ⟨m - 1 - (n - 56),?_⟩
      rw [List.getElem?_drop, Nat.add_sub_cancel' (by omega), List.getElem?_take_of_lt (by omega), hx]
    exact absurd (hwindow x hmem) (not_lt.mpr hlong)
  · intro n m x hn hnm hnone hshort hcnt hx hc
    apply (firstShutDown_iff_windowCloses h m).mpr
    constructor
    · refine ⟨by omega,⟨x,hx,hc⟩,?_⟩
      intro y hy
      have hsub : (xs.take m).drop (m - 56) ⊆ (xs.take m).drop (n - 56) :=
        (List.drop_sublist_drop_left _ (by omega)).subset
      exact hshort y (hsub hy)
    · intro k hk
      by_contra hkm
      by_cases hkn : k < n
      · have hlen : (xs.take (n - 1)).length < 2 ^ 31 := by
          rw [List.length_take]
          omega
        exact not_windowCloses_of_firstShutDown_eq_none hlen hnone k
          ((windowCloses_take (by omega)).mpr hk)
      · obtain ⟨_,⟨z,hz,hzc⟩,_⟩ := hk
        have hmem : z ∈ (xs.take (m - 1)).drop (n - 1) := by
          apply List.mem_iff_getElem?.mpr
          refine ⟨k - 1 - (n - 1),?_⟩
          rw [List.getElem?_drop, Nat.add_sub_cancel' (by omega),
            List.getElem?_take_of_lt (by omega), hz]
        exact absurd hzc (not_lt.mpr (hcnt z hmem))

theorem frontScaleIn_slidingWindow_armed :
    IsLeast {n | WindowCloses (List.replicate 56 ⟨1,0⟩ ++ [⟨2,1⟩]) n} 57 :=
  ((frontScaleIn_slidingWindow _ (by decide)).1 57).mp (by decide +kernel)

end Statics
end AutoScaling
