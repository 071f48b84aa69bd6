import AutoScaling.Cluster.FrontScaleIn
import AutoScaling.Foundation.LabelledSystem

/-! # The passes of a front server

Each pass of `frontRoutine` that does not shut the server down takes exactly one request
from the server's own queue. The decision to shut down looks at the master's queue only,
so what is left behind is what has arrived less the number of passes.
-/
namespace AutoScaling
open Streak

/-- What one pass of `frontRoutine` meets: the requests that come into the server's own
queue before it begins, what it reads, and the requests that come in until
`getNextRequest()` returns. -/
structure FrontPass (R : Type*) where
  arrivedBefore : List R
  reading : FrontReading
  arrivedDuring : List R

/-- `added` are the requests passed on to the master. `abandoned`, set by `shutDown`, is
what was in the own queue when that pass began. -/
structure FrontServer (R : Type*) where
  statics : Statics
  slQueue : List R
  added : List R
  passes : List (FrontPass R)
  abandoned : Option (List R)

namespace FrontServer
variable {R : Type*}

def start : FrontServer R := ⟨.initial,[],[],[],none⟩

/-- `frontRoutine`: none where the server has shut down or `getNextRequest()` blocks. -/
def frontRoutine (s : FrontServer R) (x : FrontPass R) : Option (FrontServer R) :=
  match s.abandoned with
  | some _ => none
  | none =>
    let queue := s.slQueue ++ x.arrivedBefore
    let scaledIn := s.statics.frontScaleIn x.reading.frontMasterCnt x.reading.masterRequestLen
    if scaledIn.2 then
      some { s with
        statics := scaledIn.1, slQueue := [], passes := s.passes ++ [x], abandoned := some queue }
    else
      match queue ++ x.arrivedDuring with
      | [] => none
      | r :: rest =>
        some { s with
          statics := scaledIn.1, slQueue := rest, added := s.added ++ [r], passes := s.passes ++ [x] }

def system : LabelledSystem (FrontServer R) (FrontPass R) := ⟨frontRoutine⟩

inductive Passed (s : FrontServer R) (x : FrontPass R) : FrontServer R → Prop
  | shutDown (hshut : (s.statics.frontScaleIn x.reading.frontMasterCnt
        x.reading.masterRequestLen).2 = true) :
      Passed s x { s with
        statics := (s.statics.frontScaleIn x.reading.frontMasterCnt x.reading.masterRequestLen).1
        slQueue := []
        passes := s.passes ++ [x]
        abandoned := some (s.slQueue ++ x.arrivedBefore) }
  | add (r : R) (rest : List R) (hstay : (s.statics.frontScaleIn x.reading.frontMasterCnt
        x.reading.masterRequestLen).2 = false)
      (hqueue : s.slQueue ++ x.arrivedBefore ++ x.arrivedDuring = r :: rest) :
      Passed s x { s with
        statics := (s.statics.frontScaleIn x.reading.frontMasterCnt x.reading.masterRequestLen).1
        slQueue := rest
        added := s.added ++ [r]
        passes := s.passes ++ [x] }

theorem step_eq_some {s t : FrontServer R} {x : FrontPass R} :
    system.step s x = some t ↔ s.abandoned = none ∧ Passed s x t := by
  simp only [system,frontRoutine]
  constructor
  · intro h
    split at h
    · cases h
    · rename_i hopen
      refine ⟨hopen,?_⟩
      split at h
      · rename_i hshut
        cases h
        exact .shutDown hshut
      · rename_i hstay
        split at h
        · cases h
        · rename_i r rest hqueue
          cases h
          exact .add r rest (by simpa using hstay) hqueue
  · rintro ⟨hopen,hpassed⟩
    split
    · rename_i hleft
      rw [hopen] at hleft
      cases hleft
    · cases hpassed with
      | shutDown hshut => exact if_pos hshut
      | add r rest hstay hqueue => simp only [hstay,Bool.false_eq_true,if_false,hqueue]

/-- While the server runs: its counter has seen every reading, and what has arrived is
what it has passed on, one request a pass, and then what is in its queue. -/
structure Running (s : FrontServer R) : Prop where
  statics_eq : s.statics = Statics.initial.afterScaleIns (s.passes.map FrontPass.reading)
  fifo : s.added ++ s.slQueue =
    s.passes.flatMap (fun x => x.arrivedBefore ++ x.arrivedDuring)
  added_length : s.added.length = s.passes.length

theorem running_start : Running (start : FrontServer R) := ⟨rfl,rfl,rfl⟩

theorem running_step {s t : FrontServer R} {x : FrontPass R} (h : s.abandoned = none → Running s)
    (hs : system.step s x = some t) : t.abandoned = none → Running t := by
  obtain ⟨hopen,hpassed⟩ := step_eq_some.mp hs
  have hrunning := h hopen
  intro ht
  cases hpassed with
  | shutDown hshut => cases ht
  | add r rest hstay hqueue =>
    constructor
    · dsimp only
      rw [List.map_append, List.map_singleton, Statics.afterScaleIns_concat, hrunning.statics_eq]
    · dsimp only
      rw [List.flatMap_append, List.flatMap_singleton, ← hrunning.fifo, List.append_assoc,
        List.append_assoc, List.singleton_append, ← hqueue, List.append_assoc]
    · simp only [List.length_append,List.length_singleton,hrunning.added_length]

theorem running_of_run {xs : List (FrontPass R)} {s : FrontServer R} (hr : system.run start xs = some s)
    (hopen : s.abandoned = none) : Running s := by
  have h : s.abandoned = none → Running s :=
    LabelledSystem.run_invariant (I := fun u : FrontServer R => u.abandoned = none → Running u)
      (fun _ _ _ hu hs => running_step hu hs) hr (fun _ => running_start)
  exact h hopen

theorem passes_of_run {xs : List (FrontPass R)} {s t : FrontServer R} (hr : system.run s xs = some t) :
    t.passes = s.passes ++ xs := by
  induction xs generalizing s with
  | nil =>
    cases hr
    exact (List.append_nil _).symm
  | cons x xs ih =>
    obtain ⟨u,hu,hr⟩ := system.run_cons_eq_some.mp hr
    have hpassed : u.passes = s.passes ++ [x] := by
      cases (step_eq_some.mp hu).2 <;> rfl
    rw [ih hr, hpassed, List.append_assoc, List.singleton_append]

/-- All that has come in before the pass has been taken by the passes before it, or the
readings do not close the window. -/
def TakenBeforeClosing (s : FrontServer R) (x : FrontPass R) : Prop :=
  1 < x.reading.frontMasterCnt →
    55 < (streak FrontReading.short (s.passes.map FrontPass.reading ++ [x.reading]) : ℤ).bmod (2 ^ 32) →
    (s.passes.flatMap (fun y => y.arrivedBefore ++ y.arrivedDuring) ++ x.arrivedBefore).length =
      s.passes.length

instance decidableTakenBeforeClosing (s : FrontServer R) (x : FrontPass R) :
    Decidable (TakenBeforeClosing s x) :=
  inferInstanceAs (Decidable (_ → _ → _))

/-- What is in the queue when a pass begins is what has arrived less one request a pass. -/
theorem Running.length_arrived {s : FrontServer R} (h : Running s) (x : FrontPass R) :
    (s.passes.flatMap (fun y => y.arrivedBefore ++ y.arrivedDuring) ++ x.arrivedBefore).length =
      s.passes.length + (s.slQueue ++ x.arrivedBefore).length := by
  rw [← h.fifo, ← h.added_length]
  simp only [List.length_append]
  omega

def AbandonsNothing (s : FrontServer R) : Prop := ∀ left, s.abandoned = some left → left = []

theorem abandonsNothing_step {s t : FrontServer R} {x : FrontPass R}
    (h : s.abandoned = none → Running s) (hs : system.step s x = some t) :
    AbandonsNothing t ↔ AbandonsNothing s ∧ TakenBeforeClosing s x := by
  obtain ⟨hopen,hpassed⟩ := step_eq_some.mp hs
  have hrunning := h hopen
  have hbefore : AbandonsNothing s := fun left hleft => by rw [hopen] at hleft; cases hleft
  have hshuts := Statics.shuts_afterScaleIns_iff (s.passes.map FrontPass.reading) x.reading
  rw [← hrunning.statics_eq] at hshuts
  rw [and_iff_right hbefore, TakenBeforeClosing, hrunning.length_arrived x]
  cases hpassed with
  | shutDown hshut =>
    obtain ⟨hstreak,hcnt⟩ := hshuts.mp hshut
    constructor
    · intro ht _ _
      rw [ht _ rfl]
      rfl
    · intro ht left hleft
      cases hleft
      apply List.length_eq_zero_iff.mp
      have hlen := ht hcnt hstreak
      omega
  | add r rest hstay hqueue =>
    constructor
    · intro _ hcnt hstreak
      rw [hshuts.mpr ⟨hstreak,hcnt⟩] at hstay
      cases hstay
    · intro _ left hleft
      dsimp only at hleft
      rw [hopen] at hleft
      cases hleft

/-- A front server abandons no request just when, at each pass whose readings close the
window, the passes before it are as many as the requests that have come in. -/
theorem abandonsNothing_iff_takenBeforeClosing (xs : List (FrontPass R)) (s : FrontServer R)
    (hr : system.run start xs = some s) :
    (∀ left, s.abandoned = some left → left = []) ↔ system.Meets TakenBeforeClosing start xs := by
  have hiff := LabelledSystem.run_good_iff (I := fun u : FrontServer R => u.abandoned = none → Running u)
    (P := fun _ _ => True) (fun _ _ _ hu _ hs => running_step hu hs)
    (fun _ _ _ hu _ hs => abandonsNothing_step hu hs) hr (LabelledSystem.meets_true hr)
    (fun _ => running_start)
  exact hiff.trans (and_iff_right (fun left hleft => by cases hleft))

/-- 55 passes that each take the one request that comes in, and a request that comes in
before the 56th: with two front servers and an empty queue at the master it is left. -/
def arrivesAtClosing : List (FrontPass ℕ) :=
  (List.range 55).map (fun k => ⟨[],⟨2,0⟩,[k]⟩) ++ [⟨[55],⟨2,0⟩,[]⟩]

theorem arrivesAtClosing_abandons :
    ∃ s, system.run start arrivesAtClosing = some s ∧ s.abandoned = some [55] := by
  decide +kernel

theorem abandonsNothing_quietClosing : ∃ s : FrontServer ℕ,
    system.run start ((List.range 55).map (fun k => ⟨[],⟨2,0⟩,[k]⟩) ++ [⟨[],⟨2,0⟩,[]⟩]) = some s ∧
      s.abandoned = some [] ∧ ∀ left, s.abandoned = some left → left = [] := by
  have hrun : ∃ s : FrontServer ℕ, system.run start
      ((List.range 55).map (fun k => ⟨[],⟨2,0⟩,[k]⟩) ++ [⟨[],⟨2,0⟩,[]⟩]) = some s ∧
        s.abandoned = some [] := by
    decide +kernel
  obtain ⟨s,hs,hshut⟩ := hrun
  exact ⟨s,hs,hshut,(abandonsNothing_iff_takenBeforeClosing _ s hs).mpr (by decide +kernel)⟩

end FrontServer
end AutoScaling
