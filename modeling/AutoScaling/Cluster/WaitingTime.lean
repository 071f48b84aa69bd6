import AutoScaling.Cluster.WorkConservation
import Mathlib.Algebra.BigOperators.Ring.Finset
import Mathlib.Algebra.Order.BigOperators.Group.Finset

/-! # How long a request waits in the master's queue

Nothing overtakes in `requestQueue`, and a mid server with something to poll polls every few
steps. So the steps that mid servers take while a request waits are bounded by the number of
those before it, whichever of them take them and whatever else happens.
-/
namespace AutoScaling
namespace Cluster
variable {R : Type*}

theorem tier_throws {s s' : Slave R} (h : s.throws = some s') : s'.pc.tier = s.pc.tier := by
  rcases s with ⟨pc,st,q⟩
  cases pc with
  | deleteVM tier a => cases a <;> cases h <;> rfl
  | _ => cases h <;> rfl

theorem mid_run {i : VmId} {s s' : Slave R} {now : ℤ} {ev : List (Event R)} (h : s.pc.tier = some .mid)
    (hrun : s.run i now = some (s',ev)) : s'.pc.tier = some .mid ∧ taken (byVm i ev) = [] := by
  have hran := Slave.ran_of_run hrun
  rcases s with ⟨pc,st,q⟩
  dsimp only at h hran
  cases hran with
  | midFastDrop r => exact ⟨rfl,by simp [byVm,Event.actor,Event.kind]⟩
  | midDrop r => exact ⟨rfl,by simp [byVm,Event.actor,Event.kind]⟩
  | midProcess start r => exact ⟨rfl,by simp [byVm,Event.actor,Event.kind]⟩
  | shutDown tier => exact ⟨h,rfl⟩
  | lookupMaster tier => exact ⟨h,rfl⟩
  | deleteVM tier u => exact ⟨h,rfl⟩
  | _ => first
    | exact ⟨rfl,rfl⟩
    | cases h

theorem mid_execute {i : VmId} {st st' : State R} (h : (st.slaves i).pc.tier = some .mid)
    (hs : Executed st i st') : (st'.slaves i).pc.tier = some .mid ∧
      ∃ ev, st'.log = st.log ++ ev ∧ taken (byVm i ev) = [] := by
  cases hs with
  | answer pc ha =>
    refine ⟨?_,[],(List.append_nil _).symm,rfl⟩
    simp only [State.setPc,State.setSlave,Function.update_self,Slave.goto]
    generalize (st.slaves i).pc = old at h ha
    cases ha <;> first
      | rfl
      | cases h
  | addRequest r hpc =>
    rw [hpc] at h
    cases h
  | pollRequest now cnt len r rest hpc hqueue =>
    refine ⟨?_,[.polled i r],rfl,by simp [byVm,Event.actor,Event.kind]⟩
    simp only [State.setPc,State.setSlave,State.record,Function.update_self,Slave.goto]
    rfl
  | scaleOut vmId cnt len r hpc hnew =>
    refine ⟨?_,[],(List.append_nil _).symm,rfl⟩
    simp only [State.setPc,State.setSlave,Function.update_self,Slave.goto]
    rfl
  | deleteVM tier hpc =>
    refine ⟨?_,[],(List.append_nil _).symm,rfl⟩
    rw [hpc] at h
    simp only [State.setPc,State.setSlave,Function.update_self,Slave.goto]
    exact h

theorem mid_step {i : VmId} (hone : i ≠ 1) {st st' : State R} {a : Action R}
    (h : (st.slaves i).pc.tier = some .mid) (hs : system.step st a = some st') :
    (st'.slaves i).pc.tier = some .mid ∧ taken (byVm i st'.log) = taken (byVm i st.log) := by
  have hsame : ∀ ev : List (Event R), st'.log = st.log ++ ev → taken (byVm i ev) = [] →
      taken (byVm i st'.log) = taken (byVm i st.log) := by
    intro ev hlog hev
    rw [hlog, byVm_append, taken, tickets_append]
    exact (congrArg _ hev).trans (List.append_nil _)
  cases seen_of_step hs hone with
  | other hown hslave ev hlog hev =>
    exact ⟨by rw [hslave]; exact h,hsame ev hlog (tickets_of_queued hev (by decide))⟩
  | boot ha hoff hslave hlog =>
    rw [hoff] at h
    cases h
  | arrive r ha hslave hlog =>
    exact ⟨by rw [hslave]; exact h,hsame [] (hlog.trans (List.append_nil _).symm) rfl⟩
  | throws s ha hthrow hslave hlog =>
    refine ⟨?_,hsame [] (hlog.trans (List.append_nil _).symm) rfl⟩
    rw [hslave]
    exact (tier_throws hthrow).trans h
  | run now s ev ha hrun hslave hlog =>
    obtain ⟨htier,htaken⟩ := mid_run h hrun
    exact ⟨by rw [hslave]; exact htier,hsame ev hlog htaken⟩
  | execute vmId ha hexec =>
    obtain ⟨htier,ev,hlog,htaken⟩ := mid_execute h hexec
    exact ⟨htier,hsame ev hlog htaken⟩

/-- The most steps of its own that a slave can be away from a request or a poll. -/
theorem distance_le (pc : SlavePc R) : pc.distance ≤ 14 := by
  unfold SlavePc.distance
  split <;> omega

theorem mid_steps_le {i : VmId} (hone : i ≠ 1) {st st' : State R} {bs : List (Action R)}
    (hr : system.run st bs = some st') (h : (st.slaves i).pc.tier = some .mid) :
    (system.emitted (ownSteps i) st bs).length + 11 * (polled (byVm i st.log)).length ≤
      11 * (polled (byVm i st'.log)).length + 7 * (system.emitted (ownSteps i) st bs).count true + 14 := by
  let k : ℤ := 14 - 8 * (taken (byVm i st.log)).length - 11 * (polled (byVm i st.log)).length
  have hstart : Worked i k [] st := by
    have hle := distance_le (st.slaves i).pc
    unfold Worked
    simp only [List.length_nil,List.count_nil]
    omega
  have hboth : Worked i k (system.emitted (ownSteps i) st bs) st' ∧ (st'.slaves i).pc.tier = some .mid ∧
      taken (byVm i st'.log) = taken (byVm i st.log) :=
    LabelledSystem.emitted_invariant (G := fun _ _ => True)
      (I := fun l (u : State R) => Worked i k l u ∧ (u.slaves i).pc.tier = some .mid ∧
        taken (byVm i u.log) = taken (byVm i st.log)) (by
        rintro l u a v ⟨hw,htier,htaken⟩ _ hs
        obtain ⟨htier',htaken'⟩ := mid_step hone htier hs
        exact ⟨worked_step hone hw hs,htier',htaken'.trans htaken⟩) hr (LabelledSystem.meets_true hr)
      ⟨hstart,h,rfl⟩
  obtain ⟨hworked,_,htaken⟩ := hboth
  unfold Worked at hworked
  rw [htaken] at hworked
  omega

theorem length_polled_append (log ev : List (Event R)) :
    (polled (log ++ ev)).length = (polled log).length + (polled ev).length := by
  rw [polled, tickets_append, List.length_append]

theorem length_polled_le {log log' : List (Event R)} (h : log <+: log') :
    (polled log).length ≤ (polled log').length := by
  obtain ⟨ev,rfl⟩ := h
  rw [length_polled_append]
  exact Nat.le_add_right _ _

theorem empty_of_pollsNothing {i : VmId} {st : State R} {a : Action R} (h : true ∈ ownSteps i st a) :
    st.requestQueue = [] := by
  unfold ownSteps at h
  split at h
  · cases a with
    | execute j vmId =>
      have hnothing := List.mem_singleton.mp h
      simp only [pollsNothing,eq_comm (a := true),Bool.and_eq_true] at hnothing
      exact List.isEmpty_iff.mp hnothing.2
    | _ => cases List.mem_singleton.mp h
  · cases h

/-- A poll finds nothing only when all that was in the queue before has been polled. -/
theorem polls_nothing {masterStartTime : ℤ} {as bs : List (Action R)} {st st' : State R}
    (hr : system.run (start masterStartTime) as = some st) (hr' : system.run st bs = some st') (i : VmId)
    (h : true ∈ system.emitted (ownSteps i) st bs) :
    (polled st.log).length + st.requestQueue.length ≤ (polled st'.log).length := by
  have hall := LabelledSystem.forall_mem_emitted (f := ownSteps i) (G := fun _ _ => True)
    (I := fun u : State R => ∃ cs, system.run st cs = some u)
    (P := fun x (u : State R) => x = true →
      (polled st.log).length + st.requestQueue.length ≤ (polled u.log).length) ?_ ?_ ?_ hr'
    (LabelledSystem.meets_true hr') ⟨[],rfl⟩
  · exact hall true h rfl
  · rintro u a v ⟨cs,hcs⟩ _ hs
    exact ⟨cs ++ [a],LabelledSystem.run_concat hcs hs⟩
  · rintro u a v ⟨cs,hcs⟩ _ hs x hx rfl
    have hempty := empty_of_pollsNothing hx
    obtain ⟨ev,_,hpolled,hsince⟩ := channel_since hr hcs
    have hlater := length_polled_le (log_prefix_of_step hs)
    rw [hempty, List.append_nil] at hsince
    rw [hpolled, hsince, List.length_append, List.length_append] at hlater
    omega
  · intro x u a v _ hs hx he
    exact (hx he).trans (length_polled_le (log_prefix_of_step hs))

theorem sum_polled_le (s : Finset VmId) (log : List (Event R)) :
    ∑ i ∈ s, (polled (byVm i log)).length ≤ (polled log).length := by
  induction log with
  | nil => simp [byVm]
  | cons e log ih =>
    have hone : ∀ i, (polled (byVm i (e :: log))).length =
        (if e.actor = i then (polled [e]).length else 0) + (polled (byVm i log)).length := by
      intro i
      rw [← List.singleton_append, byVm_append, length_polled_append]
      congr 1
      by_cases hi : e.actor = i
      · rw [if_pos hi, byVm_eq_self (by simpa using hi)]
      · rw [if_neg hi, byVm_singleton_of_ne hi]
        rfl
    have hhead : ∑ i ∈ s, (if e.actor = i then (polled [e]).length else 0) ≤ (polled [e]).length := by
      rw [Finset.sum_ite_eq]
      split
      · exact Nat.le_refl _
      · exact Nat.zero_le _
    have hcons : (polled (e :: log)).length = (polled [e]).length + (polled log).length :=
      length_polled_append [e] log
    rw [Finset.sum_congr rfl (fun i _ => hone i), Finset.sum_add_distrib, hcons]
    exact Nat.add_le_add hhead ih

/-- A request does not wait for ever. Once any mid servers have together taken more than 14
steps each and 11 for each request before it, a request in `requestQueue` has been polled,
and in its turn; whatever else happens meanwhile. -/
theorem waits_boundedly (masterStartTime : ℤ) (as bs : List (Action R)) (st st' : State R)
    (hr : system.run (start masterStartTime) as = some st) (hr' : system.run st bs = some st') (n : ℕ)
    (r : Ticket R) (hwaits : st.requestQueue[n]? = some r) (s : Finset VmId)
    (hmid : ∀ i ∈ s, (st.slaves i).pc.tier = some .mid)
    (hsteps : 14 * s.card + 11 * n < ∑ i ∈ s, (system.emitted (ownSteps i) st bs).length) :
    (polled st'.log)[(polled st.log).length + n]? = some r := by
  obtain ⟨ev,hlog,hpolled,hsince⟩ := channel_since hr hr'
  have hlen : n < st.requestQueue.length := (List.getElem?_eq_some_iff.mp hwaits).1
  have hinv := inv_run hr
  have hdone : n < (polled ev).length := by
    by_contra hnot
    have hstill : (polled st'.log).length < (polled st.log).length + st.requestQueue.length := by
      rw [hpolled, List.length_append]
      omega
    have heach : ∀ i ∈ s,
        (system.emitted (ownSteps i) st bs).length ≤ 11 * (polled (byVm i ev)).length + 14 := by
      intro i hi
      have hone : i ≠ 1 := by
        apply hinv.ne_master
        apply hinv.mem_vms
        intro hoff
        have htier := hmid i hi
        rw [hoff] at htier
        cases htier
      have hle := mid_steps_le hone hr' (hmid i hi)
      have hnone : (system.emitted (ownSteps i) st bs).count true = 0 :=
        List.count_eq_zero.mpr (fun h => absurd (polls_nothing hr hr' i h) (Nat.not_le.mpr hstill))
      rw [hnone, hlog, byVm_append, length_polled_append] at hle
      omega
    have hsum := Finset.sum_le_sum heach
    have hall := sum_polled_le s ev
    rw [Finset.sum_add_distrib, ← Finset.mul_sum, Finset.sum_const, smul_eq_mul] at hsum
    omega
  have hboth : (polled ev ++ st'.requestQueue)[n]? = (polled ev)[n]? := List.getElem?_append_left hdone
  have hget : (polled ev)[n]? = some r := by
    rw [← hboth, hsince, List.getElem?_append_left hlen]
    exact hwaits
  rw [hpolled, List.getElem?_append_right (Nat.le_add_right _ _), Nat.add_sub_cancel_left]
  exact hget

def oneWaits : List (Action ℕ) :=
  [.main false 0 2,.main false 0 3,.arrive 1 7,.main false 1 0,.main false 1 0,.main false 1 0,.boot 2,
    .run 2 0,.execute 2 0,.run 2 0]

def twoPasses : List (Action ℕ) :=
  [.run 2 0,.run 2 500,.execute 2 0,.run 2 0,.execute 2 0,.run 2 0,.execute 2 0,.run 2 500,.run 2 0,.run 2 0,
    .run 2 600,.execute 2 0,.run 2 0,.execute 2 0,.run 2 0,.execute 2 0]

theorem waits_boundedly_twoPasses : ∃ st st', system.run (start 0) oneWaits = some st ∧
    system.run st twoPasses = some st' ∧
    (polled st'.log)[(polled st.log).length + 0]? = some ⟨.master,7⟩ := by
  have hrun : ∃ st, system.run (start 0) oneWaits = some st ∧ (system.run st twoPasses).isSome ∧
      st.requestQueue[0]? = some ⟨.master,7⟩ ∧ (st.slaves 2).pc.tier = some .mid ∧
      (system.emitted (ownSteps 2) st twoPasses).length = 16 := by decide +kernel
  obtain ⟨st,hst,hmore,hwaits,hmid,hsteps⟩ := hrun
  obtain ⟨st',hst'⟩ := Option.isSome_iff_exists.mp hmore
  refine ⟨st,st',hst,hst',waits_boundedly 0 oneWaits twoPasses st st' hst hst' 0 _ hwaits {2} ?_ ?_⟩
  · intro i hi
    rw [Finset.mem_singleton.mp hi]
    exact hmid
  · rw [Finset.sum_singleton, hsteps, Finset.card_singleton]
    decide

end Cluster
end AutoScaling
