import AutoScaling.Cluster.Arrivals
import AutoScaling.Cluster.SlaveSteps

/-! # That the servers work

A slave gets a request every few steps of its own, unless the master's queue has none for
it; and the only call of its that waits is `SL.getNextRequest()` on an empty queue.
-/
namespace AutoScaling

namespace SlavePc
variable {R : Type*}

/-- The steps of its own that the slave can take at most before it has got a request, or has
polled for one, and the four of a shutdown after them. -/
def distance : SlavePc R → ℕ
  | .off => 13
  | .booting => 13
  | .getTier .sent => 12
  | .getTier (.replied _) => 11
  | .frontHandler => 10
  | .frontRoutine => 9
  | .frontVMCount .sent => 8
  | .frontVMCount (.replied _) => 7
  | .frontLength _ .sent => 6
  | .frontLength _ (.replied _) => 5
  | .frontNext => 4
  | .frontAdd _ .sent => 11
  | .frontAdd _ (.replied _) => 10
  | .midHandler => 10
  | .midRoutine => 9
  | .midVMCount _ .sent => 8
  | .midVMCount _ (.replied _) => 7
  | .midLength _ _ .sent => 6
  | .midLength _ _ (.replied _) => 5
  | .midPoll _ _ _ .sent => 4
  | .midPoll _ _ _ (.replied none) => 10
  | .midPoll _ _ _ (.replied (some _)) => 14
  | .midFastDrop _ => 10
  | .midScaleOut _ _ _ .sent => 13
  | .midScaleOut _ _ _ (.replied _) => 12
  | .midDrop _ => 11
  | .midDropTail => 10
  | .midProcess _ _ => 11
  | .midProcessing _ => 10
  | .shutDown _ => 4
  | .lookupMaster _ => 3
  | .deleteVM _ .sent => 2
  | .deleteVM _ (.replied _) => 1
  | .exited _ _ => 0
  | .ended _ _ => 0
  | .unserved => 0

def atWork : SlavePc R → Bool
  | .off => false
  | .exited _ _ => false
  | .ended _ _ => false
  | .unserved => false
  | _ => true

def polling : SlavePc R → Bool
  | .midPoll _ _ _ .sent => true
  | _ => false

end SlavePc

namespace Cluster
variable {R : Type*}

/-- The execution of a `pollRequest()` of slave `i` that finds nothing. -/
def pollsNothing (i : VmId) (st : State R) : Action R → Bool
  | .execute _ _ => (st.slaves i).pc.polling && st.requestQueue.isEmpty
  | _ => false

/-- A slave's own steps; `true` are the polls that find nothing. -/
def ownSteps (i : VmId) (st : State R) (a : Action R) : List Bool :=
  if a.isStepOf i then [pollsNothing i st a] else []

/-- The steps so far, and those the slave has still to take before it must get a request,
are paid for by the requests it has got, the polls that found nothing, and what it had to
begin with. -/
def Worked (i : VmId) (k : ℤ) (steps : List Bool) (st : State R) : Prop :=
  (steps.length : ℤ) + (st.slaves i).pc.distance ≤ 8 * (taken (byVm i st.log)).length +
    11 * (polled (byVm i st.log)).length + 7 * steps.count true + k

theorem Worked.pays {i : VmId} {k : ℤ} {steps l : List Bool} {st st' : State R} (h : Worked i k steps st)
    (ev : List (Event R)) (hlog : st'.log = st.log ++ ev)
    (hstep : l.length + (st'.slaves i).pc.distance ≤ 8 * (taken (byVm i ev)).length +
      11 * (polled (byVm i ev)).length + 7 * l.count true + (st.slaves i).pc.distance) :
    Worked i k (steps ++ l) st' := by
  unfold Worked at h ⊢
  rw [hlog, byVm_append, taken, polled, tickets_append, tickets_append, List.length_append,
    List.length_append, List.length_append, List.count_append]
  simp only [taken,polled] at h hstep ⊢
  omega

theorem distance_run {i : VmId} {s s' : Slave R} {now : ℤ} {ev : List (Event R)}
    (h : s.run i now = some (s',ev)) :
    1 + s'.pc.distance ≤ 8 * (taken (byVm i ev)).length + 11 * (polled (byVm i ev)).length + s.pc.distance := by
  have hran := Slave.ran_of_run h
  rcases s with ⟨pc,st,q⟩
  cases hran <;> simp [byVm,Event.actor,Event.kind,Origin.vm,SlavePc.distance]

theorem distance_throws {s s' : Slave R} (h : s.throws = some s') : s'.pc.distance = 0 := by
  rcases Slave.pc_of_throws h with ⟨tier,d,hpc⟩ | ⟨tier,r,hpc⟩ <;> rw [hpc] <;> rfl

theorem worked_execute {i vmId : VmId} {k : ℤ} {steps : List Bool} {st st' : State R}
    (h : Worked i k steps st) (hs : Executed st i st') :
    Worked i k (steps ++ [pollsNothing i st (.execute i vmId)]) st' := by
  cases hs with
  | answer pc ha =>
    refine h.pays [] (List.append_nil _).symm ?_
    simp only [State.setPc,State.setSlave,Function.update_self,Slave.goto,pollsNothing]
    generalize (st.slaves i).pc = old at ha
    cases ha with
    | midPoll now cnt len hqueue => simp [hqueue,SlavePc.distance,SlavePc.polling]
    | _ => simp [SlavePc.distance,SlavePc.polling]
  | addRequest r hpc =>
    refine h.pays [.queued r] rfl ?_
    simp only [State.setPc,State.setSlave,Function.update_self,Slave.goto,pollsNothing,hpc]
    by_cases hr : r.origin.vm = i <;>
      simp [byVm,Event.actor,Event.kind,hr,SlavePc.distance,SlavePc.polling]
  | pollRequest now cnt len r rest hpc hqueue =>
    refine h.pays [.polled i r] rfl ?_
    simp [State.setPc,State.setSlave,State.record,Slave.goto,pollsNothing,hpc,hqueue,byVm,Event.actor,
      Event.kind,SlavePc.distance,SlavePc.polling]
  | scaleOut vmId' cnt len r hpc hnew =>
    refine h.pays [] (List.append_nil _).symm ?_
    simp [State.setPc,State.setSlave,Slave.goto,pollsNothing,hpc,byVm,SlavePc.distance,SlavePc.polling]
  | deleteVM tier hpc =>
    refine h.pays [] (List.append_nil _).symm ?_
    simp [State.setPc,State.setSlave,Slave.goto,pollsNothing,hpc,byVm,SlavePc.distance,SlavePc.polling]

theorem worked_step {i : VmId} (hone : i ≠ 1) {k : ℤ} {steps : List Bool} {st st' : State R}
    {a : Action R} (h : Worked i k steps st) (hs : system.step st a = some st') :
    Worked i k (steps ++ ownSteps i st a) st' := by
  have hidle : ∀ ev : List (Event R), a.isStepOf i = false → st'.log = st.log ++ ev →
      (st'.slaves i).pc.distance ≤ (st.slaves i).pc.distance → Worked i k (steps ++ ownSteps i st a) st' := by
    intro ev hown hlog hdistance
    refine h.pays ev hlog ?_
    rw [ownSteps, if_neg (by rw [hown]; exact Bool.false_ne_true)]
    simp only [List.length_nil,List.count_nil]
    omega
  cases seen_of_step hs hone with
  | other hown hslave ev hlog hev => exact hidle ev hown hlog (by rw [hslave])
  | boot ha hoff hslave hlog =>
    subst ha
    exact hidle [] rfl (by rw [hlog, List.append_nil]) (by rw [hslave, hoff]; exact Nat.le_refl _)
  | arrive r ha hslave hlog =>
    subst ha
    exact hidle [] rfl (by rw [hlog, List.append_nil]) (by rw [hslave])
  | throws s ha hthrow hslave hlog =>
    subst ha
    refine hidle [] rfl (by rw [hlog, List.append_nil]) ?_
    rw [hslave, distance_throws hthrow]
    exact Nat.zero_le _
  | run now s ev ha hrun hslave hlog =>
    subst ha
    refine h.pays ev hlog ?_
    have hdistance := distance_run hrun
    rw [ownSteps, if_pos (isStepOf_run i now), hslave]
    simp only [pollsNothing,List.length_singleton]
    omega
  | execute vmId ha hexec =>
    subst ha
    rw [ownSteps, if_pos (isStepOf_execute i vmId)]
    exact worked_execute h hexec

def awaiting : SlavePc R → Bool
  | .getTier .sent => true
  | .frontVMCount .sent => true
  | .frontLength _ .sent => true
  | .frontAdd _ .sent => true
  | .midVMCount _ .sent => true
  | .midLength _ _ .sent => true
  | .midPoll _ _ _ .sent => true
  | .midScaleOut _ _ _ .sent => true
  | .deleteVM _ .sent => true
  | _ => false

theorem execute_isSome {st : State R} {i : VmId} (h : awaiting (st.slaves i).pc = true) :
    ∃ vmId st', system.step st (.execute i vmId) = some st' := by
  obtain ⟨vmId,hscale⟩ := exists_scaleOutCore st
  refine ⟨vmId,?_⟩
  simp only [system,step,State.execute]
  cases hpc : (st.slaves i).pc with
  | midPoll now cnt len a =>
    cases a with
    | sent => cases st.requestQueue <;> exact ⟨_,rfl⟩
    | replied o => rw [hpc] at h; cases h
  | midScaleOut cnt len r a =>
    cases a with
    | sent =>
      obtain ⟨u,hu⟩ := hscale .mid
      simp only [hu]
      exact ⟨_,rfl⟩
    | replied u => rw [hpc] at h; cases h
  | getTier a => cases a <;> rw [hpc] at h <;> cases h; exact ⟨_,rfl⟩
  | frontVMCount a => cases a <;> rw [hpc] at h <;> cases h; exact ⟨_,rfl⟩
  | frontLength cnt a => cases a <;> rw [hpc] at h <;> cases h; exact ⟨_,rfl⟩
  | frontAdd r a => cases a <;> rw [hpc] at h <;> cases h; exact ⟨_,rfl⟩
  | midVMCount now a => cases a <;> rw [hpc] at h <;> cases h; exact ⟨_,rfl⟩
  | midLength now cnt a => cases a <;> rw [hpc] at h <;> cases h; exact ⟨_,rfl⟩
  | deleteVM tier a => cases a <;> rw [hpc] at h <;> cases h; exact ⟨_,rfl⟩
  | _ => rw [hpc] at h; cases h

/-- A slave at work that awaits no reply can go on, but for a queue to get from. -/
theorem run_isSome {i : VmId} {s : Slave R} (hwork : s.pc.atWork = true) (hreply : awaiting s.pc = false)
    (hwait : ¬ (s.pc = .frontNext ∧ s.slQueue = [])) (now : ℤ) : ∃ s' ev, s.run i now = some (s',ev) := by
  rcases s with ⟨pc,st,q⟩
  cases pc with
  | off => cases hwork
  | exited tier d => cases hwork
  | ended tier r => cases hwork
  | unserved => cases hwork
  | frontNext =>
    cases q with
    | nil => exact absurd ⟨rfl,rfl⟩ hwait
    | cons r rest => exact ⟨_,_,rfl⟩
  | midPoll start cnt len a =>
    cases a with
    | sent => cases hreply
    | replied o => cases o <;> exact ⟨_,_,rfl⟩
  | getTier a => cases a <;> cases hreply; exact ⟨_,_,rfl⟩
  | frontVMCount a => cases a <;> cases hreply; exact ⟨_,_,rfl⟩
  | frontLength cnt a => cases a <;> cases hreply; exact ⟨_,_,rfl⟩
  | frontAdd r a => cases a <;> cases hreply; exact ⟨_,_,rfl⟩
  | midVMCount start a => cases a <;> cases hreply; exact ⟨_,_,rfl⟩
  | midLength start cnt a => cases a <;> cases hreply; exact ⟨_,_,rfl⟩
  | midScaleOut cnt len r a => cases a <;> cases hreply; exact ⟨_,_,rfl⟩
  | deleteVM tier a => cases a <;> cases hreply; exact ⟨_,_,rfl⟩
  | _ => exact ⟨_,_,rfl⟩

theorem exists_own_step {st : State R} {i : VmId} (hwork : (st.slaves i).pc.atWork = true)
    (hwait : ¬ ((st.slaves i).pc = .frontNext ∧ (st.slaves i).slQueue = [])) :
    ∃ a st', a.isStepOf i = true ∧ system.step st a = some st' := by
  cases hreply : awaiting (st.slaves i).pc with
  | true =>
    obtain ⟨vmId,st',hs⟩ := execute_isSome hreply
    exact ⟨.execute i vmId,st',isStepOf_execute i vmId,hs⟩
  | false =>
    obtain ⟨s,ev,hrun⟩ := run_isSome (i := i) hwork hreply hwait 0
    refine ⟨.run i 0,(st.setSlave i s).record ev,isStepOf_run i 0,?_⟩
    simp only [system,step,hrun,Option.map_some]

/-- No slave idles. Of the steps that a slave and its calls take, all but 13 are made up of
8 for each request it takes from its own queue, 11 for each request it polls and 7 for each
poll that finds `requestQueue` empty; and as long as it is at work it can take its next
step, unless it waits in `SL.getNextRequest()` for a request to arrive. -/
theorem work_conserved (masterStartTime : ℤ) (as : List (Action R)) (st : State R)
    (hr : system.run (start masterStartTime) as = some st) (i : VmId) (hone : i ≠ 1) :
    (let steps := system.emitted (ownSteps i) (start masterStartTime) as
    steps.length ≤ 8 * (taken (byVm i st.log)).length + 11 * (polled (byVm i st.log)).length +
      7 * steps.count true + 13) ∧
    ((st.slaves i).pc.atWork = true → ¬ ((st.slaves i).pc = .frontNext ∧ (st.slaves i).slQueue = []) →
      ∃ a st', a.isStepOf i = true ∧ system.step st a = some st') := by
  have h : Worked i 13 (system.emitted (ownSteps i) (start masterStartTime) as) st :=
    LabelledSystem.emitted_invariant (I := fun l (u : State R) => Worked i 13 l u) (G := fun _ _ => True)
      (fun _ _ _ _ hl _ hs => worked_step hone hl hs) hr (LabelledSystem.meets_true hr)
      (le_refl 13)
  refine ⟨?_,exists_own_step⟩
  unfold Worked at h
  dsimp only
  omega

theorem work_conserved_frontServes : ∃ st, system.run (start 0) frontServes = some st ∧
    (system.emitted (ownSteps 3) (start 0) frontServes).length ≤ 8 * (taken (byVm 3 st.log)).length + 13 ∧
    ∃ a st', a.isStepOf 3 = true ∧ system.step st a = some st' := by
  have hrun : ∃ st, system.run (start 0) frontServes = some st ∧ (st.slaves 3).pc.atWork = true ∧
      (st.slaves 3).slQueue ≠ [] ∧ (polled (byVm 3 st.log)).length = 0 ∧
      (system.emitted (ownSteps 3) (start 0) frontServes).count true = 0 := by decide +kernel
  obtain ⟨st,hst,hwork,hqueue,hpolled,hnothing⟩ := hrun
  obtain ⟨hsteps,hnext⟩ := work_conserved 0 frontServes st hst 3 (by decide)
  refine ⟨st,hst,?_,hnext hwork (fun h => hqueue h.2)⟩
  dsimp only at hsteps
  omega

end Cluster
end AutoScaling
