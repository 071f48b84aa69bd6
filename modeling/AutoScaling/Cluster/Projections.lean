import AutoScaling.Cluster.Booting
import AutoScaling.Cluster.FrontPasses
import AutoScaling.Cluster.FrontRoutine
import AutoScaling.Cluster.MasterRoutine
import AutoScaling.Cluster.MidRoutine
import AutoScaling.Foundation.Simulation

/-! # The parties of a run, each on its own

In every run of the cluster the main thread of the master makes a run of its own, its calls
of `handleBooting` are a run of the boot phase, and each slave makes passes. What each of
them reads, and when, is read off the run of the cluster.
-/
namespace AutoScaling

namespace MasterThread
variable {R : Type*}

/-- What a step of the cluster is to the main thread: steps of its own, three for the check
for a front server, or a change of the registry. -/
def threadActions (st : Cluster.State R) : Cluster.Action R → List Action
  | .main booting now vmId =>
    let own := Action.main booting now st.slQueue.length vmId
    match st.main with
    | .scaleCheck => [own,own,own]
    | _ => [own]
  | .execute i vmId =>
    match (st.slaves i).pc with
    | .midScaleOut _ _ _ .sent => [.remote (fun reg => reg.scaleOutCore vmId Tier.mid.id)]
    | .deleteVM _ .sent => [.remote (fun reg => reg.deleteVMFromMap i)]
    | _ => []
  | _ => []

/-- The point of the thread alone for a point of the main thread in the cluster, where the
requests are. -/
inductive Sees : MainPc R → MasterPc → Prop
  | startMid : Sees .startMid .startMid
  | startFront : Sees .startFront .startFront
  | loop : Sees .loop .loop
  | bootScaleOut (now : ℤ) (pending : List Tier) : Sees (.bootScaleOut now pending) (.bootScaleOut now pending)
  | bootProcess (now : ℤ) : Sees (.bootProcess now) (.bootProcess now)
  | bootProcessing (now : ℤ) (r : Ticket R) : Sees (.bootProcessing now r) (.bootProcessing now)
  | next : Sees .next .next
  | addRequest (r : Ticket R) : Sees (.addRequest r) .addRequest
  | scaleCheck : Sees .scaleCheck .newDate
  | scaleFront (x : FrontCheck) : Sees (.scaleFront x.now) (.scaleFront x)

structure Watches (st : Cluster.State R) (s : MasterThread) : Prop where
  statics_eq : s.statics = st.statics
  reg_eq : s.reg = st.reg
  pc : Sees st.main s.pc

theorem sees_check (isBehind : Bool) (x : FrontCheck) :
    Sees (if isBehind then .scaleFront x.now else .loop : MainPc R)
      (if isBehind then .scaleFront x else .loop) := by
  cases isBehind
  · exact .loop
  · exact .scaleFront x

theorem Watches.main {st st' : Cluster.State R} {s : MasterThread} (h : Watches st s) {booting : Bool}
    {now : ℤ} {vmId : VmId} (hs : st.mainStep booting now vmId = some st') :
    ∃ t, system.run s (threadActions st (.main booting now vmId)) = some t ∧ Watches st' t := by
  rcases s with ⟨statics,reg,pc,clocks,fronts⟩
  obtain ⟨hstatics,hreg,hpc⟩ := h
  dsimp only at hstatics hreg hpc
  subst hstatics hreg
  simp only [Cluster.State.mainStep] at hs
  simp only [threadActions]
  generalize st.main = main at hpc hs
  cases hpc with
  | startMid =>
    obtain ⟨_,hout,rfl⟩ := Option.map_eq_some_iff.mp hs
    obtain ⟨_,rfl⟩ := Cluster.scaleOutCore_eq_some.mp hout
    exact ⟨_,rfl,rfl,rfl,.startFront⟩
  | startFront =>
    obtain ⟨_,hout,rfl⟩ := Option.map_eq_some_iff.mp hs
    obtain ⟨_,rfl⟩ := Cluster.scaleOutCore_eq_some.mp hout
    exact ⟨_,rfl,rfl,rfl,.loop⟩
  | loop =>
    refine ⟨_,rfl,?_⟩
    unfold mainStep
    dsimp only at hs ⊢
    split at hs
    · rename_i hbooting
      cases hs
      rw [if_pos hbooting]
      exact ⟨rfl,rfl,.bootScaleOut now _⟩
    · rename_i hbooting
      cases hs
      rw [if_neg hbooting]
      exact ⟨rfl,rfl,.next⟩
  | bootScaleOut start pending =>
    cases pending with
    | nil =>
      cases hs
      exact ⟨_,rfl,rfl,rfl,.bootProcess start⟩
    | cons tier pending =>
      obtain ⟨_,hout,rfl⟩ := Option.map_eq_some_iff.mp hs
      obtain ⟨_,rfl⟩ := Cluster.scaleOutCore_eq_some.mp hout
      exact ⟨_,rfl,rfl,rfl,.bootScaleOut start pending⟩
  | bootProcess start =>
    refine ⟨_,rfl,?_⟩
    unfold mainStep
    dsimp only at hs ⊢
    split at hs
    · rename_i hroom
      rw [if_pos hroom]
      split at hs <;> cases hs
      exact ⟨rfl,rfl,.bootProcessing start _⟩
    · rename_i hfull
      rw [if_neg hfull]
      cases hs
      exact ⟨rfl,rfl,.loop⟩
  | bootProcessing start r =>
    cases hs
    exact ⟨_,rfl,rfl,rfl,.loop⟩
  | next =>
    dsimp only at hs
    split at hs <;> cases hs
    exact ⟨_,rfl,rfl,rfl,.addRequest _⟩
  | addRequest r =>
    cases hs
    exact ⟨_,rfl,rfl,rfl,.scaleCheck⟩
  | scaleCheck =>
    cases hs
    exact ⟨_,rfl,rfl,rfl,sees_check _ ⟨now,st.slQueue.length,st.reg.frontCount⟩⟩
  | scaleFront x =>
    obtain ⟨_,hout,rfl⟩ := Option.map_eq_some_iff.mp hs
    obtain ⟨_,rfl⟩ := Cluster.scaleOutCore_eq_some.mp hout
    exact ⟨_,rfl,rfl,rfl,.loop⟩

theorem Watches.execute {st st' : Cluster.State R} {s : MasterThread} (h : Watches st s) {i vmId : VmId}
    (hs : st.execute i vmId = some st') :
    ∃ t, system.run s (threadActions st (.execute i vmId)) = some t ∧ Watches st' t := by
  cases Cluster.executed_of_execute hs with
  | answer pc ha =>
    refine ⟨s,?_,h.statics_eq,h.reg_eq,h.pc⟩
    simp only [threadActions]
    generalize (st.slaves i).pc = old at ha
    cases ha <;> rfl
  | addRequest r hpc =>
    refine ⟨s,?_,h.statics_eq,h.reg_eq,h.pc⟩
    simp only [threadActions,hpc,LabelledSystem.run_nil]
  | pollRequest now cnt len r rest hpc hqueue =>
    refine ⟨s,?_,h.statics_eq,h.reg_eq,h.pc⟩
    simp only [threadActions,hpc,LabelledSystem.run_nil]
  | scaleOut vmId' cnt len r hpc hnew =>
    simp only [Cluster.State.execute,hpc,Option.map_eq_some_iff,Cluster.scaleOutCore_eq_some] at hs
    obtain ⟨_,⟨_,rfl⟩,hout⟩ := hs
    have hreg : st.reg.scaleOutCore vmId Tier.mid.id = st.reg.scaleOutCore vmId' Tier.mid.id :=
      congrArg Cluster.State.reg hout
    simp only [threadActions,hpc]
    exact ⟨_,rfl,h.statics_eq,(congrArg (·.scaleOutCore vmId Tier.mid.id) h.reg_eq).trans hreg,h.pc⟩
  | deleteVM tier hpc =>
    simp only [threadActions,hpc]
    exact ⟨_,rfl,h.statics_eq,congrArg (Registry.deleteVMFromMap · i) h.reg_eq,h.pc⟩

theorem watches_step {st st' : Cluster.State R} {s : MasterThread} {a : Cluster.Action R}
    (h : Watches st s) (hs : Cluster.system.step st a = some st') :
    ∃ t, system.run s (threadActions st a) = some t ∧ Watches st' t := by
  have hquiet : st'.main = st.main → st'.statics = st.statics → st'.reg = st.reg → Watches st' s := by
    intro hmain hstatics hreg
    exact ⟨h.statics_eq.trans hstatics.symm,h.reg_eq.trans hreg.symm,by rw [hmain]; exact h.pc⟩
  cases a with
  | main booting now vmId => exact h.main hs
  | execute i vmId => exact h.execute hs
  | boot i =>
    obtain ⟨_,rfl⟩ := Cluster.boot_eq_some.mp hs
    exact ⟨s,rfl,hquiet rfl rfl rfl⟩
  | run i now =>
    obtain ⟨_,_,rfl⟩ := Option.map_eq_some_iff.mp hs
    exact ⟨s,rfl,hquiet rfl rfl rfl⟩
  | arrive i r =>
    cases hs
    refine ⟨s,rfl,hquiet ?_ ?_ ?_⟩ <;> rw [Cluster.State.arrive] <;> split <;> rfl
  | throws i =>
    obtain ⟨_,_,rfl⟩ := Option.map_eq_some_iff.mp hs
    exact ⟨s,rfl,hquiet rfl rfl rfl⟩

/-- In every run of the cluster the main thread makes the run of its own that the steps of
the cluster are to it, with the static fields and the registry of the cluster. -/
theorem runs_of_run (masterStartTime : ℤ) (as : List (Cluster.Action R)) (st : Cluster.State R)
    (hr : Cluster.system.run (Cluster.start masterStartTime) as = some st) :
    ∃ s, system.run (start masterStartTime)
        (Cluster.system.emitted threadActions (Cluster.start masterStartTime) as) = some s ∧
      Watches st s :=
  LabelledSystem.run_emitted (Q := fun _ u s => Watches u s)
    (fun _ _ _ _ _ _ hwatches hs => watches_step hwatches hs) hr ⟨rfl,rfl,.startMid⟩

end MasterThread

namespace Statics

def atBoot (st : Statics) : Statics := { st with lastAddFrontTime := 0 }

theorem bootRate_atBoot (st : Statics) (now : ℤ) (queueLen : ℕ) :
    (st.atBoot.bootRate now queueLen).1 = (st.bootRate now queueLen).1.atBoot := by
  unfold bootRate atBoot
  dsimp only
  split_ifs <;> rfl

theorem bootProcessed_atBoot (st : Statics) (now : ℤ) :
    (st.atBoot.bootProcessed now).1 = (st.bootProcessed now).1.atBoot := rfl

theorem addFrontClock_atBoot (st : Statics) (now : ℤ) : (st.addFrontClock now).atBoot = st.atBoot := by
  unfold addFrontClock
  split <;> rfl

end Statics

namespace MasterThread

/-- What each call of `handleBooting` decides on: its clock reading and the queue length. -/
def bootDecides (s : MasterThread) : Action → List (ℤ × ℕ)
  | .main booting now queueLen _ =>
    match s.pc with
    | .loop => if booting then [(now,queueLen)] else []
    | _ => []
  | .remote _ => []

/-- When each call has its request, the clock reading of the call for one that takes none. -/
def bootTakes (s : MasterThread) : Action → List ℤ
  | .main _ now _ _ =>
    match s.pc with
    | .bootProcess start =>
      [if s.statics.masterProcessCount < s.statics.allowedMasterProcess then now else start]
    | _ => []
  | .remote _ => []

/-- Calls of `handleBooting` that have decided on `decides` and have their requests since
`takes` lead to these static fields. -/
def Booted (masterStartTime : ℤ) (decides : List (ℤ × ℕ)) (takes : List ℤ) (st : Statics) : Prop :=
  ∃ xs b, Booting.system.run (Booting.start masterStartTime) xs = some b ∧ b.statics = st.atBoot ∧
    xs.map (fun x => (x.now,x.queueLen)) = decides ∧ xs.map BootReading.takenAt = takes

def Decided (masterStartTime : ℤ) (decides : List (ℤ × ℕ)) (takes : List ℤ) (st : Statics)
    (start : ℤ) : Prop :=
  ∃ before queueLen st₀, decides = before ++ [(start,queueLen)] ∧
    Booted masterStartTime before takes st₀ ∧ (st₀.bootRate start queueLen).1 = st

/-- A call counts from where it has its request. -/
def RunsBoots (masterStartTime : ℤ) (decides : List (ℤ × ℕ)) (takes : List ℤ) (s : MasterThread) : Prop :=
  match s.pc with
  | .bootScaleOut start _ => Decided masterStartTime decides takes s.statics start
  | .bootProcess start => Decided masterStartTime decides takes s.statics start
  | .bootProcessing start => Booted masterStartTime decides takes (s.statics.bootProcessed start).1
  | _ => Booted masterStartTime decides takes s.statics

theorem Booted.decide {masterStartTime : ℤ} {decides : List (ℤ × ℕ)} {takes : List ℤ} {st : Statics}
    (h : Booted masterStartTime decides takes st) (now : ℤ) (queueLen : ℕ) :
    Decided masterStartTime (decides ++ [(now,queueLen)]) takes (st.bootRate now queueLen).1 now :=
  ⟨decides,queueLen,st,rfl,h,rfl⟩

theorem Decided.take {masterStartTime : ℤ} {decides : List (ℤ × ℕ)} {takes : List ℤ} {st : Statics}
    {start : ℤ} (h : Decided masterStartTime decides takes st start) (takenAt : ℤ) :
    (st.masterProcessCount < st.allowedMasterProcess →
      Booted masterStartTime decides (takes ++ [takenAt]) (st.bootProcessed start).1) ∧
    (¬ st.masterProcessCount < st.allowedMasterProcess →
      Booted masterStartTime decides (takes ++ [takenAt]) st) := by
  obtain ⟨before,queueLen,st₀,rfl,⟨xs,b,hr,hb,rfl,rfl⟩,rfl⟩ := h
  obtain ⟨c,hc⟩ := Booting.step_isSome b ⟨start,queueLen,takenAt⟩
  have hrun := LabelledSystem.run_concat hr hc
  have hcalled := Booting.called_of_step hc
  dsimp only at hcalled
  rw [hb, Statics.bootRate_atBoot] at hcalled
  have hlists : ∀ u : Statics, c.statics = u.atBoot →
      Booted masterStartTime (xs.map (fun x => (x.now,x.queueLen)) ++ [(start,queueLen)])
        (xs.map BootReading.takenAt ++ [takenAt]) u :=
    fun u hu => ⟨_,c,hrun,hu,by rw [List.map_append, List.map_singleton],
      by rw [List.map_append, List.map_singleton]⟩
  constructor
  · intro hroom
    cases hcalled with
    | process _ => exact hlists _ (Statics.bootProcessed_atBoot _ start)
    | drop hfull => exact absurd hroom hfull
  · intro hfull
    cases hcalled with
    | process hroom => exact absurd hroom hfull
    | drop _ => exact hlists _ rfl

theorem runsBoots_step {masterStartTime : ℤ} {decides : List (ℤ × ℕ)} {takes : List ℤ}
    {s t : MasterThread} {a : Action} (h : RunsBoots masterStartTime decides takes s)
    (hs : system.step s a = some t) :
    RunsBoots masterStartTime (decides ++ bootDecides s a) (takes ++ bootTakes s a) t := by
  have hquiet : ∀ u, RunsBoots masterStartTime decides takes u →
      RunsBoots masterStartTime (decides ++ []) (takes ++ []) u := by
    intro u hu
    rw [List.append_nil, List.append_nil]
    exact hu
  rcases s with ⟨st,reg,pc,clocks,fronts⟩
  cases a with
  | remote change =>
    cases hs
    exact hquiet _ h
  | main booting now queueLen vmId =>
    cases hs
    cases pc with
    | loop =>
      have hbooted : Booted masterStartTime decides takes st := h
      cases booting with
      | true =>
        simp only [bootTakes,List.append_nil]
        exact hbooted.decide now queueLen
      | false => exact hquiet _ h
    | bootScaleOut start pending => cases pending <;> exact hquiet _ h
    | bootProcess start =>
      have hdecided : Decided masterStartTime decides takes st start := h
      simp only [bootDecides,bootTakes,List.append_nil]
      unfold mainStep RunsBoots
      dsimp only
      by_cases hroom : st.masterProcessCount < st.allowedMasterProcess
      · rw [if_pos hroom, if_pos hroom]
        exact (hdecided.take now).1 hroom
      · rw [if_neg hroom, if_neg hroom]
        exact (hdecided.take start).2 hroom
    | newDate =>
      obtain ⟨xs,b,hr,hb,hlists⟩ : Booted masterStartTime decides takes st := h
      exact hquiet _ ⟨xs,b,hr,hb.trans (st.addFrontClock_atBoot now).symm,hlists⟩
    | compare start len =>
      have hbooted : Booted masterStartTime decides takes st := h
      refine hquiet _ ?_
      unfold mainStep RunsBoots
      dsimp only
      by_cases hbehind : st.frontBehind start len reg.frontCount = true
      · rw [if_pos hbehind]
        exact hbooted
      · rw [if_neg hbehind]
        exact hbooted
    | _ => exact hquiet _ h

/-- In every run of the main thread its calls of `handleBooting` are a run of the boot phase,
with what they read in it and the instants at which they take their requests. -/
theorem runsBoots_of_run (masterStartTime : ℤ) (as : List Action) (s : MasterThread)
    (hr : system.run (start masterStartTime) as = some s) :
    RunsBoots masterStartTime (system.emitted bootDecides (start masterStartTime) as)
      (system.emitted bootTakes (start masterStartTime) as) s := by
  refine LabelledSystem.run_invariant_of_past
    (I := fun as (u : MasterThread) => RunsBoots masterStartTime
      (system.emitted bootDecides (start masterStartTime) as)
      (system.emitted bootTakes (start masterStartTime) as) u) ?_ hr ⟨[],_,rfl,rfl,rfl,rfl⟩
  intro as u a v hu h hs
  rw [LabelledSystem.emitted_concat hu hs, LabelledSystem.emitted_concat hu hs]
  exact runsBoots_step h hs

end MasterThread

namespace MidServer
variable {R : Type*}

/-- The pass of `midRoutine` that is decided by the next step of a slave, with what it has
read. The instants that the routine does not look at are put at the clock of that step. -/
def passOf (s : Slave R) (now : ℤ) : List (MidReading (Ticket R)) :=
  match s.pc with
  | .midLength start cnt (.replied len) =>
    if s.statics.idle start cnt then [⟨start,cnt,len,none,now,now,now,now⟩] else []
  | .midPoll start cnt len (.replied o) => [⟨start,cnt,len,o,now,now,now,now⟩]
  | _ => []

def midReadings (i : VmId) (st : Cluster.State R) : Cluster.Action R → List (MidReading (Ticket R))
  | .run j now => if j = i then passOf (st.slaves i) now else []
  | _ => []

def At (t : MidServer (Ticket R)) (exited : Bool) (st : Statics) : Prop :=
  t.exited = exited ∧ t.statics = st

/-- Where a slave stands after its passes. While it serves a request, its static fields are
those that the pass will leave but for `lastProcessTime`. -/
def Follows (t : MidServer (Ticket R)) (s : Slave R) : Prop :=
  match s.pc with
  | .off => t = start ∧ s.statics = .initial
  | .booting => t = start ∧ s.statics = .initial
  | .getTier _ => t = start ∧ s.statics = .initial
  | .midHandler => At t false s.statics
  | .midRoutine => At t false s.statics
  | .midVMCount _ _ => At t false s.statics
  | .midLength _ _ _ => At t false s.statics
  | .midPoll now cnt _ _ => At t false s.statics ∧ s.statics.idle now cnt = false
  | .midFastDrop _ => At t false s.statics
  | .midScaleOut _ _ _ _ => At t false s.statics
  | .midDrop _ => At t false s.statics
  | .midDropTail => At t false s.statics
  | .midProcess now _ => At t false { s.statics with lastProcessTime := now }
  | .midProcessing now => At t false { s.statics with lastProcessTime := now }
  | .shutDown .mid => At t true s.statics
  | .lookupMaster .mid => At t true s.statics
  | .deleteVM .mid _ => At t true s.statics
  | .exited .mid _ => At t true s.statics
  | _ => True

theorem At.pass {t : MidServer (Ticket R)} {st st' : Statics} {e : MidExit} (h : At t false st)
    {x : MidReading (Ticket R)} (hpass : st.midRoutine x = (st',e)) :
    ∃ u, system.run t [x] = some u ∧ At u (e = .shutDown) st' := by
  obtain ⟨hopen,rfl⟩ := h
  refine ⟨_,LabelledSystem.run_singleton (step_eq_some.mpr ⟨hopen,rfl⟩),?_,?_⟩ <;> rw [hpass]

theorem Follows.run {i : VmId} {t : MidServer (Ticket R)} {s s' : Slave R} {now : ℤ}
    {ev : List (Event R)} (h : Follows t s) (hrun : s.run i now = some (s',ev)) :
    ∃ u, system.run t (passOf s now) = some u ∧ Follows u s' := by
  have hran := Slave.ran_of_run hrun
  rcases s with ⟨pc,st,q⟩
  cases hran with
  | toMid =>
    obtain ⟨rfl,hst⟩ : t = start ∧ st = .initial := h
    exact ⟨start,rfl,rfl,hst.symm⟩
  | midShutDown start cnt len hidle =>
    have hat : At t false st := h
    simp only [passOf,hidle,if_true]
    refine hat.pass (e := .shutDown) ?_
    simp only [Statics.midRoutine,hidle,if_true]
  | midStay start cnt len hbusy =>
    have hat : At t false st := h
    simp only [passOf,hbusy,Bool.false_eq_true,if_false]
    exact ⟨t,rfl,hat,hbusy⟩
  | midNothing start cnt len =>
    obtain ⟨hat,hbusy⟩ : At t false st ∧ st.idle start cnt = false := h
    refine hat.pass (e := .nothing) ?_
    simp only [Statics.midRoutine,hbusy,Bool.false_eq_true,if_false]
  | midShed start cnt len r hshed =>
    obtain ⟨hat,hbusy⟩ : At t false st ∧ st.idle start cnt = false := h
    refine hat.pass (e := .fastDrop) ?_
    simp only [Statics.midRoutine,hbusy,hshed,Bool.false_eq_true,if_false,if_true]
  | midOver start cnt len r hkeep hover =>
    obtain ⟨hat,hbusy⟩ : At t false st ∧ st.idle start cnt = false := h
    refine hat.pass (e := .overload) ?_
    simp only [Statics.midRoutine,hbusy,hkeep,hover,Bool.false_eq_true,if_false,if_true]
  | midServe start cnt len r hkeep hover =>
    obtain ⟨hat,hbusy⟩ : At t false st ∧ st.idle start cnt = false := h
    refine hat.pass (e := .processed) ?_
    simp only [Statics.midRoutine,hbusy,hkeep,hover,Bool.false_eq_true,if_false]
  | shutDown tier => cases tier <;> exact ⟨t,rfl,h⟩
  | lookupMaster tier => cases tier <;> exact ⟨t,rfl,h⟩
  | deleteVM tier u => cases tier <;> exact ⟨t,rfl,h⟩
  | toFront => exact ⟨t,rfl,trivial⟩
  | toNone => exact ⟨t,rfl,trivial⟩
  | _ => exact ⟨t,rfl,h⟩

theorem Follows.reply {t : MidServer (Ticket R)} {s : Slave R} (h : Follows t s) {pc : SlavePc R}
    (hreply : Replied s.pc pc) : Follows t (s.goto pc) := by
  rcases s with ⟨spc,st,q⟩
  cases hreply with
  | deleteVM tier => cases tier <;> exact h
  | _ => exact h

theorem Follows.throws {t : MidServer (Ticket R)} {s s' : Slave R} (h : Follows t s)
    (hthrow : s.throws = some s') : Follows t s' := by
  rcases s with ⟨pc,st,q⟩
  cases pc with
  | deleteVM tier a => cases tier <;> cases a <;> cases hthrow <;> exact h
  | getTier a => cases a <;> cases hthrow <;> trivial
  | _ => cases hthrow <;> trivial

theorem follows_step {i : VmId} (hone : i ≠ 1) {t : MidServer (Ticket R)} {st st' : Cluster.State R}
    {a : Cluster.Action R} (h : Follows t (st.slaves i)) (hs : Cluster.system.step st a = some st') :
    ∃ u, system.run t (midReadings i st a) = some u ∧ Follows u (st'.slaves i) := by
  cases Cluster.seen_of_step hs hone with
  | other hown hslave ev hlog hev =>
    have hnone : midReadings i st a = [] := by
      cases a with
      | run j now => exact if_neg (of_decide_eq_false hown)
      | _ => rfl
    rw [hnone, hslave]
    exact ⟨t,rfl,h⟩
  | boot ha hoff hslave hlog =>
    subst ha
    rw [hslave]
    simp only [Follows,hoff] at h
    exact ⟨t,rfl,h⟩
  | arrive r ha hslave hlog =>
    subst ha
    rw [hslave]
    exact ⟨t,rfl,h⟩
  | throws s ha hthrow hslave hlog =>
    subst ha
    rw [hslave]
    exact ⟨t,rfl,h.throws hthrow⟩
  | run now s ev ha hrun hslave hlog =>
    subst ha
    rw [hslave, midReadings, if_pos rfl]
    exact h.run hrun
  | execute vmId ha hexec =>
    subst ha
    obtain ⟨pc,hreply,hslaves⟩ := Cluster.execute_moves hs
    rw [hslaves, Function.update_self]
    exact ⟨t,rfl,h.reply hreply⟩

/-- In every run of the cluster each slave of the mid tier makes passes of `midRoutine`, with
what it reads in the run, and leaves when one of them calls `shutDown`. -/
theorem runsPasses_of_run (masterStartTime : ℤ) (as : List (Cluster.Action R)) (st : Cluster.State R)
    (hr : Cluster.system.run (Cluster.start masterStartTime) as = some st) (i : VmId) (hone : i ≠ 1) :
    ∃ t, system.run start
        (Cluster.system.emitted (midReadings i) (Cluster.start masterStartTime) as) = some t ∧
      Follows t (st.slaves i) :=
  LabelledSystem.run_emitted (Q := fun _ (u : Cluster.State R) t => Follows t (u.slaves i))
    (fun _ _ _ _ _ _ h hs => follows_step hone h hs) hr ⟨rfl,rfl⟩

end MidServer

namespace FrontServer
open Cluster
variable {R : Type*}

/-- Passes that have read `readings`, met the requests `arrived` and taken `handed` of them. -/
def Made (readings : List FrontReading) (arrived handed : List R) (t : FrontServer R) : Prop :=
  ∃ xs, system.run start xs = some t ∧ xs.map FrontPass.reading = readings ∧
    xs.flatMap (fun x => x.arrivedBefore ++ x.arrivedDuring) = arrived ∧ t.added = handed

/-- Between two passes, `later` being what has come in since. -/
def Between (readings : List FrontReading) (arrived handed : List R) (st : Statics) (queue : List R) : Prop :=
  ∃ t before later, Made readings before handed t ∧ t.abandoned = none ∧ t.statics = st ∧
    arrived = before ++ later ∧ queue = t.slQueue ++ later

/-- The pass under way has made the last reading, which does not shut the server down. -/
def Within (readings : List FrontReading) (arrived handed : List R) (st : Statics) (queue : List R) : Prop :=
  ∃ past x st₀, readings = past ++ [x] ∧ Between past arrived handed st₀ queue ∧
    st₀.frontScaleIn x.frontMasterCnt x.masterRequestLen = (st,false)

/-- The last reading shuts it down. -/
def Closing (readings : List FrontReading) (arrived handed queue : List R) : Prop :=
  ∃ past x st, readings = past ++ [x] ∧ Between past arrived handed st queue ∧
    (st.frontScaleIn x.frontMasterCnt x.masterRequestLen).2 = true

/-- The last pass has abandoned `left`, and the queue holds what has come in since. -/
def Gone (readings : List FrontReading) (arrived handed queue : List R) : Prop :=
  ∃ t left, Made readings (handed ++ left) handed t ∧ t.abandoned = some left ∧
    arrived = handed ++ (left ++ queue) ∧ handed.length + 1 = readings.length

def RunsPasses (readings : List FrontReading) (arrived handed : List R) (s : Slave R) : Prop :=
  match s.pc with
  | .off => readings = [] ∧ s.statics = .initial ∧ handed = [] ∧ arrived = s.slQueue
  | .booting => readings = [] ∧ s.statics = .initial ∧ handed = [] ∧ arrived = s.slQueue
  | .getTier _ => readings = [] ∧ s.statics = .initial ∧ handed = [] ∧ arrived = s.slQueue
  | .frontHandler => Between readings arrived handed s.statics s.slQueue
  | .frontRoutine => Between readings arrived handed s.statics s.slQueue
  | .frontVMCount _ => Between readings arrived handed s.statics s.slQueue
  | .frontLength _ .sent => Between readings arrived handed s.statics s.slQueue
  | .frontLength cnt (.replied len) =>
    ∃ past, readings = past ++ [⟨cnt,len⟩] ∧ Between past arrived handed s.statics s.slQueue
  | .frontNext => Within readings arrived handed s.statics s.slQueue
  | .frontAdd _ _ => Between readings arrived handed s.statics s.slQueue
  | .shutDown .front => Closing readings arrived handed s.slQueue
  | .lookupMaster .front => Gone readings arrived handed s.slQueue
  | .deleteVM .front _ => Gone readings arrived handed s.slQueue
  | .exited .front _ => Gone readings arrived handed s.slQueue
  | _ => True

variable {readings : List FrontReading} {arrived handed queue : List R} {st : Statics}

theorem Made.pass {s t : FrontServer R} (h : Made readings arrived handed s) (hopen : s.abandoned = none)
    {x : FrontPass R} (hpassed : Passed s x t) :
    Made (readings ++ [x.reading]) (arrived ++ (x.arrivedBefore ++ x.arrivedDuring)) t.added t := by
  obtain ⟨xs,hr,rfl,rfl,_⟩ := h
  refine ⟨xs ++ [x],LabelledSystem.run_concat hr (step_eq_some.mpr ⟨hopen,hpassed⟩),?_,?_,rfl⟩
  · rw [List.map_append, List.map_singleton]
  · rw [List.flatMap_append, List.flatMap_singleton]

theorem between_initial (arrived : List R) : Between [] arrived [] .initial arrived :=
  ⟨start,[],arrived,⟨[],rfl,rfl,rfl,rfl⟩,rfl,rfl,rfl,rfl⟩

theorem Between.arrive (h : Between readings arrived handed st queue) (l : List R) :
    Between readings (arrived ++ l) handed st (queue ++ l) := by
  obtain ⟨t,before,later,hmade,hopen,hst,rfl,rfl⟩ := h
  exact ⟨t,before,later ++ l,hmade,hopen,hst,List.append_assoc _ _ _,List.append_assoc _ _ _⟩

/-- One request a pass. -/
theorem Between.split (h : Between readings arrived handed st queue) :
    arrived = handed ++ queue ∧ handed.length = readings.length := by
  obtain ⟨t,before,later,⟨xs,hr,rfl,rfl,rfl⟩,hopen,_,rfl,rfl⟩ := h
  have hrunning := running_of_run hr hopen
  have hpasses : t.passes = xs := passes_of_run hr
  rw [← hpasses, ← hrunning.fifo, hrunning.added_length, List.length_map]
  exact ⟨List.append_assoc _ _ _,rfl⟩

theorem Within.arrive (h : Within readings arrived handed st queue) (l : List R) :
    Within readings (arrived ++ l) handed st (queue ++ l) := by
  obtain ⟨past,x,st₀,hpast,hbetween,hstay⟩ := h
  exact ⟨past,x,st₀,hpast,hbetween.arrive l,hstay⟩

theorem Closing.arrive (h : Closing readings arrived handed queue) (l : List R) :
    Closing readings (arrived ++ l) handed (queue ++ l) := by
  obtain ⟨past,x,st,hpast,hbetween,hshut⟩ := h
  exact ⟨past,x,st,hpast,hbetween.arrive l,hshut⟩

theorem Gone.arrive (h : Gone readings arrived handed queue) (l : List R) :
    Gone readings (arrived ++ l) handed (queue ++ l) := by
  obtain ⟨t,left,hmade,hleft,rfl,hlen⟩ := h
  refine ⟨t,left,hmade,hleft,?_,hlen⟩
  simp only [List.append_assoc]

theorem Gone.leaves (h : Gone readings arrived handed queue) : handed.length + 1 = readings.length := by
  obtain ⟨_,_,_,_,_,hlen⟩ := h
  exact hlen

/-- `getNextRequest()` returns. -/
theorem Within.next {r : R} {rest : List R} (h : Within readings arrived handed st (r :: rest)) :
    Between readings arrived (handed ++ [r]) st rest := by
  obtain ⟨past,x,_,rfl,⟨t,before,later,hmade,hopen,rfl,rfl,hqueue⟩,hstay⟩ := h
  have hpassed := Passed.add (s := t) (x := ⟨[],x,later⟩) r rest (by rw [hstay])
    (by rw [List.append_nil, hqueue])
  have hnow := hmade.pass hopen hpassed
  obtain ⟨_,_,_,_,rfl⟩ := hmade
  rw [List.nil_append] at hnow
  exact ⟨_,before ++ later,[],hnow,hopen,congrArg Prod.fst hstay,(List.append_nil _).symm,
    (List.append_nil _).symm⟩

/-- `SL.shutDown()` discards the queue. -/
theorem Closing.shutDown (h : Closing readings arrived handed queue) : Gone readings arrived handed [] := by
  obtain ⟨past,x,_,rfl,hbetween,hshut⟩ := h
  obtain ⟨hsplit,hlen⟩ := hbetween.split
  obtain ⟨t,before,later,hmade,hopen,rfl,rfl,rfl⟩ := hbetween
  have hnow := hmade.pass hopen (Passed.shutDown (x := ⟨later,x,[]⟩) hshut)
  obtain ⟨_,_,_,_,rfl⟩ := hmade
  rw [List.append_nil, hsplit] at hnow
  refine ⟨_,_,hnow,rfl,?_,?_⟩
  · rw [List.append_nil]
    exact hsplit
  · rw [hlen, List.length_append, List.length_singleton]

theorem RunsPasses.run {i : VmId} {s s' : Slave R} {now : ℤ} {ev : List (Event R)}
    (h : RunsPasses readings arrived handed s) (hrun : s.run i now = some (s',ev)) :
    RunsPasses readings arrived (handed ++ (taken (byVm i ev)).map Ticket.request) s' := by
  have hquiet : ∀ u, RunsPasses readings arrived handed u →
      RunsPasses readings arrived (handed ++ (taken (byVm i [])).map Ticket.request) u := by
    intro u hu
    rw [show handed ++ (taken (byVm i [])).map Ticket.request = handed from List.append_nil _]
    exact hu
  have hran := Slave.ran_of_run hrun
  rcases s with ⟨pc,st,q⟩
  cases hran with
  | frontNext r rest =>
    have hwithin : Within readings arrived handed st (r :: rest) := h
    have htaken : (taken (byVm i [Event.took ⟨.front i,r⟩])).map Ticket.request = [r] := by
      simp [byVm,Event.actor,Event.kind,Event.ticket,Origin.vm]
    rw [htaken]
    exact hwithin.next
  | toFront =>
    obtain ⟨rfl,rfl,rfl,rfl⟩ : readings = [] ∧ st = .initial ∧ handed = [] ∧ arrived = q := h
    exact hquiet _ (between_initial _)
  | frontShutDown cnt len hshut =>
    obtain ⟨past,rfl,hbetween⟩ : ∃ past, readings = past ++ [FrontReading.mk cnt len] ∧
      Between past arrived handed st q := h
    exact hquiet _ ⟨past,⟨cnt,len⟩,st,rfl,hbetween,hshut⟩
  | frontStay cnt len hstay =>
    obtain ⟨past,rfl,hbetween⟩ : ∃ past, readings = past ++ [FrontReading.mk cnt len] ∧
      Between past arrived handed st q := h
    exact hquiet _ ⟨past,⟨cnt,len⟩,st,rfl,hbetween,by rw [← hstay]⟩
  | shutDown tier =>
    cases tier with
    | front => exact hquiet _ (Closing.shutDown h)
    | mid => exact hquiet _ trivial
  | lookupMaster tier => cases tier <;> exact hquiet _ h
  | deleteVM tier u => cases tier <;> exact hquiet _ h
  | booting => exact hquiet _ h
  | frontHandler => exact hquiet _ h
  | frontRoutine => exact hquiet _ h
  | frontVMCount cnt => exact hquiet _ h
  | frontAdd r u => exact hquiet _ h
  | _ => trivial

theorem RunsPasses.arrive {s : Slave R} (h : RunsPasses readings arrived handed s) (r : R) :
    RunsPasses readings (arrived ++ [r]) handed { s with slQueue := s.slQueue ++ [r] } := by
  rcases s with ⟨pc,st,q⟩
  have hwaits : readings = [] ∧ st = .initial ∧ handed = [] ∧ arrived = q →
      readings = [] ∧ st = .initial ∧ handed = [] ∧ arrived ++ [r] = q ++ [r] :=
    fun ⟨hnone,hst,hhanded,hqueue⟩ => ⟨hnone,hst,hhanded,congrArg (· ++ [r]) hqueue⟩
  cases pc with
  | off => exact hwaits h
  | booting => exact hwaits h
  | getTier a => exact hwaits h
  | frontHandler => exact Between.arrive h [r]
  | frontRoutine => exact Between.arrive h [r]
  | frontVMCount a => exact Between.arrive h [r]
  | frontLength cnt a =>
    cases a with
    | sent => exact Between.arrive h [r]
    | replied len =>
      obtain ⟨past,hpast,hbetween⟩ : ∃ past, readings = past ++ [FrontReading.mk cnt len] ∧
        Between past arrived handed st q := h
      exact ⟨past,hpast,hbetween.arrive [r]⟩
  | frontNext => exact Within.arrive h [r]
  | frontAdd x a => exact Between.arrive h [r]
  | shutDown tier => cases tier with
    | front => exact Closing.arrive h [r]
    | mid => trivial
  | lookupMaster tier => cases tier with
    | front => exact Gone.arrive h [r]
    | mid => trivial
  | deleteVM tier a => cases tier with
    | front => exact Gone.arrive h [r]
    | mid => trivial
  | exited tier d => cases tier with
    | front => exact Gone.arrive h [r]
    | mid => trivial
  | _ => trivial

theorem RunsPasses.throws {s s' : Slave R} (h : RunsPasses readings arrived handed s)
    (hthrow : s.throws = some s') : RunsPasses readings arrived handed s' := by
  rcases s with ⟨pc,st,q⟩
  cases pc with
  | deleteVM tier a => cases tier <;> cases a <;> cases hthrow <;> exact h
  | getTier a => cases a <;> cases hthrow <;> trivial
  | _ => cases hthrow <;> trivial

theorem RunsPasses.reply {s : Slave R} (h : RunsPasses readings arrived handed s) {pc : SlavePc R}
    (hreply : Replied s.pc pc) (hlen : ∀ cnt, s.pc ≠ .frontLength cnt .sent) :
    RunsPasses readings arrived handed (s.goto pc) := by
  rcases s with ⟨spc,st,q⟩
  cases hreply with
  | frontLength cnt len => exact absurd rfl (hlen cnt)
  | deleteVM tier => cases tier <;> exact h
  | _ => exact h

theorem RunsPasses.execute {i vmId : VmId} {u u' : Cluster.State R}
    (h : RunsPasses readings arrived handed (u.slaves i)) (hs : u.execute i vmId = some u') :
    RunsPasses (readings ++ frontReadings i u (.execute i vmId)) arrived handed (u'.slaves i) := by
  by_cases hlen : ∃ cnt, (u.slaves i).pc = .frontLength cnt .sent
  · obtain ⟨cnt,hpc⟩ := hlen
    simp only [Cluster.State.execute,hpc,Option.some.injEq] at hs
    subst hs
    simp only [RunsPasses,hpc] at h
    simp only [frontReadings,hpc,if_true,Cluster.State.setPc,Cluster.State.setSlave,Function.update_self]
    exact ⟨readings,rfl,h⟩
  · have hother : ∀ cnt, (u.slaves i).pc ≠ .frontLength cnt .sent := fun cnt he => hlen ⟨cnt,he⟩
    obtain ⟨pc,hreply,hslaves⟩ := execute_moves hs
    rw [frontReadings_eq_nil hother, List.append_nil, hslaves, Function.update_self]
    exact h.reply hreply hother

theorem taken_byVm_append (i : VmId) (l l' : List (Event R)) :
    taken (byVm i (l ++ l')) = taken (byVm i l) ++ taken (byVm i l') := by
  rw [byVm_append, taken, tickets_append]

theorem taken_execute {i : VmId} {u u' : Cluster.State R} (hs : Executed u i u') :
    taken (byVm i u'.log) = taken (byVm i u.log) := by
  have hkeep : ∀ ev : List (Event R), u'.log = u.log ++ ev → taken (byVm i ev) = [] →
      taken (byVm i u'.log) = taken (byVm i u.log) := by
    intro ev hlog hev
    rw [hlog, taken_byVm_append, hev, List.append_nil]
  cases hs with
  | addRequest r hpc =>
    refine hkeep [.queued r] rfl ?_
    by_cases hr : r.origin.vm = i <;> simp [byVm,Event.actor,Event.kind,hr]
  | pollRequest now cnt len r rest hpc hqueue =>
    exact hkeep [.polled i r] rfl (by simp [byVm,Event.actor,Event.kind])
  | answer pc h => rfl
  | scaleOut vmId cnt len r hpc hnew => rfl
  | deleteVM tier hpc => rfl

/-- Nothing comes into a queue that stays as it is. -/
theorem arrivedAt_eq_nil {i : VmId} (hone : i ≠ 1) {u u' : Cluster.State R} {a : Cluster.Action R}
    (hs : Cluster.system.step u a = some u') (hslave : u'.slaves i = u.slaves i) :
    arrivedAt i (arrivals u a) = [] := by
  cases a with
  | arrive j r =>
    cases hs
    by_cases hij : j = i
    · subst hij
      rw [Cluster.State.arrive, if_neg hone] at hslave
      have hlen := congrArg (fun s : Slave R => s.slQueue.length) hslave
      simp [Cluster.State.setSlave] at hlen
    · simp [arrivals,arrivedAt,hij]
  | _ => rfl

theorem runsPasses_step {i : VmId} (hone : i ≠ 1) {u u' : Cluster.State R} {a : Cluster.Action R}
    (h : RunsPasses readings arrived ((taken (byVm i u.log)).map Ticket.request) (u.slaves i))
    (hs : Cluster.system.step u a = some u') :
    RunsPasses (readings ++ frontReadings i u a) (arrived ++ arrivedAt i (arrivals u a))
      ((taken (byVm i u'.log)).map Ticket.request) (u'.slaves i) := by
  have hquiet : ∀ l s, RunsPasses readings arrived l s → RunsPasses (readings ++ []) (arrived ++ []) l s := by
    intro l s hs
    rw [List.append_nil, List.append_nil]
    exact hs
  cases seen_of_step hs hone with
  | other hown hslave ev hlog hev =>
    have htaken : taken (byVm i ev) = [] := tickets_of_queued hev (by decide)
    rw [frontReadings_of_other hown, arrivedAt_eq_nil hone hs hslave, hslave, hlog, taken_byVm_append,
      htaken, List.append_nil (taken (byVm i u.log))]
    exact hquiet _ _ h
  | boot ha hoff hslave hlog =>
    subst ha
    rw [hslave, hlog]
    simp only [RunsPasses,hoff] at h
    exact hquiet _ _ h
  | arrive r ha hslave hlog =>
    subst ha
    have hnew : arrivedAt i (arrivals u (.arrive i r)) = [r] := by simp [arrivals,arrivedAt]
    rw [hslave, hlog, frontReadings_of_other rfl, hnew, List.append_nil]
    exact h.arrive r
  | throws s ha hthrow hslave hlog =>
    subst ha
    rw [hslave, hlog]
    exact hquiet _ _ (h.throws hthrow)
  | run now s ev ha hrun hslave hlog =>
    subst ha
    rw [hslave, hlog, taken_byVm_append, List.map_append]
    exact hquiet _ _ (h.run hrun)
  | execute vmId ha hexec =>
    subst ha
    have hnone : arrivedAt i (arrivals u (.execute i vmId)) = [] := rfl
    rw [taken_execute hexec, hnone, List.append_nil]
    exact h.execute hs

/-- In every run of the cluster each slave of the front tier makes passes of `frontRoutine`,
with what it reads in the run, what comes into its queue and what it takes out of it. -/
theorem runsPasses_of_run (masterStartTime : ℤ) (as : List (Cluster.Action R)) (st : Cluster.State R)
    (hr : Cluster.system.run (Cluster.start masterStartTime) as = some st) (i : VmId) (hone : i ≠ 1) :
    RunsPasses (Cluster.system.emitted (frontReadings i) (Cluster.start masterStartTime) as)
      (arrivedAt i (Cluster.system.emitted arrivals (Cluster.start masterStartTime) as))
      ((taken (byVm i st.log)).map Ticket.request) (st.slaves i) := by
  refine LabelledSystem.run_invariant_of_past
    (I := fun as (u : Cluster.State R) => RunsPasses
      (Cluster.system.emitted (frontReadings i) (Cluster.start masterStartTime) as)
      (arrivedAt i (Cluster.system.emitted arrivals (Cluster.start masterStartTime) as))
      ((taken (byVm i u.log)).map Ticket.request) (u.slaves i)) ?_ hr ⟨rfl,rfl,rfl,rfl⟩
  intro as u a v hu h hs
  rw [LabelledSystem.emitted_concat hu hs, LabelledSystem.emitted_concat hu hs, arrivedAt_append]
  exact runsPasses_step hone h hs

theorem RunsPasses.leaves {s : Slave R} (h : RunsPasses readings arrived handed s)
    (hpc : leavesFront s.pc = true) : handed.length + 1 = readings.length := by
  rcases s with ⟨pc,st,q⟩
  cases pc with
  | shutDown tier =>
    cases tier <;> cases hpc
    obtain ⟨past,x,st,rfl,hbetween,_⟩ : Closing readings arrived handed q := h
    rw [hbetween.split.2, List.length_append, List.length_singleton]
  | lookupMaster tier =>
    cases tier <;> cases hpc
    exact Gone.leaves h
  | deleteVM tier a =>
    cases tier <;> cases hpc
    exact Gone.leaves h
  | exited tier d =>
    cases tier <;> cases hpc
    exact Gone.leaves h
  | _ => cases hpc

end FrontServer

namespace Cluster
variable {R : Type*}

theorem ofOrigin_taken {i : VmId} (hone : i ≠ 1) (log : List (Event R)) :
    ofOrigin (.front i) (taken log) = taken (byVm i log) := by
  induction log with
  | nil => rfl
  | cons e log ih =>
    simp only [ofOrigin,byVm] at ih ⊢
    cases e with
    | took r =>
      have hvm := vm_eq_iff hone r.origin
      by_cases hr : r.origin = .front i
      · simp [tickets_cons,Event.kind,Event.actor,Event.ticket,hr,Origin.vm,ih]
      · simp [tickets_cons,Event.kind,Event.actor,Event.ticket,hr,mt hvm.mp hr,ih]
    | queued r => by_cases hr : r.origin.vm = i <;> simp [tickets_cons,Event.kind,Event.actor,hr,ih]
    | polled j r => by_cases hj : j = i <;> simp [tickets_cons,Event.kind,Event.actor,hj,ih]
    | processed j r => by_cases hj : j = i <;> simp [tickets_cons,Event.kind,Event.actor,hj,ih]
    | dropped j r => by_cases hj : j = i <;> simp [tickets_cons,Event.kind,Event.actor,hj,ih]

/-- What a front server loses when it leaves. It has taken one request for each of its readings
but the last, and abandons all that have come to it after those. -/
theorem front_abandons (masterStartTime : ℤ) (as : List (Action R)) (st : State R)
    (hr : system.run (start masterStartTime) as = some st)
    (hd : system.Meets Dispatched (start masterStartTime) as) (i : VmId) (hone : i ≠ 1)
    (hleaves : leavesFront (st.slaves i).pc = true) :
    let arrived := arrivedAt i (system.emitted arrivals (start masterStartTime) as)
    let departed := fromVm i (system.emitted departures (start masterStartTime) as)
    let passes := (system.emitted (frontReadings i) (start masterStartTime) as).length - 1
    leftBy .taken departed = arrived.take passes ∧
    leftBy .abandoned departed ++ (st.slaves i).slQueue = arrived.drop passes ∧
    ((st.slaves i).pc = .shutDown .front → leftBy .abandoned departed = []) ∧
    ((st.slaves i).pc ≠ .shutDown .front → (st.slaves i).slQueue = []) := by
  intro arrived departed passes
  obtain ⟨harrived,htaken,hnone⟩ := arrived_eq hr hd hone
  have hlen := (FrontServer.runsPasses_of_run masterStartTime as st hr i hone).leaves hleaves
  have hpasses : passes = (leftBy .taken departed).length := by
    rw [← htaken, ofOrigin_taken hone]
    exact Nat.sub_eq_of_eq_add hlen.symm
  refine ⟨?_,?_,?_,?_⟩
  · rw [hpasses, show arrived = _ from harrived, List.take_left]
  · rw [hpasses, show arrived = _ from harrived, List.drop_left]
  · intro hpc
    exact hnone (by rw [hpc]; rfl)
  · intro hpc
    refine (fed_run hr hd).empty i ?_
    generalize (st.slaves i).pc = pc at hleaves hpc
    cases pc with
    | shutDown tier =>
      cases tier <;> cases hleaves
      exact absurd rfl hpc
    | lookupMaster tier => rfl
    | deleteVM tier a => rfl
    | exited tier d => rfl
    | _ => cases hleaves

/-- A request that comes after the reading that closes the window. -/
def arrivesTooLate : List (Action ℕ) := frontLeaves ++ [.arrive 3 8,.run 3 0]

theorem front_abandons_arrivesTooLate : ∃ st, system.run (start 0) arrivesTooLate = some st ∧
    leftBy .abandoned (fromVm 3 (system.emitted departures (start 0) arrivesTooLate)) = [8] := by
  have hrun : ∃ st, system.run (start 0) arrivesTooLate = some st ∧
      system.Meets Dispatched (start 0) arrivesTooLate ∧ (st.slaves 3).pc = .lookupMaster .front ∧
      (arrivedAt 3 (system.emitted arrivals (start 0) arrivesTooLate)).drop
        ((system.emitted (frontReadings 3) (start 0) arrivesTooLate).length - 1) = [8] := by
    decide +kernel
  obtain ⟨st,hst,hd,hpc,hlate⟩ := hrun
  obtain ⟨_,hleft,_,hempty⟩ := front_abandons 0 arrivesTooLate st hst hd 3 (by decide) (by rw [hpc]; rfl)
  rw [hlate, hempty (by rw [hpc]; decide), List.append_nil] at hleft
  exact ⟨st,hst,hleft⟩

end Cluster
end AutoScaling
