import AutoScaling.Cluster.Launches
import AutoScaling.Cluster.OneSlave
import AutoScaling.Cluster.Requests
import AutoScaling.Foundation.Emission
import Mathlib.Algebra.FreeMonoid.Basic

/-! # From the load balancer to the mid tier

Requests reach the cluster in the `ServerLib` queues of the servers that have registered as
front ends, and leave these queues in four ways. A front server's queue is a channel, so
that what its clients sent is handed to the mid tier in the order in which it came; and
every request that ever came is accounted for, those included that a server abandons.
-/
namespace AutoScaling

namespace SlavePc
variable {R : Type*}

/-- The slave may be registered with the load balancer: it has called
`SL.register_frontend()` and not yet `SL.shutDown()`, or some call of a front server threw. -/
def registered : SlavePc R → Bool
  | .frontRoutine => true
  | .frontVMCount _ => true
  | .frontLength _ _ => true
  | .frontNext => true
  | .frontAdd _ _ => true
  | .shutDown .front => true
  | .ended (some .front) _ => true
  | _ => false

def serviceOver : SlavePc R → Bool
  | .lookupMaster _ => true
  | .deleteVM _ _ => true
  | .exited _ _ => true
  | .ended _ _ => true
  | _ => false

end SlavePc

/-- How a request leaves a `ServerLib` queue: by `getNextRequest`, by `dropHead`, by
`dropTail`, or with the whole queue in `shutDown`. -/
inductive Fate
  | taken
  | headDropped
  | tailDropped
  | abandoned
  deriving DecidableEq

structure Departure (R : Type*) where
  vmId : VmId
  fate : Fate
  request : R
  deriving DecidableEq

namespace Cluster
variable {R : Type*}

def arrivals (_ : State R) : Action R → List (VmId × R)
  | .arrive i r => [(i,r)]
  | _ => []

def departures (st : State R) : Action R → List (Departure R)
  | .run i _ =>
    match (st.slaves i).pc with
    | .frontNext => (st.slaves i).slQueue.head?.toList.map (fun r => ⟨i,.taken,r⟩)
    | .midDropTail => (st.slaves i).slQueue.getLast?.toList.map (fun r => ⟨i,.tailDropped,r⟩)
    | .shutDown _ => (st.slaves i).slQueue.map (fun r => ⟨i,.abandoned,r⟩)
    | _ => []
  | .main _ _ _ =>
    match st.main with
    | .bootProcess _ =>
      let fate := if st.statics.masterProcessCount < st.statics.allowedMasterProcess then Fate.taken
        else .headDropped
      st.slQueue.head?.toList.map (fun r => ⟨1,fate,r⟩)
    | .bootProcessing start _ =>
      if (st.statics.bootProcessed start).2 then
        st.slQueue.head?.toList.map (fun r => ⟨1,.headDropped,r⟩)
      else []
    | .next => st.slQueue.head?.toList.map (fun r => ⟨1,.taken,r⟩)
    | _ => []
  | _ => []

/-- The load balancer gives requests only to the master and to registered front ends. -/
def Dispatched (st : State R) : Action R → Prop
  | .arrive i _ => i = 1 ∨ (st.slaves i).pc.registered = true
  | _ => True

instance decidableDispatched (st : State R) : (a : Action R) → Decidable (Dispatched st a)
  | .arrive i _ => inferInstanceAs (Decidable (i = 1 ∨ (st.slaves i).pc.registered = true))
  | .main _ _ _ => .isTrue trivial
  | .boot _ => .isTrue trivial
  | .run _ _ => .isTrue trivial
  | .execute _ _ => .isTrue trivial
  | .throws _ => .isTrue trivial

def ownQueue (st : State R) (i : VmId) : List R := if i = 1 then st.slQueue else (st.slaves i).slQueue

def arrivedAt (i : VmId) (l : List (VmId × R)) : List R :=
  (l.filter (fun x => decide (x.1 = i))).map Prod.snd

def departedFrom (i : VmId) (l : List (Departure R)) : List R :=
  (l.filter (fun d => decide (d.vmId = i))).map Departure.request

theorem arrivedAt_append (i : VmId) (l l' : List (VmId × R)) :
    arrivedAt i (l ++ l') = arrivedAt i l ++ arrivedAt i l' := by
  simp only [arrivedAt,List.filter_append,List.map_append]

theorem departedFrom_append (i : VmId) (l l' : List (Departure R)) :
    departedFrom i (l ++ l') = departedFrom i l ++ departedFrom i l' := by
  simp only [departedFrom,List.filter_append,List.map_append]

theorem departedFrom_eq {i j : VmId} {l : List (Departure R)} (h : ∀ d ∈ l, d.vmId = j) :
    departedFrom i l = if i = j then l.map Departure.request else [] := by
  unfold departedFrom
  split
  · rename_i he
    rw [List.filter_eq_self.mpr]
    exact fun d hd => decide_eq_true ((h d hd).trans he.symm)
  · rename_i hne
    rw [List.filter_eq_nil_iff.mpr, List.map_nil]
    intro d hd
    rw [decide_eq_true_iff, h d hd]
    exact fun he => hne he.symm

@[simp] theorem map_request (i : VmId) (fate : Fate) (l : List R) :
    (l.map (fun r => (⟨i,fate,r⟩ : Departure R))).map Departure.request = l := by
  simp [Function.comp_def]

theorem head?_toList_append_tail (l : List R) : l.head?.toList ++ l.tail = l := by
  cases l <;> rfl

/-- Only registered front ends have anything in their own queue. -/
structure Fed (st : State R) : Prop where
  inv : Inv st
  empty : ∀ i, (st.slaves i).pc.registered = false → (st.slaves i).slQueue = []

theorem fed_start (masterStartTime : ℤ) : Fed (start masterStartTime : State R) :=
  ⟨inv_start masterStartTime,fun _ _ => rfl⟩

/-- A slave's own step leaves its queue, or takes from it; a slave that is not registered
after the step was none before it, or has just shut down. -/
theorem registered_run {i : VmId} {s s' : Slave R} {now : ℤ} {ev : List (Event R)}
    (h : s.run i now = some (s',ev)) (hempty : s.pc.registered = false → s.slQueue = [])
    (hreg : s'.pc.registered = false) : s'.slQueue = [] := by
  have hran := Slave.ran_of_run h
  rcases s with ⟨pc,st,q⟩
  cases hran with
  | frontShutDown cnt len hshut => cases hreg
  | frontStay cnt len hstay => cases hreg
  | frontNext r rest => cases hreg
  | midDropTail => rw [hempty rfl]; rfl
  | shutDown tier => rfl
  | booting => exact hempty rfl
  | frontHandler => exact hempty rfl
  | frontAdd r u => cases hreg
  | _ => exact hempty hreg

theorem registered_replied {pc pc' : SlavePc R} (h : Replied pc pc') : pc'.registered = pc.registered := by
  cases h <;> rfl

theorem registered_throws {s s' : Slave R} (h : s.throws = some s') (hreg : s'.pc.registered = false) :
    s.pc.registered = false ∧ s'.slQueue = s.slQueue := by
  rcases s with ⟨pc,st,q⟩
  cases pc with
  | deleteVM tier a => cases a <;> cases h <;> exact ⟨rfl,rfl⟩
  | shutDown tier =>
    cases h
    cases tier with
    | front => cases hreg
    | mid => exact ⟨rfl,rfl⟩
  | getTier a => cases a <;> cases h <;> exact ⟨rfl,rfl⟩
  | _ => cases h <;> first | exact ⟨rfl,rfl⟩ | cases hreg

theorem fed_step {st st' : State R} {a : Action R} (h : Fed st) (hd : Dispatched st a)
    (hs : system.step st a = some st') : Fed st' := by
  refine ⟨inv_step h.inv hs,?_⟩
  have hone : ∀ (j : VmId) (s : Slave R), st'.slaves = Function.update st.slaves j s →
      (s.pc.registered = false → s.slQueue = []) →
      ∀ i, (st'.slaves i).pc.registered = false → (st'.slaves i).slQueue = [] := by
    intro j s hslaves hnew i
    rw [hslaves]
    by_cases hj : i = j
    · subst hj
      rw [Function.update_self]
      exact hnew
    · rw [Function.update_of_ne hj]
      exact h.empty i
  simp only [system] at hs
  cases a with
  | main booting now vmId =>
    rw [slaves_of_mainStep hs]
    exact h.empty
  | boot j =>
    obtain ⟨⟨_,hoff⟩,rfl⟩ := boot_eq_some.mp hs
    exact hone j _ rfl (fun _ => h.empty j (by rw [hoff]; rfl))
  | run j now =>
    obtain ⟨⟨s,ev⟩,hrun,rfl⟩ := Option.map_eq_some_iff.mp hs
    exact hone j s rfl (registered_run hrun (h.empty j))
  | execute j vmId =>
    obtain ⟨pc,hreply,hslaves⟩ := execute_moves hs
    refine hone j _ hslaves (fun hreg => h.empty j ?_)
    rw [← registered_replied hreply]
    exact hreg
  | arrive j r =>
    cases hs
    rcases hd with rfl | hreg
    · rw [State.arrive, if_pos rfl]
      exact h.empty
    · have hne : j ≠ 1 := by
        apply h.inv.ne_master
        apply h.inv.mem_vms
        intro hoff
        rw [hoff] at hreg
        cases hreg
      refine hone j { st.slaves j with slQueue := (st.slaves j).slQueue ++ [r] } ?_ ?_
      · rw [State.arrive, if_neg hne]
        rfl
      · intro hnone
        cases hnone.symm.trans hreg
  | throws j =>
    obtain ⟨s,hthrow,rfl⟩ := Option.map_eq_some_iff.mp hs
    refine hone j s rfl (fun hreg => ?_)
    obtain ⟨hold,hqueue⟩ := registered_throws hthrow hreg
    rw [hqueue]
    exact h.empty j hold

theorem fed_run {masterStartTime : ℤ} {as : List (Action R)} {st : State R}
    (hr : system.run (start masterStartTime) as = some st)
    (hd : system.Meets Dispatched (start masterStartTime) as) : Fed st :=
  LabelledSystem.run_invariant_of_meets (fun _ _ _ hu hg hs => fed_step hu hg hs) hr hd
    (fed_start masterStartTime)

def tookBy (log : List (Event R)) : List (VmId × R) :=
  (taken log).map (fun r => (r.origin.vm,r.request))

def takenOut (l : List (Departure R)) : List (VmId × R) :=
  (l.filter (fun d => decide (d.fate = .taken))).map (fun d => (d.vmId,d.request))

theorem tookBy_append (log log' : List (Event R)) : tookBy (log ++ log') = tookBy log ++ tookBy log' := by
  rw [tookBy, taken, tickets_append, List.map_append]
  rfl

theorem takenOut_append (l l' : List (Departure R)) : takenOut (l ++ l') = takenOut l ++ takenOut l' := by
  rw [takenOut, List.filter_append, List.map_append]
  rfl

theorem takenOut_map {i : VmId} {fate : Fate} (h : fate ≠ .taken) (l : List R) :
    takenOut (l.map (fun r => (⟨i,fate,r⟩ : Departure R))) = [] := by
  rw [takenOut, List.map_eq_nil_iff, List.filter_eq_nil_iff]
  intro d hd
  obtain ⟨r,_,rfl⟩ := List.mem_map.mp hd
  rw [decide_eq_true_iff]
  exact h

/-- A step in which requests leave one queue, that of server `i`. -/
structure Departs (i : VmId) (l : List (Departure R)) (q q' : List R) (ev : List (Event R)) : Prop where
  vm : ∀ d ∈ l, d.vmId = i
  queue : q = l.map Departure.request ++ q'
  took : tookBy ev = takenOut l

theorem Departs.still {i : VmId} {q : List R} {ev : List (Event R)} (h : tookBy ev = []) :
    Departs i [] q q ev :=
  ⟨(fun d hd => by cases hd),rfl,h⟩

theorem Departs.discard {i : VmId} {fate : Fate} {l q q' : List R} (h : q = l ++ q') (hf : fate ≠ .taken)
    {ev : List (Event R)} (hev : tookBy ev = []) :
    Departs i (l.map (fun r => ⟨i,fate,r⟩)) q q' ev := by
  refine ⟨?_,?_,?_⟩
  · intro d hd
    obtain ⟨r,_,rfl⟩ := List.mem_map.mp hd
    rfl
  · rw [map_request]
    exact h
  · rw [hev, takenOut_map hf]

theorem departs_mainStep {st st' : State R} {booting : Bool} {now : ℤ} {vmId : VmId}
    (hs : st.mainStep booting now vmId = some st') : ∃ ev, st'.log = st.log ++ ev ∧
      Departs 1 (departures st (.main booting now vmId)) st.slQueue st'.slQueue ev := by
  have hstill : departures st (.main booting now vmId) = [] → st'.slQueue = st.slQueue →
      st'.log = st.log → ∃ ev, st'.log = st.log ++ ev ∧
        Departs 1 (departures st (.main booting now vmId)) st.slQueue st'.slQueue ev := by
    intro hd hq hlog
    rw [hd, hq]
    exact ⟨[],by rw [hlog, List.append_nil],.still rfl⟩
  simp only [State.mainStep] at hs
  cases hm : st.main with
  | startMid =>
    simp only [hm,Option.map_eq_some_iff,scaleOutCore_eq_some] at hs
    obtain ⟨_,⟨_,rfl⟩,rfl⟩ := hs
    exact hstill (by simp only [departures,hm]) rfl rfl
  | startFront =>
    simp only [hm,Option.map_eq_some_iff,scaleOutCore_eq_some] at hs
    obtain ⟨_,⟨_,rfl⟩,rfl⟩ := hs
    exact hstill (by simp only [departures,hm]) rfl rfl
  | loop =>
    simp only [hm] at hs
    split at hs <;> cases hs <;> exact hstill (by simp only [departures,hm]) rfl rfl
  | bootScaleOut start pending =>
    cases pending with
    | nil =>
      simp only [hm] at hs
      cases hs
      exact hstill (by simp only [departures,hm]) rfl rfl
    | cons tier pending =>
      simp only [hm,Option.map_eq_some_iff,scaleOutCore_eq_some] at hs
      obtain ⟨_,⟨_,rfl⟩,rfl⟩ := hs
      exact hstill (by simp only [departures,hm]) rfl rfl
  | bootProcess start =>
    simp only [hm] at hs
    simp only [departures,hm]
    split at hs
    · rename_i hroom
      split at hs <;> cases hs
      rename_i r rest hqueue
      rw [hqueue, if_pos hroom]
      exact ⟨_,rfl,(fun d hd => by cases List.mem_singleton.mp hd; rfl),rfl,rfl⟩
    · rename_i hfull
      cases hs
      rw [if_neg hfull]
      exact ⟨[],(List.append_nil _).symm,
        .discard (head?_toList_append_tail st.slQueue).symm (fun he => by cases he) rfl⟩
  | bootProcessing start r =>
    simp only [hm] at hs
    simp only [departures,hm]
    cases hs
    refine ⟨_,rfl,?_⟩
    dsimp only [State.record]
    split
    · exact .discard (head?_toList_append_tail st.slQueue).symm (fun he => by cases he) rfl
    · exact .still rfl
  | next =>
    simp only [hm] at hs
    simp only [departures,hm]
    split at hs <;> cases hs
    rename_i r rest hqueue
    rw [hqueue]
    exact ⟨_,rfl,(fun d hd => by cases List.mem_singleton.mp hd; rfl),rfl,rfl⟩
  | addRequest r =>
    simp only [hm] at hs
    simp only [departures,hm]
    cases hs
    exact ⟨_,rfl,.still rfl⟩
  | scaleCheck =>
    simp only [hm] at hs
    cases hs
    exact hstill (by simp only [departures,hm]) rfl rfl
  | scaleFront start =>
    simp only [hm,Option.map_eq_some_iff,scaleOutCore_eq_some] at hs
    obtain ⟨_,⟨_,rfl⟩,rfl⟩ := hs
    exact hstill (by simp only [departures,hm]) rfl rfl

theorem departs_run {st : State R} (h : Fed st) {i : VmId} {now : ℤ} {s : Slave R} {ev : List (Event R)}
    (hrun : (st.slaves i).run i now = some (s,ev)) :
    Departs i (departures st (.run i now)) (st.slaves i).slQueue s.slQueue ev := by
  have hran := Slave.ran_of_run hrun
  have hempty := h.empty i
  simp only [departures]
  generalize (st.slaves i).pc = pc at hran hempty
  generalize (st.slaves i).slQueue = q at hran hempty
  cases hran with
  | frontNext r rest => exact ⟨(fun d hd => by cases List.mem_singleton.mp hd; rfl),rfl,rfl⟩
  | midDropTail =>
    rw [hempty rfl]
    exact .still rfl
  | shutDown tier => exact .discard (List.append_nil _).symm (fun he => by cases he) rfl
  | _ => exact .still rfl

theorem queue_throws {s s' : Slave R} (h : s.throws = some s') : s'.slQueue = s.slQueue := by
  rcases s with ⟨pc,st,q⟩
  cases pc with
  | deleteVM tier a => cases a <;> cases h <;> rfl
  | getTier a => cases a <;> cases h <;> rfl
  | _ => cases h <;> rfl

theorem ownQueue_step {st st' : State R} {a : Action R} (h : Fed st) (hs : system.step st a = some st')
    (i : VmId) : ownQueue st i ++ arrivedAt i (arrivals st a) =
      departedFrom i (departures st a) ++ ownQueue st' i := by
  have hstill : arrivals st a = [] → departures st a = [] → st'.slQueue = st.slQueue →
      (∀ j, (st'.slaves j).slQueue = (st.slaves j).slQueue) →
      ownQueue st i ++ arrivedAt i (arrivals st a) = departedFrom i (departures st a) ++ ownQueue st' i := by
    intro ha hd hq hslaves
    rw [ha, hd, ownQueue, ownQueue, hq, hslaves]
    exact List.append_nil _
  have hone : ∀ (j : VmId) (s : Slave R), st'.slaves = Function.update st.slaves j s →
      s.slQueue = (st.slaves j).slQueue → ∀ k, (st'.slaves k).slQueue = (st.slaves k).slQueue := by
    intro j s hslaves hq k
    rw [hslaves]
    by_cases hj : k = j
    · subst hj
      rw [Function.update_self, hq]
    · rw [Function.update_of_ne hj]
  simp only [system] at hs
  cases a with
  | main booting now vmId =>
    obtain ⟨ev,_,hdeparts⟩ := departs_mainStep hs
    rw [departedFrom_eq hdeparts.vm, ownQueue, ownQueue, slaves_of_mainStep hs]
    split
    · exact (List.append_nil _).trans hdeparts.queue
    · exact List.append_nil _
  | boot j =>
    obtain ⟨_,rfl⟩ := boot_eq_some.mp hs
    exact hstill rfl rfl rfl (hone j _ rfl rfl)
  | run j now =>
    obtain ⟨⟨s,ev⟩,hrun,rfl⟩ := Option.map_eq_some_iff.mp hs
    have hne : j ≠ 1 := h.inv.ne_master (h.inv.mem_vms (Slave.ne_off_of_run hrun))
    have hdeparts := departs_run h hrun
    rw [departedFrom_eq hdeparts.vm, ownQueue, ownQueue]
    simp only [State.record,State.setSlave]
    by_cases hj : i = j
    · subst hj
      rw [if_neg hne, if_pos rfl, if_neg hne, Function.update_self]
      exact (List.append_nil _).trans hdeparts.queue
    · rw [if_neg hj, Function.update_of_ne hj]
      exact List.append_nil _
  | execute j vmId =>
    obtain ⟨pc,hreply,hslaves⟩ := execute_moves hs
    refine hstill rfl rfl ?_ (hone j _ hslaves rfl)
    cases executed_of_execute hs <;> rfl
  | arrive j r =>
    cases hs
    have harrived : arrivedAt i (arrivals st (.arrive j r)) = if i = j then [r] else [] := by
      by_cases hj : i = j
      · simp [arrivals,arrivedAt,hj]
      · simp [arrivals,arrivedAt,hj,Ne.symm hj]
    rw [harrived]
    simp only [ownQueue,State.arrive]
    by_cases hj : j = 1
    · subst hj
      rw [if_pos rfl]
      split
      · rfl
      · exact List.append_nil _
    · rw [if_neg hj]
      by_cases hij : i = j
      · subst hij
        rw [if_pos rfl, if_neg hj, if_neg hj]
        simp only [State.setSlave,Function.update_self]
        rfl
      · rw [if_neg hij]
        simp only [State.setSlave,Function.update_of_ne hij]
        exact List.append_nil _
  | throws j =>
    obtain ⟨s,hthrow,rfl⟩ := Option.map_eq_some_iff.mp hs
    exact hstill rfl rfl rfl (hone j s rfl (queue_throws hthrow))

/-- In a run, what has come to a server has left its queue again or is still in it, in order. -/
theorem ownQueue_run {masterStartTime : ℤ} {as : List (Action R)} {st : State R}
    (hr : system.run (start masterStartTime) as = some st)
    (hd : system.Meets Dispatched (start masterStartTime) as) (i : VmId) :
    arrivedAt i (system.emitted arrivals (start masterStartTime) as) =
      departedFrom i (system.emitted departures (start masterStartTime) as) ++ ownQueue st i := by
  have hnone : ownQueue (start masterStartTime : State R) i = [] := by
    unfold ownQueue
    split <;> rfl
  have hbalance := LabelledSystem.emitted_balance (w := fun u : State R => FreeAddMonoid.ofList (ownQueue u i))
    (fun l => FreeAddMonoid.ofList (arrivedAt i l)) (fun l => FreeAddMonoid.ofList (departedFrom i l))
    (fun l l' => congrArg FreeAddMonoid.ofList (arrivedAt_append i l l'))
    (fun l l' => congrArg FreeAddMonoid.ofList (departedFrom_append i l l')) rfl rfl
    (fun _ _ _ hu hg hs => fed_step hu hg hs)
    (fun _ _ _ hu _ hs => congrArg FreeAddMonoid.ofList (ownQueue_step hu hs i)) hr hd
    (fed_start masterStartTime)
  rw [hnone] at hbalance
  exact hbalance

theorem took_step {st st' : State R} {a : Action R} (h : Fed st) (hs : system.step st a = some st') :
    tookBy st'.log = tookBy st.log ++ takenOut (departures st a) := by
  have hstill : departures st a = [] → st'.log = st.log →
      tookBy st'.log = tookBy st.log ++ takenOut (departures st a) := by
    intro hd hlog
    rw [hd, hlog]
    exact (List.append_nil _).symm
  simp only [system] at hs
  cases a with
  | main booting now vmId =>
    obtain ⟨ev,hlog,hdeparts⟩ := departs_mainStep hs
    rw [hlog, tookBy_append, hdeparts.took]
  | boot j =>
    obtain ⟨_,rfl⟩ := boot_eq_some.mp hs
    exact hstill rfl rfl
  | run j now =>
    obtain ⟨⟨s,ev⟩,hrun,rfl⟩ := Option.map_eq_some_iff.mp hs
    simp only [State.record]
    rw [tookBy_append, (departs_run h hrun).took]
    rfl
  | execute j vmId =>
    cases executed_of_execute hs with
    | addRequest r hpc => exact tookBy_append _ _
    | pollRequest now cnt len r rest hpc hqueue => exact tookBy_append _ _
    | _ => exact hstill rfl rfl
  | arrive j r =>
    cases hs
    apply hstill rfl
    simp only [State.arrive]
    split <;> rfl
  | throws j =>
    obtain ⟨_,_,rfl⟩ := Option.map_eq_some_iff.mp hs
    exact hstill rfl rfl

theorem took_run {masterStartTime : ℤ} {as : List (Action R)} {st : State R}
    (hr : system.run (start masterStartTime) as = some st)
    (hd : system.Meets Dispatched (start masterStartTime) as) :
    tookBy st.log = takenOut (system.emitted departures (start masterStartTime) as) := by
  have hrun : Fed st ∧
      tookBy st.log = takenOut (system.emitted departures (start masterStartTime) as) := by
    refine LabelledSystem.emitted_invariant
      (I := fun l (u : State R) => Fed u ∧ tookBy u.log = takenOut l) ?_ hr hd
      ⟨fed_start masterStartTime,rfl⟩
    rintro l u a v ⟨hfed,hl⟩ hg hs
    exact ⟨fed_step hfed hg hs,by rw [took_step hfed hs, hl, takenOut_append]⟩
  exact hrun.2

theorem serviceOver_moves {i : VmId} {s s' : Slave R} (h : s.pc.serviceOver = true) (hm : SlaveMoves i s s') :
    s'.pc.serviceOver = true := by
  cases hm with
  | boot hoff =>
    rw [hoff] at h
    cases h
  | run now s' ev hrun =>
    have hran := Slave.ran_of_run hrun
    generalize s.pc = pc at hran h
    generalize s.slQueue = q at hran
    cases hran with
    | lookupMaster tier => rfl
    | deleteVM tier u => rfl
    | _ => cases h
  | reply pc hreply =>
    generalize s.pc = old at hreply h
    cases hreply with
    | deleteVM tier => rfl
    | _ => cases h
  | arrive r => exact h
  | throws s' hthrow =>
    rcases Slave.pc_of_throws hthrow with ⟨tier,d,hpc⟩ | ⟨tier,r,hpc⟩ <;> rw [hpc] <;> rfl

theorem departures_of_serviceOver {st : State R} {i : VmId} (h : (st.slaves i).pc.serviceOver = true)
    (now : ℤ) :
    departures st (.run i now) = [] := by
  simp only [departures]
  split
  · rename_i hpc
    rw [hpc] at h
    cases h
  · rename_i hpc
    rw [hpc] at h
    cases h
  · rename_i hpc
    rw [hpc] at h
    cases h
  · rfl

def fromVm (i : VmId) (l : List (Departure R)) : List (Departure R) := l.filter (fun d => decide (d.vmId = i))

/-- The requests that left the queues in one of the four ways. -/
def leftBy (fate : Fate) (l : List (Departure R)) : List R :=
  (l.filter (fun d => decide (d.fate = fate))).map Departure.request

/-- A slave takes from its queue, and abandons the rest when it shuts down. -/
def TakenThenAbandoned (i : VmId) (l : List (Departure R)) (st : State R) : Prop :=
  ∃ taken abandoned : List R, fromVm i l = taken.map (fun r => ⟨i,.taken,r⟩) ++
    abandoned.map (fun r => ⟨i,.abandoned,r⟩) ∧ (abandoned ≠ [] → (st.slaves i).pc.serviceOver = true)

theorem takenThenAbandoned_step {i : VmId} (hone : i ≠ 1) {l : List (Departure R)} {st st' : State R}
    {a : Action R} (hfed : Fed st) (h : TakenThenAbandoned i l st) (hs : system.step st a = some st') :
    TakenThenAbandoned i (l ++ departures st a) st' := by
  obtain ⟨taken,abandoned,hl,hended⟩ := h
  have hkeep : (st.slaves i).pc.serviceOver = true → (st'.slaves i).pc.serviceOver = true := by
    intro ho
    rcases slaveMoves_of_step hs i with hsame | hmoves
    · rw [hsame]
      exact ho
    · exact serviceOver_moves ho hmoves
  have hstill : fromVm i (departures st a) = [] → TakenThenAbandoned i (l ++ departures st a) st' := by
    intro hnone
    refine ⟨taken,abandoned,?_,fun hne => hkeep (hended hne)⟩
    unfold fromVm at hnone hl ⊢
    rw [List.filter_append, hnone, List.append_nil]
    exact hl
  have hother : ∀ j, i ≠ j → (∀ d ∈ departures st a, d.vmId = j) → fromVm i (departures st a) = [] := by
    intro j hj hvm
    rw [fromVm, List.filter_eq_nil_iff]
    intro d hd
    rw [decide_eq_true_iff, hvm d hd]
    exact hj.symm
  simp only [system] at hs
  cases a with
  | main booting now vmId =>
    obtain ⟨ev,_,hdeparts⟩ := departs_mainStep hs
    exact hstill (hother 1 hone hdeparts.vm)
  | run j now =>
    obtain ⟨⟨s,ev⟩,hrun,rfl⟩ := Option.map_eq_some_iff.mp hs
    by_cases hj : i = j
    · subst hj
      by_cases ho : (st.slaves i).pc.serviceOver = true
      · exact hstill (by rw [departures_of_serviceOver ho]; rfl)
      · have hnone : abandoned = [] := by
          by_contra hne
          exact ho (hended hne)
        subst hnone
        have hran := Slave.ran_of_run hrun
        have hempty := hfed.empty i
        simp only [State.record,State.setSlave,TakenThenAbandoned,Function.update_self]
        simp only [fromVm,departures,List.filter_append] at hl ⊢
        rw [hl]
        generalize (st.slaves i).pc = pc at hran hempty
        generalize (st.slaves i).slQueue = q at hran hempty
        cases hran with
        | frontNext r rest => exact ⟨taken ++ [r],[],by simp,fun hne => absurd rfl hne⟩
        | shutDown tier => exact ⟨taken,q,by simp [List.filter_map,Function.comp_def],fun _ => rfl⟩
        | midDropTail =>
          rw [hempty rfl]
          exact ⟨taken,[],by simp,fun hne => absurd rfl hne⟩
        | _ => exact ⟨taken,[],by simp,fun hne => absurd rfl hne⟩
    · exact hstill (hother j hj (departs_run hfed hrun).vm)
  | _ => exact hstill rfl

theorem takenThenAbandoned_run {masterStartTime : ℤ} {as : List (Action R)} {st : State R}
    (hr : system.run (start masterStartTime) as = some st)
    (hd : system.Meets Dispatched (start masterStartTime) as) {i : VmId} (hone : i ≠ 1) :
    TakenThenAbandoned i (system.emitted departures (start masterStartTime) as) st := by
  have hrun : Fed st ∧
      TakenThenAbandoned i (system.emitted departures (start masterStartTime) as) st := by
    refine LabelledSystem.emitted_invariant
      (I := fun l (u : State R) => Fed u ∧ TakenThenAbandoned i l u) ?_ hr hd
      ⟨fed_start masterStartTime,[],[],rfl,fun hne => absurd rfl hne⟩
    rintro l u a v ⟨hfed,hl⟩ hg hs
    exact ⟨fed_step hfed hg hs,takenThenAbandoned_step hone hfed hl hs⟩
  exact hrun.2

theorem tookBy_filter {masterStartTime : ℤ} {as : List (Action R)} {st : State R}
    (hr : system.run (start masterStartTime) as = some st)
    (hd : system.Meets Dispatched (start masterStartTime) as) (i : VmId) :
    ((taken st.log).filter (fun r => decide (r.origin.vm = i))).map Ticket.request =
      ((fromVm i (system.emitted departures (start masterStartTime) as)).filter
        (fun d => decide (d.fate = .taken))).map Departure.request := by
  have htook := congrArg (fun l => (l.filter (fun x => decide (x.1 = i))).map Prod.snd) (took_run hr hd)
  simp only [tookBy,takenOut,List.filter_map,List.map_map,Function.comp_def] at htook
  rw [fromVm, List.filter_filter]
  rw [List.filter_filter] at htook
  simpa only [Bool.and_comm] using htook

theorem vm_eq_iff {i : VmId} (hone : i ≠ 1) (o : Origin) : o.vm = i ↔ o = .front i := by
  cases o with
  | front id => exact ⟨fun h => congrArg Origin.front h,fun h => Origin.front.inj h⟩
  | master => exact iff_of_false (Ne.symm hone) (fun h => by cases h)
  | masterBoot => exact iff_of_false (Ne.symm hone) (fun h => by cases h)

/-- What has come to a slave is what it has taken, what it has abandoned, and its queue. -/
theorem arrived_eq {masterStartTime : ℤ} {as : List (Action R)} {st : State R}
    (hr : system.run (start masterStartTime) as = some st)
    (hd : system.Meets Dispatched (start masterStartTime) as) {i : VmId} (hone : i ≠ 1) :
    let departed := fromVm i (system.emitted departures (start masterStartTime) as)
    arrivedAt i (system.emitted arrivals (start masterStartTime) as) =
      leftBy .taken departed ++ (leftBy .abandoned departed ++ (st.slaves i).slQueue) ∧
    (ofOrigin (.front i) (taken st.log)).map Ticket.request = leftBy .taken departed ∧
    ((st.slaves i).pc.serviceOver = false → leftBy .abandoned departed = []) := by
  obtain ⟨took,abandoned,hfates,hended⟩ := takenThenAbandoned_run hr hd hone
  have hqueue := ownQueue_run hr hd i
  have htaken := tookBy_filter hr hd i
  simp only [vm_eq_iff hone] at htaken
  rw [ownQueue, if_neg hone, departedFrom, ← fromVm, hfates, List.map_append, map_request, map_request,
    List.append_assoc] at hqueue
  intro departed
  have htook : leftBy .taken departed = took := by
    simp [leftBy,departed,hfates,List.filter_append,List.filter_map,Function.comp_def]
  have hleft : leftBy .abandoned departed = abandoned := by
    simp [leftBy,departed,hfates,List.filter_append,List.filter_map,Function.comp_def]
  refine ⟨?_,htaken,?_⟩
  · rw [htook, hleft]
    exact hqueue
  · intro hserving
    rw [hleft]
    by_contra hne
    rw [hended hne] at hserving
    cases hserving

/-- The requests that come to one front server are handed to the mid tier in the order in
which they came, none skipped; while it serves, what it has not taken is still in its own
queue. The master skips some of its own in boot, and keeps the order of the rest. -/
theorem polled_in_arrival_order (masterStartTime : ℤ) (as : List (Action R)) (st : State R)
    (hr : system.run (start masterStartTime) as = some st)
    (hd : system.Meets Dispatched (start masterStartTime) as) :
    let arrived := system.emitted arrivals (start masterStartTime) as
    (∀ i, i ≠ 1 → (ofOrigin (.front i) (polled st.log)).map Ticket.request <+: arrivedAt i arrived ∧
      ((st.slaves i).pc.serviceOver = false → arrivedAt i arrived =
        (ofOrigin (.front i) (taken st.log)).map Ticket.request ++ (st.slaves i).slQueue)) ∧
    ((ofOrigin .master (polled st.log)).map Ticket.request).Sublist (arrivedAt 1 arrived) := by
  intro arrived
  have haccounts : Accounts st := accounts_run hr
  have hpolled : ∀ o, ofOrigin o (polled st.log) <+: ofOrigin o (queued st.log) := by
    intro o
    rw [haccounts.channel, ofOrigin_append]
    exact List.prefix_append _ _
  constructor
  · intro i hone
    obtain ⟨harrived,htaken,hnone⟩ := arrived_eq hr hd hone
    rw [← htaken] at harrived
    refine ⟨?_,?_⟩
    · have hinit : ofOrigin (.front i) (polled st.log) <+: ofOrigin (.front i) (taken st.log) :=
        (hpolled _).trans (haccounts.source i ▸ List.prefix_append _ _)
      rw [show arrivedAt i arrived = _ from harrived]
      exact (hinit.map Ticket.request).trans (List.prefix_append _ _)
    · intro hserving
      rw [show arrivedAt i arrived = _ from harrived, hnone hserving, List.nil_append]
  · have hinit : ofOrigin .master (polled st.log) <+: ofOrigin .master (taken st.log) :=
      (hpolled _).trans (haccounts.master ▸ List.prefix_append _ _)
    have hsub : (ofOrigin .master (taken st.log)).Sublist
        ((taken st.log).filter (fun r => decide (r.origin.vm = 1))) := by
      refine List.monotone_filter_right _ (fun r hr => ?_)
      rw [of_decide_eq_true hr]
      rfl
    have hqueue := ownQueue_run hr hd 1
    rw [show arrivedAt 1 arrived = _ from hqueue]
    refine ((hinit.sublist.trans hsub).map Ticket.request).trans ?_
    rw [tookBy_filter hr hd 1]
    exact (List.filter_sublist.map _).trans (List.sublist_append_left _ _)

theorem vms_subset_of_step {st st' : State R} {a : Action R} (h : Inv st)
    (hs : system.step st a = some st') : st.vms ⊆ st'.vms := by
  cases peopled_of_step h hs with
  | launch x hlaunch hnew hvms hmap =>
    rw [hvms]
    exact Finset.subset_insert _ _
  | same hlaunch hvms hmap => rw [hvms]
  | deregister i tier hlaunch hpc hvms hmap => rw [hvms]

theorem known_run {masterStartTime : ℤ} {as : List (Action R)} {st : State R}
    (hr : system.run (start masterStartTime) as = some st)
    (hd : system.Meets Dispatched (start masterStartTime) as) :
    (∀ x ∈ system.emitted arrivals (start masterStartTime) as, x.1 ∈ insert 1 st.vms) ∧
    ∀ d ∈ system.emitted departures (start masterStartTime) as, d.vmId ∈ insert 1 st.vms := by
  have hgrow : ∀ (i : VmId) (u : State R) a v, Fed u → system.step u a = some v →
      i ∈ insert 1 u.vms → i ∈ insert 1 v.vms :=
    fun i u a v hu hs hi => Finset.insert_subset_insert 1 (vms_subset_of_step hu.inv hs) hi
  have hfed : ∀ (u : State R) a v, Fed u → Dispatched u a → system.step u a = some v → Fed v :=
    fun _ _ _ hu hg hs => fed_step hu hg hs
  constructor
  · refine LabelledSystem.forall_mem_emitted (P := fun (x : VmId × R) u => x.1 ∈ insert 1 u.vms) hfed ?_
      (fun x => hgrow x.1) hr hd (fed_start masterStartTime)
    intro u a v hu hg hs x hx
    apply hgrow x.1 u a v hu hs
    cases a with
    | arrive i r =>
      rw [List.mem_singleton.mp hx]
      rcases hg with rfl | hreg
      · exact Finset.mem_insert_self _ _
      · apply Finset.mem_insert_of_mem
        apply hu.inv.mem_vms
        intro hoff
        rw [hoff] at hreg
        cases hreg
    | _ => cases hx
  · refine LabelledSystem.forall_mem_emitted (P := fun (d : Departure R) u => d.vmId ∈ insert 1 u.vms) hfed ?_
      (fun d => hgrow d.vmId) hr hd (fed_start masterStartTime)
    intro u a v hu hg hs d hd
    apply hgrow d.vmId u a v hu hs
    cases a with
    | main booting now vmId =>
      obtain ⟨_,_,hdeparts⟩ := departs_mainStep hs
      rw [hdeparts.vm d hd]
      exact Finset.mem_insert_self _ _
    | run i now =>
      obtain ⟨⟨s,ev⟩,hrun,_⟩ := Option.map_eq_some_iff.mp hs
      rw [(departs_run hu hrun).vm d hd]
      exact Finset.mem_insert_of_mem (hu.inv.mem_vms (Slave.ne_off_of_run hrun))
    | _ => cases hd

/-- A mid server's `SL.dropTail()` finds its queue empty. -/
theorem fate_ne_tailDropped {st : State R} (h : Fed st) {a : Action R} :
    ∀ d ∈ departures st a, d.fate ≠ .tailDropped := by
  intro d hd
  cases a with
  | main booting now vmId =>
    simp only [departures] at hd
    split at hd
    · obtain ⟨r,_,rfl⟩ := List.mem_map.mp hd
      dsimp only
      split <;> exact fun he => by cases he
    · split at hd
      · obtain ⟨r,_,rfl⟩ := List.mem_map.mp hd
        exact fun he => by cases he
      · cases hd
    · obtain ⟨r,_,rfl⟩ := List.mem_map.mp hd
      exact fun he => by cases he
    · cases hd
  | run i now =>
    simp only [departures] at hd
    split at hd
    · obtain ⟨r,_,rfl⟩ := List.mem_map.mp hd
      exact fun he => by cases he
    · rename_i hpc
      rw [h.empty i (by rw [hpc]; rfl)] at hd
      cases hd
    · obtain ⟨r,_,rfl⟩ := List.mem_map.mp hd
      exact fun he => by cases he
    · cases hd
  | _ => cases hd

theorem dropTail_free {masterStartTime : ℤ} {as : List (Action R)} {st : State R}
    (hr : system.run (start masterStartTime) as = some st)
    (hd : system.Meets Dispatched (start masterStartTime) as) :
    ∀ d ∈ system.emitted departures (start masterStartTime) as, d.fate ≠ .tailDropped :=
  LabelledSystem.forall_mem_emitted (P := fun (d : Departure R) (_ : State R) => d.fate ≠ .tailDropped)
    (fun _ _ _ hu hg hs => fed_step hu hg hs) (fun _ _ _ hu _ _ => fate_ne_tailDropped hu)
    (fun _ _ _ _ _ _ hd => hd) hr hd (fed_start masterStartTime)

/-- Where the load balancer gives requests only to registered front ends, no other slave
ever has one in its own queue, and in no run does `SL.dropTail()`, which `midRoutine` calls
on overload, drop anything. -/
theorem dropTail_dropsNothing (masterStartTime : ℤ) (as : List (Action R)) (st : State R)
    (hr : system.run (start masterStartTime) as = some st)
    (hd : system.Meets Dispatched (start masterStartTime) as) :
    (∀ i, (st.slaves i).pc.registered = false → (st.slaves i).slQueue = []) ∧
    ∀ d ∈ system.emitted departures (start masterStartTime) as, d.fate ≠ .tailDropped :=
  ⟨(fed_run hr hd).empty,dropTail_free hr hd⟩

def waiting (st : State R) : Multiset R := ∑ i ∈ insert 1 st.vms, (ownQueue st i : Multiset R)

/-- The requests that servers and calls under way hold. -/
def inHand (st : State R) : Multiset (Ticket R) := ∑ i ∈ st.vms, holding (st.slaves i) + st.main.held.toList

theorem Accounts.taken_eq {st : State R} (h : Accounts st) : (taken st.log : Multiset (Ticket R)) =
    inHand st + (st.requestQueue + (processed st.log + dropped st.log)) := by
  have htotal := h.total
  rw [coe_obtained, coe_settled, h.channel, ← Multiset.coe_add] at htotal
  apply add_right_cancel (b := (polled st.log : Multiset (Ticket R)))
  rw [htotal, inHand]
  abel

/-- Every request that ever came to the cluster is, once for each time it came: still in a
`ServerLib` queue, in the hands of a server, in `requestQueue`, processed, dropped by a mid
server, dropped from the master's queue in boot, or abandoned by a front server that shut
down; whatever calls throw. -/
theorem arrivals_conserved (masterStartTime : ℤ) (as : List (Action R)) (st : State R)
    (hr : system.run (start masterStartTime) as = some st)
    (hd : system.Meets Dispatched (start masterStartTime) as) :
    let arrived := system.emitted arrivals (start masterStartTime) as
    let departed := system.emitted departures (start masterStartTime) as
    (arrived.map Prod.snd : Multiset R) =
      waiting st + ((inHand st + (st.requestQueue + (processed st.log + dropped st.log))).map Ticket.request) +
        (leftBy .headDropped departed + leftBy .abandoned departed) := by
  intro arrived departed
  obtain ⟨hknown,hknown'⟩ := known_run hr hd
  have hqueues : (arrived.map Prod.snd : Multiset R) =
      (departed.map Departure.request : Multiset R) + waiting st := by
    rw [← IndexedSum.sum_map_filter Prod.fst Prod.snd hknown,
      ← IndexedSum.sum_map_filter Departure.vmId Departure.request hknown', waiting, ← Finset.sum_add_distrib]
    apply Finset.sum_congr rfl
    intro i _
    exact (congrArg _ (ownQueue_run hr hd i)).trans (Multiset.coe_add _ _).symm
  have hfates : (departed.map Departure.request : Multiset R) = (leftBy .taken departed : Multiset R) +
      (leftBy .headDropped departed + leftBy .abandoned departed) := by
    have hsum := IndexedSum.sum_map_filter (s := {.taken,.headDropped,.tailDropped,.abandoned})
      Departure.fate Departure.request (l := departed) (fun d _ => by cases d.fate <;> decide)
    have hnone : departed.filter (fun d => decide (d.fate = .tailDropped)) = [] := by
      rw [List.filter_eq_nil_iff]
      intro d hmem
      rw [decide_eq_true_iff]
      exact (dropTail_free hr hd) d hmem
    rw [← hsum, Finset.sum_insert (by decide), Finset.sum_insert (by decide),
      Finset.sum_insert (by decide), Finset.sum_singleton, hnone]
    simp only [leftBy,List.map_nil,Multiset.coe_nil,zero_add]
  have htaken : leftBy .taken departed = (taken st.log).map Ticket.request := by
    have htook := congrArg (fun l => l.map Prod.snd) (took_run hr hd)
    simp only [tookBy,takenOut,List.map_map,Function.comp_def] at htook
    exact htook.symm
  have haccounts : (taken st.log : Multiset (Ticket R)) = _ := (accounts_run hr).taken_eq
  rw [hqueues, hfates, htaken, ← Multiset.map_coe, haccounts]
  abel

theorem log_prefix_of_step {st st' : State R} {a : Action R} (hs : system.step st a = some st') :
    st.log <+: st'.log := by
  simp only [system] at hs
  cases a with
  | main booting now vmId =>
    obtain ⟨ev,hlog,_⟩ := departs_mainStep hs
    exact ⟨ev,hlog.symm⟩
  | boot j =>
    obtain ⟨_,rfl⟩ := boot_eq_some.mp hs
    exact List.prefix_rfl
  | run j now =>
    obtain ⟨⟨s,ev⟩,_,rfl⟩ := Option.map_eq_some_iff.mp hs
    exact List.prefix_append _ _
  | execute j vmId =>
    cases executed_of_execute hs with
    | addRequest r hpc => exact List.prefix_append _ _
    | pollRequest now cnt len r rest hpc hqueue => exact List.prefix_append _ _
    | _ => exact List.prefix_rfl
  | arrive j r =>
    cases hs
    simp only [State.arrive]
    split <;> exact List.prefix_rfl
  | throws j =>
    obtain ⟨_,_,rfl⟩ := Option.map_eq_some_iff.mp hs
    exact List.prefix_rfl

theorem log_prefix_of_run {st st' : State R} {as : List (Action R)} (hr : system.run st as = some st') :
    st.log <+: st'.log :=
  LabelledSystem.run_invariant (I := fun u : State R => st.log <+: u.log)
    (fun _ _ _ hu hs => hu.trans (log_prefix_of_step hs)) hr List.prefix_rfl

/-- What is polled from a moment on and is in the queue after it was in the queue then or has
come into it since. -/
theorem channel_since {masterStartTime : ℤ} {as bs : List (Action R)} {st st' : State R}
    (hr : system.run (start masterStartTime) as = some st) (hr' : system.run st bs = some st') :
    ∃ ev, st'.log = st.log ++ ev ∧ polled st'.log = polled st.log ++ polled ev ∧
      polled ev ++ st'.requestQueue = st.requestQueue ++ queued ev := by
  have hnow : tickets [.queued] st.log = tickets [.polled] st.log ++ st.requestQueue :=
    (accounts_run hr).channel
  have hlater : queued st'.log = polled st'.log ++ st'.requestQueue :=
    (accounts_run (LabelledSystem.run_append_eq_some.mpr ⟨st,hr,hr'⟩)).channel
  obtain ⟨ev,hlog⟩ := log_prefix_of_run hr'
  refine ⟨ev,hlog.symm,by rw [← hlog, polled, tickets_append],?_⟩
  rw [← hlog, queued, polled, tickets_append, tickets_append, hnow, List.append_assoc, List.append_assoc,
    List.append_cancel_left_eq] at hlater
  exact hlater.symm

/-- Nothing overtakes in `requestQueue`: the requests that are in it at any moment are the
next ones that mid servers poll, in its order, before any that come later, whoever polls and
whoever crashes. -/
theorem polled_next (masterStartTime : ℤ) (as bs : List (Action R)) (st st' : State R)
    (hr : system.run (start masterStartTime) as = some st) (hr' : system.run st bs = some st') :
    ∃ next, polled st'.log = polled st.log ++ next ∧
      (next <+: st.requestQueue ∨ st.requestQueue <+: next) := by
  obtain ⟨ev,_,hpolled,hsince⟩ := channel_since hr hr'
  refine ⟨polled ev,hpolled,?_⟩
  have hnext : polled ev <+: st.requestQueue ++ queued ev := hsince ▸ List.prefix_append _ _
  exact List.prefix_or_prefix_of_prefix hnext (List.prefix_append _ _)

/-- Front server 3 is taken up, gets two requests and brings the first into `requestQueue`
while the master gets one. -/
def frontServes : List (Action ℕ) :=
  [.main false 0 2,.main false 0 3,.boot 3,.run 3 0,.execute 3 0,.run 3 0,.run 3 0,.arrive 3 7,
    .arrive 3 8,.arrive 1 9,.run 3 0,.execute 3 0,.run 3 0,.execute 3 0,.run 3 0,.run 3 0,
    .execute 3 0,.run 3 0]

def midPolls : List (Action ℕ) :=
  [.boot 2,.run 2 0,.execute 2 0,.run 2 0,.run 2 0,.run 2 0,.execute 2 0,.run 2 0,.execute 2 0,
    .run 2 0,.execute 2 0]

theorem polled_in_arrival_order_frontServes : ∃ st, system.run (start 0) frontServes = some st ∧
    [7,8] = (ofOrigin (.front 3) (taken st.log)).map Ticket.request ++ (st.slaves 3).slQueue := by
  have hrun : ∃ st, system.run (start 0) frontServes = some st ∧
      (st.slaves 3).pc.serviceOver = false := by decide
  obtain ⟨st,hst,hserving⟩ := hrun
  have hfifo := (polled_in_arrival_order 0 frontServes st hst (by decide)).1 3 (by decide)
  exact ⟨st,hst,hfifo.2 hserving⟩

/-- A request waits at front server 3; mid server 2 finds four others in `requestQueue`, starts
VM 9 and drops the one it has polled. -/
def overloadedServer : List (Action ℕ) :=
  [.main false 0 2,.main false 0 3,.boot 3,.run 3 0,.execute 3 0,.run 3 0,.run 3 0,.arrive 3 7,
    .arrive 1 0,.arrive 1 1,.arrive 1 2,.arrive 1 3] ++ List.replicate 16 (.main false 1 0) ++
    [.boot 2,.run 2 0,.execute 2 0,.run 2 0,.run 2 0,.run 2 500,.execute 2 0,.run 2 0,.execute 2 0,
      .run 2 0,.execute 2 0,.run 2 500,.execute 2 9,.run 2 0,.run 2 0]

theorem dropTail_dropsNothing_overloadedServer : ∃ st st',
    system.run (start 0) overloadedServer = some st ∧ (st.slaves 2).pc = .midDropTail ∧
    system.run (start 0) (overloadedServer ++ [.run 2 0]) = some st' ∧
    ∀ d ∈ system.emitted departures (start 0) (overloadedServer ++ [.run 2 0]), d.fate ≠ .tailDropped := by
  have hrun : ∃ st, system.run (start 0) overloadedServer = some st ∧ (st.slaves 2).pc = .midDropTail := by
    decide +kernel
  have hnext : (system.run (start 0) (overloadedServer ++ [.run 2 0])).isSome := by decide +kernel
  obtain ⟨st,hst,hpc⟩ := hrun
  obtain ⟨st',hst'⟩ := Option.isSome_iff_exists.mp hnext
  exact ⟨st,st',hst,hpc,hst',(dropTail_dropsNothing 0 _ st' hst' (by decide +kernel)).2⟩

theorem arrivals_conserved_frontServes : ∃ st, system.run (start 0) frontServes = some st ∧
    ({7,8,9} : Multiset ℕ) = waiting st + ((inHand st + (st.requestQueue +
        (processed st.log + dropped st.log))).map Ticket.request) +
      (leftBy .headDropped (system.emitted departures (start 0) frontServes) +
        leftBy .abandoned (system.emitted departures (start 0) frontServes)) := by
  have hrun : (system.run (start 0) frontServes).isSome := by decide
  obtain ⟨st,hst⟩ := Option.isSome_iff_exists.mp hrun
  exact ⟨st,hst,arrivals_conserved 0 frontServes st hst (by decide)⟩

theorem polled_next_midPolls : ∃ st st', system.run (start 0) frontServes = some st ∧
    system.run st midPolls = some st' ∧ ∃ next, polled st'.log = polled st.log ++ next ∧
      (next <+: st.requestQueue ∨ st.requestQueue <+: next) := by
  have hrun : ∃ st, system.run (start 0) frontServes = some st ∧ (system.run st midPolls).isSome := by decide
  obtain ⟨st,hst,hmore⟩ := hrun
  obtain ⟨st',hst'⟩ := Option.isSome_iff_exists.mp hmore
  exact ⟨st,st',hst,hst',polled_next 0 frontServes midPolls st st' hst hst'⟩

end Cluster
end AutoScaling
