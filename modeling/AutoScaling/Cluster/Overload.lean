import AutoScaling.Cluster.Launches
import AutoScaling.Cluster.MidRoutine
import AutoScaling.Cluster.SlaveSteps

/-! # What overload and haste cost

A mid server that finds the queue too long starts another one and drops the request that it
has just polled, and it drops one that comes on twenty others too fast. Every request that
it polls pays for a VM, for a place in its log, or for a step towards the next fast drop.
-/
namespace AutoScaling

namespace SlavePc
variable {R : Type*}

/-- Whether the slave holds a request that it may still process, or start a VM for. -/
def credit : SlavePc R → ℕ
  | .midPoll _ _ _ (.replied (some _)) => 1
  | .midScaleOut _ _ _ .sent => 1
  | .midProcess _ _ => 1
  | _ => 0

/-- What a request in hand has to pay for: a step of the counter, or a drop. -/
def owed : SlavePc R → ℤ
  | .midPoll _ _ _ (.replied (some _)) => 1
  | .midFastDrop _ => 21
  | .midScaleOut _ _ _ (.replied _) => 21
  | .midDrop _ => 21
  | _ => 0

end SlavePc

namespace Cluster
variable {R : Type*}

def overloads (i : VmId) (started : List Launch) : ℕ :=
  started.countP (fun x => decide (x.cause = .overload i))

/-- What server `i` has started and processed, and may yet, it has polled requests for; and
so for what it has dropped, at 21 requests a drop, beyond what it has started. -/
structure Paid (i : VmId) (started : List Launch) (st : State R) : Prop where
  starts : overloads i started + (processed (byVm i st.log)).length + (st.slaves i).pc.credit ≤
    (polled (byVm i st.log)).length
  drops : 21 * ((dropped (byVm i st.log)).length : ℤ) + (st.slaves i).statics.fastRequestCount +
    (st.slaves i).pc.owed ≤ (polled (byVm i st.log)).length + 21 * overloads i started
  count_nonneg : 0 ≤ (st.slaves i).statics.fastRequestCount
  count_le : (st.slaves i).statics.fastRequestCount ≤ 20

/-- What a step costs slave `i` and brings it. -/
structure Pays (i : VmId) (l : List Launch) (ev : List (Event R)) (s s' : Slave R) : Prop where
  starts : overloads i l + (processed (byVm i ev)).length + s'.pc.credit ≤
    (polled (byVm i ev)).length + s.pc.credit
  drops : 21 * ((dropped (byVm i ev)).length : ℤ) + s'.statics.fastRequestCount + s'.pc.owed ≤
    (polled (byVm i ev)).length + 21 * overloads i l + s.statics.fastRequestCount + s.pc.owed
  count_nonneg : 0 ≤ s'.statics.fastRequestCount
  count_le : s'.statics.fastRequestCount ≤ 20

theorem Paid.pays {i : VmId} {started l : List Launch} {st st' : State R} (h : Paid i started st)
    {ev : List (Event R)} (hlog : st'.log = st.log ++ ev)
    (hstep : Pays i l ev (st.slaves i) (st'.slaves i)) : Paid i (started ++ l) st' := by
  have hcount : overloads i (started ++ l) = overloads i started + overloads i l := List.countP_append
  obtain ⟨hstarts,hdrops,_,_⟩ := h
  obtain ⟨hstarts',hdrops',hnonneg,hle⟩ := hstep
  simp only [processed,polled,dropped] at hstarts hdrops hstarts' hdrops'
  constructor
  · simp only [processed,polled]
    rw [hcount, hlog, byVm_append, tickets_append, tickets_append, List.length_append, List.length_append]
    omega
  · simp only [dropped,polled]
    rw [hcount, hlog, byVm_append, tickets_append, tickets_append, List.length_append, List.length_append]
    push_cast
    omega
  · exact hnonneg
  · exact hle

theorem frontScaleIn_fastRequestCount (st : Statics) (cnt len : ℤ) :
    (st.frontScaleIn cnt len).1.fastRequestCount = st.fastRequestCount := by
  unfold Statics.frontScaleIn
  split <;> rfl

theorem dropFastRequest_keeps {st : Statics} (now : ℤ) (h0 : 0 ≤ st.fastRequestCount)
    (h20 : st.fastRequestCount ≤ 20) :
    0 ≤ (st.dropFastRequest now).1.fastRequestCount ∧
      (st.dropFastRequest now).1.fastRequestCount ≤ 20 ∧
      (st.dropFastRequest now).1.fastRequestCount ≤ st.fastRequestCount + 1 := by
  rw [(st.dropFastRequest_spec now h0 h20).1]
  split_ifs <;> omega

theorem dropFastRequest_drops {st : Statics} {now : ℤ} (h0 : 0 ≤ st.fastRequestCount)
    (h20 : st.fastRequestCount ≤ 20) (hdrop : (st.dropFastRequest now).2 = true) :
    st.fastRequestCount = 20 ∧ (st.dropFastRequest now).1.fastRequestCount = 0 := by
  obtain ⟨hcount,hiff⟩ := st.dropFastRequest_spec now h0 h20
  obtain ⟨_,hfull⟩ := hiff.mp hdrop
  refine ⟨hfull,?_⟩
  rw [hcount, if_neg (fun h => by omega)]

theorem lengths_polled (i : VmId) (r : Ticket R) : (polled (byVm i [Event.polled i r])).length = 1 ∧
    (dropped (byVm i [Event.polled i r])).length = 0 ∧
    (processed (byVm i [Event.polled i r])).length = 0 := by
  simp [byVm,Event.actor,Event.kind]

theorem lengths_dropped (i : VmId) (r : Ticket R) : (dropped (byVm i [Event.dropped i r])).length = 1 ∧
    (polled (byVm i [Event.dropped i r])).length = 0 ∧
    (processed (byVm i [Event.dropped i r])).length = 0 := by
  simp [byVm,Event.actor,Event.kind]

/-- A request that `dropFastRequest` has let pass takes its counter one step on at most. -/
theorem Pays.keep {i : VmId} {st : Statics} {now : ℤ} {q : List R} {pc pc' : SlavePc R}
    (h0 : 0 ≤ st.fastRequestCount) (h20 : st.fastRequestCount ≤ 20) (hcredit : pc'.credit ≤ pc.credit)
    (howed : pc'.owed + 1 ≤ pc.owed) : Pays i [] [] ⟨pc,st,q⟩ ⟨pc',(st.dropFastRequest now).1,q⟩ := by
  obtain ⟨hnonneg,hle,hnext⟩ := dropFastRequest_keeps now h0 h20
  refine ⟨?_,?_,hnonneg,hle⟩
  · simpa [byVm,overloads] using hcredit
  · simp only [byVm,List.filter_nil,tickets_nil,List.length_nil,overloads,List.countP_nil]
    omega

theorem Pays.drop {i : VmId} {st : Statics} {q : List R} {pc pc' : SlavePc R} (r : Ticket R)
    (h0 : 0 ≤ st.fastRequestCount) (h20 : st.fastRequestCount ≤ 20) (hcredit : pc'.credit ≤ pc.credit)
    (howed : pc'.owed + 21 ≤ pc.owed) : Pays i [] [.dropped i r] ⟨pc,st,q⟩ ⟨pc',st,q⟩ := by
  obtain ⟨hdropped,hpolled,hprocessed⟩ := lengths_dropped i r
  refine ⟨?_,?_,h0,h20⟩
  · rw [hpolled, hprocessed]
    simpa [overloads] using hcredit
  · rw [hpolled, hdropped]
    simp only [overloads,List.countP_nil]
    omega

theorem pays_run {i : VmId} {s s' : Slave R} {now : ℤ} {ev : List (Event R)}
    (h : s.run i now = some (s',ev)) (h0 : 0 ≤ s.statics.fastRequestCount)
    (h20 : s.statics.fastRequestCount ≤ 20) : Pays i [] ev s s' := by
  have hran := Slave.ran_of_run h
  rcases s with ⟨pc,st,q⟩
  dsimp only at h0 h20 hran
  cases hran with
  | frontShutDown cnt len hshut =>
    have hcount := frontScaleIn_fastRequestCount st cnt len
    constructor <;> simp [byVm,SlavePc.credit,SlavePc.owed,overloads,hcount,h0,h20]
  | frontStay cnt len hstay =>
    have hcount := frontScaleIn_fastRequestCount st cnt len
    constructor <;> simp [byVm,SlavePc.credit,SlavePc.owed,overloads,hcount,h0,h20]
  | midShed start cnt len r hshed =>
    obtain ⟨hfull,hzero⟩ := dropFastRequest_drops h0 h20 hshed
    constructor <;> simp [byVm,SlavePc.credit,SlavePc.owed,overloads,hfull,hzero]
  | midOver start cnt len r hkeep hover => exact .keep h0 h20 (Nat.le_refl 1) (le_refl 1)
  | midServe start cnt len r hkeep hover => exact .keep h0 h20 (Nat.le_refl 1) (le_refl 1)
  | midFastDrop r => exact .drop r h0 h20 (Nat.le_refl 0) (le_refl 21)
  | midDrop r => exact .drop r h0 h20 (Nat.le_refl 0) (le_refl 21)
  | _ =>
    constructor <;>
      simp [byVm,Event.actor,Event.kind,Origin.vm,SlavePc.credit,SlavePc.owed,overloads,h0,h20]

theorem Pays.quiet {i : VmId} {l : List Launch} {ev : List (Event R)} {s s' : Slave R}
    (hl : overloads i l = 0) (hev : ∀ e ∈ byVm i ev, e.kind = .queued) (hst : s'.statics = s.statics)
    (hcredit : s'.pc.credit ≤ s.pc.credit) (howed : s'.pc.owed ≤ s.pc.owed)
    (h0 : 0 ≤ s.statics.fastRequestCount) (h20 : s.statics.fastRequestCount ≤ 20) :
    Pays i l ev s s' := by
  have hnone : ∀ k, k ≠ Kind.queued → (tickets [k] (byVm i ev)).length = 0 := fun k hk => by
    rw [tickets_of_queued hev hk, List.length_nil]
  constructor
  · simp only [processed,polled]
    rw [hl, hnone .processed (by decide), hnone .polled (by decide)]
    omega
  · simp only [dropped,polled]
    rw [hl, hst, hnone .dropped (by decide), hnone .polled (by decide)]
    omega
  · rw [hst]
    exact h0
  · rw [hst]
    exact h20

theorem owed_nonneg (pc : SlavePc R) : 0 ≤ pc.owed := by
  unfold SlavePc.owed
  split <;> omega

theorem throws_spec {s s' : Slave R} (h : s.throws = some s') :
    s'.statics = s.statics ∧ s'.pc.credit = 0 ∧ s'.pc.owed = 0 := by
  rcases s with ⟨pc,st,q⟩
  cases pc with
  | deleteVM tier a => cases a <;> cases h <;> exact ⟨rfl,rfl,rfl⟩
  | getTier a => cases a <;> cases h <;> exact ⟨rfl,rfl,rfl⟩
  | _ => cases h <;> exact ⟨rfl,rfl,rfl⟩

theorem pays_execute {i vmId : VmId} {st st' : State R} (hs : Executed st i st')
    (h0 : 0 ≤ (st.slaves i).statics.fastRequestCount)
    (h20 : (st.slaves i).statics.fastRequestCount ≤ 20) :
    ∃ ev, st'.log = st.log ++ ev ∧
      Pays i (launches st (.execute i vmId)) ev (st.slaves i) (st'.slaves i) := by
  cases hs with
  | answer pc ha =>
    refine ⟨[],(List.append_nil _).symm,?_⟩
    simp only [launches,State.setPc,State.setSlave,Function.update_self,Slave.goto]
    generalize hold : (st.slaves i).pc = old at ha
    cases ha <;> refine .quiet rfl (fun e he => by cases he) rfl ?_ ?_ h0 h20 <;> rw [hold] <;>
      exact le_refl _
  | addRequest r hpc =>
    refine ⟨[.queued r],rfl,?_⟩
    simp only [launches,hpc,State.setPc,State.setSlave,Function.update_self,Slave.goto]
    refine .quiet rfl ?_ rfl ?_ ?_ h0 h20
    · intro e he
      rw [List.mem_singleton.mp (List.mem_filter.mp he).1]
      rfl
    · exact Nat.zero_le _
    · exact owed_nonneg _
  | pollRequest now cnt len r rest hpc hqueue =>
    refine ⟨[.polled i r],rfl,?_⟩
    obtain ⟨hpolled,hdropped,hprocessed⟩ := lengths_polled i r
    simp only [launches,hpc,State.setPc,State.setSlave,State.record,Function.update_self,Slave.goto]
    refine ⟨?_,?_,h0,h20⟩
    · rw [hpolled, hprocessed, hpc]
      simp only [overloads,List.countP_nil,SlavePc.credit]
      omega
    · rw [hpolled, hdropped, hpc]
      simp only [overloads,List.countP_nil,SlavePc.owed]
      omega
  | scaleOut vmId' cnt len r hpc hnew =>
    refine ⟨[],(List.append_nil _).symm,?_⟩
    have hone : overloads i [⟨vmId,.mid,.overload i⟩] = 1 := by simp [overloads]
    simp only [launches,hpc,State.setPc,State.setSlave,Function.update_self,Slave.goto]
    refine ⟨?_,?_,h0,h20⟩
    · rw [hone, hpc]
      simp only [byVm,List.filter_nil,tickets_nil,List.length_nil,SlavePc.credit]
      omega
    · rw [hone, hpc]
      simp only [byVm,List.filter_nil,tickets_nil,List.length_nil,SlavePc.owed]
      omega
  | deleteVM tier hpc =>
    refine ⟨[],(List.append_nil _).symm,?_⟩
    simp only [launches,hpc,State.setPc,State.setSlave,Function.update_self,Slave.goto]
    exact .quiet rfl (fun e he => by cases he) rfl (Nat.zero_le _) (owed_nonneg _) h0 h20

theorem overloads_of_other {i : VmId} {st : State R} {a : Action R} (h : a.isStepOf i = false) :
    overloads i (launches st a) = 0 := by
  cases a with
  | main booting now vmId =>
    simp only [launches]
    split <;> simp [overloads]
  | execute j vmId =>
    have hj : j ≠ i := of_decide_eq_false h
    simp only [launches]
    split <;> simp [overloads,hj]
  | _ => rfl

theorem paid_step {i : VmId} (hone : i ≠ 1) {started : List Launch} {st st' : State R} {a : Action R}
    (h : Paid i started st) (hs : system.step st a = some st') : Paid i (started ++ launches st a) st' := by
  have h0 := h.count_nonneg
  have h20 := h.count_le
  have hnothing : ∀ e ∈ byVm i ([] : List (Event R)), e.kind = .queued := fun e he => by cases he
  cases seen_of_step hs hone with
  | other hown hslave ev hlog hev =>
    refine h.pays hlog ?_
    rw [hslave]
    exact .quiet (overloads_of_other hown) hev rfl (Nat.le_refl _) (le_refl _) h0 h20
  | boot ha hoff hslave hlog =>
    subst ha
    refine h.pays (hlog.trans (List.append_nil _).symm) ?_
    rw [hslave]
    exact .quiet rfl hnothing rfl (Nat.zero_le _) (owed_nonneg _) h0 h20
  | arrive r ha hslave hlog =>
    subst ha
    refine h.pays (hlog.trans (List.append_nil _).symm) ?_
    rw [hslave]
    exact .quiet rfl hnothing rfl (Nat.le_refl _) (le_refl _) h0 h20
  | throws s ha hthrow hslave hlog =>
    subst ha
    obtain ⟨hst,hcredit,howed⟩ := throws_spec hthrow
    refine h.pays (hlog.trans (List.append_nil _).symm) ?_
    rw [hslave]
    refine .quiet rfl hnothing hst ?_ ?_ h0 h20
    · rw [hcredit]
      exact Nat.zero_le _
    · rw [howed]
      exact owed_nonneg _
  | run now s ev ha hrun hslave hlog =>
    subst ha
    refine h.pays hlog ?_
    rw [hslave]
    exact pays_run hrun h0 h20
  | execute vmId ha hexec =>
    subst ha
    obtain ⟨ev,hlog,hpays⟩ := pays_execute hexec h0 h20
    exact h.pays hlog hpays

theorem paid_run {masterStartTime : ℤ} {as : List (Action R)} {st : State R}
    (hr : system.run (start masterStartTime) as = some st) {i : VmId} (hone : i ≠ 1) :
    Paid i (system.emitted launches (start masterStartTime) as) st :=
  LabelledSystem.emitted_invariant (I := fun l (u : State R) => Paid i l u) (G := fun _ _ => True)
    (fun _ _ _ _ hl _ hs => paid_step hone hl hs) hr (LabelledSystem.meets_true hr)
    ⟨Nat.le_refl 0,le_refl 0,le_refl 0,(by decide : (0 : ℤ) ≤ 20)⟩

/-- Scaling out on overload costs the clients: for each VM that a mid server starts it has
polled a request which it will never process. -/
theorem overload_paid (masterStartTime : ℤ) (as : List (Action R)) (st : State R)
    (hr : system.run (start masterStartTime) as = some st) (i : VmId) (hone : i ≠ 1) :
    overloads i (system.emitted launches (start masterStartTime) as) +
      (processed (byVm i st.log)).length ≤ (polled (byVm i st.log)).length := by
  have hstarts := (paid_run hr hone).starts
  omega

/-- The only mid server finds four requests waiting and starts VM 9. -/
def oneOverload : List (Action ℕ) :=
  [.main false 0 2,.main false 0 3,.arrive 1 0,.arrive 1 1,.arrive 1 2,.arrive 1 3] ++
    List.replicate 16 (.main false 1 0) ++
    [.boot 2,.run 2 0,.execute 2 0,.run 2 0,.run 2 0,.run 2 500,.execute 2 0,.run 2 0,.execute 2 0,
      .run 2 0,.execute 2 0,.run 2 500,.execute 2 9]

theorem overload_paid_oneOverload : ∃ st, system.run (start 0) oneOverload = some st ∧
    (processed (byVm 2 st.log)).length < (polled (byVm 2 st.log)).length := by
  have hrun : ∃ st, system.run (start 0) oneOverload = some st ∧
      overloads 2 (system.emitted launches (start 0) oneOverload) = 1 := by decide +kernel
  obtain ⟨st,hst,hone⟩ := hrun
  have hpaid := overload_paid 0 oneOverload st hst 2 (by decide)
  rw [hone] at hpaid
  exact ⟨st,hst,by omega⟩

/-- What a mid server throws away is bounded: one request in 21 that it polls, and one for
each VM that it starts. -/
theorem drops_bounded (masterStartTime : ℤ) (as : List (Action R)) (st : State R)
    (hr : system.run (start masterStartTime) as = some st) (i : VmId) (hone : i ≠ 1) :
    (dropped (byVm i st.log)).length ≤ (polled (byVm i st.log)).length / 21 +
      overloads i (system.emitted launches (start masterStartTime) as) := by
  have hpaid := paid_run hr hone
  have hdrops := hpaid.drops
  have hcount := hpaid.count_nonneg
  have howed := owed_nonneg (st.slaves i).pc
  omega

theorem drops_bounded_oneOverload : ∃ st,
    system.run (start 0) (oneOverload ++ [.run 2 0,.run 2 0]) = some st ∧
    (dropped (byVm 2 st.log)).length = 1 ∧
    0 < overloads 2 (system.emitted launches (start 0) (oneOverload ++ [.run 2 0,.run 2 0])) := by
  have hrun : ∃ st, system.run (start 0) (oneOverload ++ [.run 2 0,.run 2 0]) = some st ∧
      (dropped (byVm 2 st.log)).length = 1 ∧ (polled (byVm 2 st.log)).length = 1 := by decide +kernel
  obtain ⟨st,hst,hdropped,hpolled⟩ := hrun
  have hbound := drops_bounded 0 _ st hst 2 (by decide)
  exact ⟨st,hst,hdropped,by omega⟩

end Cluster
end AutoScaling
