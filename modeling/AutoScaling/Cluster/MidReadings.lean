import AutoScaling.Cluster.Overload

/-! # What the mid servers act on

By the time a mid server starts a VM or leaves, the two readings that it decides on may be
long out of date. But they are the last that it has made, few steps of its own ago, and each
was true of the master when it was made.
-/
namespace AutoScaling
namespace Cluster
variable {R : Type*}

/-- The master executes a `getVMCount(1)` of slave `i`, and `cnt` is what it finds. -/
def ReadsCount (i : VmId) (cnt : ℤ) (_ : List (Action R)) (st : State R) (a : Action R) : Prop :=
  ∃ start vmId, a = .execute i vmId ∧ (st.slaves i).pc = .midVMCount start .sent ∧
    cnt = st.reg.getVMCount 1

def CountRead (masterStartTime : ℤ) (i : VmId) (cnt : ℤ) (as : List (Action R)) (n : ℕ) : Prop :=
  system.Since (start masterStartTime) (Action.isStepOf i) (ReadsCount i cnt) as n

/-- The master executes a `getRequestLength()` of slave `i` that comes next after a
`getVMCount(1)` that found `cnt`, and `len` is what it finds. -/
def ReadsLength (masterStartTime : ℤ) (i : VmId) (cnt len : ℤ) (as : List (Action R)) (st : State R)
    (a : Action R) : Prop :=
  CountRead masterStartTime i cnt as 1 ∧ ∃ start vmId, a = .execute i vmId ∧
    (st.slaves i).pc = .midLength start cnt .sent ∧ len = st.requestQueue.length

def LengthRead (masterStartTime : ℤ) (i : VmId) (cnt len : ℤ) (as : List (Action R)) (n : ℕ) : Prop :=
  system.Since (start masterStartTime) (Action.isStepOf i) (ReadsLength masterStartTime i cnt len) as n

def leavesMid : SlavePc R → Bool
  | .shutDown .mid => true
  | .lookupMaster .mid => true
  | .deleteVM .mid _ => true
  | .exited .mid _ => true
  | _ => false

/-- What a mid server has read, and what it has made of it, at each point. -/
def Backed (masterStartTime : ℤ) (i : VmId) (as : List (Action R)) (pc : SlavePc R) : Prop :=
  match pc with
  | .midVMCount _ (.replied cnt) => CountRead masterStartTime i cnt as 0
  | .midLength _ cnt .sent => CountRead masterStartTime i cnt as 1
  | .midLength _ cnt (.replied len) => LengthRead masterStartTime i cnt len as 0
  | .midPoll _ cnt len .sent => LengthRead masterStartTime i cnt len as 1
  | .midPoll _ cnt len (.replied _) => LengthRead masterStartTime i cnt len as 2
  | .midScaleOut cnt len _ .sent => LengthRead masterStartTime i cnt len as 3 ∧ overloaded len cnt = true
  | .shutDown .mid => ∃ cnt > 1, ∃ len, LengthRead masterStartTime i cnt len as 1
  | .lookupMaster .mid => ∃ cnt > 1, ∃ len, LengthRead masterStartTime i cnt len as 2
  | .deleteVM .mid .sent => ∃ cnt > 1, ∃ len, LengthRead masterStartTime i cnt len as 3
  | .deleteVM .mid (.replied _) => ∃ cnt > 1, ∃ len, LengthRead masterStartTime i cnt len as 4
  | .exited .mid _ => ∃ cnt > 1, ∃ len, ∃ n ≤ 5, LengthRead masterStartTime i cnt len as n
  | _ => True

variable {masterStartTime : ℤ} {i : VmId} {as : List (Action R)}

theorem Backed.leaves {pc : SlavePc R} (h : Backed masterStartTime i as pc) (hpc : leavesMid pc = true) :
    ∃ cnt > 1, ∃ len, ∃ n ≤ 5, LengthRead masterStartTime i cnt len as n := by
  have hread : ∀ n ≤ 5, (∃ cnt > 1, ∃ len, LengthRead masterStartTime i cnt len as n) →
      ∃ cnt > 1, ∃ len, ∃ n ≤ 5, LengthRead masterStartTime i cnt len as n :=
    fun n hn ⟨cnt,hone,len,hlen⟩ => ⟨cnt,hone,len,n,hn,hlen⟩
  cases pc with
  | shutDown tier => cases tier <;> cases hpc; exact hread 1 (by decide) h
  | lookupMaster tier => cases tier <;> cases hpc; exact hread 2 (by decide) h
  | deleteVM tier w =>
    cases tier <;> cases hpc
    cases w with
    | sent => exact hread 3 (by decide) h
    | replied u => exact hread 4 (by decide) h
  | exited tier d => cases tier <;> cases hpc; exact h
  | _ => cases hpc

theorem Backed.other {pc : SlavePc R} (h : Backed masterStartTime i as pc) {a : Action R}
    (ha : a.isStepOf i = false) : Backed masterStartTime i (as ++ [a]) pc := by
  have hread : ∀ n, (∃ cnt > 1, ∃ len, LengthRead masterStartTime i cnt len as n) →
      ∃ cnt > 1, ∃ len, LengthRead masterStartTime i cnt len (as ++ [a]) n :=
    fun n ⟨cnt,hone,len,hlen⟩ => ⟨cnt,hone,len,hlen.other ha⟩
  cases pc with
  | midVMCount start w =>
    cases w with
    | sent => trivial
    | replied cnt => exact LabelledSystem.Since.other h ha
  | midLength start cnt w => cases w <;> exact LabelledSystem.Since.other h ha
  | midPoll start cnt len w => cases w <;> exact LabelledSystem.Since.other h ha
  | midScaleOut cnt len r w =>
    cases w with
    | sent => exact ⟨h.1.other ha,h.2⟩
    | replied u => trivial
  | shutDown tier => cases tier with
    | front => trivial
    | mid => exact hread 1 h
  | lookupMaster tier => cases tier with
    | front => trivial
    | mid => exact hread 2 h
  | deleteVM tier w => cases tier with
    | front => trivial
    | mid => cases w with
      | sent => exact hread 3 h
      | replied u => exact hread 4 h
  | exited tier d => cases tier with
    | front => trivial
    | mid =>
      obtain ⟨cnt,hone,len,n,hn,hlen⟩ := h
      exact ⟨cnt,hone,len,n,hn,hlen.other ha⟩
  | _ => trivial

theorem Backed.run {s s' : Slave R} {now : ℤ} {ev : List (Event R)} (h : Backed masterStartTime i as s.pc)
    (hrun : s.run i now = some (s',ev)) : Backed masterStartTime i (as ++ [.run i now]) s'.pc := by
  have hown := isStepOf_run (R := R) i now
  have hran := Slave.ran_of_run hrun
  rcases s with ⟨pc,st,q⟩
  dsimp only at h
  cases hran with
  | midVMCount start cnt => exact LabelledSystem.Since.own h hown
  | midShutDown start cnt len hidle =>
    have hmore : cnt > 1 := by
      simp only [Statics.idle,Bool.and_eq_true,decide_eq_true_eq] at hidle
      exact hidle.2
    exact ⟨cnt,hmore,len,LabelledSystem.Since.own h hown⟩
  | midStay start cnt len hbusy => exact LabelledSystem.Since.own h hown
  | midOver start cnt len r hkeep hover => exact ⟨LabelledSystem.Since.own h hown,hover⟩
  | shutDown tier => cases tier with
    | front => trivial
    | mid =>
      obtain ⟨cnt,hone,len,hlen⟩ := h
      exact ⟨cnt,hone,len,hlen.own hown⟩
  | lookupMaster tier => cases tier with
    | front => trivial
    | mid =>
      obtain ⟨cnt,hone,len,hlen⟩ := h
      exact ⟨cnt,hone,len,hlen.own hown⟩
  | deleteVM tier u => cases tier with
    | front => trivial
    | mid =>
      obtain ⟨cnt,hone,len,hlen⟩ := h
      exact ⟨cnt,hone,len,5,le_rfl,hlen.own hown⟩
  | _ => trivial

theorem Backed.throws {s s' : Slave R} (h : Backed masterStartTime i as s.pc) (hthrow : s.throws = some s') :
    Backed masterStartTime i as s'.pc := by
  have hleft := fun hpc => h.leaves hpc
  rcases s with ⟨pc,st,q⟩
  cases pc with
  | deleteVM tier w =>
    cases tier with
    | front => cases w <;> cases hthrow <;> trivial
    | mid => cases w <;> cases hthrow <;> exact hleft rfl
  | getTier w => cases w <;> cases hthrow <;> trivial
  | _ => cases hthrow <;> trivial

theorem Backed.execute {vmId : VmId} {st st' : State R} (hr : system.run (start masterStartTime) as = some st)
    (h : Backed masterStartTime i as (st.slaves i).pc) (hs : Executed st i st') :
    Backed masterStartTime i (as ++ [.execute i vmId]) (st'.slaves i).pc := by
  have hown := isStepOf_execute (R := R) i vmId
  cases hs with
  | answer pc ha =>
    simp only [State.setPc,State.setSlave,Function.update_self,Slave.goto]
    generalize hpc : (st.slaves i).pc = old at h ha
    cases ha with
    | midVMCount start => exact .now hr ⟨start,vmId,rfl,hpc,rfl⟩
    | midLength start cnt => exact .now hr ⟨h,start,vmId,rfl,hpc,rfl⟩
    | midPoll start cnt len hqueue => exact LabelledSystem.Since.own h hown
    | _ => trivial
  | addRequest r hpc =>
    simp only [State.setPc,State.setSlave,Function.update_self,Slave.goto]
    trivial
  | pollRequest now cnt len r rest hpc hqueue =>
    rw [hpc] at h
    simp only [State.setPc,State.setSlave,State.record,Function.update_self,Slave.goto]
    exact LabelledSystem.Since.own h hown
  | scaleOut vmId cnt len r hpc hnew =>
    simp only [State.setPc,State.setSlave,Function.update_self,Slave.goto]
    trivial
  | deleteVM tier hpc =>
    rw [hpc] at h
    simp only [State.setPc,State.setSlave,Function.update_self,Slave.goto]
    cases tier with
    | front => trivial
    | mid =>
      obtain ⟨cnt,hone,len,hlen⟩ := h
      exact ⟨cnt,hone,len,hlen.own hown⟩

theorem backed_step (hone : i ≠ 1) {st st' : State R} {a : Action R}
    (hr : system.run (start masterStartTime) as = some st) (h : Backed masterStartTime i as (st.slaves i).pc)
    (hs : system.step st a = some st') : Backed masterStartTime i (as ++ [a]) (st'.slaves i).pc := by
  cases seen_of_step hs hone with
  | other hown hslave ev hlog hev =>
    rw [hslave]
    exact h.other hown
  | boot ha hoff hslave hlog =>
    rw [hslave]
    trivial
  | arrive r ha hslave hlog =>
    rw [hslave]
    exact h.other (by rw [ha]; rfl)
  | throws s ha hthrow hslave hlog =>
    rw [hslave]
    exact (h.throws hthrow).other (by rw [ha]; rfl)
  | run now s ev ha hrun hslave hlog =>
    rw [hslave, ha]
    exact h.run hrun
  | execute vmId ha hexec =>
    rw [ha]
    exact h.execute hr hexec

theorem scalingOut_of_mem_launches {i : VmId} {st : State R} {a : Action R} {x : Launch}
    (hx : x ∈ launches st a) (hcause : x.cause = .overload i) :
    ∃ cnt len r, (st.slaves i).pc = .midScaleOut cnt len r .sent := by
  cases a with
  | main booting now vmId =>
    simp only [launches] at hx
    split at hx <;> simp only [List.mem_singleton,List.not_mem_nil] at hx <;> rw [hx] at hcause <;>
      cases hcause
  | execute j vmId =>
    simp only [launches] at hx
    split at hx
    · rename_i cnt len r hpc
      rw [List.mem_singleton.mp hx] at hcause
      cases hcause
      exact ⟨cnt,len,r,hpc⟩
    · cases hx
  | _ => cases hx

/-- The mid servers act on what has been so. Each VM that one of them starts because it is
overloaded follows its two readings, three steps ago, of a count and a length more than 3.3
times as large; and one that leaves has counted another mid server at most five steps ago. -/
theorem mid_acts_on_facts (masterStartTime : ℤ) (as : List (Action R)) (st : State R)
    (hr : system.run (start masterStartTime) as = some st) (i : VmId) (hone : i ≠ 1) :
    (∀ a, ∀ x ∈ launches st a, x.cause = .overload i →
      ∃ cnt len, LengthRead masterStartTime i cnt len as 3 ∧ 10 * len > 33 * cnt) ∧
    (leavesMid (st.slaves i).pc = true →
      ∃ cnt > 1, ∃ len, ∃ n ≤ 5, LengthRead masterStartTime i cnt len as n) := by
  have h : Backed masterStartTime i as (st.slaves i).pc :=
    LabelledSystem.run_invariant_of_past
      (I := fun as (u : State R) => Backed masterStartTime i as (u.slaves i).pc)
      (fun _ _ _ _ hu hb hs => backed_step hone hu hb hs) hr trivial
  refine ⟨?_,h.leaves⟩
  intro a x hx hcause
  obtain ⟨cnt,len,r,hpc⟩ := scalingOut_of_mem_launches hx hcause
  rw [hpc] at h
  exact ⟨cnt,len,h.1,by simpa [overloaded] using h.2⟩

theorem mid_acts_on_facts_oneOverload : ∃ cnt len,
    LengthRead (R := ℕ) 0 2 cnt len oneOverload.dropLast 3 ∧ 10 * len > 33 * cnt := by
  have hrun : ∃ st, system.run (start 0) oneOverload.dropLast = some st ∧
      launches st (.execute 2 9) = [⟨9,.mid,.overload 2⟩] := by decide +kernel
  obtain ⟨st,hst,hlaunch⟩ := hrun
  have hfacts := mid_acts_on_facts 0 oneOverload.dropLast st hst 2 (by decide)
  refine hfacts.1 (.execute 2 9) ⟨9,.mid,.overload 2⟩ ?_ rfl
  rw [hlaunch]
  exact List.mem_singleton_self _

end Cluster
end AutoScaling
