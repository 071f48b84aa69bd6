import AutoScaling.Foundation.Linearization
import AutoScaling.Master.BootOrder
import AutoScaling.Master.Completion
import AutoScaling.Master.Deregistration

/-! # The master's calls as if one at a time

A scale-out takes its effect on the map with its put, a deregistration with its remove, or
where it finds the id missing, and a lookup where it reads what it returns. In the order of
these steps the calls leave the map, and are answered, as the registry's methods executed
one after another. The counters follow where no store is stale.
-/
namespace AutoScaling
namespace Handlers
open Linearization

inductive Op
  | scaleOut (vmId : VmId) (tierId : TierId)
  | deleteVMFromMap (vmId : VmId)
  | getTier (id : VmId)
  deriving DecidableEq

def Op.call : Op → Call
  | .scaleOut _ tierId => .scaleOut tierId
  | .deleteVMFromMap vmId => .deleteVMFromMap vmId
  | .getTier id => .getTier id

/-- The method executed to completion, and what it returns. -/
def exec (reg : Registry) : Op → Registry × Option TierId
  | .scaleOut vmId tierId => (reg.scaleOut vmId tierId,none)
  | .deleteVMFromMap vmId => (reg.deleteVMFromMap vmId,none)
  | .getTier id => (reg,some (reg.getTier id))

def oneAtATime : LabelledSystem Registry (Occurrence ℕ Op (Option TierId)) := sequential exec

/-- The step in which a call takes its effect. -/
def point (st : State) : Action → List (Occurrence ℕ Op (Option TierId))
  | .step i _ =>
    match st.pc i with
    | .addPut vm tierId => [⟨i,.scaleOut vm tierId,none⟩]
    | .delContainsKey vm => if vm ∈ st.reg.id2TierMap then [] else [⟨i,.deleteVMFromMap vm,none⟩]
    | .delRemove vm _ => [⟨i,.deleteVMFromMap vm,none⟩]
    | .tierContainsKey id => if id ∈ st.reg.id2TierMap then [] else [⟨i,.getTier id,some (-1)⟩]
    | .tierGet id =>
      match st.reg.id2TierMap.lookup id with
      | some tierId => [⟨i,.getTier id,some tierId⟩]
      | none => []
    | _ => []
  | .call _ => []

def history (st : State) (as : List Action) : List (Occurrence ℕ Op (Option TierId)) :=
  system.emitted point st as

def Pc.answered : Pc → Option (Option TierId)
  | .addUnlock _ => some none
  | .incLoad _ => some none
  | .incStore _ _ => some none
  | .decLoad _ => some none
  | .decStore _ _ => some none
  | .delUnlock => some none
  | .returned val => some val
  | _ => none

def Pc.call : Pc → Option Call
  | .startVM tierId => some (.scaleOut tierId)
  | .addLock _ tierId => some (.scaleOut tierId)
  | .addContainsKey _ tierId => some (.scaleOut tierId)
  | .addPut _ tierId => some (.scaleOut tierId)
  | .delLock vmId => some (.deleteVMFromMap vmId)
  | .delContainsKey vmId => some (.deleteVMFromMap vmId)
  | .delGet vmId => some (.deleteVMFromMap vmId)
  | .delRemove vmId _ => some (.deleteVMFromMap vmId)
  | .tierContainsKey id => some (.getTier id)
  | .tierGet id => some (.getTier id)
  | _ => none

/-- Ids are fresh, what a delete has read is still so, and each thread is at its own call. -/
structure InOrder (st : State) : Prop where
  ids : IdsFresh st
  deleting : ∀ i, Deleting st.reg.id2TierMap st.masterMonitor i (st.pc i)
  calls : ∀ i c, (st.pc i).call = some c → st.call i = some c

theorem inOrder_start : InOrder start :=
  ⟨idsFresh_start,fun _ => trivial,fun _ _ h => by cases h⟩

theorem InOrder.move {st st' : State} (h : InOrder st) (hids : IdsFresh st') {i : ℕ} {p : Pc}
    (hpc : st'.pc = Function.update st.pc i p) (hcall : st'.call = st.call)
    (hp : ∀ c, p.call = some c → (st.pc i).call = some c)
    (hself : Deleting st'.reg.id2TierMap st'.masterMonitor i p)
    (hother : ∀ j, j ≠ i → Deleting st'.reg.id2TierMap st'.masterMonitor j (st.pc j)) : InOrder st' := by
  refine ⟨hids,?_,?_⟩
  · intro j
    rw [hpc]
    by_cases hj : j = i
    · rw [hj, Function.update_self]
      exact hself
    · rw [Function.update_of_ne hj]
      exact hother j hj
  · intro j c hc
    rw [hpc] at hc
    rw [hcall]
    by_cases hj : j = i
    · rw [hj, Function.update_self] at hc
      rw [hj]
      exact h.calls i c (hp c hc)
    · rw [Function.update_of_ne hj] at hc
      exact h.calls j c hc

theorem InOrder.stay {st st' : State} (h : InOrder st) (hids : IdsFresh st') {i : ℕ} {p : Pc}
    (hpc : st'.pc = Function.update st.pc i p) (hcall : st'.call = st.call)
    (hmap : st'.reg.id2TierMap = st.reg.id2TierMap) (hm : st'.masterMonitor = st.masterMonitor)
    (hp : ∀ c, p.call = some c → (st.pc i).call = some c)
    (hself : Deleting st.reg.id2TierMap st.masterMonitor i p) : InOrder st' := by
  refine h.move hids hpc hcall hp ?_ ?_
  · rw [hmap, hm]
    exact hself
  · intro j _
    rw [hmap, hm]
    exact h.deleting j

theorem InOrder.issue {st : State} (h : InOrder st) (c : Call) : InOrder (st.issue c) := by
  refine ⟨h.ids.issue c,?_,?_⟩
  · intro j
    by_cases hj : j = st.next
    · rw [hj, State.issue_pc_next]
      cases c <;> trivial
    · rw [st.issue_pc_of_ne c hj]
      exact h.deleting j
  · intro j d hd
    by_cases hj : j = st.next
    · rw [hj, State.issue_pc_next] at hd
      rw [hj]
      have hentry : c.entry.call = some c := by cases c <;> rfl
      exact (Function.update_self _ _ _).trans (hentry.symm.trans hd)
    · rw [st.issue_pc_of_ne c hj] at hd
      exact (Function.update_of_ne hj _ _).trans (h.calls j d hd)

theorem inOrder_step {st st' : State} {a : Action} (h : InOrder st) (hs : system.step st a = some st') :
    InOrder st' := by
  have hids := idsFresh_step h.ids hs
  cases a with
  | call c =>
    cases hs
    exact h.issue c
  | step i vmId =>
    have hdel := h.deleting i
    have hout : ∀ {m : Finmap (fun _ : VmId => TierId)} {mm : Option ℕ}, st.masterMonitor = some i →
        ∀ j, j ≠ i → Deleting m mm j (st.pc j) := by
      intro m mm hm j hj
      exact (h.deleting j).other (by rw [hm]; exact fun he => hj (Option.some.inj he).symm)
    cases advanced_of_advance hs with
    | startVM tierId hpc hnew hone =>
      exact h.stay hids rfl rfl rfl rfl (fun c hc => by rw [hpc]; exact hc) trivial
    | addLock vm tierId hpc hfree =>
      exact h.stay hids rfl rfl rfl rfl (fun c hc => by rw [hpc]; exact hc) trivial
    | addContainsKey vm tierId hpc =>
      refine h.stay hids rfl rfl rfl rfl ?_ ?_
      · split
        · exact fun c hc => by cases hc
        · exact fun c hc => by rw [hpc]; exact hc
      · split <;> trivial
    | addPut vm tierId hpc =>
      have hnew := (h.ids.adding i vm (by rw [hpc]; rfl)).2
      exact h.move hids rfl rfl (fun c hc => by cases hc) trivial
        (fun j _ => (h.deleting j).insert hnew tierId)
    | addUnlock tierId hpc => exact h.stay hids rfl rfl rfl rfl (fun c hc => by cases hc) trivial
    | incLoad c hpc => exact h.stay hids rfl rfl rfl rfl (fun c hc => by cases hc) trivial
    | incStore c loaded hpc =>
      exact h.stay hids rfl rfl (st.reg.setCounter_map c _) rfl (fun c hc => by cases hc) trivial
    | delLock vm hpc hfree =>
      refine h.move hids rfl rfl (fun c hc => by rw [hpc]; exact hc) rfl ?_
      exact fun j _ => (h.deleting j).other (by rw [hfree]; exact fun he => by cases he)
    | delContainsKey vm hpc =>
      rw [hpc] at hdel
      refine h.stay hids rfl rfl rfl rfl ?_ ?_
      · split
        · exact fun c hc => by rw [hpc]; exact hc
        · exact fun c hc => by cases hc
      · split
        · rename_i hin
          exact ⟨hdel,hin⟩
        · exact hdel
    | delGet vm tierId hpc hget =>
      rw [hpc] at hdel
      exact h.stay hids rfl rfl rfl rfl (fun c hc => by rw [hpc]; exact hc) ⟨hdel.1,hget⟩
    | delGetNull vm hpc hget =>
      rw [hpc] at hdel
      exact absurd hdel.2 (Finmap.lookup_eq_none.mp hget)
    | delRemove vm tierId hpc =>
      rw [hpc] at hdel
      refine h.move hids rfl rfl ?_ ?_ (hout hdel.1)
      · cases decCounter tierId <;> exact fun c hc => by cases hc
      · cases decCounter tierId <;> exact hdel.1
    | decLoad c hpc =>
      rw [hpc] at hdel
      exact h.stay hids rfl rfl rfl rfl (fun c hc => by cases hc) hdel
    | decStore c loaded hpc =>
      rw [hpc] at hdel
      exact h.stay hids rfl rfl (st.reg.setCounter_map c _) rfl (fun c hc => by cases hc) hdel
    | delUnlock hpc =>
      rw [hpc] at hdel
      exact h.move hids rfl rfl (fun c hc => by cases hc) trivial (hout hdel)
    | tierContainsKey id hpc =>
      refine h.stay hids rfl rfl rfl rfl ?_ ?_
      · split
        · exact fun c hc => by rw [hpc]; exact hc
        · exact fun c hc => by cases hc
      · split <;> trivial
    | tierGet id tierId hpc hget => exact h.stay hids rfl rfl rfl rfl (fun c hc => by cases hc) trivial
    | tierGetNull id hpc hget => exact h.stay hids rfl rfl rfl rfl (fun c hc => by cases hc) trivial

theorem deleteVMFromMap_counter {reg : Registry} {vm : VmId} {tierId : TierId}
    (h : reg.id2TierMap.lookup vm = some tierId) (c : Tier) :
    (reg.deleteVMFromMap vm).counter c = reg.counter c + if decCounter tierId = some c then -1 else 0 := by
  have hfront := Registry.deleteVMFromMap_frontCount h
  have hmid := Registry.deleteVMFromMap_midCount h
  by_cases h0 : tierId = 0
  · subst h0
    cases c <;> simp [Registry.counter,decCounter,hfront,hmid,Int.sub_eq_add_neg]
  · by_cases h1 : tierId = 1
    · subst h1
      cases c <;> simp [Registry.counter,decCounter,hfront,hmid,Int.sub_eq_add_neg]
    · cases c <;> simp [Registry.counter,decCounter,hfront,hmid,h0,h1]

theorem scaleOut_counter {reg : Registry} {vm : VmId} (h : vm ∉ reg.id2TierMap) (tierId : TierId) (c : Tier) :
    (reg.scaleOut vm tierId).counter c = reg.counter c + owed c (.addUnlock tierId) := by
  cases c with
  | front =>
    rw [Registry.scaleOut, Registry.counter, Registry.scaleOutCore_frontCount h]
    by_cases h0 : tierId = 0 <;> simp [Registry.counter,owed,incCounter,h0]
  | mid =>
    rw [Registry.scaleOut, Registry.counter, Registry.scaleOutCore_midCount h]
    by_cases h0 : tierId = 0 <;> simp [Registry.counter,owed,incCounter,h0]

/-- What a step of thread `i` amounts to: its call takes its effect, or nothing that shows in
the map and the answers. Either way the thread pays the counters what it owes them, up to
the staleness of a store. -/
inductive Amounts (st st' : State) (i : ℕ) (stale : Tier → ℤ) :
    List (Occurrence ℕ Op (Option TierId)) → Prop
  | nothing (hmap : st'.reg.id2TierMap = st.reg.id2TierMap)
      (hanswered : (st'.pc i).answered = (st.pc i).answered)
      (hcount : ∀ c, st'.reg.counter c + owed c (st'.pc i) =
        st.reg.counter c + owed c (st.pc i) + stale c) : Amounts st st' i stale []
  | effect (op : Op) (val : Option TierId) (hcall : (st.pc i).call = some op.call)
      (hbefore : (st.pc i).answered = none) (hafter : (st'.pc i).answered = some val)
      (hstale : ∀ c, stale c = 0)
      (hexec : ∀ reg : Registry, reg.id2TierMap = st.reg.id2TierMap → (exec reg op).2 = val ∧
        (exec reg op).1.id2TierMap = st'.reg.id2TierMap ∧
        ∀ c, st'.reg.counter c + owed c (st'.pc i) + reg.counter c =
          st.reg.counter c + owed c (st.pc i) + (exec reg op).1.counter c) :
      Amounts st st' i stale [⟨i,op,val⟩]

theorem amounts_of_advance {st st' : State} {i : ℕ} {vmId : VmId} (h : InOrder st)
    (hs : st.advance i vmId = some st') :
    Amounts st st' i (fun c => staleness c st (.step i vmId)) (point st (.step i vmId)) := by
  have hdel := h.deleting i
  have hquiet : ∀ p q : Pc, st.pc i = p → st'.pc i = q → point st (.step i vmId) = [] →
      st'.reg = st.reg → q.answered = p.answered → (∀ c, owed c q = owed c p) →
      (∀ c, staleness c st (.step i vmId) = 0) →
      Amounts st st' i (fun c => staleness c st (.step i vmId)) (point st (.step i vmId)) := by
    rintro p q rfl rfl hpoint hreg hanswered howed hstale
    rw [hpoint]
    refine .nothing (by rw [hreg]) hanswered (fun c => ?_)
    rw [hreg, howed, hstale, Int.add_zero]
  cases advanced_of_advance hs with
  | startVM tierId hpc hnew hone =>
    exact hquiet _ _ hpc (State.setPc_pc _ _ _) (by simp only [point,hpc]) rfl rfl (fun _ => rfl)
      (by simp [staleness,hpc])
  | addLock vm tierId hpc hfree =>
    exact hquiet _ _ hpc (State.setPc_pc _ _ _) (by simp only [point,hpc]) rfl rfl (fun _ => rfl)
      (by simp [staleness,hpc])
  | addContainsKey vm tierId hpc =>
    -- the id is fresh, so the guard of `addVM2Map` always lets the put through
    have hout := (h.ids.adding i vm (by rw [hpc]; rfl)).2
    refine hquiet _ _ hpc (State.setPc_pc _ _ _) (by simp only [point,hpc]) rfl ?_ ?_ (by simp [staleness,hpc])
    · rw [if_neg hout]
      rfl
    · rw [if_neg hout]
      exact fun _ => rfl
  | addPut vm tierId hpc =>
    have hout := (h.ids.adding i vm (by rw [hpc]; rfl)).2
    simp only [point,hpc]
    refine .effect (.scaleOut vm tierId) none (by rw [hpc]; rfl) (by rw [hpc]; rfl)
      (by rw [State.setPc_pc]; rfl) (by simp [staleness,hpc]) ?_
    intro reg hmap
    rw [← hmap] at hout
    refine ⟨rfl,?_,?_⟩
    · exact (Registry.scaleOutCore_map hout tierId).trans (by rw [hmap]; rfl)
    · intro c
      rw [State.setPc_pc, hpc, exec, scaleOut_counter hout]
      change st.reg.counter c + _ + _ = st.reg.counter c + 0 + _
      omega
  | addUnlock tierId hpc =>
    exact hquiet _ _ hpc (State.setPc_pc _ _ _) (by simp only [point,hpc]) rfl rfl (fun _ => rfl)
      (by simp [staleness,hpc])
  | incLoad c hpc =>
    exact hquiet _ _ hpc (State.setPc_pc _ _ _) (by simp only [point,hpc]) rfl rfl (fun _ => rfl)
      (by simp [staleness,hpc])
  | incStore d loaded hpc =>
    simp only [point,hpc]
    refine .nothing (st.reg.setCounter_map d _) (by rw [State.setPc_pc, hpc]; rfl) ?_
    intro c
    rw [State.setPc_pc]
    simp only [State.setPc,Registry.counter_setCounter,owed,staleness,hpc]
    split <;> omega
  | delLock vm hpc hfree =>
    exact hquiet _ _ hpc (State.setPc_pc _ _ _) (by simp only [point,hpc]) rfl rfl (fun _ => rfl)
      (by simp [staleness,hpc])
  | delContainsKey vm hpc =>
    by_cases hin : vm ∈ st.reg.id2TierMap
    · refine hquiet _ _ hpc (State.setPc_pc _ _ _) (by simp only [point,hpc,if_pos hin]) rfl ?_ ?_
        (by simp [staleness,hpc])
      · rw [if_pos hin]
        rfl
      · rw [if_pos hin]
        exact fun _ => rfl
    · simp only [point,hpc,if_neg hin]
      refine .effect (.deleteVMFromMap vm) none (by rw [hpc]; rfl) (by rw [hpc]; rfl)
        (by rw [State.setPc_pc]; rfl) (by simp [staleness,hpc]) ?_
      intro reg hmap
      rw [← hmap] at hin
      rw [exec, Registry.deleteVMFromMap_of_notMem hin]
      refine ⟨rfl,hmap,?_⟩
      intro c
      rw [State.setPc_pc, hpc]
      rfl
  | delGet vm tierId hpc hget =>
    exact hquiet _ _ hpc (State.setPc_pc _ _ _) (by simp only [point,hpc]) rfl rfl (fun _ => rfl)
      (by simp [staleness,hpc])
  | delGetNull vm hpc hget =>
    rw [hpc] at hdel
    exact absurd hdel.2 (Finmap.lookup_eq_none.mp hget)
  | delRemove vm tierId hpc =>
    rw [hpc] at hdel
    simp only [point,hpc]
    refine .effect (.deleteVMFromMap vm) none (by rw [hpc]; rfl) (by rw [hpc]; rfl) ?_
      (by simp [staleness,hpc]) ?_
    · rw [State.setPc_pc]
      cases decCounter tierId <;> rfl
    · intro reg hmap
      have hget : reg.id2TierMap.lookup vm = some tierId := by
        rw [hmap]
        exact hdel.2
      refine ⟨rfl,?_,?_⟩
      · exact (Registry.deleteVMFromMap_map reg vm).trans (by rw [hmap]; rfl)
      · intro c
        rw [State.setPc_pc, hpc, exec, deleteVMFromMap_counter hget]
        change st.reg.counter c + _ + _ = st.reg.counter c + 0 + _
        cases decCounter tierId with
        | none =>
          simp only [owed,reduceCtorEq,if_false]
          omega
        | some d =>
          simp only [owed,Option.some.injEq]
          omega
  | decLoad c hpc =>
    exact hquiet _ _ hpc (State.setPc_pc _ _ _) (by simp only [point,hpc]) rfl rfl (fun _ => rfl)
      (by simp [staleness,hpc])
  | decStore d loaded hpc =>
    simp only [point,hpc]
    refine .nothing (st.reg.setCounter_map d _) (by rw [State.setPc_pc, hpc]; rfl) ?_
    intro c
    rw [State.setPc_pc]
    simp only [State.setPc,Registry.counter_setCounter,owed,staleness,hpc]
    split <;> omega
  | delUnlock hpc =>
    exact hquiet _ _ hpc (State.setPc_pc _ _ _) (by simp only [point,hpc]) rfl rfl (fun _ => rfl)
      (by simp [staleness,hpc])
  | tierContainsKey id hpc =>
    by_cases hin : id ∈ st.reg.id2TierMap
    · refine hquiet _ _ hpc (State.setPc_pc _ _ _) (by simp only [point,hpc,if_pos hin]) rfl ?_ ?_
        (by simp [staleness,hpc])
      · rw [if_pos hin]
        rfl
      · rw [if_pos hin]
        exact fun _ => rfl
    · simp only [point,hpc,if_neg hin]
      refine .effect (.getTier id) (some (-1)) (by rw [hpc]; rfl) (by rw [hpc]; rfl)
        (by rw [State.setPc_pc]; rfl) (by simp [staleness,hpc]) ?_
      intro reg hmap
      refine ⟨?_,hmap,?_⟩
      · rw [exec, Registry.getTier, hmap, Finmap.lookup_eq_none.mpr hin]
        rfl
      · intro c
        rw [State.setPc_pc, hpc]
        rfl
  | tierGet id tierId hpc hget =>
    simp only [point,hpc,hget]
    refine .effect (.getTier id) (some tierId) (by rw [hpc]; rfl) (by rw [hpc]; rfl)
      (by rw [State.setPc_pc]; rfl) (by simp [staleness,hpc]) ?_
    intro reg hmap
    refine ⟨?_,hmap,?_⟩
    · rw [exec, Registry.getTier, hmap, hget]
      rfl
    · intro c
      rw [State.setPc_pc, hpc]
      rfl
  | tierGetNull id hpc hget =>
    exact hquiet _ _ hpc (State.setPc_pc _ _ _) (by simp only [point,hpc,hget]) rfl rfl (fun _ => rfl)
      (by simp [staleness,hpc])

theorem Amounts.caller {st st' : State} {i : ℕ} {stale : Tier → ℤ}
    {l : List (Occurrence ℕ Op (Option TierId))} (h : Amounts st st' i stale l) : ∀ e ∈ l, e.caller = i := by
  cases h with
  | nothing => exact fun e he => by cases he
  | effect op val =>
    intro e he
    rw [List.mem_singleton.mp he]

theorem of_mem_point {st st' : State} {a : Action} (h : InOrder st) (hs : system.step st a = some st')
    {e : Occurrence ℕ Op (Option TierId)} (he : e ∈ point st a) :
    e.caller < st.next ∧ st.call e.caller = some e.op.call := by
  cases a with
  | call c => cases he
  | step i vmId =>
    have hi : i < st.next := h.ids.lt_next (ne_idle_of_advance hs)
    have hamounts := amounts_of_advance h hs
    generalize point st (.step i vmId) = l at hamounts he
    cases hamounts with
    | nothing => cases he
    | effect op val hcall =>
      rw [List.mem_singleton.mp he]
      exact ⟨hi,h.calls i op.call hcall⟩

theorem call_step {st st' : State} {a : Action} (hs : system.step st a = some st') {i : ℕ}
    (hi : i < st.next) : st'.call i = st.call i ∧ i < st'.next := by
  cases a with
  | call c =>
    cases hs
    exact ⟨Function.update_of_ne hi.ne _ _,Nat.lt_succ_of_lt hi⟩
  | step j vmId =>
    obtain ⟨_,hnext,_⟩ := rank_advance hs
    have hcall : st'.call = st.call := by cases advanced_of_advance hs <;> rfl
    rw [hcall, hnext]
    exact ⟨rfl,hi⟩

def State.settled (st : State) (c : Tier) : ℤ :=
  st.reg.counter c + ∑ i ∈ Finset.range st.next, owed c (st.pc i)

theorem settled_of_over {st : State} (hover : ∀ i < st.next, (st.pc i).isOver = true) (c : Tier) :
    st.settled c = st.reg.counter c := by
  have hsum : ∑ i ∈ Finset.range st.next, owed c (st.pc i) = 0 := by
    apply Finset.sum_eq_zero
    intro i hi
    have hpc := hover i (Finset.mem_range.mp hi)
    cases h : st.pc i <;> rw [h] at hpc <;> cases hpc <;> rfl
  rw [State.settled, hsum, Int.add_zero]

/-- The registry's methods do at once what the step does to the map, and what its call will
have done to the counters. -/
theorem matched_step {st st' : State} {a : Action} {reg : Registry} (h : InOrder st)
    (hmap : reg.id2TierMap = st.reg.id2TierMap) (hs : system.step st a = some st') :
    ∃ reg', oneAtATime.run reg (point st a) = some reg' ∧ reg'.id2TierMap = st'.reg.id2TierMap ∧
      ∀ c, st'.settled c + reg.counter c = st.settled c + reg'.counter c + staleness c st a := by
  cases a with
  | call c =>
    cases hs
    refine ⟨reg,rfl,hmap,?_⟩
    intro t
    have hentry : owed t c.entry = 0 := by cases c <;> rfl
    have hout : st.next ∉ Finset.range st.next := Finset.notMem_range_self
    have hothers := IndexedSum.sum_update_of_notMem hout st.pc c.entry (fun _ => owed t)
    have hsum : (st.issue c).settled t = st.settled t := by
      simp only [State.settled,State.issue,Finset.sum_range_succ,Function.update_self,hentry,add_zero,hothers]
    rw [hsum]
    exact (Int.add_zero _).symm
  | step i vmId =>
    have hi : i ∈ Finset.range st.next := Finset.mem_range.mpr (h.ids.lt_next (ne_idle_of_advance hs))
    obtain ⟨_,hnext,hother⟩ := rank_advance hs
    have hamounts := amounts_of_advance h hs
    have hpc : st'.pc = Function.update st.pc i (st'.pc i) := by
      funext j
      by_cases hj : j = i
      · rw [hj, Function.update_self]
      · rw [Function.update_of_ne hj]
        exact hother j hj
    have hsum : ∀ c, ∑ j ∈ Finset.range st'.next, owed c (st'.pc j) + owed c (st.pc i) =
        ∑ j ∈ Finset.range st.next, owed c (st.pc j) + owed c (st'.pc i) := by
      intro c
      rw [hnext, hpc]
      simpa only [Function.update_self] using IndexedSum.sum_update_add hi st.pc (st'.pc i) (fun _ => owed c)
    generalize point st (.step i vmId) = l at hamounts ⊢
    cases hamounts with
    | nothing hmap' hanswered hcount =>
      refine ⟨reg,rfl,hmap.trans hmap'.symm,?_⟩
      intro c
      have hc := hcount c
      have hs := hsum c
      simp only [State.settled]
      omega
    | effect op val hcall hbefore hafter hstale hexec =>
      obtain ⟨hval,hmap',hcount⟩ := hexec reg hmap
      refine ⟨(exec reg op).1,run_occurrence hval,hmap',?_⟩
      intro c
      have hc := hcount c
      have hs := hsum c
      have hstale := hstale c
      simp only [State.settled]
      omega

/-- The registry against that of the calls executed one at a time: the same map, and the
counters up to what calls under way owe them and stale stores have made of them. -/
structure Matched (as : List Action) (st : State) (reg : Registry) : Prop where
  order : InOrder st
  map : reg.id2TierMap = st.reg.id2TierMap
  counters : ∀ c, st.settled c = reg.counter c + drift c start as

theorem matched_start : Matched [] start Registry.masterHandlerStart :=
  ⟨inOrder_start,rfl,fun _ => rfl⟩

theorem matched_run {as : List Action} {st : State} (hr : system.run start as = some st) :
    ∃ reg, oneAtATime.run Registry.masterHandlerStart (history start as) = some reg ∧ Matched as st reg := by
  refine LabelledSystem.run_emitted (Q := Matched) ?_ hr matched_start
  intro as st reg a st' hr h hs
  obtain ⟨reg',hrun,hmap,hcount⟩ := matched_step h.order h.map hs
  refine ⟨reg',hrun,inOrder_step h.order hs,hmap,?_⟩
  intro c
  have hdrift : drift c start (as ++ [a]) = drift c start as + staleness c st a := by
    rw [drift_append c hr]
    simp only [drift,hs,Option.elim_some,Int.add_zero]
  have hbefore := h.counters c
  have hafter := hcount c
  omega

/-- A VM is looked up and deregistered while the scale-out that started it has yet to count it. -/
def lookedUpWithinScaleOut : List Action :=
  [.call (.scaleOut 1),.step 0 2,.step 0 0,.step 0 0,.step 0 0,.call (.getTier 2),.step 1 0,
    .call (.deleteVMFromMap 2),.step 2 0,.step 2 0,.step 1 0,.step 2 0,.step 2 0,.step 0 0,.step 0 0,.step 0 0,
    .step 2 0,.step 2 0,.step 2 0]

/-- Where every call is over the registry is the one that the methods leave, executed one at
a time in the order of the history, just when the stale stores of each counter have
cancelled out, and so in every run whose stores are all current. -/
theorem registry_one_at_a_time (as : List Action) (st : State) (hr : system.run start as = some st)
    (hover : ∀ i < st.next, (st.pc i).isOver = true) :
    (system.Meets StoresCurrent start as →
      oneAtATime.run Registry.masterHandlerStart (history start as) = some st.reg) ∧
    (oneAtATime.run Registry.masterHandlerStart (history start as) = some st.reg ↔
      ∀ c, drift c start as = 0) := by
  obtain ⟨reg,hrun,hmatched⟩ := matched_run hr
  have hsettled : ∀ c, st.settled c = st.reg.counter c := settled_of_over hover
  have hiff : oneAtATime.run Registry.masterHandlerStart (history start as) = some st.reg ↔
      ∀ c, drift c start as = 0 := by
    rw [hrun, Option.some.injEq]
    constructor
    · intro heq c
      have hc := hmatched.counters c
      rw [hsettled, heq] at hc
      omega
    · intro hdrift
      have hcounter : ∀ c, reg.counter c = st.reg.counter c := by
        intro c
        have hc := hmatched.counters c
        rw [hsettled, hdrift c] at hc
        omega
      exact Registry.registry_ext hmatched.map (hcounter .front) (hcounter .mid)
  exact ⟨fun hcurrent => hiff.mpr (fun c => drift_eq_zero hr hcurrent c),hiff⟩

theorem registry_one_at_a_time_lookedUpWithinScaleOut :
    ∃ st, system.run start lookedUpWithinScaleOut = some st ∧
      oneAtATime.run Registry.masterHandlerStart (history start lookedUpWithinScaleOut) = some st.reg := by
  have hrun : ∃ st, system.run start lookedUpWithinScaleOut = some st ∧
      ∀ i < st.next, (st.pc i).isOver = true := by decide
  obtain ⟨st,hst,hover⟩ := hrun
  exact ⟨st,hst,(registry_one_at_a_time lookedUpWithinScaleOut st hst hover).1 (by decide)⟩

end Handlers
end AutoScaling
