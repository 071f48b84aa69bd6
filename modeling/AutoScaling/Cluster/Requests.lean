import AutoScaling.Cluster.Membership
import AutoScaling.Cluster.RequestLog
import AutoScaling.Foundation.IndexedSum
import Mathlib.Algebra.BigOperators.Group.Finset.Basic
import Mathlib.Tactic.Abel

/-! # What becomes of a request

Every step of every party keeps its own account (what it obtained is what it settled
and what it holds), and `requestQueue` is a channel that hands on what was put into it,
in order. The totals and the order of each source follow from these two.
-/
namespace AutoScaling
variable {R : Type*}

/-- A step of a party that holds `held`, with the channel at `q`. -/
structure Flow (held held' : Option (Ticket R)) (q q' : List (Ticket R)) (ev : List (Event R)) :
    Prop where
  account : (held.toList : Multiset (Ticket R)) + obtained ev = settled ev + held'.toList
  channel : q ++ queued ev = polled ev ++ q'

namespace SlavePc

/-- What the slave has taken from its own queue and not yet brought into the master's. -/
def sending : SlavePc R → List (Ticket R)
  | .frontAdd r .sent => [r]
  | .ended (some .front) r => r.toList
  | _ => []

end SlavePc

def MainPc.sending : MainPc R → List (Ticket R)
  | .addRequest r => [r]
  | _ => []

theorem MainPc.sending_of_held {pc : MainPc R} (h : pc.held = none) : pc.sending = [] := by
  cases pc with
  | addRequest r => cases h
  | _ => rfl

structure SlaveFlow (i : VmId) (pc pc' : SlavePc R) (q q' : List (Ticket R)) (ev : List (Event R)) :
    Prop where
  flow : Flow pc.held pc'.held q q' ev
  source : pc.sending ++ taken ev = queued ev ++ pc'.sending
  origin : ∀ r ∈ taken ev, r.origin = .front i
  actor : ∀ e ∈ ev, e.actor = i

theorem SlaveFlow.silent {i : VmId} {pc pc' : SlavePc R} {q : List (Ticket R)}
    (hheld : pc'.held = pc.held) (hsending : pc'.sending = pc.sending) :
    SlaveFlow i pc pc' q q [] := by
  refine ⟨⟨?_,?_⟩,?_,?_,?_⟩
  · rw [hheld, add_comm]
    rfl
  · simp
  · rw [hsending]
    simp
  · intro r hr
    cases hr
  · intro e he
    cases he

theorem SlaveFlow.settle {i : VmId} {pc pc' : SlavePc R} {q : List (Ticket R)} {r : Ticket R}
    {e : Event R} (he : e = .processed i r ∨ e = .dropped i r) (hheld : pc.held = some r)
    (hheld' : pc'.held = none) (hsending : pc.sending = []) (hsending' : pc'.sending = []) :
    SlaveFlow i pc pc' q q [e] := by
  rcases he with rfl | rfl <;> refine ⟨⟨?_,?_⟩,?_,?_,?_⟩ <;>
    simp [hheld,hheld',hsending,hsending',Event.kind,Event.ticket,Event.actor]

theorem run_flow {i : VmId} {s s' : Slave R} {now : ℤ} {ev : List (Event R)} (q : List (Ticket R))
    (h : s.run i now = some (s',ev)) : SlaveFlow i s.pc s'.pc q q ev := by
  have hran := Slave.ran_of_run h
  rcases s with ⟨pc,st,slQueue⟩
  cases hran with
  | frontNext r rest =>
    refine ⟨⟨?_,?_⟩,?_,?_,?_⟩ <;>
      simp [SlavePc.held,SlavePc.sending,Event.kind,Event.ticket,Event.actor,Origin.vm]
  | midFastDrop r => exact .settle (.inr rfl) rfl rfl rfl rfl
  | midDrop r => exact .settle (.inr rfl) rfl rfl rfl rfl
  | midProcess start r => exact .settle (.inl rfl) rfl rfl rfl rfl
  | _ => exact .silent rfl rfl

/-- A failing call leaves the account open: the slave stops with the request in hand. -/
theorem throws_flow {i : VmId} {s s' : Slave R} (q : List (Ticket R)) (h : s.throws = some s') :
    SlaveFlow i s.pc s'.pc q q [] := by
  rcases s with ⟨pc,st,slQueue⟩
  cases pc with
  | deleteVM tier a => cases a <;> cases h <;> exact .silent rfl rfl
  | frontAdd r a => cases a <;> cases h <;> exact .silent rfl rfl
  | shutDown tier => cases tier <;> cases h <;> exact .silent rfl rfl
  | lookupMaster tier => cases tier <;> cases h <;> exact .silent rfl rfl
  | _ =>
    cases h
    try exact .silent rfl rfl

namespace Cluster

theorem Answered.flow {st : State R} {i : VmId} {pc pc' : SlavePc R} (h : Answered st i pc pc')
    (q : List (Ticket R)) : SlaveFlow i pc pc' q q [] := by
  cases h <;> exact .silent rfl rfl

/-- The execution of a call of slave `i` moves requests between its channel end and the
queue, and nothing else does in it. -/
theorem execute_flow {st st' : State R} {i : VmId} (hs : Executed st i st')
    (horigin : ∀ r ∈ (st.slaves i).pc.sending, r.origin = .front i) :
    ∃ pc ev, st'.slaves = Function.update st.slaves i ((st.slaves i).goto pc) ∧
      st'.log = st.log ++ ev ∧
      SlaveFlow i (st.slaves i).pc pc st.requestQueue st'.requestQueue ev := by
  cases hs with
  | answer pc ha => exact ⟨pc,[],rfl,(List.append_nil _).symm,ha.flow _⟩
  | addRequest r hpc =>
    have hr : r.origin = .front i := horigin r (by simp [hpc,SlavePc.sending])
    refine ⟨_,[.queued r],rfl,rfl,⟨?_,?_⟩,?_,?_,?_⟩ <;>
      simp [hpc,SlavePc.held,SlavePc.sending,State.setPc,State.setSlave,State.addRequest,Event.kind,
        Event.ticket,Event.actor,hr,Origin.vm]
  | pollRequest now cnt len r rest hpc hqueue =>
    refine ⟨_,[.polled i r],rfl,rfl,⟨?_,?_⟩,?_,?_,?_⟩ <;>
      simp [hpc,SlavePc.held,SlavePc.sending,State.setPc,State.setSlave,State.record,Event.kind,
        Event.ticket,Event.actor,hqueue]
  | scaleOut vmId cnt len r hpc hnew =>
    refine ⟨_,[],rfl,(List.append_nil _).symm,?_⟩
    rw [hpc]
    exact .silent rfl rfl
  | deleteVM tier hpc =>
    refine ⟨_,[],rfl,(List.append_nil _).symm,?_⟩
    rw [hpc]
    exact .silent rfl rfl

structure MainFlow (pc pc' : MainPc R) (q q' : List (Ticket R)) (ev : List (Event R)) : Prop where
  flow : Flow pc.held pc'.held q q' ev
  source : pc.sending ++ ofOrigin .master (taken ev) = queued ev ++ pc'.sending
  origin : ∀ r ∈ taken ev, r.origin = .master ∨ r.origin = .masterBoot
  actor : ∀ e ∈ ev, e.actor = 1

theorem MainFlow.silent {pc pc' : MainPc R} {q : List (Ticket R)} (hheld : pc'.held = pc.held)
    (hsending : pc'.sending = pc.sending) : MainFlow pc pc' q q [] := by
  refine ⟨⟨?_,?_⟩,?_,?_,?_⟩
  · rw [hheld, add_comm]
    rfl
  · simp
  · rw [hsending]
    simp [ofOrigin]
  · intro r hr
    cases hr
  · intro e he
    cases he

theorem MainFlow.idle {pc pc' : MainPc R} {q : List (Ticket R)} (hheld : pc.held = none)
    (hheld' : pc'.held = none) : MainFlow pc pc' q q [] :=
  .silent (hheld'.trans hheld.symm)
    ((MainPc.sending_of_held hheld').trans (MainPc.sending_of_held hheld).symm)

theorem mainStep_flow {st st' : State R} (hs : MainStepped st st')
    (horigin : ∀ r ∈ st.main.sending, r.origin = .master) :
    ∃ ev, st'.log = st.log ++ ev ∧
      MainFlow st.main st'.main st.requestQueue st'.requestQueue ev := by
  cases hs with
  | quiet statics slQueue pc hheld hheld' => exact ⟨[],(List.append_nil _).symm,.idle hheld hheld'⟩
  | scaleOut vmId tier statics pc hnew hboot hheld hheld' =>
    exact ⟨[],(List.append_nil _).symm,.idle hheld hheld'⟩
  | takeBoot start r rest hm =>
    refine ⟨_,rfl,⟨?_,?_⟩,?_,?_,?_⟩ <;>
      simp [hm,MainPc.held,MainPc.sending,State.record,Event.kind,Event.ticket,Event.actor,Origin.vm,
        ofOrigin]
  | process start r statics slQueue hm =>
    refine ⟨_,rfl,⟨?_,?_⟩,?_,?_,?_⟩ <;>
      simp [hm,MainPc.held,MainPc.sending,State.record,Event.kind,Event.ticket,Event.actor,ofOrigin]
  | take r rest hm =>
    refine ⟨_,rfl,⟨?_,?_⟩,?_,?_,?_⟩ <;>
      simp [hm,MainPc.held,MainPc.sending,State.record,Event.kind,Event.ticket,Event.actor,Origin.vm,
        ofOrigin]
  | addRequest r hm =>
    have hr : r.origin = .master := horigin r (by simp [hm,MainPc.sending])
    refine ⟨[.queued r],rfl,⟨?_,?_⟩,?_,?_,?_⟩ <;>
      simp [hm,MainPc.held,MainPc.sending,State.addRequest,Event.kind,Event.ticket,Event.actor,
        Origin.vm,ofOrigin,hr]

def holding (s : Slave R) : Multiset (Ticket R) := s.pc.held.toList

/-- The accounts of all parties and of each slave, the channel, and the order of each
source as far as the channel. -/
structure Accounts (st : State R) : Prop where
  total : (obtained st.log : Multiset (Ticket R)) =
    settled st.log + (∑ i ∈ st.vms, holding (st.slaves i) + st.main.held.toList)
  channel : queued st.log = polled st.log ++ st.requestQueue
  own : ∀ i, i ≠ 1 → (obtained (byVm i st.log) : Multiset (Ticket R)) =
    settled (byVm i st.log) + holding (st.slaves i)
  source : ∀ i, ofOrigin (.front i) (taken st.log) =
    ofOrigin (.front i) (queued st.log) ++ (st.slaves i).pc.sending
  master : ofOrigin .master (taken st.log) = ofOrigin .master (queued st.log) ++ st.main.sending
  origin : ∀ i, ∀ r ∈ (st.slaves i).pc.sending, r.origin = .front i
  mainOrigin : ∀ r ∈ st.main.sending, r.origin = .master

/-- A party's step balances its account: with what the others hold unchanged, the total
balances too. -/
theorem total_step {O S o s H H' h h' : Multiset (Ticket R)} (htotal : O = S + H)
    (haccount : h + o = s + h') (hsum : H' + h = H + h') : O + o = S + s + H' := by
  apply add_right_cancel (b := h)
  calc O + o + h = S + H + (h + o) := by rw [htotal]; abel
    _ = S + s + (H + h') := by rw [haccount]; abel
    _ = S + s + (H' + h) := by rw [hsum]
    _ = S + s + H' + h := by abel

theorem channel_step {Q P q q' e p : List (Ticket R)} (hchannel : Q = P ++ q)
    (hflow : q ++ e = p ++ q') : Q ++ e = P ++ p ++ q' := by
  rw [hchannel, List.append_assoc, hflow, ← List.append_assoc]

theorem Accounts.slave {st st' : State R} (h : Accounts st) {i : VmId} {s : Slave R}
    {ev : List (Event R)} (hslaves : st'.slaves = Function.update st.slaves i s)
    (hlog : st'.log = st.log ++ ev) (hmain : st'.main = st.main)
    (hflow : SlaveFlow i (st.slaves i).pc s.pc st.requestQueue st'.requestQueue ev)
    (hi : i ∈ st.vms) (hone : i ≠ 1)
    (hsum : ∑ j ∈ st'.vms, holding (st'.slaves j) = ∑ j ∈ st.vms, holding (st'.slaves j)) :
    Accounts st' := by
  have hmoved : ∀ r ∈ queued ev ++ s.pc.sending, r.origin = .front i := by
    intro r hr
    rw [← hflow.source] at hr
    rcases List.mem_append.mp hr with hr | hr
    · exact h.origin i r hr
    · exact hflow.origin r hr
  have hqueued : ∀ r ∈ queued ev, r.origin = .front i :=
    fun r hr => hmoved r (List.mem_append_left _ hr)
  have hself : st'.slaves i = s := by rw [hslaves, Function.update_self]
  have hother : ∀ j, j ≠ i → st'.slaves j = st.slaves j :=
    fun j hj => by rw [hslaves, Function.update_of_ne hj]
  refine ⟨?_,?_,?_,?_,?_,?_,?_⟩
  · have hupdate := IndexedSum.sum_update_add hi st.slaves s (fun _ => holding)
    rw [← hslaves, ← hsum] at hupdate
    rw [hlog, hmain, obtained, settled, tickets_append, tickets_append, ← Multiset.coe_add,
      ← Multiset.coe_add]
    apply total_step h.total hflow.flow.account
    calc _ = ∑ j ∈ st'.vms, holding (st'.slaves j) + holding (st.slaves i) + st.main.held.toList := by
          rw [holding]
          abel
      _ = _ := by
          rw [hupdate, holding]
          abel
  · rw [hlog, queued, polled, tickets_append, tickets_append]
    exact channel_step h.channel hflow.flow.channel
  · intro j hj
    rw [hlog, byVm_append]
    by_cases he : j = i
    · subst he
      rw [byVm_eq_self hflow.actor, hself, obtained, settled, tickets_append, tickets_append,
        ← Multiset.coe_add, ← Multiset.coe_add]
      exact total_step (h.own j hj) hflow.flow.account (add_comm _ _)
    · rw [byVm_eq_nil (fun e he' hj => he (hj.symm.trans (hflow.actor e he'))), List.append_nil,
        hother j he]
      exact h.own j hj
  · intro j
    rw [hlog, taken, queued, tickets_append, tickets_append, ofOrigin_append, ofOrigin_append]
    by_cases he : j = i
    · subst he
      rw [ofOrigin_eq_self hflow.origin, ofOrigin_eq_self hqueued, hself, h.source j,
        List.append_assoc, hflow.source, List.append_assoc]
    · have hne : ∀ r : Ticket R, r.origin = .front i → r.origin ≠ .front j := by
        intro r hr hj
        exact he (Origin.front.inj (hj.symm.trans hr))
      rw [ofOrigin_eq_nil (fun r hr => hne r (hflow.origin r hr)),
        ofOrigin_eq_nil (fun r hr => hne r (hqueued r hr)), List.append_nil, List.append_nil,
        hother j he]
      exact h.source j
  · have hne : ∀ r : Ticket R, r.origin = .front i → r.origin ≠ .master := by
      intro r hr hm
      cases hm.symm.trans hr
    rw [hlog, hmain, taken, queued, tickets_append, tickets_append, ofOrigin_append, ofOrigin_append,
      ofOrigin_eq_nil (fun r hr => hne r (hflow.origin r hr)),
      ofOrigin_eq_nil (fun r hr => hne r (hqueued r hr)), List.append_nil, List.append_nil]
    exact h.master
  · intro j r hr
    by_cases he : j = i
    · subst he
      rw [hself] at hr
      exact hmoved r (List.mem_append_right _ hr)
    · rw [hother j he] at hr
      exact h.origin j r hr
  · rw [hmain]
    exact h.mainOrigin

theorem sum_holding_insert {slaves : VmId → Slave R} {vms : Finset VmId} {vmId : VmId}
    (hnew : vmId ∉ vms) (hoff : (slaves vmId).pc = .off) :
    ∑ j ∈ insert vmId vms, holding (slaves j) = ∑ j ∈ vms, holding (slaves j) := by
  rw [Finset.sum_insert hnew, holding, hoff]
  exact zero_add _

theorem Accounts.main {st st' : State R} (h : Accounts st) {ev : List (Event R)}
    (hslaves : st'.slaves = st.slaves) (hlog : st'.log = st.log ++ ev)
    (hflow : MainFlow st.main st'.main st.requestQueue st'.requestQueue ev)
    (hsum : ∑ j ∈ st'.vms, holding (st.slaves j) = ∑ j ∈ st.vms, holding (st.slaves j)) :
    Accounts st' := by
  have hmoved : ∀ r ∈ queued ev ++ st'.main.sending, r.origin = .master := by
    intro r hr
    rw [← hflow.source] at hr
    rcases List.mem_append.mp hr with hr | hr
    · exact h.mainOrigin r hr
    · exact of_decide_eq_true (List.mem_filter.mp hr).2
  have hqueued : ∀ r ∈ queued ev, r.origin = .master :=
    fun r hr => hmoved r (List.mem_append_left _ hr)
  refine ⟨?_,?_,?_,?_,?_,?_,?_⟩
  · rw [hlog, hslaves, hsum, obtained, settled, tickets_append, tickets_append, ← Multiset.coe_add,
      ← Multiset.coe_add]
    refine total_step h.total hflow.flow.account ?_
    abel
  · rw [hlog, queued, polled, tickets_append, tickets_append]
    exact channel_step h.channel hflow.flow.channel
  · intro j hj
    rw [hlog, hslaves, byVm_append,
      byVm_eq_nil (fun e he hj' => hj (hj'.symm.trans (hflow.actor e he))), List.append_nil]
    exact h.own j hj
  · intro j
    have hnil : ofOrigin (.front j) (taken ev) = [] := by
      apply ofOrigin_eq_nil
      intro r hr hj
      rcases hflow.origin r hr with hm | hm <;> cases hm.symm.trans hj
    have hnil' : ofOrigin (.front j) (queued ev) = [] := by
      apply ofOrigin_eq_nil
      intro r hr hj
      cases (hqueued r hr).symm.trans hj
    rw [hlog, hslaves, taken, queued, tickets_append, tickets_append, ofOrigin_append,
      ofOrigin_append, hnil, hnil', List.append_nil, List.append_nil]
    exact h.source j
  · rw [hlog, taken, queued, tickets_append, tickets_append, ofOrigin_append, ofOrigin_append,
      ofOrigin_eq_self hqueued, h.master, List.append_assoc, hflow.source, List.append_assoc]
  · rw [hslaves]
    exact h.origin
  · exact fun r hr => hmoved r (List.mem_append_right _ hr)

theorem accounts_step {st st' : State R} {a : Action R} (hinv : Inv st) (h : Accounts st)
    (hs : system.step st a = some st') : Accounts st' := by
  simp only [system] at hs
  cases a with
  | main booting now vmId =>
    have hstepped := mainStepped_of_mainStep hs
    obtain ⟨ev,hlog,hflow⟩ := mainStep_flow hstepped h.mainOrigin
    refine h.main (slaves_of_mainStep hs) hlog hflow ?_
    cases hstepped with
    | scaleOut vmId tier statics pc hnew hboot hheld hheld' =>
      exact sum_holding_insert hnew.1 (hinv.launched vmId hnew.1)
    | _ => rfl
  | boot i =>
    obtain ⟨⟨hi,hoff⟩,rfl⟩ := boot_eq_some.mp hs
    have hflow : SlaveFlow i (st.slaves i).pc .booting st.requestQueue st.requestQueue [] := by
      rw [hoff]
      exact .silent rfl rfl
    exact h.slave rfl (List.append_nil _).symm rfl hflow hi (hinv.ne_master hi) rfl
  | run i now =>
    obtain ⟨⟨s,ev⟩,hrun,rfl⟩ := Option.map_eq_some_iff.mp hs
    have hi : i ∈ st.vms := hinv.mem_vms (Slave.ne_off_of_run hrun)
    exact h.slave rfl rfl rfl (run_flow _ hrun) hi (hinv.ne_master hi) rfl
  | execute i vmId =>
    have hexec := executed_of_execute hs
    obtain ⟨pc,ev,hslaves,hlog,hflow⟩ := execute_flow hexec (h.origin i)
    have hi : i ∈ st.vms := hinv.mem_vms (ne_off_of_execute hs)
    refine h.slave hslaves hlog (thread_of_execute hs).1 hflow hi (hinv.ne_master hi) ?_
    cases hexec with
    | scaleOut vmId cnt len r hpc hnew =>
      apply sum_holding_insert hnew.1
      have hne : vmId ≠ i := by
        rintro rfl
        exact hnew.1 hi
      rw [hslaves, Function.update_of_ne hne]
      exact hinv.launched vmId hnew.1
    | _ => rfl
  | arrive i r =>
    cases hs
    simp only [State.arrive]
    split
    · exact ⟨h.total,h.channel,h.own,h.source,h.master,h.origin,h.mainOrigin⟩
    · have hsame : ∀ j, (Function.update st.slaves i
          { st.slaves i with slQueue := (st.slaves i).slQueue ++ [r] } j).pc = (st.slaves j).pc := by
        intro j
        by_cases he : j = i
        · subst he
          rw [Function.update_self]
        · rw [Function.update_of_ne he]
      refine ⟨?_,h.channel,?_,?_,h.master,?_,h.mainOrigin⟩
      · simp only [State.setSlave,holding,hsame]
        exact h.total
      · simp only [State.setSlave,holding,hsame]
        exact h.own
      · simp only [State.setSlave,hsame]
        exact h.source
      · simp only [State.setSlave,hsame]
        exact h.origin
  | throws i =>
    obtain ⟨s,hthrow,rfl⟩ := Option.map_eq_some_iff.mp hs
    have hi : i ∈ st.vms := hinv.mem_vms (Slave.ne_off_of_throws hthrow)
    exact h.slave rfl (List.append_nil _).symm rfl (throws_flow _ hthrow) hi (hinv.ne_master hi) rfl

theorem accounts_start (masterStartTime : ℤ) : Accounts (start masterStartTime : State R) := by
  refine ⟨rfl,rfl,fun _ _ => rfl,fun _ => rfl,rfl,?_,?_⟩
  · intro i r hr
    cases hr
  · intro r hr
    cases hr

theorem accounts_run {masterStartTime : ℤ} {as : List (Action R)} {st : State R}
    (hr : system.run (start masterStartTime) as = some st) : Accounts st :=
  (LabelledSystem.run_invariant (I := fun u : State R => Inv u ∧ Accounts u)
    (fun _ _ _ h hs => ⟨inv_step h.1 hs,accounts_step h.1 h.2 hs⟩) hr
    ⟨inv_start masterStartTime,accounts_start masterStartTime⟩).2

def Reliable (_ : State R) : Action R → Prop
  | .throws _ => False
  | _ => True

instance decidableReliable (st : State R) : (a : Action R) → Decidable (Reliable st a)
  | .throws _ => .isFalse (fun h => h)
  | .main _ _ _ => .isTrue trivial
  | .boot _ => .isTrue trivial
  | .run _ _ => .isTrue trivial
  | .execute _ _ => .isTrue trivial
  | .arrive _ _ => .isTrue trivial

/-- Without an exception a slave stops in `System.exit` only. -/
def StopsEmpty (st : State R) : Prop :=
  ∀ i, (st.slaves i).pc.loopEnded = true → (st.slaves i).pc.held = none

theorem run_stopsEmpty {i : VmId} {s s' : Slave R} {now : ℤ} {ev : List (Event R)}
    (h : s.run i now = some (s',ev)) : s'.pc.loopEnded = true → s'.pc.held = none := by
  have hran := Slave.ran_of_run h
  rcases s with ⟨pc,st,q⟩
  intro hended
  cases hran with
  | deleteVM tier u => rfl
  | _ => cases hended

theorem Answered.loopEnded {st : State R} {i : VmId} {pc pc' : SlavePc R}
    (h : Answered st i pc pc') : pc'.loopEnded = false := by
  cases h <;> rfl

theorem stopsEmpty_step {st st' : State R} {a : Action R} (h : StopsEmpty st) (ha : Reliable st a)
    (hs : system.step st a = some st') : StopsEmpty st' := by
  have hmove : ∀ (i : VmId) (s : Slave R), st'.slaves = Function.update st.slaves i s →
      (s.pc.loopEnded = true → s.pc.held = none) → StopsEmpty st' := by
    intro i s hslaves hstop
    unfold StopsEmpty
    rw [hslaves]
    exact (Function.forall_update_iff st.slaves
      (fun _ u => u.pc.loopEnded = true → u.pc.held = none)).mpr ⟨hstop,fun j _ => h j⟩
  simp only [system] at hs
  cases a with
  | main booting now vmId =>
    unfold StopsEmpty
    rw [slaves_of_mainStep hs]
    exact h
  | boot i =>
    obtain ⟨_,rfl⟩ := boot_eq_some.mp hs
    exact hmove i _ rfl (fun he => by cases he)
  | run i now =>
    obtain ⟨⟨s,ev⟩,hrun,rfl⟩ := Option.map_eq_some_iff.mp hs
    exact hmove i s rfl (run_stopsEmpty hrun)
  | execute i vmId =>
    cases executed_of_execute hs with
    | answer pc ha => exact hmove i _ rfl (fun he => by cases ha.loopEnded.symm.trans he)
    | _ => exact hmove i _ rfl (fun he => by cases he)
  | arrive i r =>
    cases hs
    simp only [State.arrive] at hmove ⊢
    split
    · exact h
    · rename_i hi
      rw [if_neg hi] at hmove
      exact hmove i _ rfl (h i)
  | throws i => exact absurd ha (fun hf => hf)

/-- Requests are neither lost nor duplicated, and the order of each source is kept: what
`SL.getNextRequest` has returned is what is held, under way or queued, together with
what was processed or dropped; and what has been polled of one source, a front server
or the master outside boot, is the first part of what that source took. -/
theorem requests_conserved (masterStartTime : ℤ) (as : List (Action R)) (st : State R)
    (hr : system.run (start masterStartTime) as = some st)
    (hreliable : system.Meets Reliable (start masterStartTime) as) :
    ((taken st.log : Multiset (Ticket R)) =
      ∑ i ∈ st.vms, holding (st.slaves i) + st.main.held.toList + st.requestQueue +
        processed st.log + dropped st.log) ∧
    (processed st.log : Multiset (Ticket R)) + dropped st.log ≤ taken st.log ∧
    ((taken st.log).Nodup → (processed st.log ++ dropped st.log).Nodup) ∧
    (∀ i, (st.slaves i).pc.loopEnded = true → holding (st.slaves i) = 0) ∧
    ∀ o, o ≠ .masterBoot → ofOrigin o (polled st.log) <+: ofOrigin o (taken st.log) := by
  have h := accounts_run hr
  have hstops : StopsEmpty st := LabelledSystem.run_invariant_of_meets
    (fun _ _ _ => stopsEmpty_step) hr hreliable (fun _ _ => rfl)
  have htotal : (taken st.log : Multiset (Ticket R)) =
      ∑ i ∈ st.vms, holding (st.slaves i) + st.main.held.toList + st.requestQueue +
        processed st.log + dropped st.log := by
    have hobtained := h.total
    rw [coe_obtained, coe_settled, h.channel, ← Multiset.coe_add] at hobtained
    apply add_right_cancel (b := (polled st.log : Multiset (Ticket R)))
    rw [hobtained]
    abel
  have hle : (processed st.log : Multiset (Ticket R)) + dropped st.log ≤ taken st.log := by
    rw [htotal, add_assoc _ (processed st.log : Multiset (Ticket R))]
    exact Multiset.le_add_left _ _
  refine ⟨htotal,hle,?_,?_,?_⟩
  · intro hnodup
    rw [Multiset.coe_add] at hle
    exact Multiset.coe_nodup.mp (Multiset.nodup_of_le hle (Multiset.coe_nodup.mpr hnodup))
  · intro i hi
    rw [holding, hstops i hi]
    rfl
  · intro o ho
    have hqueued : ofOrigin o (queued st.log) =
        ofOrigin o (polled st.log) ++ ofOrigin o st.requestQueue := by
      rw [h.channel, ofOrigin_append]
    cases o with
    | front i =>
      rw [h.source i, hqueued, List.append_assoc]
      exact List.prefix_append _ _
    | master =>
      rw [h.master, hqueued, List.append_assoc]
      exact List.prefix_append _ _
    | masterBoot => exact absurd rfl ho

/-- Front server 3 takes two requests and the master one; mid server 2 boots and polls
the first of them. -/
def twoSources : List (Action ℕ) :=
  [.main false 0 2,.main false 0 3,.boot 3,.run 3 0,.execute 3 0,.run 3 0,.run 3 0,.arrive 3 7,
    .arrive 3 8,.arrive 1 9,.run 3 0,.execute 3 0,.run 3 0,.execute 3 0,.run 3 0,.run 3 0,
    .main false 50 0,.main false 50 0,.main false 50 0,.execute 3 0,.run 3 0,.run 3 0,.execute 3 0,
    .run 3 0,.execute 3 0,.run 3 0,.run 3 0,.boot 2,.run 2 0,.execute 2 0,.run 2 0,.run 2 0,
    .run 2 3000,.execute 2 0,.run 2 0,.execute 2 0,.run 2 0,.execute 2 0,.run 2 3000,.run 2 3000]

theorem requests_conserved_twoSources :
    ∃ st, system.run (start 0) twoSources = some st ∧ (taken st.log).length = 3 ∧
      (processed st.log ++ dropped st.log).Nodup ∧
      ofOrigin (.front 3) (polled st.log) <+: ofOrigin (.front 3) (taken st.log) := by
  have hrun : ∃ st, system.run (start 0) twoSources = some st ∧
      (taken st.log).length = 3 ∧ (taken st.log).Nodup := by decide
  obtain ⟨st,hst,hlength,hnodup⟩ := hrun
  have h := requests_conserved 0 twoSources st hst (by decide)
  exact ⟨st,hst,hlength,h.2.2.1 hnodup,h.2.2.2.2 (.front 3) (by decide)⟩

end Cluster
end AutoScaling
