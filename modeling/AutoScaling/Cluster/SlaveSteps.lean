import AutoScaling.Cluster.Requests

/-! # What a run is to one slave

Each step of the cluster is a step of the slave, the execution of a call of its, something
that happens to it, or nothing to it; and what the log gains in its name is its own doing.
-/
namespace AutoScaling
namespace Cluster
variable {R : Type*}

def Action.isStepOf (i : VmId) : Action R → Bool
  | .run j _ => decide (j = i)
  | .execute j _ => decide (j = i)
  | _ => false

theorem isStepOf_run (i : VmId) (now : ℤ) : (Action.run i now : Action R).isStepOf i = true :=
  decide_eq_true rfl

theorem isStepOf_execute (i vmId : VmId) : (Action.execute i vmId : Action R).isStepOf i = true :=
  decide_eq_true rfl

inductive Seen (i : VmId) (st : State R) (a : Action R) (st' : State R) : Prop
  | other (hown : a.isStepOf i = false) (hslave : st'.slaves i = st.slaves i) (ev : List (Event R))
      (hlog : st'.log = st.log ++ ev) (hev : ∀ e ∈ byVm i ev, e.kind = .queued) : Seen i st a st'
  | boot (ha : a = .boot i) (hoff : (st.slaves i).pc = .off)
      (hslave : st'.slaves i = (st.slaves i).goto .booting) (hlog : st'.log = st.log) : Seen i st a st'
  | run (now : ℤ) (s : Slave R) (ev : List (Event R)) (ha : a = .run i now)
      (hrun : (st.slaves i).run i now = some (s,ev)) (hslave : st'.slaves i = s)
      (hlog : st'.log = st.log ++ ev) : Seen i st a st'
  | execute (vmId : VmId) (ha : a = .execute i vmId) (hexec : Executed st i st') : Seen i st a st'
  | arrive (r : R) (ha : a = .arrive i r)
      (hslave : st'.slaves i = { st.slaves i with slQueue := (st.slaves i).slQueue ++ [r] })
      (hlog : st'.log = st.log) : Seen i st a st'
  | throws (s : Slave R) (ha : a = .throws i) (hthrow : (st.slaves i).throws = some s)
      (hslave : st'.slaves i = s) (hlog : st'.log = st.log) : Seen i st a st'

theorem byVm_singleton_of_ne {i : VmId} {e : Event R} (h : e.actor ≠ i) : byVm i [e] = [] :=
  byVm_eq_nil (fun x hx => by rw [List.mem_singleton.mp hx]; exact h)

theorem tickets_of_queued {log : List (Event R)} (h : ∀ e ∈ log, e.kind = .queued) {k : Kind}
    (hk : k ≠ .queued) : tickets [k] log = [] := by
  rw [tickets, List.map_eq_nil_iff, List.filter_eq_nil_iff]
  intro e he
  rw [h e he]
  simpa using hk.symm

/-- The master's main thread logs in the name of VM 1, but for what it puts into
`requestQueue`. -/
theorem main_log {st st' : State R} {booting : Bool} {now : ℤ} {vmId i : VmId} (hone : i ≠ 1)
    (hs : st.mainStep booting now vmId = some st') :
    ∃ ev, st'.log = st.log ++ ev ∧ ∀ e ∈ byVm i ev, e.kind = .queued := by
  cases mainStepped_of_mainStep hs with
  | takeBoot start r rest hm =>
    exact ⟨_,rfl,by rw [byVm_singleton_of_ne (Ne.symm hone)]; exact fun e he => by cases he⟩
  | process start r statics slQueue hm =>
    exact ⟨_,rfl,by rw [byVm_singleton_of_ne (Ne.symm hone)]; exact fun e he => by cases he⟩
  | take r rest hm =>
    exact ⟨_,rfl,by rw [byVm_singleton_of_ne (Ne.symm hone)]; exact fun e he => by cases he⟩
  | addRequest r hm =>
    refine ⟨[.queued r],rfl,?_⟩
    intro e he
    rw [List.mem_singleton.mp (List.mem_filter.mp he).1]
    rfl
  | quiet statics slQueue pc hheld hheld' =>
    exact ⟨[],(List.append_nil _).symm,fun e he => by cases he⟩
  | scaleOut vmId tier statics pc hnew hboot hheld hheld' =>
    exact ⟨[],(List.append_nil _).symm,fun e he => by cases he⟩

theorem execute_log {st st' : State R} {i j : VmId} (hij : i ≠ j) (hs : Executed st j st') :
    st'.slaves i = st.slaves i ∧ ∃ ev, st'.log = st.log ++ ev ∧ ∀ e ∈ byVm i ev, e.kind = .queued := by
  have hnone : ∃ ev : List (Event R), st.log = st.log ++ ev ∧ ∀ e ∈ byVm i ev, e.kind = .queued :=
    ⟨[],(List.append_nil _).symm,fun e he => by cases he⟩
  cases hs with
  | answer pc h => exact ⟨Function.update_of_ne hij _ _,hnone⟩
  | scaleOut vmId cnt len r hpc hnew => exact ⟨Function.update_of_ne hij _ _,hnone⟩
  | deleteVM tier hpc => exact ⟨Function.update_of_ne hij _ _,hnone⟩
  | addRequest r hpc =>
    refine ⟨Function.update_of_ne hij _ _,[.queued r],rfl,?_⟩
    intro e he
    rw [List.mem_singleton.mp (List.mem_filter.mp he).1]
    rfl
  | pollRequest now cnt len r rest hpc hqueue =>
    refine ⟨Function.update_of_ne hij _ _,[.polled j r],rfl,?_⟩
    rw [byVm_singleton_of_ne (Ne.symm hij)]
    exact fun e he => by cases he

theorem seen_of_step {st st' : State R} {a : Action R} (hs : system.step st a = some st') {i : VmId}
    (hone : i ≠ 1) : Seen i st a st' := by
  simp only [system] at hs
  cases a with
  | main booting now vmId =>
    obtain ⟨ev,hlog,hev⟩ := main_log hone hs
    exact .other rfl (by rw [slaves_of_mainStep hs]) ev hlog hev
  | boot j =>
    obtain ⟨⟨_,hoff⟩,rfl⟩ := boot_eq_some.mp hs
    by_cases hij : i = j
    · subst hij
      exact .boot rfl hoff (Function.update_self _ _ _) rfl
    · exact .other rfl (Function.update_of_ne hij _ _) [] (List.append_nil _).symm (fun e he => by cases he)
  | run j now =>
    obtain ⟨⟨s,ev⟩,hrun,rfl⟩ := Option.map_eq_some_iff.mp hs
    by_cases hij : i = j
    · subst hij
      exact .run now s ev rfl hrun (Function.update_self _ _ _) rfl
    · have hactor : ∀ e ∈ ev, e.actor ≠ i := fun e he hi => hij (hi.symm.trans ((run_flow [] hrun).actor e he))
      refine .other (decide_eq_false (Ne.symm hij)) (Function.update_of_ne hij _ _) ev rfl ?_
      rw [byVm_eq_nil hactor]
      exact fun e he => by cases he
  | execute j vmId =>
    have hexec := executed_of_execute hs
    by_cases hij : i = j
    · subst hij
      exact .execute vmId rfl hexec
    · obtain ⟨hslave,ev,hlog,hev⟩ := execute_log hij hexec
      exact .other (decide_eq_false (Ne.symm hij)) hslave ev hlog hev
  | arrive j r =>
    cases hs
    by_cases hij : i = j
    · subst hij
      refine .arrive r rfl ?_ ?_ <;> rw [State.arrive, if_neg hone]
      · exact Function.update_self _ _ _
      · rfl
    · refine .other rfl ?_ [] ?_ (fun e he => by cases he) <;> rw [State.arrive] <;> split
      · rfl
      · exact Function.update_of_ne hij _ _
      · exact (List.append_nil _).symm
      · exact (List.append_nil _).symm
  | throws j =>
    obtain ⟨s,hthrow,rfl⟩ := Option.map_eq_some_iff.mp hs
    by_cases hij : i = j
    · subst hij
      exact .throws s rfl hthrow (Function.update_self _ _ _) rfl
    · exact .other rfl (Function.update_of_ne hij _ _) [] (List.append_nil _).symm (fun e he => by cases he)

end Cluster
end AutoScaling
