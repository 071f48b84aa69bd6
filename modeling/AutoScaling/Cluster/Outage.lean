import AutoScaling.Cluster.Launches
import AutoScaling.Cluster.OneSlave
import AutoScaling.Cluster.Provision
import AutoScaling.Cluster.RequestLog

/-! # What the counts hide

The master cannot tell a crashed server from one at work: both are in its map. A crashed
server therefore counts for good, and the mid tier can be without a server at work while
`midCount` says otherwise. Only mid servers poll `requestQueue`, and outside boot only mid
servers start mid servers, so from such a state on nothing is ever served again.
-/
namespace AutoScaling
variable {R : Type*}

namespace SlavePc

def broken : SlavePc R → Bool
  | .exited _ deregistered => !deregistered
  | .ended _ _ => true
  | _ => false

end SlavePc

theorem SlaveMoves.broken {i : VmId} {s s' : Slave R} (h : SlaveMoves i s s')
    (hb : s.pc.broken = true) : s'.pc.broken = true := by
  cases h with
  | boot hoff =>
    rw [hoff] at hb
    cases hb
  | run now s' ev hrun =>
    have hran := Slave.ran_of_run hrun
    rcases s with ⟨pc,st,q⟩
    cases hran <;> cases hb
  | reply pc hreply =>
    rcases s with ⟨p,st,q⟩
    cases hreply <;> cases hb
  | arrive r => exact hb
  | throws s' hthrow =>
    rcases s with ⟨pc,st,q⟩
    cases pc with
    | exited tier d => cases hthrow
    | ended tier r => cases hthrow
    | _ => cases hb

namespace Cluster

theorem broken_step {st st' : State R} {a : Action R} (hs : system.step st a = some st') {i : VmId}
    (hb : (st.slaves i).pc.broken = true) : (st'.slaves i).pc.broken = true := by
  rcases slaveMoves_of_step hs i with hsame | hmoves
  · rwa [hsame]
  · exact hmoves.broken hb

theorem broken_persists {st st' : State R} {as : List (Action R)} {i : VmId}
    (hr : system.run st as = some st') (h : (st.slaves i).pc.broken = true) :
    (st'.slaves i).pc.broken = true :=
  LabelledSystem.run_invariant (I := fun u : State R => (u.slaves i).pc.broken = true)
    (fun _ _ _ hu hs => broken_step hs hu) hr h

theorem stage_of_broken {pc : SlavePc R} (h : pc.broken = true) : pc.stage ≠ .gone := by
  cases pc with
  | exited tier d =>
    cases d with
    | true => cases h
    | false => exact fun he => by cases he
  | ended tier r => exact fun he => by cases he
  | _ => cases h

/-- The VMs of one tier, among those a run has started, whose server has crashed. -/
def crashed (started : List Launch) (tier : Tier) (st : State R) : List Launch :=
  started.filter (fun x => decide (x.tier = tier) && (st.slaves x.vmId).pc.broken)

/-- A server that has crashed, by an exception of any of its calls before its
deregistration, is told and counted as a server of its tier in every later state: no count
ever falls below the crashes there have been. -/
theorem crashed_counted (masterStartTime : ℤ) (as bs : List (Action R)) (st st' : State R)
    (hr : system.run (start masterStartTime) as = some st) (hr' : system.run st bs = some st') :
    let started := system.emitted launches (start masterStartTime) as
    ∀ tier, (∀ x ∈ crashed started tier st, st'.reg.getTier x.vmId = tier.id) ∧
      ((own tier).length + (crashed started tier st).length : ℤ) ≤ st'.reg.getVMCount tier.id := by
  intro started tier
  have hrun : system.run (start masterStartTime) (as ++ bs) = some st' :=
    LabelledSystem.run_append_eq_some.mpr ⟨st,hr,hr'⟩
  have h : Booked (started ++ system.emitted launches st bs) st' := by
    have hbooked := booked_run hrun
    rwa [LabelledSystem.emitted_append hr] at hbooked
  have hkept : ∀ x ∈ crashed started tier st, x.tier = tier ∧ deregistered st' x.vmId = false := by
    intro x hx
    have hcrash := (List.mem_filter.mp hx).2
    rw [Bool.and_eq_true, decide_eq_true_iff] at hcrash
    refine ⟨hcrash.1,?_⟩
    rw [deregistered, decide_eq_false_iff_not]
    exact stage_of_broken (broken_persists hr' hcrash.2)
  have hmem : ∀ x ∈ crashed started tier st, x ∈ started ++ system.emitted launches st bs :=
    fun x hx => List.mem_append_left _ (List.mem_filter.mp hx).1
  constructor
  · intro x hx
    obtain ⟨htier,hin⟩ := hkept x hx
    rw [Registry.getTier, h.lookup_eq (hmem x hx), hin, htier]
    rfl
  · have hsub : (crashed started tier st).Sublist
        (registered (started ++ system.emitted launches st bs) tier st') := by
      have hfilter : crashed started tier st =
          (crashed started tier st).filter (fun x => decide (x.tier = tier) && !deregistered st' x.vmId) := by
        refine (List.filter_eq_self.mpr ?_).symm
        intro x hx
        obtain ⟨htier,hin⟩ := hkept x hx
        rw [htier, hin]
        simp
      rw [hfilter]
      exact ((List.filter_sublist).trans (List.sublist_append_left _ _)).filter _
    have hlength := hsub.length_le
    rw [h.inv.getVMCount_eq, h.valueCount_eq]
    omega

/-- The mid servers at work, or on their way to it. -/
def midServers (st : State R) : Finset VmId :=
  st.vms.filter (fun i => st.reg.id2TierMap.lookup i = some 1 ∧ (st.slaves i).pc.broken = false)

theorem mem_midServers {st : State R} {i : VmId} : i ∈ midServers st ↔
    i ∈ st.vms ∧ st.reg.id2TierMap.lookup i = some 1 ∧ (st.slaves i).pc.broken = false :=
  Finset.mem_filter

theorem Inv.mem_midServers {st : State R} (h : Inv st) {i : VmId}
    (hstage : (st.slaves i).pc.stage = .serving 1) : i ∈ midServers st := by
  have hi : i ∈ st.vms := by
    apply h.mem_vms
    intro hoff
    rw [hoff] at hstage
    cases hstage
  have hagrees : (st.slaves i).pc.stage.Agrees (st.reg.id2TierMap.lookup i) := h.roster.agrees i hi
  rw [hstage] at hagrees
  refine Cluster.mem_midServers.mpr ⟨hi,hagrees,?_⟩
  cases hb : (st.slaves i).pc.broken with
  | false => rfl
  | true =>
    cases hpc : (st.slaves i).pc with
    | exited tier d => cases d <;> rw [hpc] at hstage <;> cases hstage
    | ended tier r => rw [hpc] at hstage; cases hstage
    | _ => rw [hpc] at hb; cases hb

/-- Nobody but a mid server at work, and the master in boot, starts a mid server. -/
theorem launches_mid {st : State R} {a : Action R} {x : Launch} (hx : x ∈ launches st a)
    (hmid : x.tier = .mid) :
    st.main.inBoot = true ∨ ∃ i cnt len r, (st.slaves i).pc = .midScaleOut cnt len r .sent := by
  cases a with
  | main booting now vmId =>
    simp only [launches] at hx
    split at hx
    · rename_i hm
      exact .inl (by rw [hm]; rfl)
    · rename_i hm
      exact .inl (by rw [hm]; rfl)
    · rename_i hm
      exact .inl (by rw [hm]; rfl)
    · rw [List.mem_singleton.mp hx] at hmid
      cases hmid
    · cases hx
  | execute i vmId =>
    simp only [launches] at hx
    split at hx
    · rename_i hpc
      exact .inr ⟨i,_,_,_,hpc⟩
    · cases hx
  | _ => cases hx

/-- No mid server is at work and none will be started. -/
structure Down (st : State R) : Prop where
  inv : Inv st
  servers : midServers st = ∅
  booted : st.main.inBoot = false

theorem Down.ne_serving {st : State R} (h : Down st) (i : VmId) : (st.slaves i).pc.stage ≠ .serving 1 := by
  intro hstage
  have hi := h.inv.mem_midServers hstage
  rw [h.servers] at hi
  exact Finset.notMem_empty i hi

theorem Down.step {st st' : State R} {a : Action R} (h : Down st) (hn : NotBooting st a)
    (hs : system.step st a = some st') : Down st' := by
  refine ⟨inv_step h.inv hs,?_,inBoot_step h.booted hn hs⟩
  rw [Finset.eq_empty_iff_forall_notMem]
  intro i hi
  obtain ⟨hvm,hlookup,hb⟩ := mem_midServers.mp hi
  have hold : (st.slaves i).pc.broken = false := by
    by_contra hn
    rw [broken_step hs (Bool.eq_true_of_not_eq_false hn)] at hb
    cases hb
  have hbefore : i ∈ st.vms → st.reg.id2TierMap.lookup i ≠ some 1 := by
    intro hvm hlookup
    have hmem := mem_midServers.mpr ⟨hvm,hlookup,hold⟩
    rw [h.servers] at hmem
    exact Finset.notMem_empty i hmem
  cases peopled_of_step h.inv hs with
  | same hlaunch hvms hmap => exact hbefore (hvms ▸ hvm) (hmap ▸ hlookup)
  | launch x hlaunch hnew hvms hmap =>
    rw [hmap] at hlookup
    rcases ValueCount.lookup_insert_eq_some.mp hlookup with ⟨rfl,hid⟩ | ⟨hne,hlookup⟩
    · have hmid : x.tier = .mid := by
        cases ht : x.tier with
        | front => rw [ht] at hid; cases hid
        | mid => rfl
      rcases launches_mid (by rw [hlaunch]; exact List.mem_singleton_self x) hmid with hin | ⟨j,cnt,len,r,hpc⟩
      · rw [h.booted] at hin
        cases hin
      · exact h.ne_serving j (by rw [hpc]; rfl)
    · rw [hvms] at hvm
      exact hbefore (Finset.mem_of_mem_insert_of_ne hvm hne) hlookup
  | deregister j tier hlaunch hpc hvms hmap =>
    rw [hmap] at hlookup
    exact hbefore (hvms ▸ hvm) (ValueCount.lookup_erase_eq_some.mp hlookup).2

/-- While nobody is at work in the mid tier, requests may be taken and queued, and that is all. -/
theorem Down.quiet {st st' : State R} {a : Action R} (h : Down st) (hs : system.step st a = some st') :
    ∃ ev, st'.log = st.log ++ ev ∧ polled ev = [] ∧ processed ev = [] ∧ dropped ev = [] ∧
      st.requestQueue <+: st'.requestQueue := by
  have hstill : st'.log = st.log → st'.requestQueue = st.requestQueue →
      ∃ ev, st'.log = st.log ++ ev ∧ polled ev = [] ∧ processed ev = [] ∧ dropped ev = [] ∧
        st.requestQueue <+: st'.requestQueue :=
    fun hlog hqueue => ⟨[],by rw [hlog, List.append_nil],rfl,rfl,rfl,hqueue ▸ List.prefix_rfl⟩
  simp only [system] at hs
  cases a with
  | main booting now vmId =>
    cases mainStepped_of_mainStep hs with
    | quiet statics slQueue pc hheld hheld' => exact hstill rfl rfl
    | scaleOut vmId tier statics pc hnew hboot hheld hheld' => exact hstill rfl rfl
    | takeBoot start r rest hm => exact ⟨_,rfl,rfl,rfl,rfl,List.prefix_rfl⟩
    | process start r statics slQueue hm =>
      have hin := h.booted
      rw [hm] at hin
      cases hin
    | take r rest hm => exact ⟨_,rfl,rfl,rfl,rfl,List.prefix_rfl⟩
    | addRequest r hm => exact ⟨_,rfl,rfl,rfl,rfl,List.prefix_append _ _⟩
  | boot i =>
    obtain ⟨_,rfl⟩ := boot_eq_some.mp hs
    exact hstill rfl rfl
  | run i now =>
    obtain ⟨⟨s,ev⟩,hrun,rfl⟩ := Option.map_eq_some_iff.mp hs
    have hran := Slave.ran_of_run hrun
    have hidle := h.ne_serving i
    refine ⟨ev,rfl,?_⟩
    generalize (st.slaves i).pc = pc at hran hidle
    generalize (st.slaves i).slQueue = q at hran
    cases hran with
    | midFastDrop r => exact absurd rfl hidle
    | midDrop r => exact absurd rfl hidle
    | midProcess start r => exact absurd rfl hidle
    | _ => exact ⟨rfl,rfl,rfl,List.prefix_rfl⟩
  | execute i vmId =>
    cases executed_of_execute hs with
    | addRequest r hpc => exact ⟨_,rfl,rfl,rfl,rfl,List.prefix_append _ _⟩
    | pollRequest now cnt len r rest hpc hqueue => exact absurd (by rw [hpc]; rfl) (h.ne_serving i)
    | _ => exact hstill rfl rfl
  | arrive i r =>
    cases hs
    apply hstill <;> simp only [State.arrive] <;> split <;> rfl
  | throws i =>
    obtain ⟨_,_,rfl⟩ := Option.map_eq_some_iff.mp hs
    exact hstill rfl rfl

/-- With no mid server at work and the boot phase over, the service is down for good: in
every continuation no mid server comes back, and nothing is polled, processed or dropped
any more; `requestQueue` only grows. -/
theorem outage_permanent (masterStartTime : ℤ) (as bs : List (Action R)) (st st' : State R)
    (hr : system.run (start masterStartTime) as = some st) (hdown : midServers st = ∅)
    (hboot : st.main.inBoot = false) (hr' : system.run st bs = some st')
    (hn : system.Meets NotBooting st bs) :
    midServers st' = ∅ ∧ polled st'.log = polled st.log ∧ processed st'.log = processed st.log ∧
      dropped st'.log = dropped st.log ∧ st.requestQueue <+: st'.requestQueue := by
  have hinv := LabelledSystem.run_invariant_of_meets (I := fun u : State R => Down u ∧
      polled u.log = polled st.log ∧ processed u.log = processed st.log ∧
      dropped u.log = dropped st.log ∧ st.requestQueue <+: u.requestQueue) ?_ hr' hn
    ⟨⟨inv_run hr,hdown,hboot⟩,rfl,rfl,rfl,List.prefix_rfl⟩
  · exact ⟨hinv.1.servers,hinv.2⟩
  · rintro u a v ⟨hu,hpolled,hprocessed,hdropped,hqueue⟩ hg hs
    obtain ⟨ev,hlog,hp,hq,hd,hgrow⟩ := hu.quiet hs
    have hsame : ∀ kinds, tickets kinds ev = [] → tickets kinds u.log = tickets kinds st.log →
        tickets kinds v.log = tickets kinds st.log := by
      intro kinds hnone hold
      rw [hlog, tickets_append, hnone, List.append_nil, hold]
    exact ⟨hu.step hg hs,hsame _ hp hpolled,hsame _ hq hprocessed,hsame _ hd hdropped,hqueue.trans hgrow⟩

/-- Start-up, and the only mid server crashes as it boots. -/
def midCrash : List (Action ℕ) := [.main false 0 2,.main false 0 3,.boot 2,.throws 2]

def oneMore : List (Action ℕ) := [.arrive 1 7,.main false 0 0,.main false 0 0,.main false 0 0]

theorem crashed_counted_midCrash : ∃ st st', system.run (start 0) midCrash = some st ∧
    system.run st oneMore = some st' ∧ (1 : ℤ) ≤ st'.reg.getVMCount 1 := by
  have hrun : ∃ st, system.run (start 0) midCrash = some st ∧
      (crashed (system.emitted launches (start 0) midCrash) .mid st).length = 1 ∧
      (system.run st oneMore).isSome := by decide
  obtain ⟨st,hst,hcrash,hmore⟩ := hrun
  obtain ⟨st',hst'⟩ := Option.isSome_iff_exists.mp hmore
  have hcount := (crashed_counted 0 midCrash oneMore st st' hst hst' .mid).2
  rw [hcrash] at hcount
  exact ⟨st,st',hst,hst',hcount⟩

theorem outage_permanent_midCrash : ∃ st st', system.run (start 0) midCrash = some st ∧
    system.run st oneMore = some st' ∧ midServers st' = ∅ ∧ polled st'.log = polled st.log := by
  have hrun : ∃ st, system.run (start 0) midCrash = some st ∧ midServers st = ∅ ∧
      st.main.inBoot = false ∧ system.Meets NotBooting st oneMore ∧
      (system.run st oneMore).isSome := by decide
  obtain ⟨st,hst,hdown,hboot,hn,hmore⟩ := hrun
  obtain ⟨st',hst'⟩ := Option.isSome_iff_exists.mp hmore
  have h := outage_permanent 0 midCrash oneMore st st' hst hdown hboot hst' hn
  exact ⟨st,st',hst,hst',h.1,h.2.1⟩

end Cluster
end AutoScaling
