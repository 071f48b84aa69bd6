import AutoScaling.Cluster.System
import AutoScaling.Foundation.Roster

/-! # Who is in the master's map

Seen from the registry a slave only asks for its tier, is taken up in it, decides to
shut down, and is deregistered; every run of the cluster is a run of the roster of
these moves, with the master as its anchor.
-/
namespace AutoScaling
namespace SlavePc
variable {R : Type*}

/-- What the master's map has to do with a slave at this point. -/
def stage : SlavePc R → Stage TierId
  | .getTier (.replied tierId) => .told tierId
  | .shutDown tier => .leaving tier.id
  | .lookupMaster tier => .leaving tier.id
  | .deleteVM tier .sent => .leaving tier.id
  | .deleteVM _ (.replied _) => .gone
  | .exited _ true => .gone
  | .exited tier false => .failed (some tier.id)
  | .ended tier _ => .failed (tier.map Tier.id)
  | .unserved => .failed none
  | pc => pc.tier.elim .waiting (fun tier => .serving tier.id)

end SlavePc

namespace Slave
variable {R : Type*}

def scalesIn (s : Slave R) : Option Tier :=
  match s.pc with
  | .frontLength cnt (.replied len) => if (s.statics.frontScaleIn cnt len).2 then some .front else none
  | .midLength start cnt (.replied _) => if s.statics.idle start cnt then some .mid else none
  | _ => none

inductive StageStep (s : Slave R) : Stage TierId → Prop
  | same : StageStep s s.pc.stage
  | serve (tierId : TierId) (h : s.pc.stage = .told tierId) : StageStep s (.serving tierId)
  | quit (tierId : TierId) (h : s.pc.stage = .told tierId) : StageStep s (.failed none)
  | leave (tier : Tier) (h : s.pc.stage = .serving tier.id) (hs : s.scalesIn = some tier) :
      StageStep s (.leaving tier.id)

theorem stageStep_of_eq {s : Slave R} {x : Stage TierId} (h : x = s.pc.stage) : StageStep s x :=
  h ▸ .same

theorem run_stage {i : VmId} {s s' : Slave R} {now : ℤ} {ev : List (Event R)}
    (h : s.run i now = some (s',ev)) : StageStep s s'.pc.stage := by
  have hran := ran_of_run h
  rcases s with ⟨pc,st,q⟩
  cases hran with
  | toFront => exact .serve 0 rfl
  | toMid => exact .serve 1 rfl
  | toNone tierId => exact .quit tierId rfl
  | frontShutDown cnt len hshut => exact .leave .front rfl (by simp [scalesIn,hshut])
  | midShutDown start cnt len hidle => exact .leave .mid rfl (by simp [scalesIn,hidle])
  | _ => exact stageStep_of_eq rfl

/-- The two places where a slave scales in. -/
inductive ScalesIn (st : Statics) : SlavePc R → Tier → Prop
  | front (cnt len : ℤ) (hshut : (st.frontScaleIn cnt len).2 = true) :
      ScalesIn st (.frontLength cnt (.replied len)) .front
  | mid (start cnt len : ℤ) (hidle : st.idle start cnt = true) :
      ScalesIn st (.midLength start cnt (.replied len)) .mid

theorem of_scalesIn {s : Slave R} {tier : Tier} (h : s.scalesIn = some tier) :
    ScalesIn s.statics s.pc tier := by
  rcases s with ⟨pc,st,q⟩
  simp only [scalesIn] at h
  split at h
  · rename_i cnt len
    split at h <;> cases h
    rename_i hshut
    exact .front cnt len hshut
  · rename_i start cnt len
    split at h <;> cases h
    rename_i hidle
    exact .mid start cnt len hidle
  · cases h

theorem stage_of_scalesIn {s : Slave R} {tier : Tier} (h : s.scalesIn = some tier) :
    s.pc.stage = .serving tier.id := by
  have hin := of_scalesIn h
  rcases s with ⟨pc,st,q⟩
  cases hin <;> rfl

theorem throws_stage {s s' : Slave R} (h : s.throws = some s') :
    s'.pc.stage = s.pc.stage ∨
    s.pc.stage ≠ .gone ∧ s'.pc.stage = .failed s.pc.stage.actsAs := by
  rcases s with ⟨pc,st,q⟩
  cases pc with
  | getTier a =>
    cases a <;> cases h <;> exact .inr ⟨by simp [SlavePc.stage,SlavePc.tier],rfl⟩
  | deleteVM tier a =>
    cases a <;> cases h
    · exact .inr ⟨by simp [SlavePc.stage],rfl⟩
    · exact .inl rfl
  | _ =>
    cases h
    try exact .inr ⟨by simp [SlavePc.stage,SlavePc.tier],rfl⟩

end Slave

namespace Cluster
variable {R : Type*}

/-- The cluster as its registry sees it. -/
def State.roster (st : State R) : Roster VmId TierId :=
  ⟨st.reg.id2TierMap,st.vms,fun i => (st.slaves i).pc.stage⟩

theorem roster_eq {st : State R} {x : Roster VmId TierId} (hmembers : st.reg.id2TierMap = x.members)
    (hknown : st.vms = x.known) (hstage : ∀ j, (st.slaves j).pc.stage = x.stage j) : st.roster = x := by
  rcases x with ⟨members,known,stage⟩
  simp only at hmembers hknown hstage
  simp only [State.roster,hmembers,hknown,hstage]

theorem stage_update (slaves : VmId → Slave R) (i : VmId) (s : Slave R) (j : VmId) :
    (Function.update slaves i s j).pc.stage =
      Function.update (fun j => (slaves j).pc.stage) i s.pc.stage j := by
  by_cases hj : j = i
  · subst hj
    simp only [Function.update_self]
  · simp only [Function.update_of_ne hj]

theorem stage_update_same {slaves : VmId → Slave R} {i : VmId} {s : Slave R}
    (h : s.pc.stage = (slaves i).pc.stage) (j : VmId) :
    (Function.update slaves i s j).pc.stage = (slaves j).pc.stage := by
  rw [stage_update, h, Function.update_eq_self]

/-- The registry is coherent, it agrees with the slaves, and only started VMs run. -/
structure Inv (st : State R) : Prop where
  coherent : st.reg.Coherent
  roster : Roster.Inv 1 0 st.roster
  launched : ∀ i, i ∉ st.vms → (st.slaves i).pc = .off

theorem Inv.mem_vms {st : State R} (h : Inv st) {i : VmId} (hi : (st.slaves i).pc ≠ .off) :
    i ∈ st.vms := by
  by_contra hn
  exact hi (h.launched i hn)

theorem Inv.ne_master {st : State R} (h : Inv st) {i : VmId} (hi : i ∈ st.vms) : i ≠ 1 := by
  rintro rfl
  exact h.roster.anchor_notMem hi

/-- What a step is to the roster: nothing, or a move of its; and a slave leaves by a
step of its own whose routine calls `shutDown`. -/
inductive RosterStep (st : State R) (a : Action R) (x : Roster VmId TierId) : Prop
  | same (h : x = st.roster)
  | move (m : Roster.Move VmId TierId) (h : (Roster.system 1).step st.roster m = some x)
      (hleave : ∀ i, m = .leave i → ∃ now, a = .run i now ∧ ∃ tier, (st.slaves i).scalesIn = some tier)

theorem Inv.notMem_map {st : State R} (h : Inv st) {vmId : VmId}
    (hnew : vmId ∉ st.vms ∧ vmId ≠ 1) : vmId ∉ st.reg.id2TierMap :=
  fun hm => (h.roster.known_of_mem vmId hm).elim hnew.2 hnew.1

theorem roster_scaleOut {st st' : State R} (h : Inv st) {vmId : VmId} {tier : Tier}
    (hnew : vmId ∉ st.vms ∧ vmId ≠ 1) (hreg : st'.reg = st.reg.scaleOutCore vmId tier.id)
    (hvms : st'.vms = insert vmId st.vms)
    (hstage : ∀ j, (st'.slaves j).pc.stage = (st.slaves j).pc.stage) :
    (Roster.system 1).step st.roster (.start vmId tier.id) = some st'.roster := by
  have hmap := Registry.scaleOutCore_map (h.notMem_map hnew) tier.id
  rw [roster_eq (x := ⟨st.reg.id2TierMap.insert vmId tier.id,insert vmId st.vms,st.roster.stage⟩)
    (hreg ▸ hmap) hvms hstage]
  exact if_pos hnew

theorem thread_of_step {st st' : State R} {a : Action R}
    (ha : ∀ booting now vmId, a ≠ .main booting now vmId) (hs : system.step st a = some st') :
    st'.main = st.main ∧ st'.statics = st.statics := by
  simp only [system] at hs
  cases a with
  | main booting now vmId => exact absurd rfl (ha booting now vmId)
  | boot i =>
    obtain ⟨_,rfl⟩ := boot_eq_some.mp hs
    exact ⟨rfl,rfl⟩
  | run i now =>
    obtain ⟨_,_,rfl⟩ := Option.map_eq_some_iff.mp hs
    exact ⟨rfl,rfl⟩
  | execute i vmId => exact thread_of_execute hs
  | arrive i r =>
    cases hs
    simp only [State.arrive]
    split <;> exact ⟨rfl,rfl⟩
  | throws i =>
    obtain ⟨_,_,rfl⟩ := Option.map_eq_some_iff.mp hs
    exact ⟨rfl,rfl⟩

theorem roster_setSlave (st : State R) (i : VmId) (s : Slave R) :
    (st.setSlave i s).roster = st.roster.setStage i s.pc.stage :=
  roster_eq rfl rfl (stage_update st.slaves i s)

theorem setStage_same (x : Roster VmId TierId) (i : VmId) : x.setStage i (x.stage i) = x := by
  simp only [Roster.setStage,Function.update_eq_self]

theorem roster_run {st st' : State R} {i : VmId} {now : ℤ} (h : Inv st)
    (hs : step st (.run i now) = some st') : RosterStep st (.run i now) st'.roster := by
  obtain ⟨⟨s,ev⟩,hrun,rfl⟩ := Option.map_eq_some_iff.mp hs
  have hroster : ((st.setSlave i s).record ev).roster = st.roster.setStage i s.pc.stage :=
    roster_setSlave st i s
  have hstep := Slave.run_stage hrun
  rw [hroster]
  generalize s.pc.stage = x at hstep
  cases hstep with
  | same => exact .same (setStage_same st.roster i)
  | serve tierId ht =>
    refine .move (.serve i) ?_ (fun j hj => by cases hj)
    have hstage : st.roster.stage i = .told tierId := ht
    simp only [Roster.system,Roster.step,hstage]
  | quit tierId ht =>
    refine .move (.fail i) ?_ (fun j hj => by cases hj)
    have hstage : st.roster.stage i = .told tierId := ht
    have hi : i ∈ st.roster.known := h.roster.known_of_stage i (by simp [hstage])
    simp only [Roster.system,Roster.step,hstage,if_pos hi,Stage.actsAs]
  | leave tier ht hin =>
    refine .move (.leave i) ?_ (fun j hj => by cases hj; exact ⟨now,rfl,tier,hin⟩)
    have hstage : st.roster.stage i = .serving tier.id := ht
    simp only [Roster.system,Roster.step,hstage]

theorem roster_throws {st st' : State R} {i : VmId} (h : Inv st)
    (hs : step st (.throws i) = some st') : RosterStep st (.throws i) st'.roster := by
  obtain ⟨s,hthrow,rfl⟩ := Option.map_eq_some_iff.mp hs
  have hi : i ∈ st.roster.known := h.mem_vms (Slave.ne_off_of_throws hthrow)
  rw [roster_setSlave]
  rcases Slave.throws_stage hthrow with he | ⟨hgone,he⟩
  · rw [he]
    exact .same (setStage_same st.roster i)
  · rw [he]
    refine .move (.fail i) ?_ (fun j hj => by cases hj)
    have hstage : st.roster.stage i = (st.slaves i).pc.stage := rfl
    simp only [Roster.system,Roster.step,hstage,if_pos hi]

theorem Answered.stage {st : State R} {i : VmId} {pc pc' : SlavePc R} (h : Answered st i pc pc') :
    pc = .getTier .sent ∧ pc' = .getTier (.replied (st.reg.getTier i)) ∨ pc'.stage = pc.stage := by
  cases h with
  | getTier => exact .inl ⟨rfl,rfl⟩
  | _ => exact .inr rfl

theorem roster_setPc_same {st : State R} {i : VmId} {pc : SlavePc R}
    (h : pc.stage = (st.slaves i).pc.stage) : (st.setPc i pc).roster = st.roster :=
  roster_eq rfl rfl (stage_update_same h)

theorem roster_getTier {st : State R} {i : VmId} (h : Inv st) (hpc : (st.slaves i).pc = .getTier .sent) :
    (Roster.system 1).step st.roster (.tell i) =
      some (st.setPc i (.getTier (.replied (st.reg.getTier i)))).roster := by
  have hi : i ∈ st.roster.known := h.mem_vms (by simp [hpc])
  have hstage : st.roster.stage i = .waiting := by simp only [State.roster,hpc]; rfl
  have hagrees := h.roster.agrees i hi
  rw [hstage] at hagrees
  obtain ⟨tierId,ht⟩ := Option.isSome_iff_exists.mp hagrees
  have hget : st.reg.getTier i = tierId := by
    have hlookup : st.reg.id2TierMap.lookup i = some tierId := ht
    simp only [Registry.getTier,hlookup,Option.getD_some]
  rw [State.setPc, roster_setSlave]
  simp only [Roster.system,Roster.step,hstage,ht,if_pos hi,Slave.goto,hget,SlavePc.stage]

theorem roster_deleteVM {st : State R} {i : VmId} {tier : Tier}
    (hpc : (st.slaves i).pc = .deleteVM tier .sent) :
    (Roster.system 1).step st.roster (.withdraw i) =
      some ({ st with reg := st.reg.deleteVMFromMap i }.setPc i (.deleteVM tier (.replied ()))).roster := by
  have hstage : st.roster.stage i = .leaving tier.id := by simp only [State.roster,hpc]; rfl
  simp only [Roster.system,Roster.step,hstage]
  refine congrArg some (roster_eq ?_ rfl ?_).symm
  · exact Registry.deleteVMFromMap_map st.reg i
  · exact stage_update st.slaves i _

theorem roster_execute {st st' : State R} {i vmId : VmId} (h : Inv st)
    (hs : step st (.execute i vmId) = some st') :
    RosterStep st (.execute i vmId) st'.roster ∧ st'.reg.Coherent := by
  cases executed_of_execute hs with
  | answer pc ha =>
    refine ⟨?_,h.coherent⟩
    rcases ha.stage with ⟨hpc,rfl⟩ | hstage
    · exact .move (.tell i) (roster_getTier h hpc) (fun j hj => by cases hj)
    · exact .same (roster_setPc_same hstage)
  | addRequest r hpc =>
    refine ⟨.same (roster_setPc_same ?_),h.coherent⟩
    simp only [State.addRequest,hpc]
    rfl
  | pollRequest now cnt len r rest hpc hqueue =>
    refine ⟨.same (roster_setPc_same ?_),h.coherent⟩
    simp only [State.record,hpc]
    rfl
  | scaleOut vmId cnt len r hpc hnew =>
    refine ⟨.move (.start vmId Tier.mid.id) (roster_scaleOut h hnew rfl rfl ?_)
      (fun j hj => by cases hj),?_⟩
    · exact stage_update_same (by rw [hpc]; rfl)
    · exact h.coherent.scaleOutCore (h.notMem_map hnew) .mid
  | deleteVM tier hpc =>
    exact ⟨.move (.withdraw i) (roster_deleteVM hpc) (fun j hj => by cases hj),
      h.coherent.deleteVMFromMap i⟩

/-- Every step of the cluster is a move of the roster, or none. -/
theorem roster_step {st st' : State R} {a : Action R} (h : Inv st)
    (hs : system.step st a = some st') : RosterStep st a st'.roster ∧ st'.reg.Coherent := by
  simp only [system] at hs
  cases a with
  | main booting now vmId =>
    cases mainStepped_of_mainStep hs with
    | scaleOut vmId tier statics pc hnew hboot hheld hheld' =>
      exact ⟨.move _ (roster_scaleOut h hnew rfl rfl (fun _ => rfl)) (fun j hj => by cases hj),
        h.coherent.scaleOutCore (h.notMem_map hnew) tier⟩
    | _ => exact ⟨.same rfl,h.coherent⟩
  | boot i =>
    obtain ⟨⟨_,hoff⟩,rfl⟩ := boot_eq_some.mp hs
    exact ⟨.same (roster_setPc_same (by rw [hoff]; rfl)),h.coherent⟩
  | run i now =>
    exact ⟨roster_run h hs,by obtain ⟨_,_,rfl⟩ := Option.map_eq_some_iff.mp hs; exact h.coherent⟩
  | execute i vmId => exact roster_execute h hs
  | arrive i r =>
    cases hs
    simp only [State.arrive]
    split
    · exact ⟨.same rfl,h.coherent⟩
    · refine ⟨.same ?_,h.coherent⟩
      exact roster_eq rfl rfl (fun j => stage_update_same (by rfl) j)
  | throws i =>
    exact ⟨roster_throws h hs,by obtain ⟨_,_,rfl⟩ := Option.map_eq_some_iff.mp hs; exact h.coherent⟩

/-- Only a started VM gets past `off`. -/
theorem launched_step {st st' : State R} {a : Action R} (h : ∀ i, i ∉ st.vms → (st.slaves i).pc = .off)
    (hs : system.step st a = some st') : ∀ i, i ∉ st'.vms → (st'.slaves i).pc = .off := by
  have hmove : ∀ (i : VmId) (s : Slave R), ((st.slaves i).pc = .off → i ∈ st.vms) →
      st'.slaves = Function.update st.slaves i s → st.vms ⊆ st'.vms →
      ∀ j, j ∉ st'.vms → (st'.slaves j).pc = .off := by
    intro i s hi hslaves hsub j hj
    have hold : j ∉ st.vms := fun hm => hj (hsub hm)
    have hne : j ≠ i := by
      rintro rfl
      exact hold (hi (h j hold))
    rw [hslaves, Function.update_of_ne hne]
    exact h j hold
  simp only [system] at hs
  cases a with
  | main booting now vmId =>
    cases mainStepped_of_mainStep hs with
    | scaleOut vmId tier statics pc hnew hboot hheld hheld' =>
      exact fun j hj => h j (fun hm => hj (Finset.mem_insert_of_mem hm))
    | _ => exact h
  | boot i =>
    obtain ⟨⟨hi,_⟩,rfl⟩ := boot_eq_some.mp hs
    exact hmove i _ (fun _ => hi) rfl (Finset.Subset.refl _)
  | run i now =>
    obtain ⟨⟨s,ev⟩,hrun,rfl⟩ := Option.map_eq_some_iff.mp hs
    exact hmove i s (fun hoff => absurd hoff (Slave.ne_off_of_run hrun)) rfl (Finset.Subset.refl _)
  | execute i vmId =>
    have hon : (st.slaves i).pc = .off → i ∈ st.vms := fun hoff => absurd hoff (ne_off_of_execute hs)
    cases executed_of_execute hs with
    | scaleOut vmId cnt len r hpc hnew => exact hmove i _ hon rfl (Finset.subset_insert _ _)
    | _ => exact hmove i _ hon rfl (Finset.Subset.refl _)
  | arrive i r =>
    cases hs
    intro j hj
    simp only [State.arrive] at hj ⊢
    split at hj
    · rename_i hi
      rw [if_pos hi]
      exact h j hj
    · rename_i hi
      rw [if_neg hi]
      by_cases he : j = i
      · subst he
        simp only [State.setSlave,Function.update_self]
        exact h j hj
      · simp only [State.setSlave,Function.update_of_ne he]
        exact h j hj
  | throws i =>
    obtain ⟨s,hthrow,rfl⟩ := Option.map_eq_some_iff.mp hs
    exact hmove i s (fun hoff => absurd hoff (Slave.ne_off_of_throws hthrow)) rfl
      (Finset.Subset.refl _)

theorem inv_start (masterStartTime : ℤ) : Inv (start masterStartTime : State R) := by
  refine ⟨Registry.masterHandlerStart_coherent,?_,fun _ _ => rfl⟩
  refine ⟨rfl,Finset.notMem_empty 1,?_,fun _ _ => rfl,?_⟩
  · intro id hid
    rcases Finmap.mem_insert.mp hid with rfl | hid
    · exact .inl rfl
    · exact absurd hid Finmap.notMem_empty
  · intro id hid
    exact absurd hid (Finset.notMem_empty id)

theorem inv_step {st st' : State R} {a : Action R} (h : Inv st) (hs : system.step st a = some st') :
    Inv st' := by
  obtain ⟨hroster,hcoh⟩ := roster_step h hs
  refine ⟨hcoh,?_,launched_step h.launched hs⟩
  cases hroster with
  | same he => exact he ▸ h.roster
  | move m hm _ => exact h.roster.step hm

theorem inv_run {masterStartTime : ℤ} {as : List (Action R)} {st : State R}
    (hr : system.run (start masterStartTime) as = some st) : Inv st :=
  LabelledSystem.run_invariant (fun _ _ _ => inv_step) hr (inv_start masterStartTime)

/-- The front slaves: taken up by `frontHandler` and not deregistered since. -/
def frontSlaves (st : State R) : Finset VmId :=
  st.vms.filter (fun i => (st.slaves i).pc.stage.actsAs = some 0)

/-- The front tier never empties, and what keeps it from that is the master itself:
`frontCount` counts it beside every front slave, however many of those shut down on one
stale count, and whatever calls of theirs fail. -/
theorem frontCount_ge (masterStartTime : ℤ) (as : List (Action R)) (st : State R)
    (hr : system.run (start masterStartTime) as = some st) :
    st.reg.id2TierMap.lookup 1 = some 0 ∧ 1 ≤ st.reg.frontCount ∧
      1 + (frontSlaves st).card ≤ st.reg.frontCount := by
  have h := inv_run hr
  have hcard : (frontSlaves st).card + 1 ≤ ValueCount.valueCount st.reg.id2TierMap 0 :=
    h.roster.card_acting_lt
  have hcount := h.coherent.frontCount_eq
  refine ⟨h.roster.anchor_lookup,?_,?_⟩ <;> omega

/-- The start-up, after which the first front slave boots and is taken up. -/
def firstFront : List (Action ℕ) :=
  [.main false 10 2,.main false 10 3,.boot 3,.run 3 20,.execute 3 0,.run 3 20]

theorem frontCount_ge_firstFront :
    ∃ st, system.run (start 10) firstFront = some st ∧ (2 : ℤ) ≤ st.reg.frontCount := by
  have hrun : ∃ st, system.run (start 10) firstFront = some st ∧ (frontSlaves st).card = 1 := by
    decide
  obtain ⟨st,hst,hcard⟩ := hrun
  have hge := (frontCount_ge 10 firstFront st hst).2.2
  rw [hcard] at hge
  exact ⟨st,hst,hge⟩

end Cluster
end AutoScaling
