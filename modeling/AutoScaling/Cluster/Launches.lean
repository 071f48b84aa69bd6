import AutoScaling.Cluster.Membership
import AutoScaling.Foundation.Emission
import Mathlib.Data.Fintype.EquivFin
import Mathlib.Tactic.Ring

/-! # The VMs that a run starts

Every VM is started by one call of `scaleOutCore`, and for one of four reasons. The
master's two counters are these starts less the deregistrations, and the VMs whose
server has crashed stay in them for good.
-/
namespace AutoScaling

/-- What a call of `scaleOutCore` was made for: `masterHandler`'s own two servers, the rate
decision of `handleBooting`, the queue check of `masterRoutine`, or the overload that
`midRoutine` finds on server `i`. -/
inductive Cause
  | startUp
  | boot
  | frontBehind
  | overload (i : VmId)
  deriving DecidableEq

structure Launch where
  vmId : VmId
  tier : Tier
  cause : Cause
  deriving DecidableEq

namespace Cluster
variable {R : Type*}

def launches (st : State R) : Action R → List Launch
  | .main _ _ vmId =>
    match st.main with
    | .startMid => [⟨vmId,.mid,.startUp⟩]
    | .startFront => [⟨vmId,.front,.startUp⟩]
    | .bootScaleOut _ (tier :: _) => [⟨vmId,tier,.boot⟩]
    | .scaleFront _ => [⟨vmId,.front,.frontBehind⟩]
    | _ => []
  | .execute i vmId =>
    match (st.slaves i).pc with
    | .midScaleOut _ _ _ .sent => [⟨vmId,.mid,.overload i⟩]
    | _ => []
  | _ => []

theorem exists_scaleOutCore (st : State R) : ∃ vmId, ∀ tier, ∃ u, st.scaleOutCore vmId tier = some u := by
  obtain ⟨vmId,hnew⟩ := Infinite.exists_notMem_finset (insert 1 st.vms)
  rw [Finset.mem_insert, not_or] at hnew
  exact ⟨vmId,fun tier => ⟨_,if_pos ⟨hnew.2,hnew.1⟩⟩⟩

inductive Peopled (st : State R) (a : Action R) (st' : State R) : Prop
  | same (hlaunch : launches st a = []) (hvms : st'.vms = st.vms)
      (hmap : st'.reg.id2TierMap = st.reg.id2TierMap) : Peopled st a st'
  | launch (x : Launch) (hlaunch : launches st a = [x]) (hnew : x.vmId ∉ st.vms ∧ x.vmId ≠ 1)
      (hvms : st'.vms = insert x.vmId st.vms)
      (hmap : st'.reg.id2TierMap = st.reg.id2TierMap.insert x.vmId x.tier.id) : Peopled st a st'
  | deregister (i : VmId) (tier : Tier) (hlaunch : launches st a = [])
      (hpc : (st.slaves i).pc = .deleteVM tier .sent) (hvms : st'.vms = st.vms)
      (hmap : st'.reg.id2TierMap = st.reg.id2TierMap.erase i) : Peopled st a st'

theorem peopled_scaleOutCore {st st' u : State R} {a : Action R} (h : Inv st) {vmId : VmId} {tier : Tier}
    {cause : Cause} (hlaunch : launches st a = [⟨vmId,tier,cause⟩])
    (hs : st.scaleOutCore vmId tier = some u) (hvms : st'.vms = u.vms) (hreg : st'.reg = u.reg) :
    Peopled st a st' := by
  obtain ⟨hnew,rfl⟩ := scaleOutCore_eq_some.mp hs
  refine .launch ⟨vmId,tier,cause⟩ hlaunch hnew hvms ?_
  rw [hreg]
  exact Registry.scaleOutCore_map (h.notMem_map hnew) tier.id

theorem peopled_mainStep {st st' : State R} {booting : Bool} {now : ℤ} {vmId : VmId} (h : Inv st)
    (hs : st.mainStep booting now vmId = some st') : Peopled st (.main booting now vmId) st' := by
  simp only [State.mainStep] at hs
  cases hm : st.main with
  | startMid =>
    simp only [hm,Option.map_eq_some_iff] at hs
    obtain ⟨u,hu,rfl⟩ := hs
    exact peopled_scaleOutCore h (by simp only [launches,hm]; rfl) hu rfl rfl
  | startFront =>
    simp only [hm,Option.map_eq_some_iff] at hs
    obtain ⟨u,hu,rfl⟩ := hs
    exact peopled_scaleOutCore h (by simp only [launches,hm]; rfl) hu rfl rfl
  | bootScaleOut start pending =>
    cases pending with
    | nil =>
      simp only [hm] at hs
      cases hs
      exact .same (by simp only [launches,hm]) rfl rfl
    | cons tier pending =>
      simp only [hm,Option.map_eq_some_iff] at hs
      obtain ⟨u,hu,rfl⟩ := hs
      exact peopled_scaleOutCore h (by simp only [launches,hm]; rfl) hu rfl rfl
  | scaleFront start =>
    simp only [hm,Option.map_eq_some_iff] at hs
    obtain ⟨u,hu,rfl⟩ := hs
    exact peopled_scaleOutCore h (by simp only [launches,hm]; rfl) hu rfl rfl
  | loop =>
    simp only [hm] at hs
    split at hs <;> cases hs <;> exact .same (by simp only [launches,hm]) rfl rfl
  | bootProcess start =>
    simp only [hm] at hs
    split at hs
    · split at hs <;> cases hs
      exact .same (by simp only [launches,hm]) rfl rfl
    · cases hs
      exact .same (by simp only [launches,hm]) rfl rfl
  | next =>
    simp only [hm] at hs
    split at hs <;> cases hs
    exact .same (by simp only [launches,hm]) rfl rfl
  | _ =>
    simp only [hm] at hs
    cases hs
    exact .same (by simp only [launches,hm]) rfl rfl

theorem peopled_execute {st st' : State R} {i vmId : VmId} (h : Inv st)
    (hs : st.execute i vmId = some st') : Peopled st (.execute i vmId) st' := by
  by_cases hover : ∃ cnt len r, (st.slaves i).pc = .midScaleOut cnt len r .sent
  · obtain ⟨cnt,len,r,hpc⟩ := hover
    simp only [State.execute,hpc,Option.map_eq_some_iff] at hs
    obtain ⟨u,hu,rfl⟩ := hs
    exact peopled_scaleOutCore h (by simp only [launches,hpc]; rfl) hu rfl rfl
  · have hlaunch : launches st (.execute i vmId) = [] := by
      simp only [launches]
      split
      · rename_i hpc
        exact absurd ⟨_,_,_,hpc⟩ hover
      · rfl
    cases executed_of_execute hs with
    | scaleOut vmId' cnt len r hpc hnew => exact absurd ⟨cnt,len,r,hpc⟩ hover
    | deleteVM tier hpc =>
      exact .deregister i tier hlaunch hpc rfl (Registry.deleteVMFromMap_map st.reg i)
    | _ => exact .same hlaunch rfl rfl

theorem peopled_of_step {st st' : State R} {a : Action R} (h : Inv st)
    (hs : system.step st a = some st') : Peopled st a st' := by
  simp only [system] at hs
  cases a with
  | main booting now vmId => exact peopled_mainStep h hs
  | boot i =>
    obtain ⟨_,rfl⟩ := boot_eq_some.mp hs
    exact .same rfl rfl rfl
  | run i now =>
    obtain ⟨_,_,rfl⟩ := Option.map_eq_some_iff.mp hs
    exact .same rfl rfl rfl
  | execute i vmId => exact peopled_execute h hs
  | arrive i r =>
    cases hs
    refine .same rfl ?_ ?_ <;> simp only [State.arrive] <;> split <;> rfl
  | throws i =>
    obtain ⟨_,_,rfl⟩ := Option.map_eq_some_iff.mp hs
    exact .same rfl rfl rfl

/-- A slave is out of the map just when the master has executed its deregistration. -/
def deregistered (st : State R) (i : VmId) : Bool := decide ((st.slaves i).pc.stage = .gone)

theorem Inv.lookup_eq_none_iff {st : State R} (h : Inv st) {i : VmId} (hi : i ∈ st.vms) :
    st.reg.id2TierMap.lookup i = none ↔ deregistered st i = true := by
  have hagrees : (st.slaves i).pc.stage.Agrees (st.reg.id2TierMap.lookup i) := h.roster.agrees i hi
  rw [deregistered, decide_eq_true_iff]
  exact hagrees.eq_none_iff

/-- Every VM is in the book of starts once, and the map never holds it in another tier. -/
structure Booked (started : List Launch) (st : State R) : Prop where
  inv : Inv st
  nodup : (started.map Launch.vmId).Nodup
  vms : (started.map Launch.vmId).toFinset = st.vms
  tier : ∀ x ∈ started, ∀ tierId, st.reg.id2TierMap.lookup x.vmId = some tierId → tierId = x.tier.id

theorem booked_step {started : List Launch} {st st' : State R} {a : Action R} (h : Booked started st)
    (hs : system.step st a = some st') : Booked (started ++ launches st a) st' := by
  have hinv := inv_step h.inv hs
  cases peopled_of_step h.inv hs with
  | same hlaunch hvms hmap =>
    rw [hlaunch, List.append_nil]
    exact ⟨hinv,h.nodup,h.vms.trans hvms.symm,by rw [hmap]; exact h.tier⟩
  | launch x hlaunch hnew hvms hmap =>
    have hout : x.vmId ∉ started.map Launch.vmId := by
      rw [← List.mem_toFinset, h.vms]
      exact hnew.1
    rw [hlaunch]
    refine ⟨hinv,?_,?_,?_⟩
    · rw [List.map_append, List.map_singleton]
      simpa only [List.concat_eq_append] using h.nodup.concat hout
    · rw [hvms, List.map_append, List.toFinset_append, h.vms, Finset.union_comm]
      rfl
    · rw [hmap]
      intro y hy tierId hlookup
      rcases ValueCount.lookup_insert_eq_some.mp hlookup with ⟨hid,rfl⟩ | ⟨hid,hlookup⟩
      · rcases List.mem_append.mp hy with hy | hy
        · exact absurd (hid ▸ List.mem_map_of_mem hy) hout
        · rw [List.mem_singleton.mp hy]
      · rcases List.mem_append.mp hy with hy | hy
        · exact h.tier y hy tierId hlookup
        · exact absurd (congrArg Launch.vmId (List.mem_singleton.mp hy)) hid
  | deregister i tier hlaunch hpc hvms hmap =>
    rw [hlaunch, List.append_nil]
    refine ⟨hinv,h.nodup,h.vms.trans hvms.symm,?_⟩
    rw [hmap]
    intro x hx tierId hlookup
    exact h.tier x hx tierId (ValueCount.lookup_erase_eq_some.mp hlookup).2

theorem booked_run {masterStartTime : ℤ} {as : List (Action R)} {st : State R}
    (hr : system.run (start masterStartTime) as = some st) :
    Booked (system.emitted launches (start masterStartTime) as) st :=
  LabelledSystem.emitted_invariant (I := fun l (u : State R) => Booked l u) (G := fun _ _ => True)
    (fun _ _ _ _ hl _ hs => booked_step hl hs) hr (LabelledSystem.meets_true hr)
    ⟨inv_start masterStartTime,List.nodup_nil,rfl,fun x hx => by cases hx⟩

/-- The VMs of one tier that a run has started and the master still has in its map. -/
def registered (started : List Launch) (tier : Tier) (st : State R) : List Launch :=
  started.filter (fun x => decide (x.tier = tier) && !deregistered st x.vmId)

/-- The VMs of one tier that a run has started and the master has deregistered. -/
def left (started : List Launch) (tier : Tier) (st : State R) : List Launch :=
  started.filter (fun x => decide (x.tier = tier) && deregistered st x.vmId)

theorem length_registered_add_left (started : List Launch) (tier : Tier) (st : State R) :
    (registered started tier st).length + (left started tier st).length =
      (started.filter (fun x => decide (x.tier = tier))).length := by
  have hsplit := List.length_eq_length_filter_add (l := started.filter (fun x => decide (x.tier = tier)))
    (fun x => deregistered st x.vmId)
  rw [List.filter_filter, List.filter_filter] at hsplit
  rw [hsplit, Nat.add_comm]
  congr 2 <;> exact List.filter_congr (fun x _ => Bool.and_comm _ _)

theorem Booked.lookup_eq {started : List Launch} {st : State R} (h : Booked started st) {x : Launch}
    (hx : x ∈ started) : st.reg.id2TierMap.lookup x.vmId =
      if deregistered st x.vmId then none else some x.tier.id := by
  have hvm : x.vmId ∈ st.vms := by
    rw [← h.vms, List.mem_toFinset]
    exact List.mem_map_of_mem hx
  split
  · rename_i hd
    exact (h.inv.lookup_eq_none_iff hvm).mpr hd
  · rename_i hd
    cases hlookup : st.reg.id2TierMap.lookup x.vmId with
    | none => exact absurd ((h.inv.lookup_eq_none_iff hvm).mp hlookup) hd
    | some tierId => rw [h.tier x hx tierId hlookup]

def own (tier : Tier) : List VmId :=
  match tier with
  | .front => [1]
  | .mid => []

theorem Booked.mem_iff {started : List Launch} {st : State R} (h : Booked started st) (tier : Tier)
    (id : VmId) : id ∈ own tier ++ (registered started tier st).map Launch.vmId ↔
      st.reg.id2TierMap.lookup id = some tier.id := by
  have hanchor : st.reg.id2TierMap.lookup 1 = some 0 := h.inv.roster.anchor_lookup
  rw [List.mem_append, List.mem_map]
  constructor
  · rintro (hid | ⟨x,hx,rfl⟩)
    · cases tier with
      | front =>
        rw [List.mem_singleton.mp hid]
        exact hanchor
      | mid => cases hid
    · obtain ⟨hmem,hkeep⟩ := List.mem_filter.mp hx
      rw [Bool.and_eq_true, decide_eq_true_iff, Bool.not_eq_true'] at hkeep
      rw [h.lookup_eq hmem, hkeep.2, hkeep.1]
      rfl
  · intro hid
    rcases h.inv.roster.known_of_mem id (Finmap.mem_of_lookup_eq_some hid) with rfl | hvm
    · rw [hanchor] at hid
      cases tier with
      | front => exact .inl (List.mem_singleton_self 1)
      | mid => cases hid
    · have hmem : id ∈ started.map Launch.vmId := by
        rw [← List.mem_toFinset, h.vms]
        exact hvm
      obtain ⟨x,hx,rfl⟩ := List.mem_map.mp hmem
      refine .inr ⟨x,List.mem_filter.mpr ⟨hx,?_⟩,rfl⟩
      have hlookup := h.lookup_eq hx
      rw [hid] at hlookup
      split at hlookup
      · cases hlookup
      · rename_i hd
        have htier : x.tier = tier := by
          have hids := Option.some.inj hlookup
          cases tier <;> cases ht : x.tier <;> rw [ht] at hids <;> cases hids
        rw [Bool.and_eq_true, decide_eq_true_iff, Bool.not_eq_true']
        exact ⟨htier,by simpa using hd⟩

theorem Booked.valueCount_eq {started : List Launch} {st : State R} (h : Booked started st) (tier : Tier) :
    ValueCount.valueCount st.reg.id2TierMap tier.id =
      (own tier).length + (registered started tier st).length := by
  have hnodup : (own tier ++ (registered started tier st).map Launch.vmId).Nodup := by
    have hids : ((registered started tier st).map Launch.vmId).Nodup :=
      h.nodup.sublist (List.filter_sublist.map _)
    refine List.nodup_append.mpr ⟨by cases tier <;> decide,hids,?_⟩
    rintro a ha b hb rfl
    have hone : a = 1 := by
      cases tier with
      | front => exact List.mem_singleton.mp ha
      | mid => cases ha
    obtain ⟨x,hx,rfl⟩ := List.mem_map.mp hb
    apply h.inv.ne_master (i := x.vmId) ?_ hone
    rw [← h.vms, List.mem_toFinset]
    exact List.mem_map_of_mem (List.mem_filter.mp hx).1
  rw [ValueCount.valueCount_eq_length hnodup (h.mem_iff tier), List.length_append, List.length_map]

theorem Inv.getVMCount_eq {st : State R} (h : Inv st) (tier : Tier) :
    st.reg.getVMCount tier.id = ValueCount.valueCount st.reg.id2TierMap tier.id := by
  cases tier with
  | front => exact h.coherent.frontCount_eq
  | mid => exact h.coherent.midCount_eq

/-- Every VM that a run starts has an id of its own; the master tells its tier until it
executes that VM's deregistration, and -1 from then on; and the two counts are the starts
of each tier, the master itself included, less the deregistrations. -/
theorem vms_accounted (masterStartTime : ℤ) (as : List (Action R)) (st : State R)
    (hr : system.run (start masterStartTime) as = some st) :
    let started := system.emitted launches (start masterStartTime) as
    (started.map Launch.vmId).Nodup ∧ (started.map Launch.vmId).toFinset = st.vms ∧
    (∀ x ∈ started, st.reg.getTier x.vmId = if deregistered st x.vmId then -1 else x.tier.id) ∧
    ∀ tier, st.reg.getVMCount tier.id + (left started tier st).length =
      (own tier).length + (started.filter (fun x => decide (x.tier = tier))).length := by
  intro started
  have h : Booked started st := booked_run hr
  refine ⟨h.nodup,h.vms,?_,?_⟩
  · intro x hx
    rw [Registry.getTier, h.lookup_eq hx]
    split <;> rfl
  · intro tier
    rw [h.inv.getVMCount_eq, h.valueCount_eq, ← length_registered_add_left started tier st]
    push_cast
    ring

theorem vms_accounted_firstFront : ∃ st, system.run (start 10) firstFront = some st ∧
    st.reg.getTier 3 = 0 ∧ st.reg.getVMCount 1 = 1 := by
  have hrun : ∃ st, system.run (start 10) firstFront = some st ∧ deregistered st 3 = false ∧
      (left (system.emitted launches (start 10) firstFront) .mid st).length = 0 := by decide
  obtain ⟨st,hst,hin,hleft⟩ := hrun
  obtain ⟨_,_,htier,hcount⟩ := vms_accounted 10 firstFront st hst
  have hfront := htier ⟨3,.front,.startUp⟩ (by decide)
  have hmids : ((system.emitted launches (start 10) firstFront).filter
      (fun x => decide (x.tier = .mid))).length = 1 := by decide
  have hmid := hcount .mid
  rw [hin] at hfront
  rw [hleft, hmids] at hmid
  exact ⟨st,hst,hfront,by simpa [own,Tier.id] using hmid⟩

end Cluster
end AutoScaling
