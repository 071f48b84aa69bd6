import AutoScaling.Master.Registry

/-! # Whether a deregistration undoes its scale-out

`scaleOutCore` counts every tier but 0 as the middle one; `deleteVMFromMap` takes back
only 0 and 1. Calls for other ids commute with having one more VM in the registry, so
the last question is what the deletion does to that one.
-/
namespace AutoScaling
open ValueCount
namespace Registry

/-- A remote call executed to completion, `scaleOut` with the id that `SL.startVM()`
returned in it and with any tier that the caller may send. -/
inductive RemoteCall
  | scaleOut (vmId : VmId) (tierId : TierId)
  | deleteVMFromMap (vmId : VmId)

namespace RemoteCall

def vmId : RemoteCall → VmId
  | .scaleOut vmId _ => vmId
  | .deleteVMFromMap vmId => vmId

def exec (reg : Registry) : RemoteCall → Registry
  | .scaleOut vmId tierId => reg.scaleOut vmId tierId
  | .deleteVMFromMap vmId => reg.deleteVMFromMap vmId

end RemoteCall

/-- The registry with one more VM. -/
def withVM (reg : Registry) (vmId : VmId) (tierId : TierId) : Registry where
  id2TierMap := reg.id2TierMap.insert vmId tierId
  frontCount := reg.frontCount + if tierId = 0 then 1 else 0
  midCount := reg.midCount + if tierId = 0 then 0 else 1

theorem registry_ext {a b : Registry} (hmap : a.id2TierMap = b.id2TierMap)
    (hfront : a.frontCount = b.frontCount) (hmid : a.midCount = b.midCount) : a = b := by
  cases a
  cases b
  cases hmap
  cases hfront
  cases hmid
  rfl

theorem scaleOut_eq_withVM {reg : Registry} {vmId : VmId} (h : vmId ∉ reg.id2TierMap)
    (tierId : TierId) : reg.scaleOut vmId tierId = reg.withVM vmId tierId :=
  registry_ext (scaleOutCore_map h tierId) (scaleOutCore_frontCount h tierId)
    (scaleOutCore_midCount h tierId)

/-- A scale-out under an id that is in the map already only counts. -/
theorem scaleOut_of_mem {reg : Registry} {vmId : VmId} (h : vmId ∈ reg.id2TierMap) (tierId : TierId) :
    reg.scaleOut vmId tierId = { reg with
      frontCount := reg.frontCount + if tierId = 0 then 1 else 0
      midCount := reg.midCount + if tierId = 0 then 0 else 1 } := by
  unfold scaleOut scaleOutCore addVM2Map
  rw [if_pos h]
  dsimp only
  split <;> simp

theorem mem_withVM_of_ne {reg : Registry} {vmId id : VmId} (h : id ≠ vmId) (tierId : TierId) :
    id ∈ (reg.withVM vmId tierId).id2TierMap ↔ id ∈ reg.id2TierMap := by
  rw [withVM, Finmap.mem_insert]
  exact or_iff_right h

theorem scaleOut_withVM {reg : Registry} {vmId id : VmId} (h : id ≠ vmId) (tierId t : TierId) :
    (reg.withVM vmId tierId).scaleOut id t = (reg.scaleOut id t).withVM vmId tierId := by
  by_cases hid : id ∈ reg.id2TierMap
  · rw [scaleOut_of_mem hid, scaleOut_of_mem ((mem_withVM_of_ne h tierId).mpr hid)]
    exact registry_ext rfl (Int.add_right_comm _ _ _) (Int.add_right_comm _ _ _)
  · rw [scaleOut_eq_withVM hid, scaleOut_eq_withVM (fun hm => hid ((mem_withVM_of_ne h tierId).mp hm))]
    exact registry_ext (Finmap.insert_insert_of_ne _ h.symm) (Int.add_right_comm _ _ _)
      (Int.add_right_comm _ _ _)

theorem deleteVMFromMap_withVM {reg : Registry} {vmId id : VmId} (h : id ≠ vmId) (tierId : TierId) :
    (reg.withVM vmId tierId).deleteVMFromMap id = (reg.deleteVMFromMap id).withVM vmId tierId := by
  have hlookup : (reg.withVM vmId tierId).id2TierMap.lookup id = reg.id2TierMap.lookup id :=
    Finmap.lookup_insert_of_ne _ h
  cases hid : reg.id2TierMap.lookup id with
  | none =>
    rw [deleteVMFromMap_of_notMem (Finmap.lookup_eq_none.mp hid),
      deleteVMFromMap_of_notMem (Finmap.lookup_eq_none.mp (hlookup.trans hid))]
  | some t =>
    apply registry_ext
    · rw [deleteVMFromMap_map, withVM, withVM, deleteVMFromMap_map]
      exact erase_insert_of_ne h tierId
    · rw [deleteVMFromMap_frontCount (hlookup.trans hid), withVM, withVM,
        deleteVMFromMap_frontCount hid]
      dsimp only
      omega
    · rw [deleteVMFromMap_midCount (hlookup.trans hid), withVM, withVM, deleteVMFromMap_midCount hid]
      dsimp only
      omega

namespace RemoteCall

theorem exec_withVM {reg : Registry} {vmId : VmId} {tierId : TierId} {c : RemoteCall}
    (h : c.vmId ≠ vmId) : exec (reg.withVM vmId tierId) c = (exec reg c).withVM vmId tierId := by
  cases c with
  | scaleOut id t => exact scaleOut_withVM h tierId t
  | deleteVMFromMap id => exact deleteVMFromMap_withVM h tierId

theorem notMem_exec {reg : Registry} {vmId : VmId} {c : RemoteCall} (h : c.vmId ≠ vmId)
    (hout : vmId ∉ reg.id2TierMap) : vmId ∉ (exec reg c).id2TierMap := by
  cases c with
  | scaleOut id t =>
    simp only [exec]
    by_cases hid : id ∈ reg.id2TierMap
    · rw [scaleOut_of_mem hid]
      exact hout
    · rw [scaleOut_eq_withVM hid]
      exact fun hm => hout ((mem_withVM_of_ne (Ne.symm h) t).mp hm)
  | deleteVMFromMap id =>
    simp only [exec]
    rw [deleteVMFromMap_map]
    exact fun hm => hout (Finmap.mem_erase.mp hm).2

theorem foldl_exec_withVM {reg : Registry} {vmId : VmId} (tierId : TierId) {others : List RemoteCall}
    (h : ∀ c ∈ others, c.vmId ≠ vmId) (hout : vmId ∉ reg.id2TierMap) :
    others.foldl exec (reg.withVM vmId tierId) = (others.foldl exec reg).withVM vmId tierId ∧
      vmId ∉ (others.foldl exec reg).id2TierMap := by
  induction others generalizing reg with
  | nil => exact ⟨rfl,hout⟩
  | cons c others ih =>
    have hc := h c List.mem_cons_self
    rw [List.foldl_cons, List.foldl_cons, exec_withVM hc]
    exact ih (fun d hd => h d (List.mem_cons_of_mem c hd)) (notMem_exec hc hout)

end RemoteCall

/-- What a deregistration takes back: all of it for the two tiers there are, and the map
entry only for any other. -/
theorem withVM_deleteVMFromMap_iff {reg : Registry} {vmId : VmId} (hout : vmId ∉ reg.id2TierMap)
    (tierId : TierId) :
    (reg.withVM vmId tierId).deleteVMFromMap vmId = reg ↔ tierId = 0 ∨ tierId = 1 := by
  have hid : (reg.withVM vmId tierId).id2TierMap.lookup vmId = some tierId := Finmap.lookup_insert _
  have hmid := deleteVMFromMap_midCount hid
  have hfront := deleteVMFromMap_frontCount hid
  constructor
  · intro h
    rw [h] at hmid
    simp only [withVM] at hmid
    by_contra hne
    rw [not_or] at hne
    rw [if_neg hne.1, if_neg hne.2] at hmid
    omega
  · intro h
    apply registry_ext
    · rw [deleteVMFromMap_map]
      exact erase_insert_self hout tierId
    · rw [hfront, withVM]
      dsimp only
      omega
    · rw [hmid, withVM]
      rcases h with rfl | rfl <;> simp

/-- A scale-out and the deregistration of its VM, with any calls for other ids in between,
leave what those calls alone would, just when the tier is 0 or 1. -/
theorem deleteVMFromMap_undoes_scaleOut_iff (reg : Registry) (tierId : TierId) (vmId : VmId)
    (hnew : vmId ∉ reg.id2TierMap) (others : List RemoteCall) (hothers : ∀ c ∈ others, c.vmId ≠ vmId) :
    (others.foldl RemoteCall.exec (reg.scaleOut vmId tierId)).deleteVMFromMap vmId =
      others.foldl RemoteCall.exec reg ↔ tierId = 0 ∨ tierId = 1 := by
  obtain ⟨hcomm,hout⟩ := RemoteCall.foldl_exec_withVM tierId hothers hnew
  rw [scaleOut_eq_withVM hnew, hcomm]
  exact withVM_deleteVMFromMap_iff hout tierId

theorem deleteVMFromMap_undoes_scaleOut_mid :
    ([RemoteCall.scaleOut 3 0,.deleteVMFromMap 3].foldl RemoteCall.exec
      (masterHandlerStart.scaleOut 2 1)).deleteVMFromMap 2 =
    [RemoteCall.scaleOut 3 0,.deleteVMFromMap 3].foldl RemoteCall.exec masterHandlerStart :=
  (deleteVMFromMap_undoes_scaleOut_iff masterHandlerStart 1 2 (by decide) _ (by decide)).mpr (.inr rfl)

/-- A VM of tier 2 is counted in the middle tier for ever. -/
theorem scaleOut_two_leaks :
    (2 : VmId) ∉ masterHandlerStart.id2TierMap ∧ masterHandlerStart.midCount = 0 ∧
      ((masterHandlerStart.scaleOut 2 2).deleteVMFromMap 2).midCount = 1 := by
  decide

end Registry
end AutoScaling
