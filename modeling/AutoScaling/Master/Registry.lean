import AutoScaling.Foundation.ValueCount

/-! # The master's VM registry

The static fields `id2TierMap`, `frontCount` and `midCount` of the master and the
methods over them, each executed to completion. The id that `SL.startVM()` returns is
an argument. The two counters are kept in `ℤ`: a Java `int` differs from it only past
`2^31` live VMs of one tier.
-/
namespace AutoScaling
open ValueCount

abbrev VmId := ℤ
abbrev TierId := ℤ

/-- The constants `FRONT` and `MID` as the two tiers there are. -/
inductive Tier
  | front
  | mid
  deriving DecidableEq, Repr

def Tier.id : Tier → TierId
  | .front => 0
  | .mid => 1

structure Registry where
  id2TierMap : Finmap (fun _ : VmId => TierId)
  frontCount : ℤ
  midCount : ℤ
  deriving DecidableEq

namespace Registry

def registerMaster : Registry := ⟨∅,0,0⟩

def addVM2Map (reg : Registry) (vmId : VmId) (tierId : TierId) : Registry :=
  if vmId ∈ reg.id2TierMap then reg
  else { reg with id2TierMap := reg.id2TierMap.insert vmId tierId }

def scaleOutCore (reg : Registry) (vmId : VmId) (tierId : TierId) : Registry :=
  let reg := reg.addVM2Map vmId tierId
  if tierId = 0 then { reg with frontCount := reg.frontCount + 1 }
  else { reg with midCount := reg.midCount + 1 }

def masterScaleOut (reg : Registry) (vmId : VmId) (tierId : TierId) : Registry :=
  reg.scaleOutCore vmId tierId

def scaleOut (reg : Registry) (vmId : VmId) (tierId : TierId) : Registry :=
  reg.scaleOutCore vmId tierId

def deleteVMFromMap (reg : Registry) (vmId : VmId) : Registry :=
  match reg.id2TierMap.lookup vmId with
  | none => reg
  | some tierId =>
    let reg := { reg with id2TierMap := reg.id2TierMap.erase vmId }
    if tierId = 0 then { reg with frontCount := reg.frontCount - 1 }
    else if tierId = 1 then { reg with midCount := reg.midCount - 1 }
    else reg

def getTier (reg : Registry) (id : VmId) : TierId := (reg.id2TierMap.lookup id).getD (-1)

def getVMCount (reg : Registry) (tierId : TierId) : ℤ :=
  if tierId = 0 then reg.frontCount
  else if tierId = 1 then reg.midCount
  else -1

/-- `masterHandler` up to and including `frontCount++`: the master counts itself. -/
def masterHandlerStart : Registry :=
  let reg := registerMaster.addVM2Map 1 0
  { reg with frontCount := reg.frontCount + 1 }

/-- All of `masterHandler` before its loop, with the ids its two scale-outs return. -/
def masterHandler (midVM frontVM : VmId) : Registry :=
  (masterHandlerStart.masterScaleOut midVM 1).masterScaleOut frontVM 0

/-- The counters agree with the map, and the map holds no third tier. -/
structure Coherent (reg : Registry) : Prop where
  frontCount_eq : reg.frontCount = valueCount reg.id2TierMap 0
  midCount_eq : reg.midCount = valueCount reg.id2TierMap 1
  tier_eq : ∀ id tierId, reg.id2TierMap.lookup id = some tierId → tierId = 0 ∨ tierId = 1

@[simp] theorem scaleOutCore_map {reg : Registry} {vmId : VmId} (h : vmId ∉ reg.id2TierMap)
    (tierId : TierId) :
    (reg.scaleOutCore vmId tierId).id2TierMap = reg.id2TierMap.insert vmId tierId := by
  unfold scaleOutCore addVM2Map
  rw [if_neg h]
  dsimp only
  split <;> rfl

theorem scaleOutCore_frontCount {reg : Registry} {vmId : VmId} (h : vmId ∉ reg.id2TierMap)
    (tierId : TierId) :
    (reg.scaleOutCore vmId tierId).frontCount = reg.frontCount + if tierId = 0 then 1 else 0 := by
  unfold scaleOutCore addVM2Map
  rw [if_neg h]
  dsimp only
  split <;> simp

theorem scaleOutCore_midCount {reg : Registry} {vmId : VmId} (h : vmId ∉ reg.id2TierMap)
    (tierId : TierId) :
    (reg.scaleOutCore vmId tierId).midCount = reg.midCount + if tierId = 0 then 0 else 1 := by
  unfold scaleOutCore addVM2Map
  rw [if_neg h]
  dsimp only
  split <;> simp

@[simp] theorem deleteVMFromMap_map (reg : Registry) (vmId : VmId) :
    (reg.deleteVMFromMap vmId).id2TierMap = reg.id2TierMap.erase vmId := by
  unfold deleteVMFromMap
  cases h : reg.id2TierMap.lookup vmId with
  | none =>
    exact (erase_of_notMem (Finmap.lookup_eq_none.mp h)).symm
  | some tierId =>
    dsimp only
    split_ifs <;> rfl

theorem deleteVMFromMap_of_notMem {reg : Registry} {vmId : VmId} (h : vmId ∉ reg.id2TierMap) :
    reg.deleteVMFromMap vmId = reg := by
  rw [deleteVMFromMap, Finmap.lookup_eq_none.mpr h]

theorem deleteVMFromMap_frontCount {reg : Registry} {vmId : VmId} {tierId : TierId}
    (h : reg.id2TierMap.lookup vmId = some tierId) :
    (reg.deleteVMFromMap vmId).frontCount = reg.frontCount - if tierId = 0 then 1 else 0 := by
  rw [deleteVMFromMap, h]
  dsimp only
  split_ifs <;> simp

theorem deleteVMFromMap_midCount {reg : Registry} {vmId : VmId} {tierId : TierId}
    (h : reg.id2TierMap.lookup vmId = some tierId) :
    (reg.deleteVMFromMap vmId).midCount = reg.midCount - if tierId = 1 then 1 else 0 := by
  rw [deleteVMFromMap, h]
  dsimp only
  split_ifs with h0 h1 <;> simp_all

theorem Coherent.scaleOutCore {reg : Registry} (h : reg.Coherent) {vmId : VmId}
    (hnew : vmId ∉ reg.id2TierMap) (t : Tier) : (reg.scaleOutCore vmId t.id).Coherent := by
  constructor
  · rw [scaleOutCore_frontCount hnew, scaleOutCore_map hnew, valueCount_insert hnew, h.frontCount_eq]
    push_cast
    rfl
  · rw [scaleOutCore_midCount hnew, scaleOutCore_map hnew, valueCount_insert hnew, h.midCount_eq]
    cases t <;> simp [Tier.id]
  · intro id tierId
    rw [scaleOutCore_map hnew, lookup_insert_eq_some]
    rintro (⟨_,rfl⟩ | ⟨_,hid⟩)
    · cases t
      · exact .inl rfl
      · exact .inr rfl
    · exact h.tier_eq id tierId hid

theorem Coherent.deleteVMFromMap {reg : Registry} (h : reg.Coherent) (vmId : VmId) :
    (reg.deleteVMFromMap vmId).Coherent := by
  cases hid : reg.id2TierMap.lookup vmId with
  | none =>
    rw [deleteVMFromMap_of_notMem (Finmap.lookup_eq_none.mp hid)]
    exact h
  | some tierId =>
    constructor
    · have hc := valueCount_erase hid 0
      rw [deleteVMFromMap_frontCount hid, deleteVMFromMap_map, h.frontCount_eq, ← hc]
      push_cast
      exact add_sub_cancel_right _ _
    · have hc := valueCount_erase hid 1
      rw [deleteVMFromMap_midCount hid, deleteVMFromMap_map, h.midCount_eq, ← hc]
      push_cast
      exact add_sub_cancel_right _ _
    · intro id t
      rw [deleteVMFromMap_map, lookup_erase_eq_some]
      exact fun ht => h.tier_eq id t ht.2

@[simp] theorem masterHandlerStart_map :
    masterHandlerStart.id2TierMap = (∅ : Finmap (fun _ : VmId => TierId)).insert 1 0 := rfl

theorem masterHandlerStart_coherent : masterHandlerStart.Coherent := by
  have hnew : (1 : VmId) ∉ registerMaster.id2TierMap := Finmap.notMem_empty
  have hempty : registerMaster.Coherent :=
    ⟨by simp [registerMaster],by simp [registerMaster],by intro id t h; simp [registerMaster] at h⟩
  have hstart : masterHandlerStart = registerMaster.scaleOutCore 1 Tier.front.id := rfl
  rw [hstart]
  exact hempty.scaleOutCore hnew .front

end Registry
end AutoScaling
