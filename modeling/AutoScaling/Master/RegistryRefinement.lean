import AutoScaling.Master.Registry

/-! # The registry refines a finite map from VM ids to tiers

The abstract fleet is only the map: its counts are computed from it, never stored.
The registry keeps the same fact in a map and two counters and updates them on
separate paths. Calls carry the id that `SL.startVM()` returned; that no id is
returned twice is the one assumption on them.
-/
namespace AutoScaling
open ValueCount

/-- What the registry is for: which VMs are live, and in which tier. -/
abbrev Fleet := Finmap (fun _ : VmId => Tier)

namespace Fleet

def start (fleet : Fleet) (vmId : VmId) (t : Tier) : Fleet := fleet.insert vmId t
def stop (fleet : Fleet) (vmId : VmId) : Fleet := fleet.erase vmId
def count (fleet : Fleet) (t : Tier) : ℕ := valueCount fleet t

def initial (midVM frontVM : VmId) : Fleet :=
  ((start ∅ 1 .front).start midVM .mid).start frontVM .front

theorem count_add (fleet : Fleet) : fleet.count .front + fleet.count .mid = fleet.keys.card :=
  valueCount_add (by decide) (fun _ t _ => by cases t <;> simp)

end Fleet

namespace Registry

/-- A call executed to completion, with the id `SL.startVM()` returned in it. -/
inductive Call
  | masterScaleOut (vmId : VmId) (t : Tier)
  | scaleOut (vmId : VmId) (t : Tier)
  | deleteVMFromMap (vmId : VmId)

def Call.exec (reg : Registry) : Call → Registry
  | .masterScaleOut vmId t => reg.masterScaleOut vmId t.id
  | .scaleOut vmId t => reg.scaleOut vmId t.id
  | .deleteVMFromMap vmId => reg.deleteVMFromMap vmId

def Call.abstract (fleet : Fleet) : Call → Fleet
  | .masterScaleOut vmId t => fleet.start vmId t
  | .scaleOut vmId t => fleet.start vmId t
  | .deleteVMFromMap vmId => fleet.stop vmId

def Call.startedVM : Call → Option VmId
  | .masterScaleOut vmId _ => some vmId
  | .scaleOut vmId _ => some vmId
  | .deleteVMFromMap _ => none

/-- The simulation: same map up to the tier codes, and each counter is a count. -/
structure Simulates (reg : Registry) (fleet : Fleet) : Prop where
  lookup_eq : ∀ id, reg.id2TierMap.lookup id = (fleet.lookup id).map Tier.id
  frontCount_eq : reg.frontCount = fleet.count .front
  midCount_eq : reg.midCount = fleet.count .mid

theorem Simulates.mem_iff {reg : Registry} {fleet : Fleet} (h : reg.Simulates fleet) (id : VmId) :
    id ∈ reg.id2TierMap ↔ id ∈ fleet := by
  rw [← Finmap.lookup_isSome, ← Finmap.lookup_isSome, h.lookup_eq id, Option.isSome_map]

theorem Simulates.keys_eq {reg : Registry} {fleet : Fleet} (h : reg.Simulates fleet) :
    reg.id2TierMap.keys = fleet.keys := by
  ext id
  rw [Finmap.mem_keys, Finmap.mem_keys, h.mem_iff id]

theorem registerMaster_simulates : registerMaster.Simulates ∅ :=
  ⟨fun _ => rfl,by simp [registerMaster,Fleet.count],by simp [registerMaster,Fleet.count]⟩

theorem Simulates.scaleOutCore {reg : Registry} {fleet : Fleet} (h : reg.Simulates fleet)
    {vmId : VmId} (hnew : vmId ∉ fleet) (t : Tier) :
    (reg.scaleOutCore vmId t.id).Simulates (fleet.start vmId t) := by
  have hreg : vmId ∉ reg.id2TierMap := fun hm => hnew ((h.mem_iff vmId).mp hm)
  constructor
  · intro id
    rw [scaleOutCore_map hreg]
    by_cases hid : id = vmId
    · rw [hid, Finmap.lookup_insert, Fleet.start, Finmap.lookup_insert, Option.map_some]
    · rw [Finmap.lookup_insert_of_ne _ hid, Fleet.start, Finmap.lookup_insert_of_ne _ hid]
      exact h.lookup_eq id
  · have hc := valueCount_insert hnew t Tier.front
    rw [scaleOutCore_frontCount hreg, h.frontCount_eq, Fleet.count, Fleet.count, Fleet.start, hc]
    cases t <;> simp [Tier.id]
  · have hc := valueCount_insert hnew t Tier.mid
    rw [scaleOutCore_midCount hreg, h.midCount_eq, Fleet.count, Fleet.count, Fleet.start, hc]
    cases t <;> simp [Tier.id]

theorem Simulates.deleteVMFromMap {reg : Registry} {fleet : Fleet} (h : reg.Simulates fleet)
    (vmId : VmId) : (reg.deleteVMFromMap vmId).Simulates (fleet.stop vmId) := by
  have hmap : ∀ id, (reg.deleteVMFromMap vmId).id2TierMap.lookup id =
      ((fleet.stop vmId).lookup id).map Tier.id := by
    intro id
    rw [deleteVMFromMap_map, Fleet.stop]
    by_cases hid : id = vmId
    · rw [hid, Finmap.lookup_erase, Finmap.lookup_erase, Option.map_none]
    · rw [Finmap.lookup_erase_ne hid, Finmap.lookup_erase_ne hid]
      exact h.lookup_eq id
  cases hid : fleet.lookup vmId with
  | none =>
    have hout : vmId ∉ reg.id2TierMap := fun hm =>
      Finmap.lookup_eq_none.mp hid ((h.mem_iff vmId).mp hm)
    have hsame : fleet.stop vmId = fleet := erase_of_notMem (Finmap.lookup_eq_none.mp hid)
    rw [deleteVMFromMap_of_notMem hout, hsame]
    exact h
  | some t =>
    have hreg : reg.id2TierMap.lookup vmId = some t.id := by rw [h.lookup_eq, hid, Option.map_some]
    refine ⟨hmap,?_,?_⟩
    · have hc := valueCount_erase hid Tier.front
      rw [deleteVMFromMap_frontCount hreg, h.frontCount_eq, Fleet.count, Fleet.count, Fleet.stop, ← hc]
      cases t <;> simp [Tier.id]
    · have hc := valueCount_erase hid Tier.mid
      rw [deleteVMFromMap_midCount hreg, h.midCount_eq, Fleet.count, Fleet.count, Fleet.stop, ← hc]
      cases t <;> simp [Tier.id]

/-- One call, where the id it starts (if any) is not live yet. -/
theorem Simulates.exec {reg : Registry} {fleet : Fleet} (h : reg.Simulates fleet) (c : Call)
    (hnew : ∀ vmId, c.startedVM = some vmId → vmId ∉ fleet) :
    (Call.exec reg c).Simulates (Call.abstract fleet c) := by
  cases c with
  | masterScaleOut vmId t => exact h.scaleOutCore (hnew vmId rfl) t
  | scaleOut vmId t => exact h.scaleOutCore (hnew vmId rfl) t
  | deleteVMFromMap vmId => exact h.deleteVMFromMap vmId

theorem mem_abstract {fleet : Fleet} {c : Call} {id : VmId} (h : id ∈ Call.abstract fleet c) :
    id ∈ fleet ∨ c.startedVM = some id := by
  cases c with
  | masterScaleOut vmId t =>
    rcases Finmap.mem_insert.mp h with rfl | h
    · exact .inr rfl
    · exact .inl h
  | scaleOut vmId t =>
    rcases Finmap.mem_insert.mp h with rfl | h
    · exact .inr rfl
    · exact .inl h
  | deleteVMFromMap vmId => exact .inl (Finmap.mem_erase.mp h).2

/-- A run of calls: no call starts a live id, and no two calls start the same one. -/
theorem Simulates.foldl {reg : Registry} {fleet : Fleet} (h : reg.Simulates fleet)
    (calls : List Call) (hnodup : (calls.filterMap Call.startedVM).Nodup)
    (hnew : ∀ vmId ∈ calls.filterMap Call.startedVM, vmId ∉ fleet) :
    (calls.foldl Call.exec reg).Simulates (calls.foldl Call.abstract fleet) := by
  induction calls generalizing reg fleet with
  | nil => exact h
  | cons c calls ih =>
    have hc : ∀ vmId, c.startedVM = some vmId → vmId ∉ fleet := fun vmId hs =>
      hnew vmId (List.mem_filterMap.mpr ⟨c,List.mem_cons_self,hs⟩)
    have hrest : ∀ vmId ∈ calls.filterMap Call.startedVM, c.startedVM ≠ some vmId := by
      intro vmId hm hs
      rw [List.filterMap_cons_some hs] at hnodup
      exact (List.nodup_cons.mp hnodup).1 hm
    have htail : (calls.filterMap Call.startedVM).Nodup :=
      hnodup.sublist ((List.sublist_cons_self c calls).filterMap _)
    refine ih (h.exec c hc) htail ?_
    intro vmId hm hlive
    rcases mem_abstract hlive with hlive | hs
    · obtain ⟨d,hd,he⟩ := List.mem_filterMap.mp hm
      exact hnew vmId (List.mem_filterMap.mpr ⟨d,List.mem_cons_of_mem c hd,he⟩) hlive
    · exact hrest vmId hm hs

theorem masterHandler_simulates {midVM frontVM : VmId} (h : [1,midVM,frontVM].Nodup) :
    (masterHandler midVM frontVM).Simulates (Fleet.initial midVM frontVM) := by
  have hrun := registerMaster_simulates.foldl
    [.masterScaleOut 1 .front,.masterScaleOut midVM .mid,.masterScaleOut frontVM .front]
    h (fun _ _ => Finmap.notMem_empty)
  exact hrun

theorem Simulates.getVMCount {reg : Registry} {fleet : Fleet} (h : reg.Simulates fleet) (t : Tier) :
    reg.getVMCount t.id = fleet.count t := by
  cases t with
  | front => exact h.frontCount_eq
  | mid => exact h.midCount_eq

theorem Simulates.getTier {reg : Registry} {fleet : Fleet} (h : reg.Simulates fleet) (id : VmId) :
    reg.getTier id = ((fleet.lookup id).map Tier.id).getD (-1) := by
  rw [Registry.getTier, h.lookup_eq id]

/-- After start-up and any sequence of scale-outs and deregistrations, the registry
is in simulation with the plain map, and every reader of it reads the map. -/
theorem registry_refines_fleet (midVM frontVM : VmId) (calls : List Call)
    (hfresh : (1 :: midVM :: frontVM :: calls.filterMap Call.startedVM).Nodup) :
    let reg := calls.foldl Call.exec (masterHandler midVM frontVM)
    let fleet := calls.foldl Call.abstract (Fleet.initial midVM frontVM)
    reg.Simulates fleet ∧
    reg.getVMCount 0 = fleet.count .front ∧
    reg.getVMCount 1 = fleet.count .mid ∧
    reg.getVMCount 0 + reg.getVMCount 1 = reg.id2TierMap.keys.card ∧
    0 ≤ reg.getVMCount 0 ∧ 0 ≤ reg.getVMCount 1 ∧
    (∀ id t, fleet.lookup id = some t → reg.getTier id = t.id) ∧
    ∀ id, id ∉ fleet → reg.getTier id = -1 := by
  have hsplit : ([1,midVM,frontVM] ++ calls.filterMap Call.startedVM).Nodup := hfresh
  obtain ⟨hstart,hcalls,hdis⟩ := List.nodup_append.mp hsplit
  have hnew : ∀ vmId ∈ calls.filterMap Call.startedVM, vmId ∉ Fleet.initial midVM frontVM := by
    intro vmId hm hlive
    simp only [Fleet.initial,Fleet.start,Finmap.mem_insert,Finmap.notMem_empty,or_false] at hlive
    refine hdis vmId ?_ vmId hm rfl
    rcases hlive with rfl | rfl | rfl <;> simp
  have h := (masterHandler_simulates hstart).foldl calls hcalls hnew
  have h0 := h.getVMCount .front
  have h1 := h.getVMCount .mid
  simp only [Tier.id] at h0 h1
  refine ⟨h,h0,h1,?_,?_,?_,?_,?_⟩
  · rw [h0, h1, h.keys_eq, ← Fleet.count_add]
    push_cast
    rfl
  · rw [h0]
    exact Int.natCast_nonneg _
  · rw [h1]
    exact Int.natCast_nonneg _
  · intro id t ht
    rw [h.getTier, ht]
    rfl
  · intro id hid
    rw [h.getTier, Finmap.lookup_eq_none.mpr hid]
    rfl

theorem registry_refines_fleet_repeated_delete :
    let calls := [Call.scaleOut 7 .mid,.deleteVMFromMap 7,.deleteVMFromMap 7,.deleteVMFromMap 40]
    let reg := calls.foldl Call.exec (masterHandler 2 3)
    reg.getVMCount 0 = 2 ∧ reg.getVMCount 1 = 1 ∧ reg.getTier 7 = -1 := by
  have h := registry_refines_fleet 2 3
    [.scaleOut 7 .mid,.deleteVMFromMap 7,.deleteVMFromMap 7,.deleteVMFromMap 40] (by decide)
  exact ⟨h.2.1.trans (by decide),h.2.2.1.trans (by decide),h.2.2.2.2.2.2.2 7 (by decide)⟩

end Registry
end AutoScaling
