import AutoScaling.Cluster.Membership

/-! # When the mid tier keeps a server

`midRoutine` decides on a count that may be old by the time it deregisters. The tier
is kept by the decisions that leave another server behind, and a single decision that
does not can empty it.
-/
namespace AutoScaling
namespace Cluster
variable {R : Type*}

/-- A mid server whose routine calls `shutDown` leaves another registered one behind
that is not in `shutDown` itself. -/
def LeavesAnotherMid (st : State R) : Action R → Prop
  | .run i _ => (st.slaves i).scalesIn = some .mid → ∃ other ∈ st.vms, other ≠ i ∧
      st.reg.id2TierMap.lookup other = some 1 ∧ (st.slaves other).pc.stage.isLeaving = false
  | _ => True

instance decidableLeavesAnotherMid (st : State R) : (a : Action R) → Decidable (LeavesAnotherMid st a)
  | .run i _ => inferInstanceAs (Decidable ((st.slaves i).scalesIn = some .mid →
      ∃ other ∈ st.vms, other ≠ i ∧ st.reg.id2TierMap.lookup other = some 1 ∧
        (st.slaves other).pc.stage.isLeaving = false))
  | .main _ _ _ => .isTrue trivial
  | .boot _ => .isTrue trivial
  | .execute _ _ => .isTrue trivial
  | .arrive _ _ => .isTrue trivial
  | .throws _ => .isTrue trivial

/-- Some mid-tier id is in the map, and `midCount` says so. -/
def MidTierNonempty (st : State R) : Prop :=
  (∃ id, st.reg.id2TierMap.lookup id = some 1) ∧ 1 ≤ st.reg.midCount

theorem Inv.midCount_pos {st : State R} (h : Inv st) :
    1 ≤ st.reg.midCount ↔ ∃ id, st.reg.id2TierMap.lookup id = some 1 := by
  have hcount := h.coherent.midCount_eq
  rw [← ValueCount.valueCount_pos]
  omega

theorem leavesAnother_of_rosterStep {st : State R} {a : Action R} {m : Roster.Move VmId TierId}
    (hleave : ∀ i, m = .leave i → ∃ now, a = .run i now ∧ ∃ tier, (st.slaves i).scalesIn = some tier)
    (hg : LeavesAnotherMid st a) : Roster.LeavesAnother 1 st.roster m := by
  cases m with
  | leave i =>
    obtain ⟨now,rfl,tier,hin⟩ := hleave i rfl
    intro hserving
    have hstage : st.roster.stage i = .serving tier.id := Slave.stage_of_scalesIn hin
    have hid : tier.id = 1 := Stage.serving.inj (hstage.symm.trans hserving)
    have hmid : tier = .mid := by
      cases tier with
      | front => cases hid
      | mid => rfl
    obtain ⟨other,_,hne,hlookup,hstay⟩ := hg (hmid ▸ hin)
    exact ⟨other,hne,hlookup,hstay⟩
  | _ => trivial

/-- Before its first scale-out the master has no mid server, and after it one that stays. -/
def MidStays (st : State R) : Prop := st.main = .startMid ∨ Roster.Stays 1 st.roster

theorem main_startMid {st st' : State R} {booting : Bool} {now : ℤ} {vmId : VmId} (h : Inv st)
    (hm : st.main = .startMid) (hs : st.mainStep booting now vmId = some st') :
    Roster.Stays 1 st'.roster := by
  simp only [State.mainStep,hm,Option.map_eq_some_iff,scaleOutCore_eq_some] at hs
  obtain ⟨_,⟨hnew,rfl⟩,rfl⟩ := hs
  refine ⟨vmId,?_,?_⟩
  · simp only [State.roster,Registry.scaleOutCore_map (h.notMem_map hnew)]
    exact Finmap.lookup_insert _
  · simp only [State.roster,h.launched vmId hnew.1]
    rfl

theorem midStays_step {st st' : State R} {a : Action R} (h : Inv st) (hst : MidStays st)
    (hg : LeavesAnotherMid st a) (hs : system.step st a = some st') : MidStays st' := by
  rcases hst with hm | hst
  · cases a with
    | main booting now vmId => exact .inr (main_startMid h hm hs)
    | _ =>
      refine .inl ((thread_of_step ?_ hs).1.trans hm)
      intro booting now vmId he
      cases he
  · cases (roster_step h hs).1 with
    | same he => exact .inr (he ▸ hst)
    | move m hmove hleave =>
      exact .inr (hst.step h.roster (leavesAnother_of_rosterStep hleave hg) hmove)

def Deregisters (i : VmId) (st : State R) : Prop :=
  ∃ bs st', system.run st bs = some st' ∧ Inv st' ∧
    st'.reg.id2TierMap = st.reg.id2TierMap.erase i ∧ ∀ j, j ≠ i → st'.slaves j = st.slaves j

theorem Deregisters.of_run {i : VmId} {st : State R} (hi : Inv st) {now : ℤ} {s : Slave R}
    {ev : List (Event R)} (hrun : (st.slaves i).run i now = some (s,ev))
    (h : ∀ u : State R, Inv u → u.slaves i = s → Deregisters i u) : Deregisters i st := by
  have hs : system.step st (.run i now) = some ((st.setSlave i s).record ev) := by
    simp only [system,step,hrun,Option.map_some]
  have hslave : ((st.setSlave i s).record ev).slaves i = s := Function.update_self _ _ _
  obtain ⟨bs,st',hr,hinv,hmap,hkeep⟩ := h _ (inv_step hi hs) hslave
  refine ⟨.run i now :: bs,st',(system.run_cons_eq_some).mpr ⟨_,hs,hr⟩,hinv,hmap,?_⟩
  intro j hj
  exact (hkeep j hj).trans (Function.update_of_ne hj _ _)

theorem deregisters_deleteVM {i : VmId} {st : State R} (h : Inv st) {tier : Tier}
    (hpc : (st.slaves i).pc = .deleteVM tier .sent) : Deregisters i st := by
  have hs : system.step st (.execute i 0) = some
      ({ st with reg := st.reg.deleteVMFromMap i }.setPc i (.deleteVM tier (.replied ()))) := by
    simp only [system,step,State.execute,hpc]
  exact ⟨[.execute i 0],_,(system.run_cons_eq_some).mpr ⟨_,hs,rfl⟩,inv_step h hs,
    Registry.deleteVMFromMap_map st.reg i,fun j hj => Function.update_of_ne hj _ _⟩

theorem deregisters_lookupMaster {i : VmId} {st : State R} (h : Inv st) {tier : Tier}
    (hpc : (st.slaves i).pc = .lookupMaster tier) : Deregisters i st := by
  have hrun : (st.slaves i).run i 0 = some ((st.slaves i).goto (.deleteVM tier .sent),[]) := by
    simp only [Slave.run,hpc]
  exact .of_run h hrun (fun u hu hslave => deregisters_deleteVM hu (by rw [hslave]; rfl))

theorem deregisters_of_isLeaving {i : VmId} {st : State R} (h : Inv st)
    (hi : (st.slaves i).pc.stage.isLeaving = true) : Deregisters i st := by
  cases hpc : (st.slaves i).pc with
  | shutDown tier =>
    have hrun : (st.slaves i).run i 0 =
        some ({ st.slaves i with slQueue := [] }.goto (.lookupMaster tier),[]) := by
      simp only [Slave.run,hpc]
    exact .of_run h hrun (fun u hu hslave => deregisters_lookupMaster hu (by rw [hslave]; rfl))
  | lookupMaster tier => exact deregisters_lookupMaster h hpc
  | deleteVM tier a =>
    cases a with
    | sent => exact deregisters_deleteVM h hpc
    | replied u => simp [hpc,SlavePc.stage,Stage.isLeaving] at hi
  | exited tier b => cases b <;> simp [hpc,SlavePc.stage,Stage.isLeaving] at hi
  | getTier a => cases a <;> simp [hpc,SlavePc.stage,SlavePc.tier,Stage.isLeaving] at hi
  | _ => simp [hpc,SlavePc.stage,SlavePc.tier,Stage.isLeaving] at hi

/-- Where every registered mid server is in `shutDown`, the tier can empty. -/
theorem drains {n : ℕ} {st : State R} (h : Inv st)
    (hall : ∀ id, st.reg.id2TierMap.lookup id = some 1 → (st.slaves id).pc.stage.isLeaving = true)
    (hn : ValueCount.valueCount st.reg.id2TierMap 1 = n) :
    ∃ bs st', system.run st bs = some st' ∧ st'.reg.midCount = 0 := by
  induction n generalizing st with
  | zero =>
    have hcount := h.coherent.midCount_eq
    exact ⟨[],st,rfl,by omega⟩
  | succ n ih =>
    have hpos : 0 < ValueCount.valueCount st.reg.id2TierMap 1 := by omega
    obtain ⟨id,hid⟩ := ValueCount.valueCount_pos.mp hpos
    obtain ⟨bs,u,hr,hu,hmap,hkeep⟩ := deregisters_of_isLeaving h (hall id hid)
    have herase := ValueCount.valueCount_erase hid 1
    rw [if_pos rfl, ← hmap] at herase
    have hallu : ∀ j, u.reg.id2TierMap.lookup j = some 1 →
        (u.slaves j).pc.stage.isLeaving = true := by
      intro j hj
      rw [hmap, ValueCount.lookup_erase_eq_some] at hj
      rw [hkeep j hj.1]
      exact hall j hj.2
    obtain ⟨cs,st',hr',hzero⟩ := ih hu hallu (by omega)
    exact ⟨bs ++ cs,st',LabelledSystem.run_append_eq_some.mpr ⟨u,hr,hr'⟩,hzero⟩

theorem run_of_scalesIn (i : VmId) {s : Slave R} (now : ℤ) {tier : Tier}
    (h : s.scalesIn = some tier) : ∃ s' ev, s.run i now = some (s',ev) ∧ s'.pc = .shutDown tier := by
  have hin := Slave.of_scalesIn h
  rcases s with ⟨pc,st,q⟩
  cases hin with
  | front cnt len hshut => exact ⟨_,_,rfl,if_pos hshut⟩
  | mid start cnt len hidle => exact ⟨_,_,rfl,if_pos hidle⟩

/-- A decision that leaves no other server behind can be followed by the tier's end. -/
theorem lastDecision_empties {st : State R} (h : Inv st) {i : VmId} {now : ℤ}
    (hg : ¬ LeavesAnotherMid st (.run i now)) :
    ∃ bs st', system.run st bs = some st' ∧ st'.reg.midCount = 0 := by
  simp only [LeavesAnotherMid,Classical.not_imp,not_exists,not_and,Bool.not_eq_false] at hg
  obtain ⟨hin,hothers⟩ := hg
  obtain ⟨s,ev,hrun,hpc⟩ := run_of_scalesIn i now hin
  let u := (st.setSlave i s).record ev
  have hs : system.step st (.run i now) = some u := by
    simp only [system,step,hrun,Option.map_some]
    rfl
  have hall : ∀ id, u.reg.id2TierMap.lookup id = some 1 →
      (u.slaves id).pc.stage.isLeaving = true := by
    intro id hid
    by_cases he : id = i
    · subst he
      simp only [u,State.record,State.setSlave,Function.update_self,hpc]
      rfl
    · have hvm : id ∈ st.vms := by
        rcases h.roster.known_of_mem id (Finmap.mem_of_lookup_eq_some hid) with h1 | hvm
        · have hanchor := h.roster.anchor_lookup
          rw [← h1] at hanchor
          cases hanchor.symm.trans hid
        · exact hvm
      simp only [u,State.record,State.setSlave,Function.update_of_ne he]
      exact hothers id hvm he hid
  obtain ⟨bs,st',hr,hzero⟩ := drains (inv_step h hs) hall rfl
  exact ⟨.run i now :: bs,st',(system.run_cons_eq_some).mpr ⟨u,hs,hr⟩,hzero⟩

/-- Once the master has started its first mid server, the mid tier is never empty in a
run whose scale-in decisions all leave another server behind; and after any reachable
decision that does not, the tier can be brought down to no server. -/
theorem midTier_nonempty (masterStartTime : ℤ) :
    (∀ (as : List (Action R)) st, system.run (start masterStartTime) as = some st →
      system.Meets LeavesAnotherMid (start masterStartTime) as → st.main ≠ .startMid →
      MidTierNonempty st) ∧
    ∀ (st : State R) i now, system.Reachable (start masterStartTime) st →
      ¬ LeavesAnotherMid st (.run i now) →
      ∃ bs st', system.run st bs = some st' ∧ ¬ MidTierNonempty st' := by
  constructor
  · intro as st hr hg hm
    have hinv := LabelledSystem.run_invariant_of_meets (I := fun u => Inv u ∧ MidStays u)
      (fun _ _ _ h hg hs => ⟨inv_step h.1 hs,midStays_step h.1 h.2 hg hs⟩) hr hg
      ⟨inv_start masterStartTime,.inl rfl⟩
    rcases hinv.2 with he | ⟨id,hid,_⟩
    · exact absurd he hm
    · exact ⟨⟨id,hid⟩,hinv.1.midCount_pos.mpr ⟨id,hid⟩⟩
  · rintro st i now ⟨as,hr⟩ hg
    obtain ⟨bs,st',hr',hzero⟩ := lastDecision_empties (inv_run hr) hg
    refine ⟨bs,st',hr',?_⟩
    rintro ⟨_,hpos⟩
    omega

/-- Start-up, and a burst while VM 2 boots that makes `handleBooting` start VM 4 as a
second mid server. -/
def twoMids : List (Action ℕ) :=
  [.main false 0 2,.main false 0 3,.arrive 1 1,.arrive 1 2,.arrive 1 3,.arrive 1 4,.arrive 1 5,
    .main true 1001 0,.main true 0 4]

/-- A mid server boots, polls an empty queue and comes back 2100 ms later, to decide on
the two counts it reads then. -/
def idleMid (i : VmId) : List (Action ℕ) :=
  [.boot i,.run i 0,.execute i 0,.run i 0,.run i 0,.run i 1100,.execute i 0,.run i 0,.execute i 0,
    .run i 0,.execute i 0,.run i 0,.run i 3200,.execute i 0,.run i 0,.execute i 0,.run i 0]

def deregister (i : VmId) : List (Action ℕ) := [.run i 0,.run i 0,.execute i 0]

/-- Both mid servers read the count 2 before either deregisters, and both go. -/
theorem staleCounts_empty_midTier :
    ∃ st, system.run (start 0) (twoMids ++ (idleMid 2 ++ (idleMid 4 ++ (deregister 2 ++ deregister 4)))) =
        some st ∧
      st.main ≠ .startMid ∧ ¬ MidTierNonempty st := by
  have hrun : ∃ st, system.run (start 0)
        (twoMids ++ (idleMid 2 ++ (idleMid 4 ++ (deregister 2 ++ deregister 4)))) = some st ∧
      st.main ≠ .startMid ∧ st.reg.midCount = 0 := by decide
  obtain ⟨st,hst,hm,hzero⟩ := hrun
  exact ⟨st,hst,hm,fun h => by have hpos := h.2; omega⟩

/-- The first of them goes while the second only starts to look. -/
theorem midTier_nonempty_oneLeaves :
    ∃ st, system.run (start 0) (twoMids ++ (idleMid 2 ++ (deregister 2 ++ idleMid 4))) = some st ∧
      MidTierNonempty st := by
  have hrun : ∃ st, system.run (start 0) (twoMids ++ (idleMid 2 ++ (deregister 2 ++ idleMid 4))) =
      some st ∧ st.main ≠ .startMid := by decide
  obtain ⟨st,hst,hm⟩ := hrun
  exact ⟨st,hst,(midTier_nonempty 0).1 _ st hst (by decide) hm⟩

end Cluster
end AutoScaling
