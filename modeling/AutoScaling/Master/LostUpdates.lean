import AutoScaling.Foundation.IndexedSum
import AutoScaling.Master.Handlers
import Mathlib.Algebra.BigOperators.Intervals
import Mathlib.Tactic.Ring

/-! # When no counter update is lost

A store is current when the counter still holds what the storing thread loaded. The
ledger below is exact in every run: a counter differs from the number of ids of its
tier by what the calls under way still owe it and by what stale stores have added or
taken away. Nothing is assumed of the order of the steps.
-/
namespace AutoScaling
namespace Handlers
open ValueCount

/-- Scale-outs are for the two tiers, and a delete is issued for an id in the map. -/
def Issued (st : State) : Action → Prop
  | .call (.scaleOut tierId) => tierId = 0 ∨ tierId = 1
  | .call (.deleteVMFromMap vmId) => vmId ∈ st.reg.id2TierMap
  | _ => True

def TwoTiers : Action → Prop
  | .call (.scaleOut tierId) => tierId = 0 ∨ tierId = 1
  | _ => True

theorem Issued.twoTiers {st : State} {a : Action} (h : Issued st a) : TwoTiers a := by
  cases a with
  | call c =>
    cases c with
    | scaleOut tierId => exact h
    | deleteVMFromMap vmId => trivial
    | getTier id => trivial
  | step i vmId => trivial

/-- By how much the step takes counter `c` off the value the update should give. -/
def staleness (c : Tier) (st : State) : Action → ℤ
  | .step i _ =>
    match st.pc i with
    | .incStore d loaded => if d = c then loaded - st.reg.counter c else 0
    | .decStore d loaded => if d = c then loaded - st.reg.counter c else 0
    | _ => 0
  | _ => 0

/-- Every store finds the counter as its thread loaded it. -/
def StoresCurrent (st : State) (a : Action) : Prop := ∀ c, staleness c st a = 0

instance decidableIssued (st : State) : (a : Action) → Decidable (Issued st a)
  | .call (.scaleOut tierId) => inferInstanceAs (Decidable (tierId = 0 ∨ tierId = 1))
  | .call (.deleteVMFromMap vmId) => inferInstanceAs (Decidable (vmId ∈ st.reg.id2TierMap))
  | .call (.getTier _) => .isTrue trivial
  | .step _ _ => .isTrue trivial

instance decidableStoresCurrent (st : State) (a : Action) : Decidable (StoresCurrent st a) :=
  decidable_of_iff (staleness .front st a = 0 ∧ staleness .mid st a = 0)
    ⟨fun h c => by cases c; exacts [h.1,h.2],fun h => ⟨h .front,h .mid⟩⟩

def drift (c : Tier) : State → List Action → ℤ
  | _, [] => 0
  | st, a :: as => staleness c st a + (system.step st a).elim 0 (fun st' => drift c st' as)

def Pc.hasReturned : Pc → Bool
  | .returned _ => true
  | _ => false

def AllReturned (st : State) : Prop := ∀ i < st.next, (st.pc i).hasReturned

instance (st : State) : Decidable (AllReturned st) :=
  inferInstanceAs (Decidable (∀ i < st.next, (st.pc i).hasReturned))

/-- What a call has changed in the map and not yet in counter `c`. -/
def owed (c : Tier) : Pc → ℤ
  | .addUnlock tierId => if incCounter tierId = c then 1 else 0
  | .incLoad d => if d = c then 1 else 0
  | .incStore d _ => if d = c then 1 else 0
  | .decLoad d => if d = c then -1 else 0
  | .decStore d _ => if d = c then -1 else 0
  | _ => 0

def Pc.tierId : Pc → Option TierId
  | .startVM tierId => some tierId
  | .addLock _ tierId => some tierId
  | .addContainsKey _ tierId => some tierId
  | .addPut _ tierId => some tierId
  | .addUnlock tierId => some tierId
  | _ => none

def Deleting (m : Finmap (fun _ : VmId => TierId)) (monitor : Option ℕ) (i : ℕ) : Pc → Prop
  | .delContainsKey _ => monitor = some i
  | .delGet vmId => monitor = some i ∧ vmId ∈ m
  | .delRemove vmId tierId => monitor = some i ∧ m.lookup vmId = some tierId
  | .decLoad _ => monitor = some i
  | .decStore _ _ => monitor = some i
  | .delUnlock => monitor = some i
  | _ => True

theorem Deleting.other {m m' : Finmap (fun _ : VmId => TierId)} {monitor monitor' : Option ℕ} {j : ℕ}
    {p : Pc} (h : Deleting m monitor j p) (hj : monitor ≠ some j) : Deleting m' monitor' j p := by
  cases p with
  | delContainsKey vmId => exact absurd h hj
  | delGet vmId => exact absurd h.1 hj
  | delRemove vmId tierId => exact absurd h.1 hj
  | decLoad c => exact absurd h hj
  | decStore c loaded => exact absurd h hj
  | delUnlock => exact absurd h hj
  | _ => trivial

theorem Deleting.insert {m : Finmap (fun _ : VmId => TierId)} {monitor : Option ℕ} {j : ℕ} {p : Pc}
    (h : Deleting m monitor j p) {vm : VmId} (hvm : vm ∉ m) (tierId : TierId) :
    Deleting (m.insert vm tierId) monitor j p := by
  cases p with
  | delGet vmId => exact ⟨h.1,Finmap.mem_insert.mpr (.inr h.2)⟩
  | delRemove vmId t => exact ⟨h.1,lookup_insert_of_notMem hvm tierId h.2⟩
  | _ => exact h

/-- The ledger, off by `d`. -/
structure Ledger (d : Tier → ℤ) (st : State) : Prop where
  tiers : ∀ id tierId, st.reg.id2TierMap.lookup id = some tierId → tierId = 0 ∨ tierId = 1
  pcTiers : ∀ i tierId, (st.pc i).tierId = some tierId → tierId = 0 ∨ tierId = 1
  deleting : ∀ i, Deleting st.reg.id2TierMap st.masterMonitor i (st.pc i)
  balance : ∀ c, st.reg.counter c + ∑ i ∈ Finset.range st.next, owed c (st.pc i) =
    valueCount st.reg.id2TierMap c.id + d c

theorem Ledger.move {d d' : Tier → ℤ} {st : State} (h : Ledger d st) {i : ℕ} (hi : i < st.next)
    {q : Pc} (hpc : st.pc i = q) {reg : Registry} {cm mm : Option ℕ}
    {vms : Finmap (fun _ : VmId => TierId)} {p : Pc}
    (htiers : ∀ id tierId, reg.id2TierMap.lookup id = some tierId → tierId = 0 ∨ tierId = 1)
    (hp : ∀ tierId, p.tierId = some tierId → tierId = 0 ∨ tierId = 1)
    (hself : Deleting reg.id2TierMap mm i p)
    (hother : ∀ j, j ≠ i → Deleting reg.id2TierMap mm j (st.pc j))
    (hbalance : ∀ c, reg.counter c + owed c p + (valueCount st.reg.id2TierMap c.id + d c) =
      st.reg.counter c + owed c q + (valueCount reg.id2TierMap c.id + d' c)) :
    Ledger d' ⟨reg,cm,mm,vms,st.next,st.call,Function.update st.pc i p⟩ := by
  refine ⟨htiers,?_,?_,?_⟩
  · intro j tierId hj
    by_cases he : j = i
    · subst he
      exact hp tierId (by simpa using hj)
    · exact h.pcTiers j tierId (by simpa [he] using hj)
  · intro j
    by_cases he : j = i
    · subst he
      simpa using hself
    · simpa [he] using hother j he
  · intro c
    have hsum := IndexedSum.sum_update_add (Finset.mem_range.mpr hi) st.pc p (fun _ => owed c)
    have hold := h.balance c
    have hb := hbalance c
    dsimp only at hsum ⊢
    rw [hpc] at hsum
    omega

theorem Ledger.stay {d : Tier → ℤ} {st : State} (h : Ledger d st) {i : ℕ} (hi : i < st.next)
    {q : Pc} (hpc : st.pc i = q) {cm : Option ℕ} {vms : Finmap (fun _ : VmId => TierId)} {p : Pc}
    (hp : ∀ tierId, p.tierId = some tierId → tierId = 0 ∨ tierId = 1)
    (hself : Deleting st.reg.id2TierMap st.masterMonitor i p)
    (howed : ∀ c, owed c p = owed c q) :
    Ledger d ⟨st.reg,cm,st.masterMonitor,vms,st.next,st.call,Function.update st.pc i p⟩ :=
  h.move hi hpc h.tiers hp hself (fun j _ => h.deleting j) (fun c => by rw [howed c])

theorem Ledger.issue {d : Tier → ℤ} {st : State} (h : Ledger d st) (hids : IdsFresh st) {c : Call}
    (hc : TwoTiers (.call c)) : Ledger d (st.issue c) := by
  have hidle : st.pc st.next = .idle := hids.unused st.next le_rfl
  refine ⟨h.tiers,?_,?_,?_⟩
  · intro j tierId hj
    by_cases he : j = st.next
    · subst he
      cases c with
      | scaleOut t =>
        simp only [State.issue,Function.update_self,Call.entry,Pc.tierId] at hj
        cases hj
        exact hc
      | deleteVMFromMap vmId => simp [State.issue,Call.entry,Pc.tierId] at hj
      | getTier id => simp [State.issue,Call.entry,Pc.tierId] at hj
    · exact h.pcTiers j tierId (by simpa [State.issue,he] using hj)
  · intro j
    by_cases he : j = st.next
    · subst he
      cases c <;> simp [State.issue,Call.entry,Deleting]
    · simpa [State.issue,he] using h.deleting j
  · intro t
    have hentry : owed t c.entry = 0 := by cases c <;> rfl
    have hout : st.next ∉ Finset.range st.next := Finset.notMem_range_self
    have hsum := IndexedSum.sum_update_of_notMem hout st.pc c.entry (fun _ => owed t)
    simp only [State.issue,Finset.sum_range_succ,Function.update_self,hentry,add_zero]
    rw [hsum]
    exact h.balance t

theorem ledger_step {d : Tier → ℤ} {st st' : State} {a : Action} (hids : IdsFresh st)
    (h : Ledger d st) (htiers : TwoTiers a) (hs : system.step st a = some st') :
    Ledger (fun c => d c + staleness c st a) st' := by
  cases a with
  | call c =>
    cases hs
    simpa only [staleness,add_zero] using h.issue hids htiers
  | step i vmId =>
    have hi : i < st.next := hids.lt_next (ne_idle_of_advance hs)
    have hdel := h.deleting i
    have htier := h.pcTiers i
    cases advanced_of_advance hs with
    | startVM tierId hpc hnew hone =>
      rw [hpc] at htier
      simp only [staleness,hpc,add_zero]
      exact h.stay hi hpc htier trivial (fun _ => rfl)
    | addLock vm tierId hpc hfree =>
      rw [hpc] at htier
      simp only [staleness,hpc,add_zero]
      exact h.stay hi hpc htier trivial (fun _ => rfl)
    | addContainsKey vm tierId hpc =>
      -- the id is fresh, so the guard of `addVM2Map` always lets the put through
      have hout := (hids.adding i vm (by simp [hpc,Pc.adding])).2
      rw [hpc] at htier
      simp only [staleness,hpc,add_zero,if_neg hout]
      exact h.stay hi hpc htier trivial (fun _ => rfl)
    | addPut vm tierId hpc =>
      have hout := (hids.adding i vm (by simp [hpc,Pc.adding])).2
      rw [hpc] at htier
      have ht := htier tierId rfl
      simp only [staleness,hpc,add_zero]
      refine h.move hi hpc ?_ htier trivial (fun j _ => (h.deleting j).insert hout tierId) ?_
      · intro id t hid
        rcases lookup_insert_eq_some.mp hid with ⟨_,rfl⟩ | ⟨_,hid⟩
        · exact ht
        · exact h.tiers id t hid
      · intro c
        simp only [State.setMap,valueCount_insert hout,Registry.counter,owed,incCounter]
        rcases ht with rfl | rfl <;> cases c <;> simp [Tier.id] <;> ring
    | addUnlock tierId hpc =>
      simp only [staleness,hpc,add_zero]
      exact h.stay hi hpc (fun _ ht => by cases ht) trivial (fun _ => rfl)
    | incLoad c hpc =>
      simp only [staleness,hpc,add_zero]
      exact h.stay hi hpc (fun _ ht => by cases ht) trivial (fun _ => rfl)
    | incStore c loaded hpc =>
      refine h.move hi hpc ?_ (fun _ ht => by cases ht) trivial ?_ ?_
      · rw [Registry.setCounter_map]
        exact h.tiers
      · rw [Registry.setCounter_map]
        exact fun j _ => h.deleting j
      · intro c'
        simp only [hpc,staleness,Registry.setCounter_map,Registry.counter_setCounter,owed]
        split <;> omega
    | delLock vm hpc hfree =>
      simp only [staleness,hpc,add_zero]
      refine h.move hi hpc h.tiers (fun _ ht => by cases ht) rfl ?_ (fun _ => rfl)
      exact fun j _ => (h.deleting j).other (by rw [hfree]; exact fun he => by cases he)
    | delContainsKey vm hpc =>
      rw [hpc] at hdel
      simp only [staleness,hpc,add_zero]
      split
      · rename_i hin
        exact h.stay hi hpc (fun _ ht => by cases ht) ⟨hdel,hin⟩ (fun _ => rfl)
      · exact h.stay hi hpc (fun _ ht => by cases ht) hdel (fun _ => rfl)
    | delGet vm tierId hpc hget =>
      rw [hpc] at hdel
      simp only [staleness,hpc,add_zero]
      exact h.stay hi hpc (fun _ ht => by cases ht) ⟨hdel.1,hget⟩ (fun _ => rfl)
    | delGetNull vm hpc hget =>
      rw [hpc] at hdel
      exact absurd hdel.2 (Finmap.lookup_eq_none.mp hget)
    | delRemove vm tierId hpc =>
      rw [hpc] at hdel
      have ht := h.tiers vm tierId hdel.2
      have hothers : ∀ j, j ≠ i →
          Deleting (st.reg.id2TierMap.erase vm) st.masterMonitor j (st.pc j) := fun j hj =>
        (h.deleting j).other (by rw [hdel.1]; exact fun he => hj (Option.some.inj he).symm)
      simp only [staleness,hpc,add_zero]
      refine h.move hi hpc ?_ ?_ ?_ hothers ?_
      · exact fun id t hid => h.tiers id t (lookup_erase_eq_some.mp hid).2
      · rcases ht with rfl | rfl <;> exact fun _ he => by cases he
      · rcases ht with rfl | rfl <;> exact hdel.1
      · intro c
        have hcount := valueCount_erase hdel.2 c.id
        simp only [State.setMap,Registry.counter]
        rcases ht with rfl | rfl <;> cases c <;>
          simp [Tier.id,decCounter,owed] at hcount ⊢ <;> omega
    | decLoad c hpc =>
      rw [hpc] at hdel
      simp only [staleness,hpc,add_zero]
      exact h.stay hi hpc (fun _ ht => by cases ht) hdel (fun _ => rfl)
    | decStore c loaded hpc =>
      rw [hpc] at hdel
      refine h.move hi hpc ?_ (fun _ ht => by cases ht) hdel ?_ ?_
      · rw [Registry.setCounter_map]
        exact h.tiers
      · rw [Registry.setCounter_map]
        exact fun j _ => h.deleting j
      · intro c'
        simp only [hpc,staleness,Registry.setCounter_map,Registry.counter_setCounter,owed]
        split <;> omega
    | delUnlock hpc =>
      rw [hpc] at hdel
      have hothers : ∀ j, j ≠ i → Deleting st.reg.id2TierMap none j (st.pc j) := fun j hj =>
        (h.deleting j).other (by rw [hdel]; exact fun he => hj (Option.some.inj he).symm)
      simp only [staleness,hpc,add_zero]
      exact h.move hi hpc h.tiers (fun _ ht => by cases ht) trivial hothers (fun _ => rfl)
    | tierContainsKey id hpc =>
      simp only [staleness,hpc,add_zero]
      split <;> exact h.stay hi hpc (fun _ ht => by cases ht) trivial (fun _ => rfl)
    | tierGet id tierId hpc hget =>
      simp only [staleness,hpc,add_zero]
      exact h.stay hi hpc (fun _ ht => by cases ht) trivial (fun _ => rfl)
    | tierGetNull id hpc hget =>
      simp only [staleness,hpc,add_zero]
      exact h.stay hi hpc (fun _ ht => by cases ht) trivial (fun _ => rfl)

theorem ledger_start : Ledger (fun _ => 0) start := by
  have hreg := Registry.masterHandlerStart_coherent
  refine ⟨hreg.tier_eq,?_,fun _ => trivial,?_⟩
  · intro i tierId h
    cases h
  · intro c
    simp only [start,Finset.range_zero,Finset.sum_empty,add_zero]
    cases c with
    | front => exact hreg.frontCount_eq
    | mid => exact hreg.midCount_eq

theorem ledger_run {d : Tier → ℤ} {st st' : State} {as : List Action} (hids : IdsFresh st)
    (h : Ledger d st) (hissued : system.Meets Issued st as) (hr : system.run st as = some st') :
    Ledger (fun c => d c + drift c st as) st' := by
  induction as generalizing st d with
  | nil =>
    cases hr
    simpa only [drift,add_zero] using h
  | cons a as ih =>
    obtain ⟨u,hu,hr⟩ := system.run_cons_eq_some.mp hr
    rw [LabelledSystem.meets_cons hu] at hissued
    have hnext := ih (idsFresh_step hids hu) (ledger_step hids h hissued.1.twoTiers hu) hissued.2 hr
    simpa only [drift,hu,Option.elim_some,add_assoc] using hnext

theorem drift_eq_zero {st st' : State} {as : List Action} (hr : system.run st as = some st')
    (h : system.Meets StoresCurrent st as) (c : Tier) : drift c st as = 0 := by
  induction as generalizing st with
  | nil => rfl
  | cons a as ih =>
    obtain ⟨u,hu,hr⟩ := system.run_cons_eq_some.mp hr
    rw [LabelledSystem.meets_cons hu] at h
    have hhead := h.1 c
    have htail := ih hr h.2
    simp only [drift,hu,Option.elim_some]
    omega

/-- Where every call has returned, a counter is off by what its stale stores made of it. -/
theorem counter_eq_add_drift {st : State} {as : List Action} (hr : system.run start as = some st)
    (hissued : system.Meets Issued start as) (hret : AllReturned st) (c : Tier) :
    st.reg.counter c = valueCount st.reg.id2TierMap c.id + drift c start as := by
  have hb := (ledger_run idsFresh_start ledger_start hissued hr).balance c
  have hsum : ∑ i ∈ Finset.range st.next, owed c (st.pc i) = 0 := by
    apply Finset.sum_eq_zero
    intro i hi
    have hpc := hret i (Finset.mem_range.mp hi)
    cases h : st.pc i with
    | returned val => rfl
    | _ => simp [h,Pc.hasReturned] at hpc
  omega

/-- `frontCount` and `midCount` are the numbers of ids mapped to 0 and to 1. -/
def CountersExact (reg : Registry) : Prop :=
  reg.frontCount = valueCount reg.id2TierMap 0 ∧ reg.midCount = valueCount reg.id2TierMap 1

instance (reg : Registry) : Decidable (CountersExact reg) := inferInstanceAs (Decidable (_ ∧ _))

/-- No update is lost in a run whose stores are all current; and where all calls have
returned, the counters are exact just when the stale stores of each have cancelled out. -/
theorem countersExact_of_storesCurrent {st : State} {as : List Action}
    (hr : system.run start as = some st) (hissued : system.Meets Issued start as)
    (hret : AllReturned st) :
    (system.Meets StoresCurrent start as → CountersExact st.reg) ∧
    (CountersExact st.reg ↔ drift .front start as = 0 ∧ drift .mid start as = 0) := by
  have hfront := counter_eq_add_drift hr hissued hret .front
  have hmid := counter_eq_add_drift hr hissued hret .mid
  simp only [Registry.counter,Tier.id] at hfront hmid
  have hiff : CountersExact st.reg ↔ drift .front start as = 0 ∧ drift .mid start as = 0 := by
    unfold CountersExact
    omega
  exact ⟨fun h => hiff.mpr ⟨drift_eq_zero hr h .front,drift_eq_zero hr h .mid⟩,hiff⟩

/-- Two scale-outs of the mid tier that both load `midCount` before either stores it. -/
def overlappingScaleOuts : List Action :=
  [.call (.scaleOut 1),.call (.scaleOut 1),.step 0 2,.step 1 3,.step 0 0,.step 0 0,.step 0 0,
    .step 0 0,.step 1 0,.step 1 0,.step 1 0,.step 1 0,.step 0 0,.step 1 0,.step 0 0,.step 1 0]

/-- Both calls have returned and `midCount` is 1 where two ids are mapped to 1. -/
theorem overlappingScaleOuts_lose_update :
    ∃ st, system.run start overlappingScaleOuts = some st ∧
      system.Meets Issued start overlappingScaleOuts ∧ AllReturned st ∧ ¬ CountersExact st.reg := by
  decide

/-- A delete that waits for its own increment to be stored, each inside the other's call. -/
def deleteInsideScaleOut : List Action :=
  [.call (.scaleOut 1),.step 0 2,.step 0 0,.step 0 0,.step 0 0,.step 0 0,.call (.deleteVMFromMap 2),
    .step 1 0,.step 1 0,.step 0 0,.step 1 0,.step 0 0,.step 1 0,.step 1 0,.step 1 0,.step 1 0]

theorem countersExact_deleteInsideScaleOut :
    ∃ st, system.run start deleteInsideScaleOut = some st ∧ CountersExact st.reg := by
  have hrun : ∃ st, system.run start deleteInsideScaleOut = some st ∧ AllReturned st := by decide
  obtain ⟨st,hst,hret⟩ := hrun
  exact ⟨st,hst,(countersExact_of_storesCurrent hst (by decide) hret).1 (by decide)⟩

end Handlers
end AutoScaling
