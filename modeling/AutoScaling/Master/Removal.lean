import AutoScaling.Master.Linearizable

/-! # A deregistration among the other threads

`deleteVMFromMap` takes the id out of the map first and brings the counter down in two
later steps. While one id is being deregistered the counters are followed without it: what
they owe to all other calls, and whether its own deregistration owes them anything.
-/
namespace AutoScaling
namespace Handlers
open Linearization ValueCount

def Pc.Deregisters (i : VmId) : Pc → Prop
  | .delLock vmId => vmId = i
  | .delContainsKey vmId => vmId = i
  | .delGet vmId => vmId = i
  | .delRemove vmId _ => vmId = i
  | .decLoad _ => True
  | .decStore _ _ => True
  | .delUnlock => True
  | .returned val => val = none
  | _ => False

/-- The thread has brought the counter down, or found none to bring down. -/
def Pc.deregistered : Pc → Bool
  | .delUnlock => true
  | .returned _ => true
  | _ => false

theorem Pc.call_of_deregistered {p : Pc} (h : p.deregistered = true) : p.call = none := by
  cases p <;> cases h <;> rfl

/-- The counters are the numbers of the ids other than `i`, up to what calls under way
still owe them that do not deregister `i`. -/
def NotCounted (i : VmId) (st : State) : Prop :=
  ∀ c, st.reg.counter c + ∑ j ∈ (Finset.range st.next).filter
      (fun j => st.call j ≠ some (.deleteVMFromMap i)), owed c (st.pc j) =
    valueCount (st.reg.id2TierMap.erase i) c.id

def NoDelete (i : VmId) (st : State) : Prop := ∀ j, st.call j ≠ some (.deleteVMFromMap i)

def DeletesOnly (i : VmId) (t : ℕ) (st : State) : Prop :=
  ∀ j, st.call j = some (.deleteVMFromMap i) → j = t

def Paid (i : VmId) (st : State) : Prop :=
  ∀ j, st.call j = some (.deleteVMFromMap i) → ∀ c, owed c (st.pc j) = 0

def Recorded (i : VmId) (st : State) : Prop := ∀ j, (st.pc j).adding ≠ some i

/-- The threads in order, the counters exact up to what is owed them, and each thread that
deregisters `i` where such a thread can be. -/
structure Deregistering (i : VmId) (st : State) : Prop where
  order : InOrder st
  ledger : Ledger (fun _ => 0) st
  deletes : ∀ j, st.call j = some (.deleteVMFromMap i) → (st.pc j).Deregisters i

theorem deregistering_start (i : VmId) : Deregistering i start :=
  ⟨inOrder_start,ledger_start,fun _ h => by cases h⟩

theorem call_advance {st st' : State} {i : ℕ} {vmId : VmId} (hs : st.advance i vmId = some st') :
    st'.call = st.call := by
  cases advanced_of_advance hs <;> rfl

theorem issue_call_of_ne (st : State) (c : Call) {i : ℕ} (hi : i ≠ st.next) :
    (st.issue c).call i = st.call i :=
  Function.update_of_ne hi _ _

theorem issue_call_next (st : State) (c : Call) : (st.issue c).call st.next = some c :=
  Function.update_self _ _ _

theorem map_of_advance {st st' : State} {i : ℕ} {vmId : VmId} (hs : st.advance i vmId = some st') :
    st'.reg.id2TierMap = st.reg.id2TierMap ∨
    (∃ vm tierId, st.pc i = .addPut vm tierId ∧
      st'.reg.id2TierMap = st.reg.id2TierMap.insert vm tierId) ∨
    (∃ vm tierId, st.pc i = .delRemove vm tierId ∧
      st'.reg.id2TierMap = st.reg.id2TierMap.erase vm) := by
  cases advanced_of_advance hs with
  | addPut vm tierId hpc => exact .inr (.inl ⟨vm,tierId,hpc,rfl⟩)
  | delRemove vm tierId hpc => exact .inr (.inr ⟨vm,tierId,hpc,rfl⟩)
  | incStore c loaded hpc => exact .inl (st.reg.setCounter_map c _)
  | decStore c loaded hpc => exact .inl (st.reg.setCounter_map c _)
  | _ => exact .inl rfl

theorem vms_step {st st' : State} {a : Action} (hs : system.step st a = some st') {i : VmId}
    (h : i ∈ st.vms) : i ∈ st'.vms := by
  cases a with
  | call c =>
    cases hs
    exact h
  | step j vmId =>
    cases advanced_of_advance hs with
    | startVM tierId hpc hnew hone => exact Finmap.mem_insert.mpr (.inr h)
    | _ => exact h

theorem adding_advance {st st' : State} {j : ℕ} {vmId i : VmId} (hs : st.advance j vmId = some st')
    (h : (st'.pc j).adding = some i) : (st.pc j).adding = some i ∨ i ∉ st.vms := by
  cases advanced_of_advance hs with
  | startVM tierId hpc hnew hone =>
    rw [State.setPc_pc] at h
    cases h
    exact .inr hnew
  | addLock vm tierId hpc hfree =>
    rw [State.setPc_pc] at h
    rw [hpc]
    exact .inl h
  | addContainsKey vm tierId hpc =>
    rw [State.setPc_pc] at h
    rw [hpc]
    split at h
    · cases h
    · exact .inl h
  | delContainsKey vm hpc => rw [State.setPc_pc] at h; split at h <;> cases h
  | tierContainsKey id hpc => rw [State.setPc_pc] at h; split at h <;> cases h
  | delRemove vm tierId hpc => rw [State.setPc_pc] at h; split at h <;> cases h
  | _ => rw [State.setPc_pc] at h; cases h

theorem Recorded.step {st st' : State} {a : Action} {i : VmId} (h : Recorded i st) (hvms : i ∈ st.vms)
    (hs : system.step st a = some st') : Recorded i st' := by
  intro j hj
  cases a with
  | call c =>
    cases hs
    by_cases he : j = st.next
    · rw [he, State.issue_pc_next] at hj
      cases c <;> cases hj
    · rw [st.issue_pc_of_ne c he] at hj
      exact h j hj
  | step k vmId =>
    obtain ⟨_,_,hother⟩ := rank_advance hs
    by_cases he : j = k
    · subst he
      rcases adding_advance hs hj with hj | hnew
      · exact h j hj
      · exact hnew hvms
    · rw [hother j he] at hj
      exact h j hj

theorem InOrder.recorded {st : State} (h : InOrder st) {i : VmId} (hin : i ∈ st.reg.id2TierMap) :
    Recorded i st :=
  fun j hj => (h.ids.adding j i hj).2 hin

theorem mem_step {st st' : State} {a : Action} {i : VmId} (h : InOrder st) (hno : NoDelete i st)
    (hin : i ∈ st.reg.id2TierMap) (hs : system.step st a = some st') : i ∈ st'.reg.id2TierMap := by
  cases a with
  | call c =>
    cases hs
    exact hin
  | step j vmId =>
    rcases map_of_advance hs with hmap | ⟨vm,tierId,hpc,hmap⟩ | ⟨vm,tierId,hpc,hmap⟩
    · rwa [hmap]
    · rw [hmap]
      exact Finmap.mem_insert.mpr (.inr hin)
    · have hcall := h.calls j (.deleteVMFromMap vm) (by rw [hpc]; rfl)
      have hne : i ≠ vm := by
        rintro rfl
        exact hno j hcall
      rw [hmap]
      exact Finmap.mem_erase.mpr ⟨hne,hin⟩

theorem Recorded.notMem_step {st st' : State} {a : Action} {i : VmId} (h : Recorded i st)
    (hout : i ∉ st.reg.id2TierMap) (hs : system.step st a = some st') : i ∉ st'.reg.id2TierMap := by
  cases a with
  | call c =>
    cases hs
    exact hout
  | step j vmId =>
    rcases map_of_advance hs with hmap | ⟨vm,tierId,hpc,hmap⟩ | ⟨vm,tierId,hpc,hmap⟩ <;> rw [hmap]
    · exact hout
    · intro hin
      rcases Finmap.mem_insert.mp hin with rfl | hin
      · exact h j (by rw [hpc]; rfl)
      · exact hout hin
    · exact fun hin => hout (Finmap.mem_erase.mp hin).2

theorem NoDelete.step {st st' : State} {a : Action} {i : VmId} (h : NoDelete i st)
    (ha : a ≠ .call (.deleteVMFromMap i)) (hs : system.step st a = some st') : NoDelete i st' := by
  intro j
  cases a with
  | call c =>
    cases hs
    by_cases hj : j = st.next
    · rw [hj, issue_call_next]
      rintro he
      exact ha (congrArg Action.call (Option.some.inj he))
    · rw [issue_call_of_ne st c hj]
      exact h j
  | step k vmId =>
    rw [call_advance hs]
    exact h j

theorem DeletesOnly.step {st st' : State} {a : Action} {i : VmId} {t : ℕ} (h : DeletesOnly i t st)
    (ha : a ≠ .call (.deleteVMFromMap i)) (hs : system.step st a = some st') : DeletesOnly i t st' := by
  intro j hj
  cases a with
  | call c =>
    cases hs
    by_cases he : j = st.next
    · rw [he, issue_call_next] at hj
      exact absurd (congrArg Action.call (Option.some.inj hj)) ha
    · rw [issue_call_of_ne st c he] at hj
      exact h j hj
  | step k vmId =>
    rw [call_advance hs] at hj
    exact h j hj

inductive DeregisterStep (i : VmId) (st : State) (j : ℕ) (st' : State) : Prop
  | stay (hmap : st'.reg.id2TierMap = st.reg.id2TierMap) (hcall : (st'.pc j).call = (st.pc j).call)
      (hpaid : (∀ c, owed c (st.pc j) = 0) → ∀ c, owed c (st'.pc j) = 0) : DeregisterStep i st j st'
  | missing (hout : i ∉ st.reg.id2TierMap) (hmap : st'.reg.id2TierMap = st.reg.id2TierMap)
      (hcall : (st'.pc j).call = none) (hpaid : ∀ c, owed c (st'.pc j) = 0) : DeregisterStep i st j st'
  | remove (hin : i ∈ st.reg.id2TierMap) (hmap : st'.reg.id2TierMap = st.reg.id2TierMap.erase i)
      (hcall : (st'.pc j).call = none) : DeregisterStep i st j st'

theorem DeregisterStep.quiet {i : VmId} {st st' : State} {j : ℕ} {p q : Pc} (hp : st.pc j = p)
    (hq : st'.pc j = q) (hqd : q.Deregisters i) (hmap : st'.reg.id2TierMap = st.reg.id2TierMap)
    (hcall : q.call = p.call) (hpaid : (∀ c, owed c p = 0) → ∀ c, owed c q = 0) :
    (st'.pc j).Deregisters i ∧ DeregisterStep i st j st' := by
  subst hp hq
  exact ⟨hqd,.stay hmap hcall hpaid⟩

theorem deregisterStep_of_advance {st st' : State} {i : VmId} {j : ℕ} {vmId : VmId} (h : InOrder st)
    (hp : (st.pc j).Deregisters i) (hs : st.advance j vmId = some st') :
    (st'.pc j).Deregisters i ∧ DeregisterStep i st j st' := by
  have hdel := h.deleting j
  simp only [State.advance] at hs
  cases hpc : st.pc j with
  | delLock vm =>
    rw [hpc] at hp
    cases hp
    simp only [hpc] at hs
    split at hs <;> cases hs
    exact DeregisterStep.quiet hpc (State.setPc_pc _ _ _) rfl rfl rfl (fun _ _ => rfl)
  | delContainsKey vm =>
    rw [hpc] at hp
    cases hp
    simp only [hpc] at hs
    cases hs
    by_cases hin : i ∈ st.reg.id2TierMap
    · rw [if_pos hin]
      exact DeregisterStep.quiet hpc (State.setPc_pc _ _ _) rfl rfl rfl (fun _ _ => rfl)
    · rw [if_neg hin, State.setPc_pc]
      refine ⟨trivial,.missing hin rfl ?_ ?_⟩ <;> rw [State.setPc_pc]
      · rfl
      · exact fun _ => rfl
  | delGet vm =>
    rw [hpc] at hp hdel
    cases hp
    simp only [hpc] at hs
    split at hs <;> cases hs
    · exact DeregisterStep.quiet hpc (State.setPc_pc _ _ _) rfl rfl rfl (fun _ _ => rfl)
    · rename_i hget
      exact absurd hdel.2 (Finmap.lookup_eq_none.mp hget)
  | delRemove vm tierId =>
    rw [hpc] at hp hdel
    cases hp
    simp only [hpc] at hs
    cases hs
    rw [State.setPc_pc]
    refine ⟨?_,.remove (Finmap.mem_of_lookup_eq_some hdel.2) rfl ?_⟩
    · cases decCounter tierId <;> trivial
    · rw [State.setPc_pc]
      cases decCounter tierId <;> rfl
  | decLoad c =>
    simp only [hpc] at hs
    cases hs
    exact DeregisterStep.quiet hpc (State.setPc_pc _ _ _) trivial rfl rfl id
  | decStore c loaded =>
    simp only [hpc] at hs
    cases hs
    exact DeregisterStep.quiet hpc (State.setPc_pc _ _ _) trivial (st.reg.setCounter_map c _) rfl
      (fun _ _ => rfl)
  | delUnlock =>
    simp only [hpc] at hs
    cases hs
    exact DeregisterStep.quiet hpc (State.setPc_pc _ _ _) rfl rfl rfl (fun _ _ => rfl)
  | returned val => simp only [hpc] at hs; cases hs
  | _ => rw [hpc] at hp; exact hp.elim

theorem deregistering_step {st st' : State} {a : Action} {i : VmId} (h : Deregistering i st)
    (htiers : TwoTiers a) (hcurrent : StoresCurrent st a) (hs : system.step st a = some st') :
    Deregistering i st' := by
  refine ⟨inOrder_step h.order hs,?_,?_⟩
  · have hledger := ledger_step h.order.ids h.ledger htiers hs
    have hzero : (fun c => (fun _ => 0 : Tier → ℤ) c + staleness c st a) = fun _ => 0 :=
      funext (fun c => (Int.zero_add _).trans (hcurrent c))
    rwa [hzero] at hledger
  · intro j hj
    cases a with
    | call c =>
      cases hs
      by_cases he : j = st.next
      · rw [he, issue_call_next] at hj
        cases hj
        rw [he, State.issue_pc_next]
        rfl
      · rw [issue_call_of_ne st c he] at hj
        rw [st.issue_pc_of_ne c he]
        exact h.deletes j hj
    | step k vmId =>
      rw [call_advance hs] at hj
      obtain ⟨_,_,hother⟩ := rank_advance hs
      by_cases he : j = k
      · subst he
        exact (deregisterStep_of_advance h.order (h.deletes j hj) hs).1
      · rw [hother j he]
        exact h.deletes j hj

theorem owed_of_deregisters {i : VmId} {p : Pc} (h : p.Deregisters i) (c : Tier) : owed c p ≤ 0 := by
  cases p with
  | decLoad d => simp only [owed]; split <;> omega
  | decStore d loaded => simp only [owed]; split <;> omega
  | delLock vm => exact le_rfl
  | delContainsKey vm => exact le_rfl
  | delGet vm => exact le_rfl
  | delRemove vm tierId => exact le_rfl
  | delUnlock => exact le_rfl
  | returned val => exact le_rfl
  | _ => exact h.elim

/-- A deregistration owes nothing before it has removed the id and after it has brought the
counter down. -/
theorem owes_nothing_iff {i : VmId} {p : Pc} (h : p.Deregisters i) :
    (∀ c, owed c p = 0) ↔ p.call = some (.deleteVMFromMap i) ∨ p.deregistered = true := by
  cases p with
  | delLock vm => cases h; exact iff_of_true (fun _ => rfl) (.inl rfl)
  | delContainsKey vm => cases h; exact iff_of_true (fun _ => rfl) (.inl rfl)
  | delGet vm => cases h; exact iff_of_true (fun _ => rfl) (.inl rfl)
  | delRemove vm tierId => cases h; exact iff_of_true (fun _ => rfl) (.inl rfl)
  | decLoad c =>
    exact iff_of_false (fun hc => by simpa [owed] using hc c) (by simp [Pc.call,Pc.deregistered])
  | decStore c loaded =>
    exact iff_of_false (fun hc => by simpa [owed] using hc c) (by simp [Pc.call,Pc.deregistered])
  | delUnlock => exact iff_of_true (fun _ => rfl) (.inr rfl)
  | returned val => exact iff_of_true (fun _ => rfl) (.inr rfl)
  | _ => exact h.elim

/-- With `i` out of the map, it is not counted just when its deregistration owes nothing. -/
theorem Deregistering.notCounted_iff {i : VmId} {st : State} (h : Deregistering i st)
    (hout : i ∉ st.reg.id2TierMap) : NotCounted i st ↔ Paid i st := by
  have hsplit : ∀ c, st.reg.counter c + ∑ j ∈ (Finset.range st.next).filter
        (fun j => st.call j ≠ some (.deleteVMFromMap i)), owed c (st.pc j) =
      valueCount (st.reg.id2TierMap.erase i) c.id ↔
      ∑ j ∈ (Finset.range st.next).filter (fun j => st.call j = some (.deleteVMFromMap i)),
        owed c (st.pc j) = 0 := by
    intro c
    have hbalance := h.ledger.balance c
    have hsum := Finset.sum_filter_add_sum_filter_not (Finset.range st.next)
      (fun j => st.call j = some (.deleteVMFromMap i)) (fun j => owed c (st.pc j))
    rw [erase_of_notMem hout]
    simp only [ne_eq]
    omega
  have hlt : ∀ j, st.call j = some (.deleteVMFromMap i) → j < st.next := by
    intro j hj
    apply h.order.ids.lt_next
    intro hidle
    have hp := h.deletes j hj
    rw [hidle] at hp
    exact hp
  have hnonpos : ∀ c, ∀ j ∈ (Finset.range st.next).filter
      (fun j => st.call j = some (.deleteVMFromMap i)), owed c (st.pc j) ≤ 0 :=
    fun c j hj => owed_of_deregisters (h.deletes j (Finset.mem_filter.mp hj).2) c
  calc NotCounted i st ↔ ∀ c, ∀ j ∈ (Finset.range st.next).filter
        (fun j => st.call j = some (.deleteVMFromMap i)), owed c (st.pc j) = 0 :=
        forall_congr' (fun c => (hsplit c).trans (Finset.sum_eq_zero_iff_of_nonpos (hnonpos c)))
    _ ↔ Paid i st := by
        constructor
        · intro hzero j hj c
          exact hzero c j (Finset.mem_filter.mpr ⟨Finset.mem_range.mpr (hlt j hj),hj⟩)
        · intro hpaid c j hj
          exact hpaid j (Finset.mem_filter.mp hj).2 c

/-- A thread that deregisters `i` and has removed it goes on to bring the counter down; with
`i` out of the map it has nothing to remove. -/
theorem Deregistering.paid_step {i : VmId} {st st' : State} {a : Action} (h : Deregistering i st)
    (hout : i ∉ st.reg.id2TierMap) (hpaid : Paid i st) (hs : system.step st a = some st') :
    Paid i st' := by
  intro j hj c
  cases a with
  | call d =>
    cases hs
    by_cases he : j = st.next
    · rw [he, State.issue_pc_next]
      cases d <;> rfl
    · rw [issue_call_of_ne st d he] at hj
      rw [st.issue_pc_of_ne d he]
      exact hpaid j hj c
  | step k vmId =>
    rw [call_advance hs] at hj
    obtain ⟨_,_,hother⟩ := rank_advance hs
    by_cases he : j = k
    · subst he
      cases (deregisterStep_of_advance h.order (h.deletes j hj) hs).2 with
      | stay hmap hcall hstay => exact hstay (hpaid j hj) c
      | missing _ hmap hcall hzero => exact hzero c
      | remove hin hmap hcall => exact absurd hin hout
    · rw [hother j he]
      exact hpaid j hj c

theorem Deregistering.progress_step {i : VmId} {st st' : State} {a : Action} {t : ℕ}
    (h : Deregistering i st) (hrec : Recorded i st) (hcall : st.call t = some (.deleteVMFromMap i))
    (honly : DeletesOnly i t st)
    (hpc : i ∈ st.reg.id2TierMap ↔ (st.pc t).call = some (.deleteVMFromMap i))
    (hs : system.step st a = some st') :
    i ∈ st'.reg.id2TierMap ↔ (st'.pc t).call = some (.deleteVMFromMap i) := by
  cases a with
  | call c =>
    cases hs
    have hne : t ≠ st.next := by
      rintro rfl
      have hp := h.deletes st.next hcall
      rw [h.order.ids.unused st.next le_rfl] at hp
      exact hp
    rw [st.issue_pc_of_ne c hne]
    exact hpc
  | step k vmId =>
    obtain ⟨_,_,hother⟩ := rank_advance hs
    by_cases he : t = k
    · subst he
      cases (deregisterStep_of_advance h.order (h.deletes t hcall) hs).2 with
      | stay hmap hsame hstay => rwa [hmap, hsame]
      | missing hout hmap hnone hzero =>
        rw [hmap, hnone]
        exact iff_of_false hout (fun he => by cases he)
      | remove hin hmap hnone =>
        rw [hmap, hnone]
        exact iff_of_false (fun hin => (Finmap.mem_erase.mp hin).1 rfl) (fun he => by cases he)
    · rw [hother t he, ← hpc]
      constructor
      · intro hin
        by_contra hout
        exact hrec.notMem_step hout hs hin
      · intro hin
        rcases map_of_advance hs with hmap | ⟨vm,tierId,hk,hmap⟩ | ⟨vm,tierId,hk,hmap⟩ <;> rw [hmap]
        · exact hin
        · exact Finmap.mem_insert.mpr (.inr hin)
        · have hne : i ≠ vm := by
            rintro rfl
            exact he (honly k (h.order.calls k (.deleteVMFromMap i) (by rw [hk]; rfl))).symm
          exact Finmap.mem_erase.mpr ⟨hne,hin⟩

theorem answer_step {i : VmId} {st st' : State} {a : Action} {t : ℕ} (h : InOrder st)
    (hno : NoDelete i st) (hlt : t < st.next) (hcall : st.call t = some (.getTier i))
    (htold : ∀ val, st.pc t = .returned (some val) → i ∈ st.reg.id2TierMap ∨ val = -1)
    (hs : system.step st a = some st') :
    ∀ val, st'.pc t = .returned (some val) → i ∈ st'.reg.id2TierMap ∨ val = -1 := by
  intro val hval
  cases a with
  | call c =>
    cases hs
    rw [st.issue_pc_of_ne c hlt.ne] at hval
    exact htold val hval
  | step k vmId =>
    obtain ⟨_,_,hother⟩ := rank_advance hs
    by_cases he : t = k
    · subst he
      cases advanced_of_advance hs with
      | tierContainsKey id hpc =>
        rw [State.setPc_pc] at hval
        split at hval <;> cases hval
        exact .inr rfl
      | tierGet id tierId hpc hget =>
        have hid := h.calls t (.getTier id) (by rw [hpc]; rfl)
        rw [hcall] at hid
        cases hid
        exact .inl (Finmap.mem_of_lookup_eq_some hget)
      | addContainsKey vm tierId hpc => rw [State.setPc_pc] at hval; split at hval <;> cases hval
      | delContainsKey vm hpc => rw [State.setPc_pc] at hval; split at hval <;> cases hval
      | delRemove vm tierId hpc => rw [State.setPc_pc] at hval; split at hval <;> cases hval
      | _ => rw [State.setPc_pc] at hval; cases hval
    · rw [hother t he] at hval
      exact (htold val hval).imp_left (fun hin => mem_step h hno hin hs)

/-- How far a counter is from the number of ids of its tier, with what it is owed paid. -/
def State.offset (st : State) (c : Tier) : ℤ := st.settled c - valueCount st.reg.id2TierMap c.id

theorem decCounter_eq_some {tierId : TierId} {c : Tier} : decCounter tierId = some c ↔ tierId = c.id := by
  by_cases h0 : tierId = 0
  · subst h0
    cases c <;> simp [decCounter,Tier.id]
  · by_cases h1 : tierId = 1
    · subst h1
      cases c <;> simp [decCounter,Tier.id]
    · cases c <;> simp [decCounter,Tier.id,h0,h1]

theorem deleteVMFromMap_offset (reg : Registry) (vm : VmId) (c : Tier) :
    (reg.deleteVMFromMap vm).counter c - valueCount (reg.deleteVMFromMap vm).id2TierMap c.id =
      reg.counter c - valueCount reg.id2TierMap c.id := by
  cases hvm : reg.id2TierMap.lookup vm with
  | none => rw [Registry.deleteVMFromMap_of_notMem (Finmap.lookup_eq_none.mp hvm)]
  | some tierId =>
    have hcount := valueCount_erase hvm c.id
    rw [deleteVMFromMap_counter hvm, Registry.deleteVMFromMap_map]
    simp only [decCounter_eq_some]
    split_ifs at hcount ⊢ <;> omega

theorem offset_run {l : List (Occurrence ℕ Op (Option TierId))}
    (hl : ∀ e ∈ l, ∀ vm tierId, e.op ≠ .scaleOut vm tierId) {reg reg' : Registry}
    (hr : oneAtATime.run reg l = some reg') (c : Tier) :
    reg'.counter c - valueCount reg'.id2TierMap c.id = reg.counter c - valueCount reg.id2TierMap c.id := by
  induction l generalizing reg with
  | nil =>
    cases hr
    rfl
  | cons e l ih =>
    obtain ⟨u,hu,hr⟩ := oneAtATime.run_cons_eq_some.mp hr
    rw [ih (fun x hx => hl x (List.mem_cons_of_mem e hx)) hr]
    obtain ⟨_,hu⟩ := Option.ite_none_right_eq_some.mp hu
    cases hu
    have hop := hl e List.mem_cons_self
    cases hcall : e.op with
    | scaleOut vm tierId => exact absurd hcall (hop vm tierId)
    | deleteVMFromMap vm => exact deleteVMFromMap_offset reg vm c
    | getTier id => rfl

theorem OnlyDeletes.of_mem_point {st : State} (h : OnlyDeletes st) {a : Action}
    {e : Occurrence ℕ Op (Option TierId)} (he : e ∈ point st a) (vm : VmId) (tierId : TierId) :
    e.op ≠ .scaleOut vm tierId := by
  rintro hop
  cases a with
  | call c => cases he
  | step i vmId =>
    have hno := h.noScaleOut i
    simp only [point] at he
    split at he
    · rename_i hpc
      rw [hpc] at hno
      cases hno
    · split at he
      · cases he
      · rw [List.mem_singleton.mp he] at hop
        cases hop
    · rw [List.mem_singleton.mp he] at hop
      cases hop
    · split at he
      · cases he
      · rw [List.mem_singleton.mp he] at hop
        cases hop
    · split at he
      · rw [List.mem_singleton.mp he] at hop
        cases hop
      · cases he
    · cases he

theorem OnlyDeletes.offset_step {st st' : State} {a : Action} (h : OnlyDeletes st) (hin : InOrder st)
    (hcurrent : StoresCurrent st a) (hs : system.step st a = some st') (c : Tier) :
    st'.offset c = st.offset c := by
  obtain ⟨reg,hrun,hmap,hcount⟩ := matched_step hin rfl hs
  have hoffset := offset_run (fun e he => h.of_mem_point he) hrun c
  have hc := hcount c
  rw [hcurrent c] at hc
  rw [hmap] at hoffset
  simp only [State.offset]
  omega

/-- Deregistrations lose no update of each other's. From a state where every call is over,
however many deregistrations and lookups are then made and however they interleave, every
store of a counter finds it as it was loaded; and where all calls are over again each
counter is as far from the number of ids of its tier as it was. -/
theorem deletes_lose_nothing (as bs : List Action) (st st' : State) (hr : system.run start as = some st)
    (hover : ∀ i < st.next, (st.pc i).isOver = true) (hr' : system.run st bs = some st')
    (hnone : system.Meets NoScaleOut st bs) :
    system.Meets StoresCurrent st bs ∧ ((∀ i < st'.next, (st'.pc i).isOver = true) →
      ∀ c, st'.reg.counter c - valueCount st'.reg.id2TierMap c.id =
        st.reg.counter c - valueCount st.reg.id2TierMap c.id) := by
  have hdeletes := (sound_run hr).onlyDeletes hover
  have horder : InOrder st := LabelledSystem.run_invariant (fun _ _ _ => inOrder_step) hr inOrder_start
  refine ⟨LabelledSystem.meets_of_invariant (fun _ _ _ hu ha hs => onlyDeletes_step hu ha hs) hr' hnone
    hdeletes,?_⟩
  intro hover' c
  have hkept : OnlyDeletes st' ∧ InOrder st' ∧ st'.offset c = st.offset c := by
    refine LabelledSystem.run_invariant_of_meets
      (I := fun u => OnlyDeletes u ∧ InOrder u ∧ u.offset c = st.offset c) ?_ hr' hnone
      ⟨hdeletes,horder,rfl⟩
    rintro u a v ⟨hu,hin,hoffset⟩ ha hs
    obtain ⟨hv,hcurrent⟩ := onlyDeletes_step hu ha hs
    exact ⟨hv,inOrder_step hin hs,(hu.offset_step hin hcurrent hs c).trans hoffset⟩
  have hoffset := hkept.2.2
  simp only [State.offset,settled_of_over hover,settled_of_over hover'] at hoffset
  exact hoffset

def overlappingDeletes : List Action :=
  [.call (.deleteVMFromMap 2),.call (.deleteVMFromMap 3),.step 2 0,.step 2 0,.step 2 0,.step 2 0,.step 2 0,
    .step 2 0,.step 2 0,.step 3 0,.step 3 0,.step 3 0,.step 3 0,.step 3 0,.step 3 0,.step 3 0]

/-- The update that the scale-outs have lost is all that is missing after the deletes. -/
theorem deletes_lose_nothing_overlappingDeletes :
    ∃ st', system.run start (overlappingScaleOuts ++ overlappingDeletes) = some st' ∧
      st'.reg.counter .mid - valueCount st'.reg.id2TierMap Tier.mid.id = -1 := by
  have hrun : ∃ st, system.run start overlappingScaleOuts = some st ∧
      (∀ i < st.next, (st.pc i).isOver = true) ∧ system.Meets NoScaleOut st overlappingDeletes ∧
      st.reg.counter .mid - valueCount st.reg.id2TierMap Tier.mid.id = -1 ∧
      ∃ st', system.run st overlappingDeletes = some st' ∧
        ∀ i < st'.next, (st'.pc i).isOver = true := by decide
  obtain ⟨st,hst,hover,hnone,hbefore,st',hst',hover'⟩ := hrun
  have hlost := (deletes_lose_nothing overlappingScaleOuts overlappingDeletes st st' hst hover hst'
    hnone).2 hover' .mid
  exact ⟨st',LabelledSystem.run_append_eq_some.mpr ⟨st,hst,hst'⟩,hlost.trans hbefore⟩

end Handlers
end AutoScaling
