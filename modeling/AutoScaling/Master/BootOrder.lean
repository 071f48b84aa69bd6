import AutoScaling.Master.Handlers

/-! # A slave's boot against the scale-out that started it

The VM exists from `SL.startVM()` on, and its tier is in the map only after
`addVM2Map`. A slave asks `getTier` with its own id once and deregisters at most once,
after it has been told its tier; nothing else is assumed of when it boots.
-/
namespace AutoScaling
namespace Handlers
open ValueCount

inductive Branch
  | frontHandler
  | midHandler
  | default
  deriving DecidableEq

def slaveHandler (tierId : TierId) : Branch :=
  if tierId = 0 then .frontHandler else if tierId = 1 then .midHandler else .default

/-- What the master and the slaves call: scale-outs of the two tiers, each VM's own
`getTier` once, and its own `deleteVMFromMap` once, in a handler of one of the tiers. -/
def Protocol (st : State) : Action → Prop
  | .call (.scaleOut tierId) => tierId = 0 ∨ tierId = 1
  | .call (.getTier id) => id ∈ st.vms ∧ ∀ j < st.next, st.call j ≠ some (.getTier id)
  | .call (.deleteVMFromMap vmId) =>
    (∃ j < st.next, st.call j = some (.getTier vmId) ∧
      (st.pc j = .returned (some 0) ∨ st.pc j = .returned (some 1))) ∧
    ∀ j < st.next, st.call j ≠ some (.deleteVMFromMap vmId)
  | .step _ _ => True

instance decidableProtocol (st : State) : (a : Action) → Decidable (Protocol st a)
  | .call (.scaleOut tierId) => inferInstanceAs (Decidable (tierId = 0 ∨ tierId = 1))
  | .call (.getTier _) => inferInstanceAs (Decidable (_ ∧ _))
  | .call (.deleteVMFromMap _) => inferInstanceAs (Decidable (_ ∧ _))
  | .step _ _ => .isTrue trivial

/-- Every slave that was told a tier was told the one it was started with, and has
taken the branch of a handler. -/
def BootsAsStarted (st : State) : Prop :=
  ∀ j < st.next, ∀ id val, st.call j = some (.getTier id) → st.pc j = .returned (some val) →
    st.vms.lookup id = some val ∧ slaveHandler val ≠ .default

def Pc.lookingUp : Pc → Option VmId
  | .tierContainsKey id => some id
  | _ => none

/-- `getTier` looks an id up only when no scale-out is still on its way to record it. -/
def TierRecorded (st : State) : Action → Prop
  | .step i _ => ∀ id ∈ (st.pc i).lookingUp, ∀ j < st.next, (st.pc j).adding ≠ some id
  | .call _ => True

instance decidableTierRecorded (st : State) : (a : Action) → Decidable (TierRecorded st a)
  | .step i _ => inferInstanceAs
      (Decidable (∀ id ∈ (st.pc i).lookingUp, ∀ j < st.next, (st.pc j).adding ≠ some id))
  | .call _ => .isTrue trivial

def Pc.addingAs : Pc → Option (VmId × TierId)
  | .addLock vmId tierId => some (vmId,tierId)
  | .addContainsKey vmId tierId => some (vmId,tierId)
  | .addPut vmId tierId => some (vmId,tierId)
  | _ => none

theorem Pc.adding_eq (p : Pc) : p.adding = p.addingAs.map Prod.fst := by
  cases p <;> rfl

def Pc.Serves : Pc → Option Call → Prop
  | .idle, c => c = none
  | .startVM tierId, c => c = some (.scaleOut tierId)
  | .addLock _ tierId, c => c = some (.scaleOut tierId)
  | .addContainsKey _ tierId, c => c = some (.scaleOut tierId)
  | .addPut _ tierId, c => c = some (.scaleOut tierId)
  | .addUnlock tierId, c => c = some (.scaleOut tierId)
  | .incLoad _, c => ∃ tierId, c = some (.scaleOut tierId)
  | .incStore _ _, c => ∃ tierId, c = some (.scaleOut tierId)
  | .delLock vmId, c => c = some (.deleteVMFromMap vmId)
  | .delContainsKey vmId, c => c = some (.deleteVMFromMap vmId)
  | .delGet vmId, c => c = some (.deleteVMFromMap vmId)
  | .delRemove vmId _, c => c = some (.deleteVMFromMap vmId)
  | .decLoad _, c => ∃ vmId, c = some (.deleteVMFromMap vmId)
  | .decStore _ _, c => ∃ vmId, c = some (.deleteVMFromMap vmId)
  | .delUnlock, c => ∃ vmId, c = some (.deleteVMFromMap vmId)
  | .tierContainsKey id, c => c = some (.getTier id)
  | .tierGet id, c => c = some (.getTier id)
  | .returned none, c => ∀ id, c ≠ some (.getTier id)
  | .returned (some _), c => ∃ id, c = some (.getTier id)
  | .nullPointerException, _ => True

/-- What the thread has seen of the map is still so. -/
def Pc.Reads (m : Finmap (fun _ : VmId => TierId)) : Pc → Prop
  | .tierGet id => id ∈ m
  | .delGet vmId => vmId ∈ m
  | .delRemove vmId tierId => m.lookup vmId = some tierId
  | .nullPointerException => False
  | _ => True

/-- What holds of a run that keeps to the protocol, whatever the order of its steps. -/
structure LifeCycle (st : State) : Prop where
  mapTier : ∀ id tierId, id ≠ 1 → st.reg.id2TierMap.lookup id = some tierId →
    st.vms.lookup id = some tierId
  vmsTier : ∀ id tierId, st.vms.lookup id = some tierId → tierId = 0 ∨ tierId = 1
  callTier : ∀ i tierId, st.call i = some (.scaleOut tierId) → tierId = 0 ∨ tierId = 1
  addTier : ∀ i id tierId, (st.pc i).addingAs = some (id,tierId) → st.vms.lookup id = some tierId
  recorded : ∀ id ∈ st.vms, (∃ i, (st.pc i).adding = some id) ∨ id ∈ st.reg.id2TierMap ∨
    ∃ i, st.call i = some (.deleteVMFromMap id)
  serves : ∀ i, (st.pc i).Serves (st.call i)
  reads : ∀ i, (st.pc i).Reads st.reg.id2TierMap
  started : ∀ i id, st.call i = some (.getTier id) → id ∈ st.vms
  oneTier : ∀ i j id, st.call i = some (.getTier id) → st.call j = some (.getTier id) → i = j
  oneDelete : ∀ i j id, st.call i = some (.deleteVMFromMap id) →
    st.call j = some (.deleteVMFromMap id) → i = j
  deleted : ∀ i id, st.call i = some (.deleteVMFromMap id) →
    ∃ j val, st.call j = some (.getTier id) ∧ st.pc j = .returned (some val)

/-- What a step of thread `i` can do, as far as ids, tiers and answers go. -/
inductive Effect (st : State) (i : ℕ) : State → Prop
  | quiet (reg : Registry) (cm mm : Option ℕ) (p : Pc)
      (hmap : reg.id2TierMap = st.reg.id2TierMap) (hadd : p.addingAs = (st.pc i).addingAs)
      (hserves : p.Serves (st.call i)) (hreads : p.Reads st.reg.id2TierMap)
      (hp : ∀ val, p ≠ .returned (some val)) (hrun : ∀ val, st.pc i ≠ .returned val)
      (hlook : (st.pc i).lookingUp = none) :
      Effect st i ⟨reg,cm,mm,st.vms,st.next,st.call,Function.update st.pc i p⟩
  | startVM (vmId : VmId) (tierId : TierId) (hpc : st.pc i = .startVM tierId)
      (hnew : vmId ∉ st.vms) (hone : vmId ≠ 1) :
      Effect st i ({ st with vms := st.vms.insert vmId tierId }.setPc i (.addLock vmId tierId))
  | put (vmId : VmId) (tierId : TierId) (hpc : st.pc i = .addPut vmId tierId) :
      Effect st i
        ((st.setMap (st.reg.id2TierMap.insert vmId tierId)).setPc i (.addUnlock tierId))
  | remove (vmId : VmId) (tierId : TierId) (p : Pc) (hpc : st.pc i = .delRemove vmId tierId)
      (hp : p = .delUnlock ∨ ∃ c, p = .decLoad c) :
      Effect st i ((st.setMap (st.reg.id2TierMap.erase vmId)).setPc i p)
  | found (id : VmId) (hpc : st.pc i = .tierContainsKey id) (hin : id ∈ st.reg.id2TierMap) :
      Effect st i (st.setPc i (.tierGet id))
  | missing (id : VmId) (hpc : st.pc i = .tierContainsKey id) (hout : id ∉ st.reg.id2TierMap) :
      Effect st i (st.setPc i (.returned (some (-1))))
  | answer (id : VmId) (tierId : TierId) (hpc : st.pc i = .tierGet id)
      (hget : st.reg.id2TierMap.lookup id = some tierId) :
      Effect st i (st.setPc i (.returned (some tierId)))

theorem Effect.of_quiet {st : State} {i : ℕ} {q : Pc} (hpc : st.pc i = q) {reg : Registry}
    {cm mm : Option ℕ} {p : Pc} (hmap : reg.id2TierMap = st.reg.id2TierMap)
    (hserves : p.Serves (st.call i)) (hreads : p.Reads st.reg.id2TierMap)
    (hadd : p.addingAs = q.addingAs) (hlook : q.lookingUp = none)
    (hp : ∀ val, p ≠ .returned (some val)) (hq : ∀ val, q ≠ .returned val) :
    Effect st i ⟨reg,cm,mm,st.vms,st.next,st.call,Function.update st.pc i p⟩ := by
  subst hpc
  exact .quiet reg cm mm p hmap hadd hserves hreads hp hq hlook

theorem effect_of_advance {st st' : State} {i : ℕ} {vmId : VmId} (hids : IdsFresh st)
    (h : LifeCycle st) (hs : st.advance i vmId = some st') : Effect st i st' := by
  have hserves := h.serves i
  have hreads := h.reads i
  cases advanced_of_advance hs with
  | startVM tierId hpc hnew hone => exact .startVM vmId tierId hpc hnew hone
  | addLock vm tierId hpc hfree =>
    rw [hpc] at hserves
    exact .of_quiet hpc rfl hserves trivial rfl rfl (by simp) (by simp)
  | addContainsKey vm tierId hpc =>
    have hout := (hids.adding i vm (by simp [hpc,Pc.adding])).2
    rw [hpc] at hserves
    rw [if_neg hout]
    exact .of_quiet hpc rfl hserves trivial rfl rfl (by simp) (by simp)
  | addPut vm tierId hpc => exact .put vm tierId hpc
  | addUnlock tierId hpc =>
    rw [hpc] at hserves
    exact .of_quiet hpc rfl ⟨tierId,hserves⟩ trivial rfl rfl (by simp) (by simp)
  | incLoad c hpc =>
    rw [hpc] at hserves
    exact .of_quiet hpc rfl hserves trivial rfl rfl (by simp) (by simp)
  | incStore c loaded hpc =>
    rw [hpc] at hserves
    obtain ⟨tierId,hcall⟩ := hserves
    exact .of_quiet hpc (st.reg.setCounter_map c _) (fun id => by simp [hcall]) trivial rfl rfl
      (by simp) (by simp)
  | delLock vm hpc hfree =>
    rw [hpc] at hserves
    exact .of_quiet hpc rfl hserves trivial rfl rfl (by simp) (by simp)
  | delContainsKey vm hpc =>
    rw [hpc] at hserves
    split
    · rename_i hin
      exact .of_quiet hpc rfl hserves hin rfl rfl (by simp) (by simp)
    · exact .of_quiet hpc rfl ⟨vm,hserves⟩ trivial rfl rfl (by simp) (by simp)
  | delGet vm tierId hpc hget =>
    rw [hpc] at hserves
    exact .of_quiet hpc rfl hserves hget rfl rfl (by simp) (by simp)
  | delGetNull vm hpc hget =>
    rw [hpc] at hreads
    exact absurd hreads (Finmap.lookup_eq_none.mp hget)
  | delRemove vm tierId hpc =>
    refine .remove vm tierId _ hpc ?_
    cases decCounter tierId with
    | none => exact .inl rfl
    | some c => exact .inr ⟨c,rfl⟩
  | decLoad c hpc =>
    rw [hpc] at hserves
    exact .of_quiet hpc rfl hserves trivial rfl rfl (by simp) (by simp)
  | decStore c loaded hpc =>
    rw [hpc] at hserves
    exact .of_quiet hpc (st.reg.setCounter_map c _) hserves trivial rfl rfl (by simp) (by simp)
  | delUnlock hpc =>
    rw [hpc] at hserves
    obtain ⟨vm,hcall⟩ := hserves
    exact .of_quiet hpc rfl (fun id => by simp [hcall]) trivial rfl rfl (by simp) (by simp)
  | tierContainsKey id hpc =>
    split
    · rename_i hin
      exact .found id hpc hin
    · rename_i hout
      exact .missing id hpc hout
  | tierGet id tierId hpc hget => exact .answer id tierId hpc hget
  | tierGetNull id hpc hget =>
    rw [hpc] at hreads
    exact absurd hreads (Finmap.lookup_eq_none.mp hget)

theorem LifeCycle.move {st : State} (h : LifeCycle st) {i : ℕ} {reg : Registry} {cm mm : Option ℕ}
    {vms : Finmap (fun _ : VmId => TierId)} {p : Pc}
    (hmap : ∀ id tierId, id ≠ 1 → reg.id2TierMap.lookup id = some tierId →
      vms.lookup id = some tierId)
    (hgrow : ∀ id tierId, st.vms.lookup id = some tierId → vms.lookup id = some tierId)
    (htier : ∀ id tierId, vms.lookup id = some tierId → tierId = 0 ∨ tierId = 1)
    (hadd : ∀ id tierId, p.addingAs = some (id,tierId) → vms.lookup id = some tierId)
    (hrec : ∀ id ∈ vms, p.adding = some id ∨ (∃ j, j ≠ i ∧ (st.pc j).adding = some id) ∨
      id ∈ reg.id2TierMap ∨ ∃ j, st.call j = some (.deleteVMFromMap id))
    (hserves : p.Serves (st.call i)) (hself : p.Reads reg.id2TierMap)
    (hothers : ∀ j, j ≠ i → (st.pc j).Reads reg.id2TierMap) (hpc : ∀ val, st.pc i ≠ .returned val) :
    LifeCycle ⟨reg,cm,mm,vms,st.next,st.call,Function.update st.pc i p⟩ := by
  refine ⟨hmap,htier,h.callTier,?_,?_,?_,?_,?_,h.oneTier,h.oneDelete,?_⟩
  · rw [Function.forall_update_iff st.pc (fun _ q => ∀ id tierId, q.addingAs = some (id,tierId) →
      vms.lookup id = some tierId)]
    exact ⟨hadd,fun j _ id tierId hj => hgrow id tierId (h.addTier j id tierId hj)⟩
  · intro id hid
    dsimp only
    rw [Function.exists_update_iff st.pc (fun _ q => q.adding = some id)]
    rcases hrec id hid with hp | hj | hin
    · exact .inl (.inl hp)
    · exact .inl (.inr hj)
    · exact .inr hin
  · exact (Function.forall_update_iff st.pc (fun j q => q.Serves (st.call j))).mpr
      ⟨hserves,fun j _ => h.serves j⟩
  · exact (Function.forall_update_iff st.pc (fun _ q => q.Reads reg.id2TierMap)).mpr
      ⟨hself,hothers⟩
  · intro j id hj
    obtain ⟨tierId,ht⟩ := Finmap.mem_iff.mp (h.started j id hj)
    exact Finmap.mem_of_lookup_eq_some (hgrow id tierId ht)
  · intro j id hj
    obtain ⟨k,val,hk,hval⟩ := h.deleted j id hj
    have hne : k ≠ i := fun he => hpc (some val) (he ▸ hval)
    exact ⟨k,val,hk,(Function.update_of_ne hne _ _).trans hval⟩

/-- A thread that is about to look `id` up, or to remove it, is the only one that may,
and no other relies on `id` being in the map. -/
theorem LifeCycle.reads_erase {st : State} (h : LifeCycle st) {i j : ℕ} {vm : VmId} (hne : j ≠ i)
    (hcall : st.call i = some (.deleteVMFromMap vm)) :
    (st.pc j).Reads (st.reg.id2TierMap.erase vm) := by
  have hreads := h.reads j
  have hserves := h.serves j
  cases hj : st.pc j with
  | tierGet id =>
    simp only [hj] at hreads hserves
    have hid : id ≠ vm := by
      rintro rfl
      obtain ⟨k,val,hk,hval⟩ := h.deleted i id hcall
      have hjk := h.oneTier j k id hserves hk
      rw [← hjk, hj] at hval
      cases hval
    exact Finmap.mem_erase.mpr ⟨hid,hreads⟩
  | delGet id =>
    simp only [hj] at hreads hserves
    have hid : id ≠ vm := by
      rintro rfl
      exact hne (h.oneDelete j i id hserves hcall)
    exact Finmap.mem_erase.mpr ⟨hid,hreads⟩
  | delRemove id tierId =>
    simp only [hj] at hreads hserves
    have hid : id ≠ vm := by
      rintro rfl
      exact hne (h.oneDelete j i id hserves hcall)
    exact (Finmap.lookup_erase_ne hid).trans hreads
  | nullPointerException => simp [hj,Pc.Reads] at hreads
  | _ => trivial

theorem Pc.Reads.insert {m : Finmap (fun _ : VmId => TierId)} {p : Pc} (h : p.Reads m) {vm : VmId}
    (hvm : vm ∉ m) (tierId : TierId) : p.Reads (m.insert vm tierId) := by
  cases p with
  | tierGet id => exact Finmap.mem_insert.mpr (.inr h)
  | delGet id => exact Finmap.mem_insert.mpr (.inr h)
  | delRemove id t => exact lookup_insert_of_notMem hvm tierId h
  | nullPointerException => exact h
  | _ => trivial

theorem LifeCycle.effect {st st' : State} {i : ℕ} (hids : IdsFresh st) (h : LifeCycle st)
    (he : Effect st i st') : LifeCycle st' := by
  have hserves := h.serves i
  have hrec : (st.pc i).adding = none → ∀ id ∈ st.vms,
      (∃ j, j ≠ i ∧ (st.pc j).adding = some id) ∨ id ∈ st.reg.id2TierMap ∨
        ∃ j, st.call j = some (.deleteVMFromMap id) := by
    intro hnone id hid
    refine (h.recorded id hid).imp_left ?_
    rintro ⟨j,hj⟩
    refine ⟨j,?_,hj⟩
    rintro rfl
    rw [hnone] at hj
    cases hj
  cases he with
  | quiet reg cm mm p hmap hadd hp hreads _ hrun _ =>
    refine h.move ?_ (fun _ _ ht => ht) h.vmsTier ?_ ?_ hp ?_ ?_ hrun
    · rw [hmap]
      exact h.mapTier
    · intro id tierId ht
      exact h.addTier i id tierId (hadd ▸ ht)
    · intro id hid
      rw [hmap]
      rcases h.recorded id hid with ⟨j,hj⟩ | hin
      · by_cases hji : j = i
        · subst hji
          exact .inl (by rw [Pc.adding_eq, hadd, ← Pc.adding_eq]; exact hj)
        · exact .inr (.inl ⟨j,hji,hj⟩)
      · exact .inr (.inr hin)
    · rw [hmap]
      exact hreads
    · rw [hmap]
      exact fun j _ => h.reads j
  | startVM vmId tierId hpc hnew hone =>
    simp only [hpc] at hserves hrec
    have hold : ∀ id t, st.vms.lookup id = some t → (st.vms.insert vmId tierId).lookup id = some t :=
      fun _ _ ht => lookup_insert_of_notMem hnew tierId ht
    refine h.move (fun id t h1 ht => hold id t (h.mapTier id t h1 ht)) hold ?_ ?_ ?_ hserves trivial
      (fun j _ => h.reads j) (by simp [hpc])
    · intro id t ht
      rcases lookup_insert_eq_some.mp ht with ⟨_,rfl⟩ | ⟨_,ht⟩
      · exact h.callTier i t hserves
      · exact h.vmsTier id t ht
    · intro id t ht
      cases ht
      exact Finmap.lookup_insert _
    · intro id hid
      rcases Finmap.mem_insert.mp hid with rfl | hid
      · exact .inl rfl
      · exact .inr (hrec rfl id hid)
  | put vmId tierId hpc =>
    obtain ⟨hvm,hout⟩ := hids.adding i vmId (by simp [hpc,Pc.adding])
    have hvms := h.addTier i vmId tierId (by simp [hpc,Pc.addingAs])
    simp only [hpc] at hserves
    refine h.move ?_ (fun _ _ ht => ht) h.vmsTier (fun _ _ ht => by cases ht) ?_ hserves trivial
      (fun j _ => (h.reads j).insert hout tierId) (by simp [hpc])
    · intro id t h1 ht
      rcases lookup_insert_eq_some.mp ht with ⟨rfl,rfl⟩ | ⟨_,ht⟩
      · exact hvms
      · exact h.mapTier id t h1 ht
    · intro id hid
      rcases h.recorded id hid with ⟨j,hj⟩ | hin | hdel
      · by_cases hji : j = i
        · subst hji
          simp only [hpc,Pc.adding,Option.some.injEq] at hj
          exact .inr (.inr (.inl (Finmap.mem_insert.mpr (.inl hj.symm))))
        · exact .inr (.inl ⟨j,hji,hj⟩)
      · exact .inr (.inr (.inl (Finmap.mem_insert.mpr (.inr hin))))
      · exact .inr (.inr (.inr hdel))
  | remove vmId tierId p hpc hp =>
    simp only [hpc] at hserves hrec
    refine h.move ?_ (fun _ _ ht => ht) h.vmsTier ?_ ?_ ?_ ?_ (fun j hj => h.reads_erase hj hserves)
      (by simp [hpc])
    · exact fun id t h1 ht => h.mapTier id t h1 (lookup_erase_eq_some.mp ht).2
    · intro id t ht
      rcases hp with rfl | ⟨c,rfl⟩ <;> cases ht
    · intro id hid
      rcases hrec rfl id hid with hj | hin | hdel
      · exact .inr (.inl hj)
      · by_cases he : id = vmId
        · exact .inr (.inr (.inr ⟨i,he ▸ hserves⟩))
        · exact .inr (.inr (.inl (Finmap.mem_erase.mpr ⟨he,hin⟩)))
      · exact .inr (.inr (.inr hdel))
    · rcases hp with rfl | ⟨c,rfl⟩ <;> exact ⟨vmId,hserves⟩
    · rcases hp with rfl | ⟨c,rfl⟩ <;> trivial
  | found id hpc hin =>
    simp only [hpc] at hserves hrec
    exact h.move h.mapTier (fun _ _ ht => ht) h.vmsTier (fun _ _ ht => by cases ht)
      (fun id hid => .inr (hrec rfl id hid)) hserves hin (fun j _ => h.reads j)
      (fun val => by rw [hpc]; exact fun he => by cases he)
  | missing id hpc hout =>
    simp only [hpc] at hserves hrec
    exact h.move h.mapTier (fun _ _ ht => ht) h.vmsTier (fun _ _ ht => by cases ht)
      (fun id hid => .inr (hrec rfl id hid)) ⟨id,hserves⟩ trivial (fun j _ => h.reads j)
      (fun val => by rw [hpc]; exact fun he => by cases he)
  | answer id tierId hpc hget =>
    simp only [hpc] at hserves hrec
    exact h.move h.mapTier (fun _ _ ht => ht) h.vmsTier (fun _ _ ht => by cases ht)
      (fun id hid => .inr (hrec rfl id hid)) ⟨id,hserves⟩ trivial (fun j _ => h.reads j)
      (fun val => by rw [hpc]; exact fun he => by cases he)

theorem LifeCycle.call_next {st : State} (hids : IdsFresh st) (h : LifeCycle st) :
    st.call st.next = none := by
  have hserves := h.serves st.next
  rw [hids.unused st.next le_rfl] at hserves
  exact hserves

theorem LifeCycle.issue {st : State} (hids : IdsFresh st) (h : LifeCycle st) {c : Call}
    (hc : Protocol st (.call c)) : LifeCycle (st.issue c) := by
  have hidle := hids.unused st.next le_rfl
  have hnone := h.call_next hids
  have hentry : c.entry.addingAs = none := by cases c <;> rfl
  have hold : ∀ j d, st.call j = some d → j ≠ st.next := by
    rintro j d hj rfl
    rw [hnone] at hj
    cases hj
  have hlt : ∀ j d, st.call j = some d → j < st.next := by
    intro j d hj
    apply hids.lt_next
    intro hpc
    have hserves := h.serves j
    rw [hpc, hj] at hserves
    cases hserves
  have hcall : ∀ j d, (st.issue c).call j = some d → j = st.next ∧ c = d ∨ st.call j = some d := by
    intro j d hj
    by_cases he : j = st.next
    · subst he
      simp only [State.issue,Function.update_self,Option.some.injEq] at hj
      exact .inl ⟨rfl,hj⟩
    · exact .inr (by simpa [State.issue,he] using hj)
  have hkeep : ∀ j, j ≠ st.next → (st.issue c).pc j = st.pc j ∧ (st.issue c).call j = st.call j :=
    fun j hj => ⟨Function.update_of_ne hj _ _,Function.update_of_ne hj _ _⟩
  refine ⟨h.mapTier,h.vmsTier,?_,?_,?_,?_,?_,?_,?_,?_,?_⟩
  · intro j tierId hj
    rcases hcall j _ hj with ⟨_,rfl⟩ | hj
    · exact hc
    · exact h.callTier j tierId hj
  · intro j id tierId hj
    by_cases he : j = st.next
    · subst he
      simp only [State.issue,Function.update_self,hentry] at hj
      cases hj
    · rw [(hkeep j he).1] at hj
      exact h.addTier j id tierId hj
  · intro id hid
    rcases h.recorded id hid with ⟨j,hj⟩ | hin | ⟨j,hj⟩
    · have hne : j ≠ st.next := by
        rintro rfl
        rw [hidle] at hj
        cases hj
      exact .inl ⟨j,by rw [(hkeep j hne).1]; exact hj⟩
    · exact .inr (.inl hin)
    · exact .inr (.inr ⟨j,by rw [(hkeep j (hold j _ hj)).2]; exact hj⟩)
  · intro j
    by_cases he : j = st.next
    · subst he
      simp only [State.issue,Function.update_self]
      cases c <;> rfl
    · rw [(hkeep j he).1, (hkeep j he).2]
      exact h.serves j
  · intro j
    by_cases he : j = st.next
    · subst he
      simp only [State.issue,Function.update_self]
      cases c <;> trivial
    · rw [(hkeep j he).1]
      exact h.reads j
  · intro j id hj
    rcases hcall j _ hj with ⟨_,rfl⟩ | hj
    · exact hc.1
    · exact h.started j id hj
  · intro j k id hj hk
    rcases hcall j _ hj with ⟨rfl,rfl⟩ | hj'
    · rcases hcall k _ hk with ⟨rfl,_⟩ | hk'
      · rfl
      · exact absurd hk' (hc.2 k (hlt k _ hk'))
    · rcases hcall k _ hk with ⟨_,rfl⟩ | hk'
      · exact absurd hj' (hc.2 j (hlt j _ hj'))
      · exact h.oneTier j k id hj' hk'
  · intro j k id hj hk
    rcases hcall j _ hj with ⟨rfl,rfl⟩ | hj'
    · rcases hcall k _ hk with ⟨rfl,_⟩ | hk'
      · rfl
      · exact absurd hk' (hc.2 k (hlt k _ hk'))
    · rcases hcall k _ hk with ⟨_,rfl⟩ | hk'
      · exact absurd hj' (hc.2 j (hlt j _ hj'))
      · exact h.oneDelete j k id hj' hk'
  · intro j id hj
    have hasked : ∃ k val, st.call k = some (.getTier id) ∧ st.pc k = .returned (some val) := by
      rcases hcall j _ hj with ⟨_,rfl⟩ | hj
      · obtain ⟨k,_,hk,hval | hval⟩ := hc.1
        · exact ⟨k,0,hk,hval⟩
        · exact ⟨k,1,hk,hval⟩
      · exact h.deleted j id hj
    obtain ⟨k,val,hk,hval⟩ := hasked
    have hne := hold k _ hk
    exact ⟨k,val,by rw [(hkeep k hne).2]; exact hk,by rw [(hkeep k hne).1]; exact hval⟩

theorem lifeCycle_start : LifeCycle start := by
  refine ⟨?_,?_,?_,?_,?_,fun _ => rfl,fun _ => trivial,?_,?_,?_,?_⟩
  · intro id tierId h1 ht
    simp only [start,Registry.masterHandlerStart_map,Finmap.lookup_insert_of_ne _ h1] at ht
    cases ht
  · intro id tierId ht
    cases ht
  · intro i tierId hi
    cases hi
  · intro i id tierId hi
    cases hi
  · intro id hid
    exact absurd hid Finmap.notMem_empty
  · intro i id hi
    cases hi
  · intro i j id hi
    cases hi
  · intro i j id hi
    cases hi
  · intro i id hi
    cases hi

/-- Both invariants together, as one step needs and keeps them. -/
def Orderly (st : State) : Prop := IdsFresh st ∧ LifeCycle st

theorem orderly_start : Orderly start := ⟨idsFresh_start,lifeCycle_start⟩

theorem orderly_step {st st' : State} {a : Action} (h : Orderly st) (ha : Protocol st a)
    (hs : system.step st a = some st') : Orderly st' := by
  refine ⟨idsFresh_step h.1 hs,?_⟩
  cases a with
  | call c =>
    cases hs
    exact h.2.issue h.1 ha
  | step i vmId => exact h.2.effect h.1 (effect_of_advance h.1 h.2 hs)

theorem orderly_of_run {st : State} {as : List Action} (hr : system.run start as = some st)
    (hp : system.Meets Protocol start as) : Orderly st :=
  LabelledSystem.run_invariant_of_meets (fun _ _ _ => orderly_step) hr hp orderly_start

theorem bootsAsStarted_move {st : State} (h : Orderly st) {i : ℕ} {reg : Registry}
    {cm mm : Option ℕ} {vms : Finmap (fun _ : VmId => TierId)} {p : Pc}
    (hpc : ∀ val, st.pc i ≠ .returned val)
    (hvms : ∀ id ∈ st.vms, vms.lookup id = st.vms.lookup id) :
    BootsAsStarted ⟨reg,cm,mm,vms,st.next,st.call,Function.update st.pc i p⟩ ↔
      BootsAsStarted st ∧ ∀ id val, st.call i = some (.getTier id) → p = .returned (some val) →
        st.vms.lookup id = some val ∧ slaveHandler val ≠ .default := by
  constructor
  · intro hb
    refine ⟨?_,?_⟩
    · intro j hj id val hcall hval
      have hne : j ≠ i := fun he => hpc (some val) (he ▸ hval)
      have hjb := hb j hj id val hcall ((Function.update_of_ne hne _ _).trans hval)
      exact ⟨(hvms id (h.2.started j id hcall)).symm.trans hjb.1,hjb.2⟩
    · intro id val hcall hp
      have hi : i < st.next := by
        apply h.1.lt_next
        intro hidle
        have hserves := h.2.serves i
        rw [hidle, hcall] at hserves
        cases hserves
      have hib := hb i hi id val hcall ((Function.update_self _ _ _).trans hp)
      exact ⟨(hvms id (h.2.started i id hcall)).symm.trans hib.1,hib.2⟩
  · rintro ⟨hb,hi⟩ j hj id val hcall hval
    dsimp only at hcall hval ⊢
    rw [hvms id (h.2.started j id hcall)]
    by_cases he : j = i
    · subst he
      rw [Function.update_self] at hval
      exact hi id val hcall hval
    · rw [Function.update_of_ne he] at hval
      exact hb j hj id val hcall hval

/-- A `getTier` that misses an id finds the scale-out that started it still recording it. -/
theorem LifeCycle.adding_of_missing {st : State} (h : LifeCycle st) {i : ℕ} {id : VmId}
    (hpc : st.pc i = .tierContainsKey id) (hout : id ∉ st.reg.id2TierMap) :
    ∃ j, (st.pc j).adding = some id := by
  have hcall := h.serves i
  simp only [hpc] at hcall
  rcases h.recorded id (h.started i id hcall) with hj | hin | ⟨j,hj⟩
  · exact hj
  · exact absurd hin hout
  · obtain ⟨k,val,hk,hval⟩ := h.deleted j id hj
    have hik := h.oneTier i k id hcall hk
    rw [← hik, hpc] at hval
    cases hval

theorem bootsAsStarted_issue (st : State) (c : Call) :
    BootsAsStarted (st.issue c) ↔ BootsAsStarted st := by
  have hcall : ∀ j, j < st.next → (st.issue c).call j = st.call j :=
    fun j hj => Function.update_of_ne (Nat.ne_of_lt hj) _ _
  have hpc : ∀ j, j < st.next → (st.issue c).pc j = st.pc j :=
    fun j hj => Function.update_of_ne (Nat.ne_of_lt hj) _ _
  have hnext : (st.issue c).next = st.next + 1 := rfl
  constructor
  · intro hb j hj id val
    have hjb := hb j (by omega) id val
    rwa [hcall j hj, hpc j hj] at hjb
  · intro hb j hj id val
    by_cases hlt : j < st.next
    · rw [hcall j hlt, hpc j hlt]
      exact hb j hlt id val
    · have he : j = st.next := by omega
      subst he
      simp only [State.issue,Function.update_self]
      intro _ hval
      cases c <;> cases hval

/-- The one way a slave gets a wrong answer, and what it is: `-1`, for an id whose
scale-out has yet to record it. -/
theorem bootsAsStarted_step {st st' : State} {a : Action} (h : Orderly st) (ha : Protocol st a)
    (hs : system.step st a = some st') :
    BootsAsStarted st' ↔ BootsAsStarted st ∧ TierRecorded st a := by
  cases a with
  | call c =>
    cases hs
    exact (bootsAsStarted_issue st c).trans (and_iff_left trivial).symm
  | step i vmId =>
    have heff := effect_of_advance h.1 h.2 hs
    simp only [TierRecorded]
    cases heff with
    | quiet reg cm mm p hmap hadd hserves hreads hp hrun hlook =>
      refine (bootsAsStarted_move h hrun (fun _ _ => rfl)).trans ?_
      simp [hp,hlook]
    | startVM vm tierId hpc hnew hone =>
      refine (bootsAsStarted_move h (by simp [hpc]) ?_).trans (by simp [hpc,Pc.lookingUp])
      intro id hid
      have hne : id ≠ vm := by
        rintro rfl
        exact hnew hid
      exact Finmap.lookup_insert_of_ne _ hne
    | put vm tierId hpc =>
      refine (bootsAsStarted_move h (by simp [hpc]) (fun _ _ => rfl)).trans ?_
      simp [hpc,Pc.lookingUp]
    | remove vm tierId p hpc hp =>
      refine (bootsAsStarted_move h (by simp [hpc]) (fun _ _ => rfl)).trans ?_
      rcases hp with rfl | ⟨c,rfl⟩ <;> simp [hpc,Pc.lookingUp]
    | found id hpc hin =>
      refine (bootsAsStarted_move h (by simp [hpc]) (fun _ _ => rfl)).trans ?_
      refine and_congr_right (fun _ => iff_of_true (by simp) ?_)
      rw [hpc]
      rintro id' ⟨⟩ j _ hj
      exact (h.1.adding j id hj).2 hin
    | missing id hpc hout =>
      refine (bootsAsStarted_move h (by simp [hpc]) (fun _ _ => rfl)).trans ?_
      refine and_congr_right (fun _ => iff_of_false ?_ ?_)
      · intro hval
        have hcall := h.2.serves i
        simp only [hpc] at hcall
        exact (hval id (-1) hcall rfl).2 rfl
      · intro hrec
        obtain ⟨j,hj⟩ := h.2.adding_of_missing hpc hout
        have hlt : j < st.next := h.1.lt_next (fun he => by rw [he] at hj; cases hj)
        rw [hpc] at hrec
        exact hrec id rfl j hlt hj
    | answer id tierId hpc hget =>
      refine (bootsAsStarted_move h (by simp [hpc]) (fun _ _ => rfl)).trans ?_
      refine and_congr_right (fun _ => iff_of_true ?_ ?_)
      · intro id' val hcall hval
        have hserves := h.2.serves i
        simp only [hpc] at hserves
        cases hserves.symm.trans hcall
        cases hval
        have h1 : id ≠ 1 := by
          rintro rfl
          exact h.1.master (h.2.started i 1 hcall)
        have hvms := h.2.mapTier id tierId h1 hget
        refine ⟨hvms,?_⟩
        rcases h.2.vmsTier id tierId hvms with rfl | rfl <;> decide
      · simp [hpc,Pc.lookingUp]

theorem bootsAsStarted_start : BootsAsStarted start := by
  intro j hj
  exact absurd hj (Nat.not_lt_zero j)

/-- In every run that keeps to the protocol, the slaves run the tier they were started
with just when no `getTier` came before the put of its id. -/
theorem bootsAsStarted_iff_tierRecorded {st : State} {as : List Action}
    (hr : system.run start as = some st) (hp : system.Meets Protocol start as) :
    BootsAsStarted st ↔ system.Meets TierRecorded start as := by
  have hiff := LabelledSystem.run_good_iff (fun _ _ _ => orderly_step)
    (fun _ _ _ => bootsAsStarted_step) hr hp orderly_start
  exact hiff.trans (and_iff_right bootsAsStarted_start)

/-- The VM of a mid-tier scale-out boots before `addVM2Map` has recorded it. -/
def earlyBoot : List Action :=
  [.call (.scaleOut 1),.step 0 2,.call (.getTier 2),.step 1 0,.step 0 0,.step 0 0,.step 0 0,
    .step 0 0,.step 0 0,.step 0 0]

/-- The slave is told `-1` and takes the default branch, and `midCount` keeps counting it. -/
theorem earlyBoot_unserved :
    ∃ st, system.run start earlyBoot = some st ∧ system.Meets Protocol start earlyBoot ∧
      ¬ BootsAsStarted st ∧ st.vms.lookup 2 = some 1 ∧ st.reg.midCount = 1 := by
  have hrun : ∃ st, system.run start earlyBoot = some st ∧
      (1 < st.next ∧ st.call 1 = some (.getTier 2) ∧ st.pc 1 = .returned (some (-1))) ∧
      st.vms.lookup 2 = some 1 ∧ st.reg.midCount = 1 := by decide
  obtain ⟨st,hst,⟨hlt,hcall,hpc⟩,hvms,hcount⟩ := hrun
  exact ⟨st,hst,by decide,fun hb => (hb 1 hlt 2 (-1) hcall hpc).2 rfl,hvms,hcount⟩

/-- The same VM booting after the put, while a front scale-out is under way and before
its own is counted, and shutting down. -/
def bootAfterPut : List Action :=
  [.call (.scaleOut 1),.step 0 2,.call (.scaleOut 0),.step 0 0,.step 0 0,.step 1 3,.step 0 0,
    .call (.getTier 2),.step 2 0,.step 0 0,.step 2 0,.call (.deleteVMFromMap 2),.step 3 0,.step 1 0,
    .step 3 0,.step 3 0,.step 3 0]

theorem bootsAsStarted_bootAfterPut :
    ∃ st, system.run start bootAfterPut = some st ∧ BootsAsStarted st := by
  have hrun : (system.run start bootAfterPut).isSome := by decide
  obtain ⟨st,hst⟩ := Option.isSome_iff_exists.mp hrun
  exact ⟨st,hst,(bootsAsStarted_iff_tierRecorded hst (by decide)).mpr (by decide)⟩

end Handlers
end AutoScaling
