import AutoScaling.Foundation.LabelledSystem
import AutoScaling.Master.Registry

/-! # The master's handlers as interleaved threads

`scaleOutCore` (on the main thread or behind the remote `scaleOut`), `deleteVMFromMap`
and `getTier` run as threads whose atomic steps are `SL.startVM()`, the single
`ConcurrentHashMap` operations, and the loads and stores of the counters. Two locks
are taken: the monitor of `Server.class` in `addVM2Map` and that of the master object
in `deleteVMFromMap`. Nothing guards the increments in `scaleOutCore`.
-/
namespace AutoScaling

def Registry.counter (reg : Registry) : Tier → ℤ
  | .front => reg.frontCount
  | .mid => reg.midCount

def Registry.setCounter (reg : Registry) (c : Tier) (n : ℤ) : Registry :=
  match c with
  | .front => { reg with frontCount := n }
  | .mid => { reg with midCount := n }

@[simp] theorem Registry.setCounter_map (reg : Registry) (c : Tier) (n : ℤ) :
    (reg.setCounter c n).id2TierMap = reg.id2TierMap := by
  cases c <;> rfl

theorem Registry.counter_setCounter (reg : Registry) (c d : Tier) (n : ℤ) :
    (reg.setCounter c n).counter d = if c = d then n else reg.counter d := by
  cases c <;> cases d <;> rfl

namespace Handlers

inductive Call
  | scaleOut (tierId : TierId)
  | deleteVMFromMap (vmId : VmId)
  | getTier (id : VmId)
  deriving DecidableEq

/-- What a thread does next. -/
inductive Pc
  | idle
  | startVM (tierId : TierId)
  | addLock (vmId : VmId) (tierId : TierId)
  | addContainsKey (vmId : VmId) (tierId : TierId)
  | addPut (vmId : VmId) (tierId : TierId)
  | addUnlock (tierId : TierId)
  | incLoad (c : Tier)
  | incStore (c : Tier) (loaded : ℤ)
  | delLock (vmId : VmId)
  | delContainsKey (vmId : VmId)
  | delGet (vmId : VmId)
  | delRemove (vmId : VmId) (tierId : TierId)
  | decLoad (c : Tier)
  | decStore (c : Tier) (loaded : ℤ)
  | delUnlock
  | tierContainsKey (id : VmId)
  | tierGet (id : VmId)
  | returned (val : Option TierId)
  | nullPointerException
  deriving DecidableEq

def Call.entry : Call → Pc
  | .scaleOut tierId => .startVM tierId
  | .deleteVMFromMap vmId => .delLock vmId
  | .getTier id => .tierContainsKey id

/-- `vms` is the cloud's side: the VMs started so far, and the tier of the scale-out
that started each. Threads are numbered in the order of their calls. -/
structure State where
  reg : Registry
  classMonitor : Option ℕ
  masterMonitor : Option ℕ
  vms : Finmap (fun _ : VmId => TierId)
  next : ℕ
  call : ℕ → Option Call
  pc : ℕ → Pc

def State.setPc (st : State) (i : ℕ) (p : Pc) : State := { st with pc := Function.update st.pc i p }

def State.setMap (st : State) (m : Finmap (fun _ : VmId => TierId)) : State :=
  { st with reg := { st.reg with id2TierMap := m } }

/-- `if (tierId == 0) frontCount++; else midCount++;` -/
def incCounter (tierId : TierId) : Tier := if tierId = 0 then .front else .mid

/-- `if (tierId == 0) frontCount--; else if (tierId == 1) midCount--;` -/
def decCounter (tierId : TierId) : Option Tier :=
  if tierId = 0 then some .front else if tierId = 1 then some .mid else none

/-- One atomic step of thread `i`; `vmId` is what `SL.startVM()` returns in it. -/
def State.advance (st : State) (i : ℕ) (vmId : VmId) : Option State :=
  match st.pc i with
  | .startVM tierId =>
    if vmId ∉ st.vms ∧ vmId ≠ 1 then
      some ({ st with vms := st.vms.insert vmId tierId }.setPc i (.addLock vmId tierId))
    else none
  | .addLock vm tierId =>
    if st.classMonitor = none then
      some ({ st with classMonitor := some i }.setPc i (.addContainsKey vm tierId))
    else none
  | .addContainsKey vm tierId =>
    some (st.setPc i (if vm ∈ st.reg.id2TierMap then .addUnlock tierId else .addPut vm tierId))
  | .addPut vm tierId =>
    some ((st.setMap (st.reg.id2TierMap.insert vm tierId)).setPc i (.addUnlock tierId))
  | .addUnlock tierId =>
    some ({ st with classMonitor := none }.setPc i (.incLoad (incCounter tierId)))
  | .incLoad c => some (st.setPc i (.incStore c (st.reg.counter c)))
  | .incStore c loaded =>
    some ({ st with reg := st.reg.setCounter c (loaded + 1) }.setPc i (.returned none))
  | .delLock vm =>
    if st.masterMonitor = none then
      some ({ st with masterMonitor := some i }.setPc i (.delContainsKey vm))
    else none
  | .delContainsKey vm =>
    some (st.setPc i (if vm ∈ st.reg.id2TierMap then .delGet vm else .delUnlock))
  | .delGet vm =>
    match st.reg.id2TierMap.lookup vm with
    | some tierId => some (st.setPc i (.delRemove vm tierId))
    -- unboxing `null`; leaving the method by the exception gives the monitor back
    | none => some ({ st with masterMonitor := none }.setPc i .nullPointerException)
  | .delRemove vm tierId =>
    some ((st.setMap (st.reg.id2TierMap.erase vm)).setPc i
      (match decCounter tierId with
        | some c => .decLoad c
        | none => .delUnlock))
  | .decLoad c => some (st.setPc i (.decStore c (st.reg.counter c)))
  | .decStore c loaded =>
    some ({ st with reg := st.reg.setCounter c (loaded - 1) }.setPc i .delUnlock)
  | .delUnlock => some ({ st with masterMonitor := none }.setPc i (.returned none))
  | .tierContainsKey id =>
    some (st.setPc i (if id ∈ st.reg.id2TierMap then .tierGet id else .returned (some (-1))))
  | .tierGet id =>
    match st.reg.id2TierMap.lookup id with
    | some tierId => some (st.setPc i (.returned (some tierId)))
    | none => some (st.setPc i .nullPointerException)
  | .idle => none
  | .returned _ => none
  | .nullPointerException => none

inductive Action
  | call (c : Call)
  | step (i : ℕ) (vmId : VmId)

def State.issue (st : State) (c : Call) : State :=
  { st with
    next := st.next + 1
    call := Function.update st.call st.next (some c)
    pc := Function.update st.pc st.next c.entry }

def step (st : State) : Action → Option State
  | .call c => some (st.issue c)
  | .step i vmId => st.advance i vmId

def system : LabelledSystem State Action := ⟨step⟩

/-- The master after `frontCount++`, with no call under way and no VM started. -/
def start : State := ⟨Registry.masterHandlerStart,none,none,∅,0,fun _ => none,fun _ => .idle⟩

inductive Advanced (st : State) (i : ℕ) (vmId : VmId) : State → Prop
  | startVM (tierId : TierId) (hpc : st.pc i = .startVM tierId) (hnew : vmId ∉ st.vms)
      (hone : vmId ≠ 1) : Advanced st i vmId
        ({ st with vms := st.vms.insert vmId tierId }.setPc i (.addLock vmId tierId))
  | addLock (vm : VmId) (tierId : TierId) (hpc : st.pc i = .addLock vm tierId)
      (hfree : st.classMonitor = none) :
      Advanced st i vmId ({ st with classMonitor := some i }.setPc i (.addContainsKey vm tierId))
  | addContainsKey (vm : VmId) (tierId : TierId) (hpc : st.pc i = .addContainsKey vm tierId) :
      Advanced st i vmId
        (st.setPc i (if vm ∈ st.reg.id2TierMap then .addUnlock tierId else .addPut vm tierId))
  | addPut (vm : VmId) (tierId : TierId) (hpc : st.pc i = .addPut vm tierId) :
      Advanced st i vmId
        ((st.setMap (st.reg.id2TierMap.insert vm tierId)).setPc i (.addUnlock tierId))
  | addUnlock (tierId : TierId) (hpc : st.pc i = .addUnlock tierId) :
      Advanced st i vmId ({ st with classMonitor := none }.setPc i (.incLoad (incCounter tierId)))
  | incLoad (c : Tier) (hpc : st.pc i = .incLoad c) :
      Advanced st i vmId (st.setPc i (.incStore c (st.reg.counter c)))
  | incStore (c : Tier) (loaded : ℤ) (hpc : st.pc i = .incStore c loaded) :
      Advanced st i vmId
        ({ st with reg := st.reg.setCounter c (loaded + 1) }.setPc i (.returned none))
  | delLock (vm : VmId) (hpc : st.pc i = .delLock vm) (hfree : st.masterMonitor = none) :
      Advanced st i vmId ({ st with masterMonitor := some i }.setPc i (.delContainsKey vm))
  | delContainsKey (vm : VmId) (hpc : st.pc i = .delContainsKey vm) :
      Advanced st i vmId
        (st.setPc i (if vm ∈ st.reg.id2TierMap then .delGet vm else .delUnlock))
  | delGet (vm : VmId) (tierId : TierId) (hpc : st.pc i = .delGet vm)
      (hget : st.reg.id2TierMap.lookup vm = some tierId) :
      Advanced st i vmId (st.setPc i (.delRemove vm tierId))
  | delGetNull (vm : VmId) (hpc : st.pc i = .delGet vm)
      (hget : st.reg.id2TierMap.lookup vm = none) :
      Advanced st i vmId ({ st with masterMonitor := none }.setPc i .nullPointerException)
  | delRemove (vm : VmId) (tierId : TierId) (hpc : st.pc i = .delRemove vm tierId) :
      Advanced st i vmId ((st.setMap (st.reg.id2TierMap.erase vm)).setPc i
        (match decCounter tierId with
          | some c => .decLoad c
          | none => .delUnlock))
  | decLoad (c : Tier) (hpc : st.pc i = .decLoad c) :
      Advanced st i vmId (st.setPc i (.decStore c (st.reg.counter c)))
  | decStore (c : Tier) (loaded : ℤ) (hpc : st.pc i = .decStore c loaded) :
      Advanced st i vmId ({ st with reg := st.reg.setCounter c (loaded - 1) }.setPc i .delUnlock)
  | delUnlock (hpc : st.pc i = .delUnlock) :
      Advanced st i vmId ({ st with masterMonitor := none }.setPc i (.returned none))
  | tierContainsKey (id : VmId) (hpc : st.pc i = .tierContainsKey id) :
      Advanced st i vmId
        (st.setPc i (if id ∈ st.reg.id2TierMap then .tierGet id else .returned (some (-1))))
  | tierGet (id : VmId) (tierId : TierId) (hpc : st.pc i = .tierGet id)
      (hget : st.reg.id2TierMap.lookup id = some tierId) :
      Advanced st i vmId (st.setPc i (.returned (some tierId)))
  | tierGetNull (id : VmId) (hpc : st.pc i = .tierGet id)
      (hget : st.reg.id2TierMap.lookup id = none) :
      Advanced st i vmId (st.setPc i .nullPointerException)

theorem advanced_of_advance {st st' : State} {i : ℕ} {vmId : VmId}
    (hs : st.advance i vmId = some st') : Advanced st i vmId st' := by
  simp only [State.advance] at hs
  cases hpc : st.pc i with
  | startVM tierId =>
    simp only [hpc] at hs
    split at hs
    · rename_i hnew
      cases hs
      exact .startVM tierId hpc hnew.1 hnew.2
    · cases hs
  | addLock vm tierId =>
    simp only [hpc] at hs
    split at hs
    · rename_i hfree
      cases hs
      exact .addLock vm tierId hpc hfree
    · cases hs
  | delLock vm =>
    simp only [hpc] at hs
    split at hs
    · rename_i hfree
      cases hs
      exact .delLock vm hpc hfree
    · cases hs
  | delGet vm =>
    simp only [hpc] at hs
    split at hs
    · rename_i tierId hget
      cases hs
      exact .delGet vm tierId hpc hget
    · rename_i hget
      cases hs
      exact .delGetNull vm hpc hget
  | tierGet id =>
    simp only [hpc] at hs
    split at hs
    · rename_i tierId hget
      cases hs
      exact .tierGet id tierId hpc hget
    · rename_i hget
      cases hs
      exact .tierGetNull id hpc hget
  | addContainsKey vm tierId => simp only [hpc] at hs; cases hs; exact .addContainsKey vm tierId hpc
  | addPut vm tierId => simp only [hpc] at hs; cases hs; exact .addPut vm tierId hpc
  | addUnlock tierId => simp only [hpc] at hs; cases hs; exact .addUnlock tierId hpc
  | incLoad c => simp only [hpc] at hs; cases hs; exact .incLoad c hpc
  | incStore c loaded => simp only [hpc] at hs; cases hs; exact .incStore c loaded hpc
  | delContainsKey vm => simp only [hpc] at hs; cases hs; exact .delContainsKey vm hpc
  | delRemove vm tierId => simp only [hpc] at hs; cases hs; exact .delRemove vm tierId hpc
  | decLoad c => simp only [hpc] at hs; cases hs; exact .decLoad c hpc
  | decStore c loaded => simp only [hpc] at hs; cases hs; exact .decStore c loaded hpc
  | delUnlock => simp only [hpc] at hs; cases hs; exact .delUnlock hpc
  | tierContainsKey id => simp only [hpc] at hs; cases hs; exact .tierContainsKey id hpc
  | _ => simp only [hpc] at hs; cases hs

theorem ne_idle_of_advance {st st' : State} {i : ℕ} {vmId : VmId}
    (hs : st.advance i vmId = some st') : st.pc i ≠ .idle := by
  intro hidle
  simp only [State.advance,hidle] at hs
  cases hs

def Pc.adding : Pc → Option VmId
  | .addLock vmId _ => some vmId
  | .addContainsKey vmId _ => some vmId
  | .addPut vmId _ => some vmId
  | _ => none

/-- Ids are used once: what holds in every run, whoever calls what. -/
structure IdsFresh (st : State) : Prop where
  known : ∀ id ∈ st.reg.id2TierMap, id = 1 ∨ id ∈ st.vms
  master : 1 ∉ st.vms
  adding : ∀ i id, (st.pc i).adding = some id → id ∈ st.vms ∧ id ∉ st.reg.id2TierMap
  unique : ∀ i j id, (st.pc i).adding = some id → (st.pc j).adding = some id → i = j
  unused : ∀ i, st.next ≤ i → st.pc i = .idle

theorem IdsFresh.lt_next {st : State} (h : IdsFresh st) {i : ℕ} (hi : st.pc i ≠ .idle) :
    i < st.next := by
  by_contra hn
  exact hi (h.unused i (Nat.not_lt.mp hn))

theorem IdsFresh.setPc {st : State} (h : IdsFresh st) {i : ℕ} {p : Pc} (hi : i < st.next)
    (hp : ∀ id, p.adding = some id → (st.pc i).adding = some id) : IdsFresh (st.setPc i p) := by
  have hold : ∀ j id, ((st.setPc i p).pc j).adding = some id → (st.pc j).adding = some id := by
    intro j id hj
    by_cases he : j = i
    · subst he
      exact hp id (by simpa [State.setPc] using hj)
    · simpa [State.setPc,he] using hj
  refine ⟨h.known,h.master,fun j id hj => h.adding j id (hold j id hj),?_,?_⟩
  · intro j k id hj hk
    exact h.unique j k id (hold j id hj) (hold k id hk)
  · intro j hj
    have hne : j ≠ i := by
      rintro rfl
      exact absurd hj (Nat.not_le.mpr hi)
    simpa [State.setPc,hne] using h.unused j hj

theorem IdsFresh.erase {st : State} (h : IdsFresh st) (vm : VmId) :
    IdsFresh (st.setMap (st.reg.id2TierMap.erase vm)) := by
  refine ⟨?_,h.master,?_,h.unique,h.unused⟩
  · intro id hid
    exact h.known id (Finmap.mem_erase.mp hid).2
  · intro i id hi
    obtain ⟨hvm,hout⟩ := h.adding i id hi
    exact ⟨hvm,fun hm => hout (Finmap.mem_erase.mp hm).2⟩

theorem IdsFresh.put {st : State} (h : IdsFresh st) {i : ℕ} {vm : VmId} {tierId : TierId} {p : Pc}
    (hi : (st.pc i).adding = some vm) (hp : p.adding = none) :
    IdsFresh ((st.setMap (st.reg.id2TierMap.insert vm tierId)).setPc i p) := by
  have hlt : i < st.next := h.lt_next (fun he => by rw [he] at hi; cases hi)
  have hmoved : IdsFresh (st.setPc i p) := h.setPc hlt (fun id hid => by rw [hp] at hid; cases hid)
  refine ⟨?_,hmoved.master,?_,hmoved.unique,hmoved.unused⟩
  · intro id hid
    rcases Finmap.mem_insert.mp hid with rfl | hid
    · exact .inr (h.adding i id hi).1
    · exact h.known id hid
  · intro j id hj
    obtain ⟨hvm,hout⟩ := hmoved.adding j id hj
    refine ⟨hvm,?_⟩
    intro hid
    rcases Finmap.mem_insert.mp hid with rfl | hid
    · have hne : j ≠ i := by
        rintro rfl
        simp [State.setPc,hp] at hj
      have hold : (st.pc j).adding = some id := by simpa [State.setPc,State.setMap,hne] using hj
      exact hne (h.unique j i id hold hi)
    · exact hout hid

theorem IdsFresh.startVM {st : State} (h : IdsFresh st) {i : ℕ} {vm : VmId} {tierId : TierId}
    (hi : i < st.next) (hnew : vm ∉ st.vms) (hone : vm ≠ 1) :
    IdsFresh ({ st with vms := st.vms.insert vm tierId }.setPc i (.addLock vm tierId)) := by
  have hmap : vm ∉ st.reg.id2TierMap := fun hm => (h.known vm hm).elim hone hnew
  have hother : ∀ j, (st.pc j).adding ≠ some vm := fun j hj => hnew (h.adding j vm hj).1
  have hcases : ∀ j id, (Function.update st.pc i (.addLock vm tierId) j).adding = some id →
      j = i ∧ id = vm ∨ (st.pc j).adding = some id := by
    intro j id hj
    by_cases he : j = i
    · subst he
      rw [Function.update_self] at hj
      exact .inl ⟨rfl,(Option.some.inj hj).symm⟩
    · rw [Function.update_of_ne he] at hj
      exact .inr hj
  refine ⟨?_,?_,?_,?_,?_⟩
  · intro id hid
    exact (h.known id hid).imp_right (fun hv => Finmap.mem_insert.mpr (.inr hv))
  · intro h1
    rcases Finmap.mem_insert.mp h1 with h1 | h1
    · exact hone h1.symm
    · exact h.master h1
  · intro j id hj
    rcases hcases j id hj with ⟨_,rfl⟩ | hj
    · exact ⟨Finmap.mem_insert.mpr (.inl rfl),hmap⟩
    · obtain ⟨hvm,hout⟩ := h.adding j id hj
      exact ⟨Finmap.mem_insert.mpr (.inr hvm),hout⟩
  · intro j k id hj hk
    rcases hcases j id hj with ⟨rfl,rfl⟩ | hj'
    · rcases hcases k id hk with ⟨rfl,_⟩ | hk'
      · rfl
      · exact absurd hk' (hother k)
    · rcases hcases k id hk with ⟨_,rfl⟩ | hk'
      · exact absurd hj' (hother j)
      · exact h.unique j k id hj' hk'
  · intro j hj
    have hne : j ≠ i := by
      rintro rfl
      exact absurd hj (Nat.not_le.mpr hi)
    exact (Function.update_of_ne hne _ _).trans (h.unused j hj)

theorem IdsFresh.issue {st : State} (h : IdsFresh st) (c : Call) : IdsFresh (st.issue c) := by
  have hentry : c.entry.adding = none := by cases c <;> rfl
  have hold : ∀ j id, ((st.issue c).pc j).adding = some id → (st.pc j).adding = some id := by
    intro j id hj
    by_cases he : j = st.next
    · subst he
      simp [State.issue,hentry] at hj
    · simpa [State.issue,he] using hj
  refine ⟨h.known,h.master,fun j id hj => h.adding j id (hold j id hj),?_,?_⟩
  · intro j k id hj hk
    exact h.unique j k id (hold j id hj) (hold k id hk)
  · intro j hj
    simp only [State.issue] at hj
    have hne : j ≠ st.next := by omega
    simpa [State.issue,hne] using h.unused j (by omega)

theorem idsFresh_start : IdsFresh start := by
  refine ⟨?_,Finmap.notMem_empty,?_,?_,fun _ _ => rfl⟩
  · intro id hid
    simp only [start,Registry.masterHandlerStart_map,Finmap.mem_insert,Finmap.notMem_empty,or_false] at hid
    exact .inl hid
  · intro i id hi
    cases hi
  · intro i j id hi
    cases hi

theorem IdsFresh.monitors {st : State} (h : IdsFresh st) (a b : Option ℕ) :
    IdsFresh { st with classMonitor := a, masterMonitor := b } :=
  ⟨h.known,h.master,h.adding,h.unique,h.unused⟩

theorem IdsFresh.counter {st : State} (h : IdsFresh st) (c : Tier) (n : ℤ) :
    IdsFresh { st with reg := st.reg.setCounter c n } := by
  have hmap := st.reg.setCounter_map c n
  refine ⟨?_,h.master,?_,h.unique,h.unused⟩
  · intro id hid
    exact h.known id (hmap ▸ hid)
  · intro i id hi
    exact ⟨(h.adding i id hi).1,fun hm => (h.adding i id hi).2 (hmap ▸ hm)⟩

theorem idsFresh_step {st st' : State} {a : Action} (h : IdsFresh st)
    (hs : system.step st a = some st') : IdsFresh st' := by
  cases a with
  | call c =>
    cases hs
    exact h.issue c
  | step i vmId =>
    have hi : i < st.next := h.lt_next (ne_idle_of_advance hs)
    cases advanced_of_advance hs with
    | startVM tierId hpc hnew hone => exact h.startVM hi hnew hone
    | addPut vm tierId hpc => exact h.put (by simp [hpc,Pc.adding]) rfl
    | addLock vm tierId hpc hfree =>
      exact (h.monitors (some i) st.masterMonitor).setPc hi (by simp [hpc,Pc.adding])
    | addContainsKey vm tierId hpc =>
      refine h.setPc hi ?_
      intro id
      split <;> simp [hpc,Pc.adding]
    | addUnlock tierId hpc =>
      exact (h.monitors none st.masterMonitor).setPc hi (by simp [Pc.adding])
    | incLoad c hpc => exact h.setPc hi (by simp [Pc.adding])
    | incStore c loaded hpc => exact (h.counter c (loaded + 1)).setPc hi (by simp [Pc.adding])
    | delLock vm hpc hfree =>
      exact (h.monitors st.classMonitor (some i)).setPc hi (by simp [Pc.adding])
    | delContainsKey vm hpc =>
      refine h.setPc hi ?_
      intro id
      split <;> simp [Pc.adding]
    | delGet vm tierId hpc hget => exact h.setPc hi (by simp [Pc.adding])
    | delGetNull vm hpc hget =>
      exact (h.monitors st.classMonitor none).setPc hi (by simp [Pc.adding])
    | delRemove vm tierId hpc =>
      refine (h.erase vm).setPc hi ?_
      intro id
      cases decCounter tierId <;> simp [Pc.adding]
    | decLoad c hpc => exact h.setPc hi (by simp [Pc.adding])
    | decStore c loaded hpc => exact (h.counter c (loaded - 1)).setPc hi (by simp [Pc.adding])
    | delUnlock hpc => exact (h.monitors st.classMonitor none).setPc hi (by simp [Pc.adding])
    | tierContainsKey id hpc =>
      refine h.setPc hi ?_
      intro id'
      split <;> simp [Pc.adding]
    | tierGet id tierId hpc hget => exact h.setPc hi (by simp [Pc.adding])
    | tierGetNull id hpc hget => exact h.setPc hi (by simp [Pc.adding])

end Handlers
end AutoScaling
