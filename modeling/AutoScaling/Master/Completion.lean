import AutoScaling.Foundation.Monitor
import AutoScaling.Foundation.Potential
import AutoScaling.Master.LostUpdates
import Mathlib.Algebra.Order.BigOperators.Group.Finset

/-! # That the master's calls complete

Two monitors are taken and never one inside the other. Each call takes a bounded number of
steps of its own, and as long as a call is under way some call can take its next step.
Under the monitor of the master object deletes do not disturb each other's counters.
-/
namespace AutoScaling
namespace Handlers
open Monitor

def Pc.inAdd : Pc → Bool
  | .addContainsKey _ _ => true
  | .addPut _ _ => true
  | .addUnlock _ => true
  | _ => false

def Pc.inDelete : Pc → Bool
  | .delContainsKey _ => true
  | .delGet _ => true
  | .delRemove _ _ => true
  | .decLoad _ => true
  | .decStore _ _ => true
  | .delUnlock => true
  | _ => false

def Pc.isOver : Pc → Bool
  | .returned _ => true
  | .nullPointerException => true
  | _ => false

/-- The steps that a call has at most still to take. -/
def Pc.rank : Pc → ℕ
  | .idle => 7
  | .startVM _ => 7
  | .addLock _ _ => 6
  | .addContainsKey _ _ => 5
  | .addPut _ _ => 4
  | .addUnlock _ => 3
  | .incLoad _ => 2
  | .incStore _ _ => 1
  | .delLock _ => 7
  | .delContainsKey _ => 6
  | .delGet _ => 5
  | .delRemove _ _ => 4
  | .decLoad _ => 3
  | .decStore _ _ => 2
  | .delUnlock => 1
  | .tierContainsKey _ => 2
  | .tierGet _ => 1
  | .returned _ => 0
  | .nullPointerException => 0

theorem Pc.rank_le (p : Pc) : p.rank ≤ 7 := by cases p <;> simp [rank]

/-- Each monitor names the thread inside the code that it guards. -/
structure Monitors (st : State) : Prop where
  cls : Guards st.classMonitor Pc.inAdd st.pc
  master : Guards st.masterMonitor Pc.inDelete st.pc

theorem monitors_start : Monitors start := by
  constructor <;> exact fun _ => iff_of_false (fun h => by cases h) (fun h => by cases h)

theorem monitors_step {st st' : State} {a : Action} (hids : IdsFresh st) (h : Monitors st)
    (hs : system.step st a = some st') : Monitors st' := by
  obtain ⟨hcls,hmaster⟩ := h
  cases a with
  | call c =>
    cases hs
    have hidle : st.pc st.next = .idle := hids.unused st.next le_rfl
    have hadd : c.entry.inAdd = false := by cases c <;> rfl
    have hdel : c.entry.inDelete = false := by cases c <;> rfl
    exact ⟨hcls.stay (by rw [hidle, hadd]; rfl),hmaster.stay (by rw [hidle, hdel]; rfl)⟩
  | step i vmId =>
    cases advanced_of_advance hs with
    | addLock vm tierId hpc hfree =>
      rw [hfree] at hcls
      exact ⟨hcls.enter rfl,hmaster.stay (by rw [hpc]; rfl)⟩
    | addUnlock tierId hpc =>
      exact ⟨hcls.leave (by rw [hpc]; rfl) rfl,hmaster.stay (by rw [hpc]; rfl)⟩
    | addContainsKey vm tierId hpc =>
      split <;> exact ⟨hcls.stay (by rw [hpc]; rfl),hmaster.stay (by rw [hpc]; rfl)⟩
    | delLock vm hpc hfree =>
      rw [hfree] at hmaster
      exact ⟨hcls.stay (by rw [hpc]; rfl),hmaster.enter rfl⟩
    | delContainsKey vm hpc =>
      split <;> exact ⟨hcls.stay (by rw [hpc]; rfl),hmaster.stay (by rw [hpc]; rfl)⟩
    | delGetNull vm hpc hget =>
      exact ⟨hcls.stay (by rw [hpc]; rfl),hmaster.leave (by rw [hpc]; rfl) rfl⟩
    | delRemove vm tierId hpc =>
      cases decCounter tierId <;>
        exact ⟨hcls.stay (by rw [hpc]; rfl),hmaster.stay (by rw [hpc]; rfl)⟩
    | delUnlock hpc => exact ⟨hcls.stay (by rw [hpc]; rfl),hmaster.leave (by rw [hpc]; rfl) rfl⟩
    | tierContainsKey id hpc =>
      split <;> exact ⟨hcls.stay (by rw [hpc]; rfl),hmaster.stay (by rw [hpc]; rfl)⟩
    | startVM tierId hpc hnew hone =>
      exact ⟨hcls.stay (by rw [hpc]; rfl),hmaster.stay (by rw [hpc]; rfl)⟩
    | addPut vm tierId hpc => exact ⟨hcls.stay (by rw [hpc]; rfl),hmaster.stay (by rw [hpc]; rfl)⟩
    | incLoad c hpc => exact ⟨hcls.stay (by rw [hpc]; rfl),hmaster.stay (by rw [hpc]; rfl)⟩
    | incStore c loaded hpc => exact ⟨hcls.stay (by rw [hpc]; rfl),hmaster.stay (by rw [hpc]; rfl)⟩
    | delGet vm tierId hpc hget =>
      exact ⟨hcls.stay (by rw [hpc]; rfl),hmaster.stay (by rw [hpc]; rfl)⟩
    | decLoad c hpc => exact ⟨hcls.stay (by rw [hpc]; rfl),hmaster.stay (by rw [hpc]; rfl)⟩
    | decStore c loaded hpc => exact ⟨hcls.stay (by rw [hpc]; rfl),hmaster.stay (by rw [hpc]; rfl)⟩
    | tierGet id tierId hpc hget =>
      exact ⟨hcls.stay (by rw [hpc]; rfl),hmaster.stay (by rw [hpc]; rfl)⟩
    | tierGetNull id hpc hget =>
      exact ⟨hcls.stay (by rw [hpc]; rfl),hmaster.stay (by rw [hpc]; rfl)⟩

/-- A step of a thread brings its call closer to the end and moves no other. -/
theorem rank_advance {st st' : State} {i : ℕ} {vmId : VmId} (hs : st.advance i vmId = some st') :
    (st'.pc i).rank < (st.pc i).rank ∧ st'.next = st.next ∧ ∀ j, j ≠ i → st'.pc j = st.pc j := by
  have hmove : ∀ p : Pc, p.rank < (st.pc i).rank → ∀ u : State, u.pc = Function.update st.pc i p →
      u.next = st.next → (u.pc i).rank < (st.pc i).rank ∧ u.next = st.next ∧
        ∀ j, j ≠ i → u.pc j = st.pc j := by
    intro p hp u hu hnext
    rw [hu, Function.update_self]
    exact ⟨hp,hnext,fun j hj => Function.update_of_ne hj _ _⟩
  cases advanced_of_advance hs with
  | addContainsKey vm tierId hpc =>
    refine hmove _ ?_ _ rfl rfl
    split <;> simp [hpc,Pc.rank]
  | delContainsKey vm hpc =>
    refine hmove _ ?_ _ rfl rfl
    split <;> simp [hpc,Pc.rank]
  | delRemove vm tierId hpc =>
    refine hmove _ ?_ _ rfl rfl
    cases decCounter tierId <;> simp [hpc,Pc.rank]
  | tierContainsKey id hpc =>
    refine hmove _ ?_ _ rfl rfl
    split <;> simp [hpc,Pc.rank]
  | startVM tierId hpc => exact hmove _ (by simp [hpc,Pc.rank]) _ rfl rfl
  | addLock vm tierId hpc => exact hmove _ (by simp [hpc,Pc.rank]) _ rfl rfl
  | addPut vm tierId hpc => exact hmove _ (by simp [hpc,Pc.rank]) _ rfl rfl
  | addUnlock tierId hpc => exact hmove _ (by simp [hpc,Pc.rank]) _ rfl rfl
  | incLoad c hpc => exact hmove _ (by simp [hpc,Pc.rank]) _ rfl rfl
  | incStore c loaded hpc => exact hmove _ (by simp [hpc,Pc.rank]) _ rfl rfl
  | delLock vm hpc => exact hmove _ (by simp [hpc,Pc.rank]) _ rfl rfl
  | delGet vm tierId hpc => exact hmove _ (by simp [hpc,Pc.rank]) _ rfl rfl
  | delGetNull vm hpc => exact hmove _ (by simp [hpc,Pc.rank]) _ rfl rfl
  | decLoad c hpc => exact hmove _ (by simp [hpc,Pc.rank]) _ rfl rfl
  | decStore c loaded hpc => exact hmove _ (by simp [hpc,Pc.rank]) _ rfl rfl
  | delUnlock hpc => exact hmove _ (by simp [hpc,Pc.rank]) _ rfl rfl
  | tierGet id tierId hpc => exact hmove _ (by simp [hpc,Pc.rank]) _ rfl rfl
  | tierGetNull id hpc => exact hmove _ (by simp [hpc,Pc.rank]) _ rfl rfl

/-- Whether a call can take its next step now. -/
def State.waits (st : State) (i : ℕ) : Prop :=
  (∃ vmId tierId, st.pc i = .addLock vmId tierId) ∧ st.classMonitor ≠ none ∨
    (∃ vmId, st.pc i = .delLock vmId) ∧ st.masterMonitor ≠ none

/-- A call that is neither over nor kept out by a monitor can take its next step; a
scale-out because there is always an id that no VM has. -/
theorem exists_step {st : State} {i : ℕ} (hidle : st.pc i ≠ .idle) (hover : (st.pc i).isOver = false)
    (hwait : ¬ st.waits i) : ∃ vmId st', system.step st (.step i vmId) = some st' := by
  obtain ⟨vmId,hnew⟩ := Infinite.exists_notMem_finset (insert 1 st.vms.keys)
  rw [Finset.mem_insert, not_or, Finmap.mem_keys] at hnew
  refine ⟨vmId,?_⟩
  simp only [system,step,State.advance]
  cases hpc : st.pc i with
  | idle => exact absurd hpc hidle
  | returned val =>
    rw [hpc] at hover
    cases hover
  | nullPointerException =>
    rw [hpc] at hover
    cases hover
  | startVM tierId => exact ⟨_,if_pos ⟨hnew.2,hnew.1⟩⟩
  | addLock vm tierId =>
    have hfree : st.classMonitor = none := by
      by_contra hm
      exact hwait (.inl ⟨⟨vm,tierId,hpc⟩,hm⟩)
    exact ⟨_,if_pos hfree⟩
  | delLock vm =>
    have hfree : st.masterMonitor = none := by
      by_contra hm
      exact hwait (.inr ⟨⟨vm,hpc⟩,hm⟩)
    exact ⟨_,if_pos hfree⟩
  | delGet vm =>
    dsimp only
    split <;> exact ⟨_,rfl⟩
  | tierGet id =>
    dsimp only
    split <;> exact ⟨_,rfl⟩
  | _ => exact ⟨_,rfl⟩

theorem not_waits_of_inside {st : State} {i : ℕ}
    (h : (st.pc i).inAdd = true ∨ (st.pc i).inDelete = true) :
    st.pc i ≠ .idle ∧ (st.pc i).isOver = false ∧ ¬ st.waits i := by
  have hwait : st.waits i → (st.pc i).inAdd = false ∧ (st.pc i).inDelete = false := by
    rintro (⟨⟨vm,tierId,hpc⟩,_⟩ | ⟨⟨vm,hpc⟩,_⟩) <;> rw [hpc] <;> exact ⟨rfl,rfl⟩
  refine ⟨?_,?_,?_⟩
  · intro hidle
    rw [hidle] at h
    exact h.elim Bool.false_ne_true Bool.false_ne_true
  · cases hpc : st.pc i with
    | returned val =>
      rw [hpc] at h
      exact absurd h (fun h => h.elim Bool.false_ne_true Bool.false_ne_true)
    | nullPointerException =>
      rw [hpc] at h
      exact absurd h (fun h => h.elim Bool.false_ne_true Bool.false_ne_true)
    | _ => rfl
  · intro hw
    rw [(hwait hw).1, (hwait hw).2] at h
    exact h.elim Bool.false_ne_true Bool.false_ne_true

theorem Monitors.progress {st : State} (h : Monitors st) {i : ℕ} (hidle : st.pc i ≠ .idle)
    (hover : (st.pc i).isOver = false) : ∃ j vmId st', system.step st (.step j vmId) = some st' := by
  by_cases hwait : st.waits i
  · have hholder : ∃ j, (st.pc j).inAdd = true ∨ (st.pc j).inDelete = true := by
      rcases hwait with ⟨_,hm⟩ | ⟨_,hm⟩
      · exact (h.cls.holder hm).imp (fun _ => .inl)
      · exact (h.master.holder hm).imp (fun _ => .inr)
    obtain ⟨j,hj⟩ := hholder
    obtain ⟨hidle',hover',hwait'⟩ := not_waits_of_inside hj
    exact ⟨j,exists_step hidle' hover' hwait'⟩
  · exact ⟨i,exists_step hidle hover hwait⟩

theorem State.setPc_pc (st : State) (i : ℕ) (p : Pc) : (st.setPc i p).pc i = p := Function.update_self _ _ _

theorem State.issue_pc_next (st : State) (c : Call) : (st.issue c).pc st.next = c.entry :=
  Function.update_self _ _ _

theorem State.issue_pc_of_ne (st : State) (c : Call) {i : ℕ} (hi : i ≠ st.next) :
    (st.issue c).pc i = st.pc i :=
  Function.update_of_ne hi _ _

def AllBegun (st : State) : Prop := ∀ i < st.next, st.pc i ≠ .idle

theorem allBegun_step {st st' : State} {a : Action} (h : AllBegun st) (hs : system.step st a = some st') :
    AllBegun st' := by
  intro i hi
  cases a with
  | call c =>
    cases hs
    by_cases he : i = st.next
    · rw [he, State.issue_pc_next]
      cases c <;> exact Pc.noConfusion
    · rw [st.issue_pc_of_ne c he]
      exact h i (Nat.lt_of_le_of_ne (Nat.lt_succ_iff.mp hi) he)
  | step j vmId =>
    obtain ⟨hrank,hnext,hother⟩ := rank_advance hs
    rw [hnext] at hi
    by_cases hj : i = j
    · subst hj
      intro hidle
      rw [hidle] at hrank
      exact absurd (st.pc i).rank_le (Nat.not_le.mpr hrank)
    · rw [hother i hj]
      exact h i hi

def Action.isStep : Action → Bool
  | .step _ _ => true
  | .call _ => false

def Action.isCall : Action → Bool
  | .step _ _ => false
  | .call _ => true

def State.rank (st : State) : ℕ := ∑ i ∈ Finset.range st.next, (st.pc i).rank

theorem rank_step {st st' : State} {a : Action} (hids : IdsFresh st) (hs : system.step st a = some st') :
    (if a.isStep then 1 else 0) + st'.rank ≤ (if a.isCall then 7 else 0) + st.rank := by
  cases a with
  | call c =>
    cases hs
    have hout : st.next ∉ Finset.range st.next := Finset.notMem_range_self
    have hothers := IndexedSum.sum_update_of_notMem hout st.pc c.entry (fun _ => Pc.rank)
    have hsum : (st.issue c).rank = st.rank + c.entry.rank := by
      simp only [State.rank,State.issue,Finset.sum_range_succ,Function.update_self,hothers]
    have hentry := c.entry.rank_le
    change 0 + (st.issue c).rank ≤ 7 + st.rank
    omega
  | step i vmId =>
    obtain ⟨hrank,hnext,hother⟩ := rank_advance hs
    have hi : i ∈ Finset.range st.next := Finset.mem_range.mpr (hids.lt_next (ne_idle_of_advance hs))
    have hlt : st'.rank < st.rank := by
      rw [State.rank, State.rank, hnext]
      refine Finset.sum_lt_sum ?_ ⟨i,hi,hrank⟩
      intro j _
      by_cases hj : j = i
      · rw [hj]
        exact hrank.le
      · rw [hother j hj]
    change 1 + st'.rank ≤ 0 + st.rank
    omega

/-- What holds in every run, whoever calls what: ids are fresh and the monitors in order. -/
structure Sound (st : State) : Prop where
  ids : IdsFresh st
  monitors : Monitors st
  begun : AllBegun st

theorem sound_step {st st' : State} {a : Action} (h : Sound st) (hs : system.step st a = some st') :
    Sound st' :=
  ⟨idsFresh_step h.ids hs,monitors_step h.ids h.monitors hs,allBegun_step h.begun hs⟩

theorem sound_start : Sound start := ⟨idsFresh_start,monitors_start,fun i hi => absurd hi (Nat.not_lt_zero i)⟩

theorem sound_run {as : List Action} {st : State} (hr : system.run start as = some st) : Sound st :=
  LabelledSystem.run_invariant (fun _ _ _ => sound_step) hr sound_start

/-- In every interleaving of calls, at most one thread is inside `addVM2Map` and at most one
inside `deleteVMFromMap`; the calls take at most seven steps each; and while any is not over
some thread can go on. So no choice of steps keeps the calls from completing. -/
theorem calls_complete (as : List Action) (st : State) (hr : system.run start as = some st) :
    (∀ i j, (st.pc i).inAdd = true → (st.pc j).inAdd = true → i = j) ∧
    (∀ i j, (st.pc i).inDelete = true → (st.pc j).inDelete = true → i = j) ∧
    as.countP Action.isStep ≤ 7 * as.countP Action.isCall ∧
    ((∀ i < st.next, (st.pc i).isOver = true) ∨
      ∃ i vmId st', system.step st (.step i vmId) = some st') := by
  have h := sound_run hr
  refine ⟨fun _ _ => h.monitors.cls.exclusive,fun _ _ => h.monitors.master.exclusive,?_,?_⟩
  · have hle := LabelledSystem.countP_le (w := State.rank) (p := Action.isStep) (q := Action.isCall) 7
      (fun _ _ _ hu hs => sound_step hu hs) (fun _ _ _ hu hs => rank_step hu.ids hs) hr sound_start
    have hnone : start.rank = 0 := rfl
    omega
  · by_cases hall : ∀ i < st.next, (st.pc i).isOver = true
    · exact .inl hall
    · push Not at hall
      obtain ⟨i,hi,hover⟩ := hall
      exact .inr (h.monitors.progress (h.begun i hi) (Bool.eq_false_of_not_eq_true hover))

theorem calls_complete_overlappingScaleOuts : ∃ st, system.run start overlappingScaleOuts = some st ∧
    overlappingScaleOuts.countP Action.isStep ≤ 14 := by
  have hrun : (system.run start overlappingScaleOuts).isSome := by decide
  obtain ⟨st,hst⟩ := Option.isSome_iff_exists.mp hrun
  exact ⟨st,hst,(calls_complete overlappingScaleOuts st hst).2.2.1⟩

def Pc.inScaleOut : Pc → Bool
  | .startVM _ => true
  | .addLock _ _ => true
  | .addContainsKey _ _ => true
  | .addPut _ _ => true
  | .addUnlock _ => true
  | .incLoad _ => true
  | .incStore _ _ => true
  | _ => false

def NoScaleOut (_ : State) : Action → Prop
  | .call (.scaleOut _) => False
  | _ => True

instance decidableNoScaleOut (st : State) : (a : Action) → Decidable (NoScaleOut st a)
  | .call (.scaleOut _) => .isFalse id
  | .call (.deleteVMFromMap _) => .isTrue trivial
  | .call (.getTier _) => .isTrue trivial
  | .step _ _ => .isTrue trivial

/-- No increment is under way, and a delete about to store has loaded what is there. -/
structure OnlyDeletes (st : State) : Prop where
  sound : Sound st
  noScaleOut : ∀ i, (st.pc i).inScaleOut = false
  loaded : ∀ i c n, st.pc i = .decStore c n → n = st.reg.counter c

theorem OnlyDeletes.move {st st' : State} (h : OnlyDeletes st) (hsound : Sound st') {i : ℕ}
    (hother : ∀ j, j ≠ i → st'.pc j = st.pc j) (hcounter : ∀ c, st'.reg.counter c = st.reg.counter c)
    (hout : (st'.pc i).inScaleOut = false)
    (hloaded : ∀ c n, st'.pc i = .decStore c n → n = st.reg.counter c) : OnlyDeletes st' := by
  refine ⟨hsound,?_,?_⟩
  · intro j
    by_cases hj : j = i
    · rw [hj]
      exact hout
    · rw [hother j hj]
      exact h.noScaleOut j
  · intro j c n hpc
    rw [hcounter]
    by_cases hj : j = i
    · rw [hj] at hpc
      exact hloaded c n hpc
    · rw [hother j hj] at hpc
      exact h.loaded j c n hpc

theorem onlyDeletes_step {st st' : State} {a : Action} (h : OnlyDeletes st) (ha : NoScaleOut st a)
    (hs : system.step st a = some st') : OnlyDeletes st' ∧ StoresCurrent st a := by
  have hsound := sound_step h.sound hs
  cases a with
  | call c =>
    cases hs
    refine ⟨h.move hsound (i := st.next) (fun j hj => st.issue_pc_of_ne c hj) (fun _ => rfl) ?_ ?_,
      fun _ => rfl⟩
    · rw [st.issue_pc_next]
      cases c with
      | scaleOut tierId => exact absurd ha id
      | _ => rfl
    · rw [st.issue_pc_next]
      intro d n he
      cases c <;> cases he
  | step i vmId =>
    obtain ⟨_,_,hother⟩ := rank_advance hs
    have hout := h.noScaleOut i
    have hstay : ∀ p : Pc, st'.pc i = p → p.inScaleOut = false → (∀ c, st'.reg.counter c = st.reg.counter c) →
        (∀ c n, p = .decStore c n → n = st.reg.counter c) → OnlyDeletes st' := by
      intro p hp hpout hcounter hloaded
      exact h.move hsound hother hcounter (hp ▸ hpout) (fun c n he => hloaded c n (hp.symm.trans he))
    have hquiet : (∀ c n, st.pc i ≠ .incStore c n) → (∀ c n, st.pc i ≠ .decStore c n) →
        StoresCurrent st (.step i vmId) := by
      intro hinc hdec c
      simp only [staleness]
    cases advanced_of_advance hs with
    | decStore c loaded hpc =>
      -- the counter that is stored may only have been loaded by a thread inside the same monitor
      have halone : ∀ j d n, j ≠ i → st.pc j ≠ .decStore d n := by
        intro j d n hj hpcj
        exact hj (h.sound.monitors.master.exclusive (by rw [hpcj]; rfl) (by rw [hpc]; rfl))
      refine ⟨⟨hsound,?_,?_⟩,?_⟩
      · intro j
        by_cases hj : j = i
        · rw [hj, State.setPc_pc]
          rfl
        · rw [hother j hj]
          exact h.noScaleOut j
      · intro j d n hpcj
        by_cases hj : j = i
        · rw [hj, State.setPc_pc] at hpcj
          cases hpcj
        · rw [hother j hj] at hpcj
          exact absurd hpcj (halone j d n hj)
      · intro d
        have hload := h.loaded i c loaded hpc
        simp only [staleness,hpc]
        split
        · rename_i hd
          rw [hload, hd, Int.sub_self]
        · rfl
    | decLoad c hpc =>
      refine ⟨hstay _ (State.setPc_pc _ _ _) rfl (fun _ => rfl) ?_,hquiet (by simp [hpc]) (by simp [hpc])⟩
      intro d n he
      cases he
      rfl
    | delLock vm hpc hfree =>
      exact ⟨hstay _ (State.setPc_pc _ _ _) rfl (fun _ => rfl) (fun _ _ he => by cases he),
        hquiet (by simp [hpc]) (by simp [hpc])⟩
    | delContainsKey vm hpc =>
      refine ⟨hstay _ (State.setPc_pc _ _ _) ?_ (fun _ => rfl) ?_,hquiet (by simp [hpc]) (by simp [hpc])⟩
      · split <;> rfl
      · split <;> exact fun _ _ he => by cases he
    | delGet vm tierId hpc hget =>
      exact ⟨hstay _ (State.setPc_pc _ _ _) rfl (fun _ => rfl) (fun _ _ he => by cases he),
        hquiet (by simp [hpc]) (by simp [hpc])⟩
    | delGetNull vm hpc hget =>
      exact ⟨hstay _ (State.setPc_pc _ _ _) rfl (fun _ => rfl) (fun _ _ he => by cases he),
        hquiet (by simp [hpc]) (by simp [hpc])⟩
    | delRemove vm tierId hpc =>
      refine ⟨hstay _ (State.setPc_pc _ _ _) ?_ ?_ ?_,hquiet (by simp [hpc]) (by simp [hpc])⟩
      · cases decCounter tierId <;> rfl
      · exact fun c => by cases c <;> rfl
      · cases decCounter tierId <;> exact fun _ _ he => by cases he
    | delUnlock hpc =>
      exact ⟨hstay _ (State.setPc_pc _ _ _) rfl (fun _ => rfl) (fun _ _ he => by cases he),
        hquiet (by simp [hpc]) (by simp [hpc])⟩
    | tierContainsKey id hpc =>
      refine ⟨hstay _ (State.setPc_pc _ _ _) ?_ (fun _ => rfl) ?_,hquiet (by simp [hpc]) (by simp [hpc])⟩
      · split <;> rfl
      · split <;> exact fun _ _ he => by cases he
    | tierGet id tierId hpc hget =>
      exact ⟨hstay _ (State.setPc_pc _ _ _) rfl (fun _ => rfl) (fun _ _ he => by cases he),
        hquiet (by simp [hpc]) (by simp [hpc])⟩
    | tierGetNull id hpc hget =>
      exact ⟨hstay _ (State.setPc_pc _ _ _) rfl (fun _ => rfl) (fun _ _ he => by cases he),
        hquiet (by simp [hpc]) (by simp [hpc])⟩
    | startVM tierId hpc => rw [hpc] at hout; cases hout
    | addLock vm tierId hpc => rw [hpc] at hout; cases hout
    | addContainsKey vm tierId hpc => rw [hpc] at hout; cases hout
    | addPut vm tierId hpc => rw [hpc] at hout; cases hout
    | addUnlock tierId hpc => rw [hpc] at hout; cases hout
    | incLoad c hpc => rw [hpc] at hout; cases hout
    | incStore c loaded hpc => rw [hpc] at hout; cases hout

theorem Pc.inScaleOut_of_isOver {p : Pc} (h : p = .idle ∨ p.isOver = true) : p.inScaleOut = false := by
  rcases h with rfl | h
  · rfl
  · cases p <;> cases h <;> rfl

theorem Sound.onlyDeletes {st : State} (h : Sound st) (hover : ∀ i < st.next, (st.pc i).isOver = true) :
    OnlyDeletes st := by
  have hquiet : ∀ i, st.pc i = .idle ∨ (st.pc i).isOver = true := by
    intro i
    by_cases hi : i < st.next
    · exact .inr (hover i hi)
    · exact .inl (h.ids.unused i (Nat.not_lt.mp hi))
  refine ⟨h,fun i => Pc.inScaleOut_of_isOver (hquiet i),?_⟩
  intro i c n hpc
  have hi := hquiet i
  rw [hpc] at hi
  rcases hi with hi | hi <;> cases hi

theorem drift_append (c : Tier) {st st' : State} {as bs : List Action} (hr : system.run st as = some st') :
    drift c st (as ++ bs) = drift c st as + drift c st' bs := by
  induction as generalizing st with
  | nil =>
    cases hr
    exact (Int.zero_add _).symm
  | cons a as ih =>
    obtain ⟨u,hu,hr⟩ := system.run_cons_eq_some.mp hr
    simp only [List.cons_append,drift,hu,Option.elim_some,ih hr,Int.add_assoc]

end Handlers
end AutoScaling
