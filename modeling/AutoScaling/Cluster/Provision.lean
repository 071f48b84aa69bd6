import AutoScaling.Cluster.MidTier
import Mathlib.Data.Rat.Floor
import Mathlib.Tactic.Linarith
import Mathlib.Tactic.FieldSimp

/-! # How far the mid tier is provisioned after boot

Outside boot only `midRoutine` starts mid servers. It decides on a count and a queue
length that it has read before, so what bounds `midCount` is how many servers there are
when the master executes the call, not when the slave decided on it.
-/
namespace AutoScaling
namespace Cluster
variable {R : Type*}

/-- `SL.getStatusVM(2)` no longer reads `Booting`. -/
def NotBooting (st : State R) : Action R → Prop
  | .main booting _ _ => st.main = .loop → booting = false
  | _ => True

/-- `B` servers, or as many as `L` requests call for at 3.3 each. -/
def provision (B : ℤ) (L : ℕ) : ℤ := max B ⌈(10 * L / 33 : ℚ)⌉

def WithinProvision (B : ℤ) (st : State R) : Prop := st.reg.midCount ≤ provision B st.peak

/-- The slave has sent `scaleOut(1)`, and the count and the length it decided on. -/
def scalingOut : SlavePc R → Option (ℤ × ℤ)
  | .midScaleOut cnt len _ .sent => some (cnt,len)
  | _ => none

/-- The master executes `scaleOut(1)` while there are no more servers than its caller had
counted. -/
def CountCurrent (st : State R) : Action R → Prop
  | .execute i _ => ∀ read ∈ scalingOut (st.slaves i).pc, st.reg.midCount ≤ read.1
  | _ => True

instance decidableNotBooting (st : State R) : (a : Action R) → Decidable (NotBooting st a)
  | .main booting _ _ => decidable_of_iff (st.main.atLoop = true → booting = false)
      (by rw [MainPc.atLoop_iff]; rfl)
  | .boot _ => .isTrue trivial
  | .run _ _ => .isTrue trivial
  | .execute _ _ => .isTrue trivial
  | .arrive _ _ => .isTrue trivial
  | .throws _ => .isTrue trivial

instance decidableCountCurrent (st : State R) : (a : Action R) → Decidable (CountCurrent st a)
  | .execute i _ =>
    inferInstanceAs (Decidable (∀ read ∈ scalingOut (st.slaves i).pc, st.reg.midCount ≤ read.1))
  | .main _ _ _ => .isTrue trivial
  | .boot _ => .isTrue trivial
  | .run _ _ => .isTrue trivial
  | .arrive _ _ => .isTrue trivial
  | .throws _ => .isTrue trivial

theorem lt_provision {B c : ℤ} {L : ℕ} : c < provision B L ↔ c < B ∨ 33 * c < 10 * L := by
  have hceil : c < ⌈(10 * L / 33 : ℚ)⌉ ↔ 33 * c < 10 * (L : ℤ) := by
    rw [Int.lt_ceil, lt_div_iff₀ (by norm_num)]
    constructor
    · intro h
      have hcast : ((c * 33 : ℤ) : ℚ) < ((10 * L : ℤ) : ℚ) := by
        push_cast
        exact h
      have hint : c * 33 < 10 * (L : ℤ) := Int.cast_lt.mp hcast
      omega
    · intro h
      have hint : c * 33 < 10 * (L : ℤ) := by omega
      have hcast : ((c * 33 : ℤ) : ℚ) < ((10 * L : ℤ) : ℚ) := Int.cast_lt.mpr hint
      push_cast at hcast
      exact hcast
  rw [provision, lt_max_iff, hceil]

theorem provision_mono {B : ℤ} {L L' : ℕ} (h : L ≤ L') : provision B L ≤ provision B L' := by
  apply max_le_max le_rfl
  apply Int.ceil_mono
  have hcast : (L : ℚ) ≤ L' := Nat.cast_le.mpr h
  linarith

/-- Out of boot for as long as VM 2 is not reported as booting again. -/
theorem inBoot_step {st st' : State R} {a : Action R} (hb : st.main.inBoot = false)
    (hn : NotBooting st a) (hs : system.step st a = some st') : st'.main.inBoot = false := by
  cases a with
  | main booting now vmId =>
    simp only [system,step,State.mainStep] at hs
    cases hm : st.main with
    | loop =>
      have hread : booting = false := hn hm
      subst hread
      simp only [hm] at hs
      cases hs
      rfl
    | next =>
      simp only [hm] at hs
      split at hs <;> cases hs
      rfl
    | addRequest r =>
      simp only [hm] at hs
      cases hs
      rfl
    | scaleCheck =>
      simp only [hm] at hs
      cases hs
      dsimp only
      split <;> rfl
    | scaleFront start =>
      simp only [hm,Option.map_eq_some_iff,scaleOutCore_eq_some] at hs
      obtain ⟨_,⟨_,rfl⟩,rfl⟩ := hs
      rfl
    | _ => simp [hm,MainPc.inBoot] at hb
  | _ =>
    rw [(thread_of_step (by simp) hs).1]
    exact hb

theorem WithinProvision.of_le {B : ℤ} {st st' : State R} (h : WithinProvision B st)
    (hcount : st'.reg.midCount ≤ st.reg.midCount) (hpeak : st.peak ≤ st'.peak) :
    WithinProvision B st' :=
  hcount.trans (h.trans (provision_mono hpeak))

theorem deleteVMFromMap_midCount_le (reg : Registry) (id : VmId) :
    (reg.deleteVMFromMap id).midCount ≤ reg.midCount := by
  cases hid : reg.id2TierMap.lookup id with
  | none => rw [Registry.deleteVMFromMap_of_notMem (Finmap.lookup_eq_none.mp hid)]
  | some tierId =>
    rw [Registry.deleteVMFromMap_midCount hid]
    split <;> omega

theorem withinProvision_scaleOut {B : ℤ} {st : State R} (h : Inv st) {i vmId : VmId} {pc : SlavePc R}
    (hnew : vmId ∉ st.vms ∧ vmId ≠ 1) (hlow : 33 * st.reg.midCount < 10 * st.peak) :
    WithinProvision B ({ st with
      reg := st.reg.scaleOutCore vmId Tier.mid.id
      vms := insert vmId st.vms }.setPc i pc) := by
  have hcount : (st.reg.scaleOutCore vmId Tier.mid.id).midCount = st.reg.midCount + 1 := by
    rw [Registry.scaleOutCore_midCount (h.notMem_map hnew)]
    rfl
  have hlt : st.reg.midCount < provision B st.peak := lt_provision.mpr (.inr hlow)
  simp only [WithinProvision,State.setPc,State.setSlave,hcount]
  omega

theorem withinProvision_mainStep {B : ℤ} {st st' : State R} (h : Inv st)
    (hb : st.main.inBoot = false) (hw : WithinProvision B st) (hs : MainStepped st st') :
    WithinProvision B st' := by
  cases hs with
  | scaleOut vmId tier statics pc hnew hboot hheld hheld' =>
    cases tier with
    | mid =>
      have hin := hboot rfl
      rw [hb] at hin
      cases hin
    | front =>
      refine hw.of_le ?_ le_rfl
      simp [Registry.scaleOutCore_midCount (h.notMem_map hnew),Tier.id]
  | addRequest r hm => exact hw.of_le le_rfl (le_max_left _ _)
  | _ => exact hw

/-- What a mid server has read of the queue length, it was; and it asks for a server
only where that is more than 3.3 times the count it has read. -/
def ReadOf (peak : ℕ) : SlavePc R → Prop
  | .midLength _ _ (.replied len) => len ≤ peak
  | .midPoll _ _ len _ => len ≤ peak
  | .midScaleOut cnt len _ .sent => len ≤ peak ∧ 33 * cnt < 10 * len
  | _ => True

structure ReadsOf (st : State R) : Prop where
  queue : st.requestQueue.length ≤ st.peak
  slaves : ∀ i, ReadOf st.peak (st.slaves i).pc

theorem ReadOf.mono {peak peak' : ℕ} {pc : SlavePc R} (h : ReadOf peak pc) (hle : peak ≤ peak') :
    ReadOf peak' pc := by
  have hcast : (peak : ℤ) ≤ peak' := Nat.cast_le.mpr hle
  cases pc with
  | midLength start cnt a =>
    cases a with
    | sent => trivial
    | replied len => exact le_trans h hcast
  | midPoll start cnt len a => exact le_trans h hcast
  | midScaleOut cnt len r a =>
    cases a with
    | sent => exact ⟨le_trans h.1 hcast,h.2⟩
    | replied u => trivial
  | _ => trivial

theorem ReadOf.run {peak : ℕ} {i : VmId} {s s' : Slave R} {now : ℤ} {ev : List (Event R)}
    (h : ReadOf peak s.pc) (hs : s.run i now = some (s',ev)) : ReadOf peak s'.pc := by
  have hran := Slave.ran_of_run hs
  rcases s with ⟨pc,st,q⟩
  cases hran with
  | midStay start cnt len hbusy => exact h
  | midOver start cnt len r hkeep hover => exact ⟨h,by simpa [overloaded] using hover⟩
  | _ => trivial

theorem ReadOf.throws {peak : ℕ} {s s' : Slave R} (hs : s.throws = some s') : ReadOf peak s'.pc := by
  rcases Slave.pc_of_throws hs with ⟨tier,deregistered,hpc⟩ | ⟨tier,held,hpc⟩
  · rw [hpc]
    trivial
  · rw [hpc]
    trivial

theorem ReadsOf.update {st st' : State R} (h : ReadsOf st) {i : VmId} {s : Slave R}
    (hqueue : st'.requestQueue.length ≤ st'.peak) (hpeak : st.peak ≤ st'.peak)
    (hslaves : st'.slaves = Function.update st.slaves i s) (hs : ReadOf st'.peak s.pc) :
    ReadsOf st' := by
  refine ⟨hqueue,?_⟩
  rw [hslaves]
  exact (Function.forall_update_iff st.slaves (fun _ s => ReadOf st'.peak s.pc)).mpr
    ⟨hs,fun j _ => (h.slaves j).mono hpeak⟩

theorem ReadOf.answered {st : State R} {i : VmId} {pc pc' : SlavePc R} (h : ReadOf st.peak pc)
    (hqueue : st.requestQueue.length ≤ st.peak) (ha : Answered st i pc pc') : ReadOf st.peak pc' := by
  cases ha with
  | midLength now cnt => exact Nat.cast_le.mpr hqueue
  | midPoll now cnt len hempty => exact h
  | _ => trivial

theorem addRequest_queue_le_peak (st : State R) (r : Ticket R) :
    (st.addRequest r).requestQueue.length ≤ (st.addRequest r).peak := by
  simp only [State.addRequest,List.length_append,List.length_singleton]
  exact le_max_right _ _

theorem ReadsOf.execute {st st' : State R} {i : VmId} (h : ReadsOf st) (hs : Executed st i st') :
    ReadsOf st' := by
  have hread := h.slaves i
  cases hs with
  | answer pc ha => exact h.update h.queue le_rfl rfl (hread.answered h.queue ha)
  | addRequest r hpc =>
    exact h.update (addRequest_queue_le_peak st r) (le_max_left _ _) rfl trivial
  | pollRequest now cnt len r rest hpc hqueue =>
    have hlen := h.queue
    rw [hqueue, List.length_cons] at hlen
    rw [hpc] at hread
    exact h.update (Nat.le_of_succ_le hlen) le_rfl rfl hread
  | scaleOut vmId cnt len r hpc hnew => exact h.update h.queue le_rfl rfl trivial
  | deleteVM tier hpc => exact h.update h.queue le_rfl rfl trivial

theorem ReadsOf.mainStep {st st' : State R} (h : ReadsOf st) (hs : MainStepped st st') :
    ReadsOf st' := by
  cases hs with
  | addRequest r hm =>
    exact ⟨addRequest_queue_le_peak st r,fun i => (h.slaves i).mono (le_max_left _ _)⟩
  | _ => exact ⟨h.queue,h.slaves⟩

theorem readsOf_step {st st' : State R} {a : Action R} (h : ReadsOf st)
    (hs : system.step st a = some st') : ReadsOf st' := by
  simp only [system] at hs
  cases a with
  | main booting now vmId => exact h.mainStep (mainStepped_of_mainStep hs)
  | boot i =>
    obtain ⟨_,rfl⟩ := boot_eq_some.mp hs
    exact h.update h.queue le_rfl rfl trivial
  | run i now =>
    obtain ⟨⟨s,ev⟩,hrun,rfl⟩ := Option.map_eq_some_iff.mp hs
    exact h.update h.queue le_rfl rfl ((h.slaves i).run hrun)
  | execute i vmId => exact h.execute (executed_of_execute hs)
  | arrive i r =>
    cases hs
    simp only [State.arrive]
    split
    · exact ⟨h.queue,h.slaves⟩
    · exact h.update h.queue le_rfl rfl (h.slaves i)
  | throws i =>
    obtain ⟨s,hthrow,rfl⟩ := Option.map_eq_some_iff.mp hs
    exact h.update h.queue le_rfl rfl (ReadOf.throws hthrow)

theorem readsOf_start (masterStartTime : ℤ) : ReadsOf (start masterStartTime : State R) :=
  ⟨le_rfl,fun _ => trivial⟩

/-- What one step keeps after boot: the only one that adds a mid server is the execution of
`scaleOut(1)`, and its caller had read a queue that long and counted at least the servers
there are now. -/
theorem withinProvision_step {B : ℤ} {st st' : State R} {a : Action R} (h : Inv st)
    (hreads : ReadsOf st) (hb : st.main.inBoot = false) (hw : WithinProvision B st)
    (hc : CountCurrent st a) (hs : system.step st a = some st') : WithinProvision B st' := by
  simp only [system] at hs
  cases a with
  | main booting now vmId => exact withinProvision_mainStep h hb hw (mainStepped_of_mainStep hs)
  | boot i =>
    obtain ⟨_,rfl⟩ := boot_eq_some.mp hs
    exact hw
  | run i now =>
    obtain ⟨_,_,rfl⟩ := Option.map_eq_some_iff.mp hs
    exact hw
  | execute i vmId =>
    cases executed_of_execute hs with
    | answer pc ha => exact hw
    | addRequest r hpc => exact hw.of_le le_rfl (le_max_left _ _)
    | pollRequest now cnt len r rest hpc hqueue => exact hw
    | deleteVM tier hpc => exact hw.of_le (deleteVMFromMap_midCount_le st.reg i) le_rfl
    | scaleOut vmId cnt len r hpc hnew =>
      have hcount : st.reg.midCount ≤ cnt := hc (cnt,len) (by rw [hpc]; rfl)
      have hread := hreads.slaves i
      rw [hpc] at hread
      obtain ⟨hlen,hover⟩ := hread
      exact withinProvision_scaleOut h hnew (by omega)
  | arrive i r =>
    cases hs
    simp only [State.arrive]
    split <;> exact hw
  | throws i =>
    obtain ⟨_,_,rfl⟩ := Option.map_eq_some_iff.mp hs
    exact hw

/-- After boot, with `B` mid servers at its end, `midCount` stays within
`max(B, ceil(10 * L / 33))` in every run in which no `scaleOut(1)` is executed with more mid
servers than its caller had counted. -/
theorem withinProvision_of_countCurrent {masterStartTime : ℤ} {boot : List (Action R)} {st : State R}
    (hboot : system.run (start masterStartTime) boot = some st) (hb : st.main.inBoot = false)
    {as : List (Action R)} {st' : State R} (hr : system.run st as = some st')
    (hn : system.Meets NotBooting st as) (hc : system.Meets CountCurrent st as) :
    system.Along (WithinProvision st.reg.midCount) st as := by
  have hreads : ReadsOf st := LabelledSystem.run_invariant (fun _ _ _ => readsOf_step) hboot
    (readsOf_start masterStartTime)
  have hq : WithinProvision st.reg.midCount st := le_max_left _ _
  refine LabelledSystem.along_of_meets (I := fun u : State R =>
    Inv u ∧ ReadsOf u ∧ u.main.inBoot = false ∧ WithinProvision st.reg.midCount u) ?_ (fun _ h => h.2.2.2) hr
    (hn.and hr hc) ⟨inv_run hboot,hreads,hb,hq⟩
  rintro u a v ⟨hinv,hread,hout,hwithin⟩ ⟨hbooted,hcount⟩ hs
  exact ⟨inv_step hinv hs,readsOf_step hread hs,inBoot_step hout hbooted hs,
    withinProvision_step hinv hread hout hwithin hcount hs⟩

/-- `handleBooting` processes one request, and VM 2 is up: two mid servers. -/
def bootWithTwoMids : List (Action ℕ) :=
  twoMids ++ [.main false 0 0,.main false 0 0,.main false 0 0]

def sevenRequests : List (Action ℕ) :=
  [.arrive 1 6,.arrive 1 7,.arrive 1 8] ++ List.replicate 28 (.main false 2000 0)

def readMid (i : VmId) : List (Action ℕ) :=
  [.boot i,.run i 0,.execute i 0,.run i 0,.run i 0,.run i 3000,.execute i 0,.run i 0,.execute i 0]

def scaleOutMid (i vmId : VmId) : List (Action ℕ) :=
  [.run i 0,.execute i 0,.run i 3000,.execute i vmId]

/-- Both mid servers read 2 and 7 before either polls, and both add a server: 4 where
`max(2, ceil(70 / 33))` is 3. -/
theorem sameReadings_overrun :
    ∃ st, system.run (start 0) bootWithTwoMids = some st ∧ st.main.inBoot = false ∧
      let as := sevenRequests ++ (readMid 2 ++ (readMid 4 ++ (scaleOutMid 2 5 ++ scaleOutMid 4 6)))
      system.Meets NotBooting st as ∧ (system.run st as).isSome ∧
        ¬ system.Along (WithinProvision st.reg.midCount) st as := by
  have hrun : ∃ st, system.run (start 0) bootWithTwoMids = some st ∧ st.main.inBoot = false ∧
      let as := sevenRequests ++ (readMid 2 ++ (readMid 4 ++ (scaleOutMid 2 5 ++ scaleOutMid 4 6)))
      system.Meets NotBooting st as ∧ st.reg.midCount = 2 ∧
        ∃ st', system.run st as = some st' ∧ st'.reg.midCount = 4 ∧ st'.peak = 7 := by decide +kernel
  obtain ⟨st,hst,hb,hn,htwo,st',hst',hfour,hpeak⟩ := hrun
  refine ⟨st,hst,hb,hn,Option.isSome_iff_exists.mpr ⟨st',hst'⟩,?_⟩
  intro halong
  have hwithin := halong.last hst'
  rw [WithinProvision, hfour, hpeak, htwo] at hwithin
  have hlt : 3 < provision 2 7 := by omega
  rcases lt_provision.mp hlt with h | h <;> omega

/-- One of them decides and adds its server before the other looks. -/
theorem withinProvision_oneAfterAnother :
    ∃ st, system.run (start 0) bootWithTwoMids = some st ∧
      system.Along (WithinProvision st.reg.midCount) st
        (sevenRequests ++ (readMid 2 ++ (scaleOutMid 2 5 ++ readMid 4))) := by
  have hrun : ∃ st, system.run (start 0) bootWithTwoMids = some st ∧ st.main.inBoot = false ∧
      let as := sevenRequests ++ (readMid 2 ++ (scaleOutMid 2 5 ++ readMid 4))
      system.Meets NotBooting st as ∧ (system.run st as).isSome ∧
        system.Meets CountCurrent st as := by decide +kernel
  obtain ⟨st,hst,hb,hn,hsome,hc⟩ := hrun
  obtain ⟨st',hst'⟩ := Option.isSome_iff_exists.mp hsome
  exact ⟨st,hst,withinProvision_of_countCurrent hst hb hst' hn hc⟩

end Cluster
end AutoScaling
