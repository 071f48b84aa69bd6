import AutoScaling.Cluster.Server
import AutoScaling.Foundation.LabelledSystem

/-! # The master and its slaves

The master executes each remote call atomically; its main thread and the slaves take
their own steps in between, in any order. Clock readings, the ids that `SL.startVM()`
returns, the status of VM 2, arrivals and exceptions are part of the actions.
-/
namespace AutoScaling

/-- The program points of the master's main thread, from `masterHandler`'s scale-outs on. -/
inductive MainPc (R : Type*)
  | startMid
  | startFront
  | loop
  | bootScaleOut (now : ℤ) (pending : List Tier)
  | bootProcess (now : ℤ)
  | bootProcessing (now : ℤ) (r : Ticket R)
  | next
  | addRequest (r : Ticket R)
  | scaleCheck
  | scaleFront (now : ℤ)
  deriving DecidableEq

def MainPc.held {R : Type*} : MainPc R → Option (Ticket R)
  | .bootProcessing _ r => some r
  | .addRequest r => some r
  | _ => none

/-- The main thread is in `handleBooting`, or has not come to its loop yet. -/
def MainPc.inBoot {R : Type*} : MainPc R → Bool
  | .startMid => true
  | .startFront => true
  | .bootScaleOut _ _ => true
  | .bootProcess _ => true
  | .bootProcessing _ _ => true
  | _ => false

def MainPc.atLoop {R : Type*} : MainPc R → Bool
  | .loop => true
  | _ => false

theorem MainPc.atLoop_iff {R : Type*} {pc : MainPc R} : pc.atLoop = true ↔ pc = .loop := by
  cases pc <;> simp [MainPc.atLoop]

namespace Cluster
variable {R : Type*}

/-- `vms` are the ids that `SL.startVM()` has returned; `log` and `peak`, the greatest
length of `requestQueue` so far, are ghosts. -/
structure State (R : Type*) where
  reg : Registry
  requestQueue : List (Ticket R)
  vms : Finset VmId
  main : MainPc R
  statics : Statics
  slQueue : List R
  slaves : VmId → Slave R
  log : List (Event R)
  peak : ℕ

namespace State

def setSlave (st : State R) (i : VmId) (s : Slave R) : State R :=
  { st with slaves := Function.update st.slaves i s }

def setPc (st : State R) (i : VmId) (pc : SlavePc R) : State R := st.setSlave i ((st.slaves i).goto pc)

def record (st : State R) (e : List (Event R)) : State R := { st with log := st.log ++ e }

def addRequest (st : State R) (r : Ticket R) : State R :=
  { st with
    requestQueue := st.requestQueue ++ [r]
    peak := max st.peak (st.requestQueue.length + 1)
    log := st.log ++ [.queued r] }

/-- `scaleOutCore` with the id that `SL.startVM()` returns, which is a new one. -/
def scaleOutCore (st : State R) (vmId : VmId) (tier : Tier) : Option (State R) :=
  if vmId ∉ st.vms ∧ vmId ≠ 1 then
    some { st with reg := st.reg.scaleOutCore vmId tier.id, vms := insert vmId st.vms }
  else none

/-- The master executes the call that slave `i` has sent. -/
def execute (st : State R) (i : VmId) (vmId : VmId) : Option (State R) :=
  match (st.slaves i).pc with
  | .getTier .sent => some (st.setPc i (.getTier (.replied (st.reg.getTier i))))
  | .frontVMCount .sent => some (st.setPc i (.frontVMCount (.replied (st.reg.getVMCount 0))))
  | .frontLength cnt .sent => some (st.setPc i (.frontLength cnt (.replied st.requestQueue.length)))
  | .frontAdd r .sent => some ((st.addRequest r).setPc i (.frontAdd r (.replied ())))
  | .midVMCount now .sent => some (st.setPc i (.midVMCount now (.replied (st.reg.getVMCount 1))))
  | .midLength now cnt .sent =>
    some (st.setPc i (.midLength now cnt (.replied st.requestQueue.length)))
  | .midPoll now cnt len .sent =>
    match st.requestQueue with
    | [] => some (st.setPc i (.midPoll now cnt len (.replied none)))
    | r :: rest =>
      some (({ st with requestQueue := rest }.record [.polled i r]).setPc i
        (.midPoll now cnt len (.replied (some r))))
  | .midScaleOut cnt len r .sent =>
    (st.scaleOutCore vmId .mid).map (fun st => st.setPc i (.midScaleOut cnt len r (.replied ())))
  | .deleteVM tier .sent =>
    some ({ st with reg := st.reg.deleteVMFromMap i }.setPc i (.deleteVM tier (.replied ())))
  | _ => none

/-- The main thread's next step; `booting` is the status of VM 2 where it is read. -/
def mainStep (st : State R) (booting : Bool) (now : ℤ) (vmId : VmId) : Option (State R) :=
  match st.main with
  | .startMid => (st.scaleOutCore vmId .mid).map (fun st => { st with main := .startFront })
  | .startFront => (st.scaleOutCore vmId .front).map (fun st => { st with main := .loop })
  | .loop =>
    if booting then
      let decided := st.statics.bootRate now st.slQueue.length
      some { st with statics := decided.1, main := .bootScaleOut now decided.2 }
    else some { st with main := .next }
  | .bootScaleOut start [] => some { st with main := .bootProcess start }
  | .bootScaleOut start (tier :: pending) =>
    (st.scaleOutCore vmId tier).map (fun st => { st with main := .bootScaleOut start pending })
  | .bootProcess start =>
    if st.statics.masterProcessCount < st.statics.allowedMasterProcess then
      match st.slQueue with
      | [] => none
      | r :: rest =>
        some ({ st with slQueue := rest, main := .bootProcessing start ⟨.masterBoot,r⟩ }.record
          [.took ⟨.masterBoot,r⟩])
    else some { st with slQueue := st.slQueue.tail, main := .loop }
  | .bootProcessing start r =>
    let processed := st.statics.bootProcessed start
    some ({ st with
      statics := processed.1
      slQueue := if processed.2 then st.slQueue.tail else st.slQueue
      main := .loop }.record [.processed 1 r])
  | .next =>
    match st.slQueue with
    | [] => none
    | r :: rest =>
      some ({ st with slQueue := rest, main := .addRequest ⟨.master,r⟩ }.record [.took ⟨.master,r⟩])
  | .addRequest r => some { st.addRequest r with main := .scaleCheck }
  | .scaleCheck =>
    let statics := st.statics.addFrontClock now
    some { st with
      statics := statics
      main := if statics.frontBehind now st.slQueue.length st.reg.frontCount then .scaleFront now
        else .loop }
  | .scaleFront start =>
    (st.scaleOutCore vmId .front).map (fun st =>
      { st with statics := { st.statics with lastAddFrontTime := start }, main := .loop })

/-- The load balancer gives a request to the front server `i`, or to the master. -/
def arrive (st : State R) (i : VmId) (r : R) : State R :=
  if i = 1 then { st with slQueue := st.slQueue ++ [r] }
  else st.setSlave i { st.slaves i with slQueue := (st.slaves i).slQueue ++ [r] }

end State

inductive Action (R : Type*)
  | main (booting : Bool) (now : ℤ) (vmId : VmId)
  | boot (i : VmId)
  | run (i : VmId) (now : ℤ)
  | execute (i : VmId) (vmId : VmId)
  | arrive (i : VmId) (r : R)
  | throws (i : VmId)

def step (st : State R) : Action R → Option (State R)
  | .main booting now vmId => st.mainStep booting now vmId
  | .boot i =>
    if i ∈ st.vms ∧ (st.slaves i).pc.isOff then some (st.setPc i .booting) else none
  | .run i now =>
    ((st.slaves i).run i now).map (fun moved => (st.setSlave i moved.1).record moved.2)
  | .execute i vmId => st.execute i vmId
  | .arrive i r => some (st.arrive i r)
  | .throws i => (st.slaves i).throws.map (fun s => st.setSlave i s)

def system : LabelledSystem (State R) (Action R) := ⟨step⟩

/-- The master before its two scale-outs, its start-up clock reading being `masterStartTime`. -/
def start (masterStartTime : ℤ) : State R where
  reg := Registry.masterHandlerStart
  requestQueue := []
  vms := ∅
  main := .startMid
  statics := { Statics.initial with masterStartTime := masterStartTime }
  slQueue := []
  slaves := fun _ => Slave.initial
  log := []
  peak := 0

theorem scaleOutCore_eq_some {st st' : State R} {vmId : VmId} {tier : Tier} :
    st.scaleOutCore vmId tier = some st' ↔ (vmId ∉ st.vms ∧ vmId ≠ 1) ∧
      st' = { st with reg := st.reg.scaleOutCore vmId tier.id, vms := insert vmId st.vms } := by
  rw [State.scaleOutCore, Option.ite_none_right_eq_some, Option.some.injEq, eq_comm (b := st')]

/-- The calls that only read, and their replies. -/
inductive Answered (st : State R) (i : VmId) : SlavePc R → SlavePc R → Prop
  | getTier : Answered st i (.getTier .sent) (.getTier (.replied (st.reg.getTier i)))
  | frontVMCount :
      Answered st i (.frontVMCount .sent) (.frontVMCount (.replied (st.reg.getVMCount 0)))
  | frontLength (cnt : ℤ) :
      Answered st i (.frontLength cnt .sent) (.frontLength cnt (.replied st.requestQueue.length))
  | midVMCount (now : ℤ) :
      Answered st i (.midVMCount now .sent) (.midVMCount now (.replied (st.reg.getVMCount 1)))
  | midLength (now cnt : ℤ) :
      Answered st i (.midLength now cnt .sent) (.midLength now cnt (.replied st.requestQueue.length))
  | midPoll (now cnt len : ℤ) (hqueue : st.requestQueue = []) :
      Answered st i (.midPoll now cnt len .sent) (.midPoll now cnt len (.replied none))

/-- What the execution of a call of slave `i` can do. -/
inductive Executed (st : State R) (i : VmId) : State R → Prop
  | answer (pc : SlavePc R) (h : Answered st i (st.slaves i).pc pc) : Executed st i (st.setPc i pc)
  | addRequest (r : Ticket R) (hpc : (st.slaves i).pc = .frontAdd r .sent) :
      Executed st i ((st.addRequest r).setPc i (.frontAdd r (.replied ())))
  | pollRequest (now cnt len : ℤ) (r : Ticket R) (rest : List (Ticket R))
      (hpc : (st.slaves i).pc = .midPoll now cnt len .sent) (hqueue : st.requestQueue = r :: rest) :
      Executed st i (({ st with requestQueue := rest }.record [.polled i r]).setPc i
        (.midPoll now cnt len (.replied (some r))))
  | scaleOut (vmId : VmId) (cnt len : ℤ) (r : Ticket R)
      (hpc : (st.slaves i).pc = .midScaleOut cnt len r .sent) (hnew : vmId ∉ st.vms ∧ vmId ≠ 1) :
      Executed st i ({ st with
        reg := st.reg.scaleOutCore vmId Tier.mid.id
        vms := insert vmId st.vms }.setPc i (.midScaleOut cnt len r (.replied ())))
  | deleteVM (tier : Tier) (hpc : (st.slaves i).pc = .deleteVM tier .sent) :
      Executed st i
        ({ st with reg := st.reg.deleteVMFromMap i }.setPc i (.deleteVM tier (.replied ())))

theorem executed_of_execute {st st' : State R} {i vmId : VmId} (hs : st.execute i vmId = some st') :
    Executed st i st' := by
  simp only [State.execute] at hs
  cases hpc : (st.slaves i).pc with
  | getTier a =>
    cases a <;> simp only [hpc] at hs <;> cases hs
    exact .answer _ (hpc ▸ .getTier)
  | frontVMCount a =>
    cases a <;> simp only [hpc] at hs <;> cases hs
    exact .answer _ (hpc ▸ .frontVMCount)
  | frontLength cnt a =>
    cases a <;> simp only [hpc] at hs <;> cases hs
    exact .answer _ (hpc ▸ .frontLength cnt)
  | frontAdd r a =>
    cases a <;> simp only [hpc] at hs <;> cases hs
    exact .addRequest r hpc
  | midVMCount now a =>
    cases a <;> simp only [hpc] at hs <;> cases hs
    exact .answer _ (hpc ▸ .midVMCount now)
  | midLength now cnt a =>
    cases a <;> simp only [hpc] at hs <;> cases hs
    exact .answer _ (hpc ▸ .midLength now cnt)
  | midPoll now cnt len a =>
    cases a with
    | sent =>
      simp only [hpc] at hs
      cases hqueue : st.requestQueue with
      | nil =>
        simp only [hqueue] at hs
        cases hs
        exact .answer _ (hpc ▸ .midPoll now cnt len hqueue)
      | cons r rest =>
        simp only [hqueue] at hs
        cases hs
        exact .pollRequest now cnt len r rest hpc hqueue
    | replied o => simp only [hpc] at hs; cases hs
  | midScaleOut cnt len r a =>
    cases a with
    | sent =>
      simp only [hpc,Option.map_eq_some_iff,scaleOutCore_eq_some] at hs
      obtain ⟨_,⟨hnew,rfl⟩,rfl⟩ := hs
      exact .scaleOut vmId cnt len r hpc hnew
    | replied u => simp only [hpc] at hs; cases hs
  | deleteVM tier a =>
    cases a <;> simp only [hpc] at hs <;> cases hs
    exact .deleteVM tier hpc
  | _ => simp only [hpc] at hs; cases hs

theorem ne_off_of_execute {st st' : State R} {i vmId : VmId} (hs : st.execute i vmId = some st') :
    (st.slaves i).pc ≠ .off := by
  intro hoff
  simp only [State.execute,hoff] at hs
  cases hs

theorem thread_of_execute {st st' : State R} {i vmId : VmId} (hs : st.execute i vmId = some st') :
    st'.main = st.main ∧ st'.statics = st.statics := by
  cases executed_of_execute hs <;> exact ⟨rfl,rfl⟩

theorem boot_eq_some {st st' : State R} {i : VmId} : step st (.boot i) = some st' ↔
    (i ∈ st.vms ∧ (st.slaves i).pc = .off) ∧ st' = st.setPc i .booting := by
  rw [← SlavePc.isOff_iff, step, Option.ite_none_right_eq_some, Option.some.injEq,
    eq_comm (b := st')]

/-- What a step of the main thread can do. Outside boot it starts front servers only. -/
inductive MainStepped (st : State R) : State R → Prop
  | quiet (statics : Statics) (slQueue : List R) (pc : MainPc R) (hheld : st.main.held = none)
      (hheld' : pc.held = none) :
      MainStepped st { st with statics := statics, slQueue := slQueue, main := pc }
  | scaleOut (vmId : VmId) (tier : Tier) (statics : Statics) (pc : MainPc R)
      (hnew : vmId ∉ st.vms ∧ vmId ≠ 1) (hboot : tier = .mid → st.main.inBoot = true)
      (hheld : st.main.held = none) (hheld' : pc.held = none) :
      MainStepped st { st with
        reg := st.reg.scaleOutCore vmId tier.id
        vms := insert vmId st.vms
        statics := statics
        main := pc }
  | takeBoot (start : ℤ) (r : R) (rest : List R) (hm : st.main = .bootProcess start) :
      MainStepped st ({ st with slQueue := rest, main := .bootProcessing start ⟨.masterBoot,r⟩ }.record
        [.took ⟨.masterBoot,r⟩])
  | process (start : ℤ) (r : Ticket R) (statics : Statics) (slQueue : List R)
      (hm : st.main = .bootProcessing start r) :
      MainStepped st ({ st with statics := statics, slQueue := slQueue, main := .loop }.record
        [.processed 1 r])
  | take (r : R) (rest : List R) (hm : st.main = .next) :
      MainStepped st ({ st with slQueue := rest, main := .addRequest ⟨.master,r⟩ }.record
        [.took ⟨.master,r⟩])
  | addRequest (r : Ticket R) (hm : st.main = .addRequest r) :
      MainStepped st { st.addRequest r with main := .scaleCheck }

theorem mainStepped_of_mainStep {st st' : State R} {booting : Bool} {now : ℤ} {vmId : VmId}
    (hs : st.mainStep booting now vmId = some st') : MainStepped st st' := by
  simp only [State.mainStep] at hs
  cases hm : st.main with
  | startMid =>
    simp only [hm,Option.map_eq_some_iff,scaleOutCore_eq_some] at hs
    obtain ⟨_,⟨hnew,rfl⟩,rfl⟩ := hs
    exact .scaleOut vmId .mid _ _ hnew (fun _ => by rw [hm]; rfl) (by rw [hm]; rfl) rfl
  | startFront =>
    simp only [hm,Option.map_eq_some_iff,scaleOutCore_eq_some] at hs
    obtain ⟨_,⟨hnew,rfl⟩,rfl⟩ := hs
    exact .scaleOut vmId .front _ _ hnew (fun he => by cases he) (by rw [hm]; rfl) rfl
  | loop =>
    simp only [hm] at hs
    split at hs <;> cases hs <;> exact .quiet _ _ _ (by rw [hm]; rfl) rfl
  | bootScaleOut start pending =>
    cases pending with
    | nil =>
      simp only [hm] at hs
      cases hs
      exact .quiet _ _ _ (by rw [hm]; rfl) rfl
    | cons tier pending =>
      simp only [hm,Option.map_eq_some_iff,scaleOutCore_eq_some] at hs
      obtain ⟨_,⟨hnew,rfl⟩,rfl⟩ := hs
      exact .scaleOut vmId tier _ _ hnew (fun _ => by rw [hm]; rfl) (by rw [hm]; rfl) rfl
  | bootProcess start =>
    simp only [hm] at hs
    split at hs
    · split at hs <;> cases hs
      exact .takeBoot start _ _ hm
    · cases hs
      exact .quiet _ _ _ (by rw [hm]; rfl) rfl
  | bootProcessing start r =>
    simp only [hm] at hs
    cases hs
    exact .process start r _ _ hm
  | next =>
    simp only [hm] at hs
    split at hs <;> cases hs
    exact .take _ _ hm
  | addRequest r =>
    simp only [hm] at hs
    cases hs
    exact .addRequest r hm
  | scaleCheck =>
    simp only [hm] at hs
    cases hs
    refine .quiet _ _ _ (by rw [hm]; rfl) ?_
    split <;> rfl
  | scaleFront start =>
    simp only [hm,Option.map_eq_some_iff,scaleOutCore_eq_some] at hs
    obtain ⟨_,⟨hnew,rfl⟩,rfl⟩ := hs
    exact .scaleOut vmId .front _ _ hnew (fun he => by cases he) (by rw [hm]; rfl) rfl

theorem slaves_of_mainStep {st st' : State R} {booting : Bool} {now : ℤ} {vmId : VmId}
    (hs : st.mainStep booting now vmId = some st') : st'.slaves = st.slaves := by
  cases mainStepped_of_mainStep hs <;> rfl

end Cluster
end AutoScaling
