import AutoScaling.Master.Registry

/-! # One server process

The static fields of a process, what the routines of the three kinds of server compute
from them, and the program points of a slave. A remote call on the master is two
program points, sent and replied to. `midFactor` and `frontFactor` are the exact
rationals 33/10 and 29/10; clock differences are taken in 64 bits and `++` in 32.
-/
namespace AutoScaling

/-- Subtraction of Java `long`s. -/
def longSub (a b : ℤ) : ℤ := (a - b).bmod (2 ^ 64)

/-- `++` on a Java `int`. -/
def intInc (n : ℤ) : ℤ := (n + 1).bmod (2 ^ 32)

theorem longSub_of_nonneg {a b : ℤ} (ha : 0 ≤ a) (ha' : a < 2 ^ 63) (hb : 0 ≤ b) (hb' : b < 2 ^ 63) :
    longSub a b = a - b := by
  unfold longSub
  apply Int.bmod_eq_of_le <;> omega

theorem longSub_le {a b : ℤ} (h : b ≤ a) : longSub a b ≤ a - b := by
  unfold longSub
  rw [Int.bmod_eq_emod]
  split <;> omega

theorem sub_lt_of_longSub_lt {a b n : ℤ} (hn : 0 ≤ n) (hlt : a - b < 2 ^ 63) (h : longSub a b < n) :
    a - b < n := by
  by_contra hle
  have hexact : longSub a b = a - b := by
    unfold longSub
    apply Int.bmod_eq_of_le <;> omega
  omega

theorem intInc_bmod (n : ℤ) : intInc (n.bmod (2 ^ 32)) = (n + 1).bmod (2 ^ 32) := by
  unfold intInc
  exact Int.bmod_add_bmod

theorem intInc_of_le {n k : ℤ} (h0 : 0 ≤ n) (hk : n ≤ k) (hlt : k < 2 ^ 31 - 1) : intInc n = n + 1 := by
  unfold intInc
  apply Int.bmod_eq_of_le <;> omega

/-- The static fields that each process has its own copy of. -/
structure Statics where
  allowedMasterProcess : ℤ
  lastProcessTime : ℤ
  masterProcessCount : ℤ
  fastRequestCount : ℤ
  masterStartTime : ℤ
  shortQueueCount : ℤ
  lastAddFrontTime : ℤ
  deriving DecidableEq

namespace Statics

def initial : Statics := ⟨15,0,0,0,0,0,0⟩

/-- The test of `midRoutine` for scaling in. -/
def idle (st : Statics) (now midMasterCnt : ℤ) : Bool :=
  st.lastProcessTime ≠ 0 && longSub now st.lastProcessTime > 2000 && midMasterCnt > 1

/-- The static fields after `dropFastRequest`, and whether it drops the request. -/
def dropFastRequest (st : Statics) (now : ℤ) : Statics × Bool :=
  let fast := if longSub now st.lastProcessTime < 400 then intInc st.fastRequestCount else 0
  if fast > 20 then ({ st with fastRequestCount := 0 },true)
  else ({ st with fastRequestCount := fast },false)

/-- The static fields after `frontScaleIn`, and whether it shuts down. -/
def frontScaleIn (st : Statics) (frontMasterCnt masterRequestLen : ℤ) : Statics × Bool :=
  if masterRequestLen < 2 then
    let short := intInc st.shortQueueCount
    ({ st with shortQueueCount := short },short > 55 && frontMasterCnt > 1)
  else ({ st with shortQueueCount := 0 },false)

/-- The rate decision of `handleBooting`: the scale-outs it makes, in order. -/
def bootRate (st : Statics) (now : ℤ) (queueLen : ℕ) : Statics × List Tier :=
  let timeDiff := longSub now st.masterStartTime
  if timeDiff > 1000 then
    let decided :=
      if queueLen ≠ 0 then
        let interval := timeDiff.tdiv queueLen
        if interval < 185 then ({ st with allowedMasterProcess := 25 },[.front,.mid,.mid,.mid,.mid])
        else if interval < 250 then (st,[.mid])
        else (st,[])
      else (st,[])
    ({ decided.1 with masterStartTime := 2 ^ 63 - 1 },decided.2)
  else (st,[])

/-- What `handleBooting` does after `SL.processRequest(r)`; `true` is `SL.dropHead()`. -/
def bootProcessed (st : Statics) (now : ℤ) : Statics × Bool :=
  let close := st.lastProcessTime ≠ 0 && longSub now st.lastProcessTime < 800
  ({ st with masterProcessCount := intInc st.masterProcessCount, lastProcessTime := now },close)

/-- `if (lastAddFrontTime == 0) lastAddFrontTime = now.getTime();` -/
def addFrontClock (st : Statics) (now : ℤ) : Statics :=
  if st.lastAddFrontTime = 0 then { st with lastAddFrontTime := now } else st

/-- The test of `masterRoutine` for adding a front server. -/
def frontBehind (st : Statics) (now : ℤ) (queueLen : ℕ) (frontCount : ℤ) : Bool :=
  longSub now st.lastAddFrontTime > 3000 && 10 * (queueLen : ℤ) > 29 * frontCount

end Statics

/-- `masterRequestLen > midMasterCnt * midFactor` -/
def overloaded (masterRequestLen midMasterCnt : ℤ) : Bool := 10 * masterRequestLen > 33 * midMasterCnt

/-- Who took a request from `SL.getNextRequest()`. -/
inductive Origin
  | front (id : VmId)
  | master
  | masterBoot
  deriving DecidableEq

/-- A request with the ghost record of who took it. -/
structure Ticket (R : Type*) where
  origin : Origin
  request : R
  deriving DecidableEq

/-- What has happened to a request, and at whose hands where its origin does not say:
the entries of a ghost log. -/
inductive Event (R : Type*)
  | took (r : Ticket R)
  | queued (r : Ticket R)
  | polled (i : VmId) (r : Ticket R)
  | processed (i : VmId) (r : Ticket R)
  | dropped (i : VmId) (r : Ticket R)
  deriving DecidableEq

/-- A remote call that has been sent, or executed and replied to. -/
inductive Await (ρ : Type*)
  | sent
  | replied (val : ρ)
  deriving DecidableEq

/-- The program points of a slave. `exited` and `ended` keep, as ghosts, whether the
master has executed the deregistration, and what the slave held when it stopped. -/
inductive SlavePc (R : Type*)
  | off
  | booting
  | getTier (a : Await TierId)
  | frontHandler
  | frontRoutine
  | frontVMCount (a : Await ℤ)
  | frontLength (frontMasterCnt : ℤ) (a : Await ℤ)
  | frontNext
  | frontAdd (r : Ticket R) (a : Await Unit)
  | midHandler
  | midRoutine
  | midVMCount (now : ℤ) (a : Await ℤ)
  | midLength (now midMasterCnt : ℤ) (a : Await ℤ)
  | midPoll (now midMasterCnt masterRequestLen : ℤ) (a : Await (Option (Ticket R)))
  | midFastDrop (r : Ticket R)
  | midScaleOut (midMasterCnt masterRequestLen : ℤ) (r : Ticket R) (a : Await Unit)
  | midDrop (r : Ticket R)
  | midDropTail
  | midProcess (now : ℤ) (r : Ticket R)
  | midProcessing (now : ℤ)
  | shutDown (tier : Tier)
  | lookupMaster (tier : Tier)
  | deleteVM (tier : Tier) (a : Await Unit)
  | exited (tier : Tier) (deregistered : Bool)
  | ended (tier : Option Tier) (held : Option (Ticket R))
  | unserved
  deriving DecidableEq

structure Slave (R : Type*) where
  pc : SlavePc R
  statics : Statics
  slQueue : List R

namespace Slave
variable {R : Type*}

def initial : Slave R := ⟨.off,.initial,[]⟩

def goto (s : Slave R) (pc : SlavePc R) : Slave R := { s with pc := pc }

/-- The slave's own next step, up to its next remote call; `now` is the clock, read
where the routine makes a `Date`. `none` where it waits. -/
def run (i : VmId) (s : Slave R) (now : ℤ) : Option (Slave R × List (Event R)) :=
  match s.pc with
  | .booting => some (s.goto (.getTier .sent),[])
  | .getTier (.replied tierId) =>
    some (s.goto (if tierId = 0 then .frontHandler else if tierId = 1 then .midHandler
      else .unserved),[])
  | .frontHandler => some (s.goto .frontRoutine,[])
  | .frontRoutine => some (s.goto (.frontVMCount .sent),[])
  | .frontVMCount (.replied cnt) => some (s.goto (.frontLength cnt .sent),[])
  | .frontLength cnt (.replied len) =>
    let scaledIn := s.statics.frontScaleIn cnt len
    some ({ s with statics := scaledIn.1 }.goto (if scaledIn.2 then .shutDown .front else .frontNext),[])
  | .frontNext =>
    match s.slQueue with
    | [] => none
    | r :: rest =>
      some ({ s with slQueue := rest }.goto (.frontAdd ⟨.front i,r⟩ .sent),[.took ⟨.front i,r⟩])
  | .frontAdd _ (.replied _) => some (s.goto .frontRoutine,[])
  | .midHandler => some (s.goto .midRoutine,[])
  | .midRoutine => some (s.goto (.midVMCount now .sent),[])
  | .midVMCount start (.replied cnt) => some (s.goto (.midLength start cnt .sent),[])
  | .midLength start cnt (.replied len) =>
    some (s.goto (if s.statics.idle start cnt then .shutDown .mid else .midPoll start cnt len .sent),[])
  | .midPoll start cnt len (.replied (some r)) =>
    let shed := s.statics.dropFastRequest now
    some ({ s with statics := shed.1 }.goto
      (if shed.2 then .midFastDrop r
      else if overloaded len cnt then .midScaleOut cnt len r .sent
      else .midProcess start r),[])
  | .midPoll start _ _ (.replied none) =>
    let last := if s.statics.lastProcessTime = 0 then start else s.statics.lastProcessTime
    some ({ s with statics := { s.statics with lastProcessTime := last } }.goto .midRoutine,[])
  | .midFastDrop r => some (s.goto .midRoutine,[.dropped i r])
  | .midScaleOut _ _ r (.replied _) => some (s.goto (.midDrop r),[])
  | .midDrop r => some (s.goto .midDropTail,[.dropped i r])
  | .midDropTail => some ({ s with slQueue := s.slQueue.dropLast }.goto .midRoutine,[])
  | .midProcess start r => some (s.goto (.midProcessing start),[.processed i r])
  | .midProcessing start =>
    some ({ s with statics := { s.statics with lastProcessTime := start } }.goto .midRoutine,[])
  | .shutDown tier => some ({ s with slQueue := [] }.goto (.lookupMaster tier),[])
  | .lookupMaster tier => some (s.goto (.deleteVM tier .sent),[])
  | .deleteVM tier (.replied _) => some (s.goto (.exited tier true),[])
  | _ => none

end Slave

namespace SlavePc
variable {R : Type*}

def tier : SlavePc R → Option Tier
  | .frontHandler => some .front
  | .frontRoutine => some .front
  | .frontVMCount _ => some .front
  | .frontLength _ _ => some .front
  | .frontNext => some .front
  | .frontAdd _ _ => some .front
  | .midHandler => some .mid
  | .midRoutine => some .mid
  | .midVMCount _ _ => some .mid
  | .midLength _ _ _ => some .mid
  | .midPoll _ _ _ _ => some .mid
  | .midFastDrop _ => some .mid
  | .midScaleOut _ _ _ _ => some .mid
  | .midDrop _ => some .mid
  | .midDropTail => some .mid
  | .midProcess _ _ => some .mid
  | .midProcessing _ => some .mid
  | .shutDown tier => some tier
  | .lookupMaster tier => some tier
  | .deleteVM tier _ => some tier
  | .exited tier _ => some tier
  | .ended tier _ => tier
  | _ => none

/-- The request that the slave holds, or that a call or a reply of its carries. -/
def held : SlavePc R → Option (Ticket R)
  | .frontAdd r .sent => some r
  | .midPoll _ _ _ (.replied r) => r
  | .midFastDrop r => some r
  | .midScaleOut _ _ r _ => some r
  | .midDrop r => some r
  | .midProcess _ r => some r
  | .ended _ r => r
  | _ => none

def isOff : SlavePc R → Bool
  | .off => true
  | _ => false

theorem isOff_iff {pc : SlavePc R} : pc.isOff = true ↔ pc = .off := by
  cases pc <;> simp [isOff]

def loopEnded : SlavePc R → Bool
  | .exited _ _ => true
  | .ended _ _ => true
  | _ => false

end SlavePc

/-- An exception out of the call that the slave is making. `shutDown` catches it from
`deleteVMFromMap` and exits; `getInstance` turns it into the `null` that the next line
dereferences; everywhere else it ends the handler's loop or the handler. A call sent
and not executed is then never executed. -/
def Slave.throws {R : Type*} (s : Slave R) : Option (Slave R) :=
  match s.pc with
  | .off => none
  | .frontRoutine => none
  | .midRoutine => none
  | .exited _ _ => none
  | .ended _ _ => none
  | .unserved => none
  | .deleteVM tier .sent => some (s.goto (.exited tier false))
  | .deleteVM tier (.replied _) => some (s.goto (.exited tier true))
  | pc => some (s.goto (.ended pc.tier pc.held))

namespace Slave
variable {R : Type*}

inductive Ran (i : VmId) (now : ℤ) (st : Statics) :
    List R → SlavePc R → Slave R → List (Event R) → Prop
  | booting {q : List R} : Ran i now st q .booting ⟨.getTier .sent,st,q⟩ []
  | toFront {q : List R} : Ran i now st q (.getTier (.replied 0)) ⟨.frontHandler,st,q⟩ []
  | toMid {q : List R} : Ran i now st q (.getTier (.replied 1)) ⟨.midHandler,st,q⟩ []
  | toNone {q : List R} (tierId : TierId) (h0 : tierId ≠ 0) (h1 : tierId ≠ 1) :
      Ran i now st q (.getTier (.replied tierId)) ⟨.unserved,st,q⟩ []
  | frontHandler {q : List R} : Ran i now st q .frontHandler ⟨.frontRoutine,st,q⟩ []
  | frontRoutine {q : List R} : Ran i now st q .frontRoutine ⟨.frontVMCount .sent,st,q⟩ []
  | frontVMCount {q : List R} (cnt : ℤ) :
      Ran i now st q (.frontVMCount (.replied cnt)) ⟨.frontLength cnt .sent,st,q⟩ []
  | frontShutDown {q : List R} (cnt len : ℤ) (hshut : (st.frontScaleIn cnt len).2 = true) :
      Ran i now st q (.frontLength cnt (.replied len))
        ⟨.shutDown .front,(st.frontScaleIn cnt len).1,q⟩ []
  | frontStay {q : List R} (cnt len : ℤ) (hstay : (st.frontScaleIn cnt len).2 = false) :
      Ran i now st q (.frontLength cnt (.replied len)) ⟨.frontNext,(st.frontScaleIn cnt len).1,q⟩ []
  | frontNext (r : R) (rest : List R) :
      Ran i now st (r :: rest) .frontNext ⟨.frontAdd ⟨.front i,r⟩ .sent,st,rest⟩ [.took ⟨.front i,r⟩]
  | frontAdd {q : List R} (r : Ticket R) (u : Unit) :
      Ran i now st q (.frontAdd r (.replied u)) ⟨.frontRoutine,st,q⟩ []
  | midHandler {q : List R} : Ran i now st q .midHandler ⟨.midRoutine,st,q⟩ []
  | midRoutine {q : List R} : Ran i now st q .midRoutine ⟨.midVMCount now .sent,st,q⟩ []
  | midVMCount {q : List R} (start cnt : ℤ) :
      Ran i now st q (.midVMCount start (.replied cnt)) ⟨.midLength start cnt .sent,st,q⟩ []
  | midShutDown {q : List R} (start cnt len : ℤ) (hidle : st.idle start cnt = true) :
      Ran i now st q (.midLength start cnt (.replied len)) ⟨.shutDown .mid,st,q⟩ []
  | midStay {q : List R} (start cnt len : ℤ) (hbusy : st.idle start cnt = false) :
      Ran i now st q (.midLength start cnt (.replied len)) ⟨.midPoll start cnt len .sent,st,q⟩ []
  | midNothing {q : List R} (start cnt len : ℤ) :
      Ran i now st q (.midPoll start cnt len (.replied none)) ⟨.midRoutine,{ st with
        lastProcessTime := if st.lastProcessTime = 0 then start else st.lastProcessTime },q⟩ []
  | midShed {q : List R} (start cnt len : ℤ) (r : Ticket R) (hshed : (st.dropFastRequest now).2 = true) :
      Ran i now st q (.midPoll start cnt len (.replied (some r)))
        ⟨.midFastDrop r,(st.dropFastRequest now).1,q⟩ []
  | midOver {q : List R} (start cnt len : ℤ) (r : Ticket R)
      (hkeep : (st.dropFastRequest now).2 = false) (hover : overloaded len cnt = true) :
      Ran i now st q (.midPoll start cnt len (.replied (some r)))
        ⟨.midScaleOut cnt len r .sent,(st.dropFastRequest now).1,q⟩ []
  | midServe {q : List R} (start cnt len : ℤ) (r : Ticket R)
      (hkeep : (st.dropFastRequest now).2 = false) (hover : overloaded len cnt = false) :
      Ran i now st q (.midPoll start cnt len (.replied (some r)))
        ⟨.midProcess start r,(st.dropFastRequest now).1,q⟩ []
  | midFastDrop {q : List R} (r : Ticket R) :
      Ran i now st q (.midFastDrop r) ⟨.midRoutine,st,q⟩ [.dropped i r]
  | midScaleOut {q : List R} (cnt len : ℤ) (r : Ticket R) (u : Unit) :
      Ran i now st q (.midScaleOut cnt len r (.replied u)) ⟨.midDrop r,st,q⟩ []
  | midDrop {q : List R} (r : Ticket R) :
      Ran i now st q (.midDrop r) ⟨.midDropTail,st,q⟩ [.dropped i r]
  | midDropTail {q : List R} : Ran i now st q .midDropTail ⟨.midRoutine,st,q.dropLast⟩ []
  | midProcess {q : List R} (start : ℤ) (r : Ticket R) :
      Ran i now st q (.midProcess start r) ⟨.midProcessing start,st,q⟩ [.processed i r]
  | midProcessing {q : List R} (start : ℤ) :
      Ran i now st q (.midProcessing start) ⟨.midRoutine,{ st with lastProcessTime := start },q⟩ []
  | shutDown {q : List R} (tier : Tier) : Ran i now st q (.shutDown tier) ⟨.lookupMaster tier,st,[]⟩ []
  | lookupMaster {q : List R} (tier : Tier) :
      Ran i now st q (.lookupMaster tier) ⟨.deleteVM tier .sent,st,q⟩ []
  | deleteVM {q : List R} (tier : Tier) (u : Unit) :
      Ran i now st q (.deleteVM tier (.replied u)) ⟨.exited tier true,st,q⟩ []

theorem ran_of_run {i : VmId} {s s' : Slave R} {now : ℤ} {ev : List (Event R)}
    (h : s.run i now = some (s',ev)) : Ran i now s.statics s.slQueue s.pc s' ev := by
  rcases s with ⟨pc,st,q⟩
  cases pc with
  | booting => cases h; exact .booting
  | getTier a =>
    cases a <;> cases h
    rename_i tierId
    simp only [goto]
    split_ifs with h0 h1
    · subst h0
      exact .toFront
    · subst h1
      exact .toMid
    · exact .toNone tierId h0 h1
  | frontHandler => cases h; exact .frontHandler
  | frontRoutine => cases h; exact .frontRoutine
  | frontVMCount a => cases a <;> cases h; exact .frontVMCount _
  | frontLength cnt a =>
    cases a <;> cases h
    simp only [goto]
    split_ifs with hshut
    · exact .frontShutDown cnt _ hshut
    · exact .frontStay cnt _ (by simpa using hshut)
  | frontNext => cases q <;> cases h; exact .frontNext _ _
  | frontAdd r a => cases a <;> cases h; exact .frontAdd r _
  | midHandler => cases h; exact .midHandler
  | midRoutine => cases h; exact .midRoutine
  | midVMCount start a => cases a <;> cases h; exact .midVMCount start _
  | midLength start cnt a =>
    cases a <;> cases h
    simp only [goto]
    split_ifs with hidle
    · exact .midShutDown start cnt _ hidle
    · exact .midStay start cnt _ (by simpa using hidle)
  | midPoll start cnt len a =>
    cases a with
    | sent => cases h
    | replied o =>
      cases o with
      | none => cases h; exact .midNothing start cnt len
      | some r =>
        cases h
        simp only [goto]
        split_ifs with hshed hover
        · exact .midShed start cnt len r hshed
        · exact .midOver start cnt len r (by simpa using hshed) hover
        · exact .midServe start cnt len r (by simpa using hshed) (by simpa using hover)
  | midFastDrop r => cases h; exact .midFastDrop r
  | midScaleOut cnt len r a => cases a <;> cases h; exact .midScaleOut cnt len r _
  | midDrop r => cases h; exact .midDrop r
  | midDropTail => cases h; exact .midDropTail
  | midProcess start r => cases h; exact .midProcess start r
  | midProcessing start => cases h; exact .midProcessing start
  | shutDown tier => cases h; exact .shutDown tier
  | lookupMaster tier => cases h; exact .lookupMaster tier
  | deleteVM tier a => cases a <;> cases h; exact .deleteVM tier _
  | _ => cases h

theorem ne_off_of_run {i : VmId} {s : Slave R} {now : ℤ} {moved : Slave R × List (Event R)}
    (h : s.run i now = some moved) : s.pc ≠ .off := by
  intro hoff
  simp only [run,hoff] at h
  cases h

/-- An exception ends a slave's work, in `System.exit` or not. -/
theorem pc_of_throws {s s' : Slave R} (h : s.throws = some s') :
    (∃ tier deregistered, s'.pc = .exited tier deregistered) ∨ ∃ tier held, s'.pc = .ended tier held := by
  rcases s with ⟨pc,st,q⟩
  cases pc with
  | deleteVM tier a => cases a <;> cases h <;> exact .inl ⟨_,_,rfl⟩
  | getTier a => cases a <;> cases h <;> exact .inr ⟨_,_,rfl⟩
  | _ => cases h <;> exact .inr ⟨_,_,rfl⟩

theorem ne_off_of_throws {s s' : Slave R} (h : s.throws = some s') : s.pc ≠ .off := by
  intro hoff
  simp only [throws,hoff] at h
  cases h

end Slave
end AutoScaling
