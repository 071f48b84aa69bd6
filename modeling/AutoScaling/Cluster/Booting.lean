import AutoScaling.Cluster.System
import AutoScaling.Foundation.Streak

/-! # The master while the first mid-tier server boots

`handleBooting` call by call. `masterStartTime` is both the start of the measurement and,
at `Long.MAX_VALUE`, the mark that the decision has been taken; `lastProcessTime` is the
clock reading that the last processing call started with.
-/
namespace AutoScaling
open Streak

/-- What one call of `handleBooting` meets: its clock reading, `SL.getQueueLength()`, and,
as a ghost, the instant at which `SL.getNextRequest()` returns. -/
structure BootReading where
  now : ℤ
  queueLen : ℕ
  takenAt : ℤ
  deriving DecidableEq

/-- From the clock reading of the call until `SL.getNextRequest()` returns; 0 for a call that
takes no request. -/
def BootReading.wait (x : BootReading) : ℤ := x.takenAt - x.now

/-- What a call does with a request: it processes one, and may drop the head after that, or
it only drops the head. -/
inductive BootExit
  | processed (dropsHead : Bool)
  | dropped
  deriving DecidableEq

def BootExit.isProcessed : BootExit → Bool
  | .processed _ => true
  | .dropped => false

/-- `/` on Java `long`s with a divisor that is an `int` of at least 0; none is an
`ArithmeticException`. -/
def longDiv (a b : ℤ) : Option ℤ := if b = 0 then none else some (a.tdiv b)

namespace Statics

def bootDecision (st : Statics) (now : ℤ) (queueLen : ℕ) : Option (Statics × List Tier) :=
  let timeDiff := longSub now st.masterStartTime
  if timeDiff > 1000 then
    let decided :=
      if queueLen ≠ 0 then
        (longDiv timeDiff queueLen).map (fun interval =>
          if interval < 185 then
            ({ st with allowedMasterProcess := 25 },[.front,.mid,.mid,.mid,.mid])
          else if interval < 250 then (st,[.mid])
          else (st,[]))
      else some (st,[])
    decided.map (fun d => ({ d.1 with masterStartTime := 2 ^ 63 - 1 },d.2))
  else some (st,[])

def handleBooting (st : Statics) (x : BootReading) : Option (Statics × List Tier × BootExit) :=
  (st.bootDecision x.now x.queueLen).map (fun decided =>
    let st := decided.1
    if st.masterProcessCount < st.allowedMasterProcess then
      let dropsHead := st.lastProcessTime ≠ 0 && longSub x.now st.lastProcessTime < 800
      ({ st with masterProcessCount := intInc st.masterProcessCount, lastProcessTime := x.now },
        decided.2,.processed dropsHead)
    else (st,decided.2,.dropped))

theorem bootDecision_eq (st : Statics) (now : ℤ) (queueLen : ℕ) :
    st.bootDecision now queueLen = some (st.bootRate now queueLen) := by
  unfold bootDecision bootRate longDiv
  dsimp only
  split
  · by_cases hlen : queueLen = 0
    · simp [hlen]
    · have hcast : (queueLen : ℤ) ≠ 0 := by omega
      simp only [hlen,hcast,ne_eq,not_false_eq_true,if_true,if_false,Option.map_some]
  · rfl

/-- A call is the decision and then the processing of the main thread. -/
theorem handleBooting_eq (st : Statics) (x : BootReading) :
    st.handleBooting x = some (
      let decided := st.bootRate x.now x.queueLen
      if decided.1.masterProcessCount < decided.1.allowedMasterProcess then
        ((decided.1.bootProcessed x.now).1,decided.2,.processed (decided.1.bootProcessed x.now).2)
      else (decided.1,decided.2,.dropped)) := by
  unfold handleBooting
  rw [bootDecision_eq, Option.map_some]
  rfl

inductive BootRated (st : Statics) (now : ℤ) : Statics → List Tier → Prop
  | waits (hearly : ¬ 1000 < longSub now st.masterStartTime) : BootRated st now st []
  | decides (allowed : ℤ) (started : List Tier) (hlate : 1000 < longSub now st.masterStartTime)
      (hstarted : started = [] ∧ allowed = st.allowedMasterProcess ∨
        started = [.mid] ∧ allowed = st.allowedMasterProcess ∨
        started = [.front,.mid,.mid,.mid,.mid] ∧ allowed = 25) :
      BootRated st now { st with
        allowedMasterProcess := allowed, masterStartTime := 2 ^ 63 - 1 } started

theorem bootRated (st : Statics) (now : ℤ) (queueLen : ℕ) :
    BootRated st now (st.bootRate now queueLen).1 (st.bootRate now queueLen).2 := by
  unfold bootRate
  dsimp only
  split
  · rename_i hlate
    split_ifs
    · exact .decides _ _ hlate (.inr (.inr ⟨rfl,rfl⟩))
    · exact .decides _ _ hlate (.inr (.inl ⟨rfl,rfl⟩))
    · exact .decides _ _ hlate (.inl ⟨rfl,rfl⟩)
    · exact .decides _ _ hlate (.inl ⟨rfl,rfl⟩)
  · rename_i hearly
    exact .waits hearly

theorem BootRated.lastProcessTime_eq {st st' : Statics} {now : ℤ} {l : List Tier}
    (h : BootRated st now st' l) : st'.lastProcessTime = st.lastProcessTime := by
  cases h <;> rfl

theorem bootProcessed_drops_iff (st : Statics) (now : ℤ) :
    (st.bootProcessed now).2 = true ↔
      st.lastProcessTime ≠ 0 ∧ longSub now st.lastProcessTime < 800 := by
  simp [Statics.bootProcessed]

end Statics

/-- A call that has been made: the static fields before it, what it met, what it started
and what it did with a request. -/
structure BootCall where
  before : Statics
  reading : BootReading
  started : List Tier
  exit : BootExit

def BootCall.decides (c : BootCall) : Bool := longSub c.reading.now c.before.masterStartTime > 1000

def BootCall.starts (c : BootCall) : Bool := !c.started.isEmpty

/-- The master in its boot phase, with its calls of `handleBooting` so far. -/
structure Booting where
  statics : Statics
  calls : List BootCall

namespace Booting

/-- As `masterHandler` leaves the static fields, `masterStartTime` being its clock reading. -/
def start (masterStartTime : ℤ) : Booting := ⟨{ Statics.initial with masterStartTime := masterStartTime },[]⟩

def step (s : Booting) (x : BootReading) : Option Booting :=
  (s.statics.handleBooting x).map (fun r => ⟨r.1,s.calls ++ [⟨s.statics,x,r.2.1,r.2.2⟩]⟩)

def system : LabelledSystem Booting BootReading := ⟨step⟩

def processed (s : Booting) : List BootCall := s.calls.filter (fun c => c.exit.isProcessed)

def started (s : Booting) : List Tier := s.calls.flatMap (fun c => c.started)

inductive Called (s : Booting) (x : BootReading) (decided : Statics) (started : List Tier) :
    Booting → Prop
  | process (hroom : decided.masterProcessCount < decided.allowedMasterProcess) :
      Called s x decided started ⟨(decided.bootProcessed x.now).1,
        s.calls ++ [⟨s.statics,x,started,.processed (decided.bootProcessed x.now).2⟩]⟩
  | drop (hfull : ¬ decided.masterProcessCount < decided.allowedMasterProcess) :
      Called s x decided started ⟨decided,s.calls ++ [⟨s.statics,x,started,.dropped⟩]⟩

theorem called_of_step {s t : Booting} {x : BootReading} (hs : system.step s x = some t) :
    Called s x (s.statics.bootRate x.now x.queueLen).1 (s.statics.bootRate x.now x.queueLen).2 t := by
  simp only [system,step,Statics.handleBooting_eq,Option.map_some,Option.some.injEq] at hs
  subst hs
  split
  · rename_i hroom
    exact .process hroom
  · rename_i hfull
    exact .drop hfull

theorem step_isSome (s : Booting) (x : BootReading) : ∃ t, system.step s x = some t := by
  simp only [system,step,Statics.handleBooting_eq]
  exact ⟨_,rfl⟩

theorem run_isSome (masterStartTime : ℤ) (xs : List BootReading) :
    ∃ s, system.run (start masterStartTime) xs = some s := by
  generalize start masterStartTime = s
  induction xs generalizing s with
  | nil => exact ⟨s,rfl⟩
  | cons x xs ih =>
    obtain ⟨t,ht⟩ := step_isSome s x
    obtain ⟨u,hu⟩ := ih t
    exact ⟨u,LabelledSystem.run_cons_eq_some system |>.mpr ⟨t,ht,hu⟩⟩

/-- Before the decision the clock of start-up stands and nothing is started; after it the
mark stands, and what is started goes with the cap. -/
def Phase (masterStartTime : ℤ) (s : Booting) : Prop :=
  s.statics.masterStartTime = masterStartTime ∧ s.calls.countP BootCall.decides = 0 ∧
    s.started = [] ∧ s.statics.allowedMasterProcess = 15 ∨
  s.statics.masterStartTime = 2 ^ 63 - 1 ∧ s.calls.countP BootCall.decides = 1 ∧
    (s.started = [] ∧ s.statics.allowedMasterProcess = 15 ∨
      s.started = [.mid] ∧ s.statics.allowedMasterProcess = 15 ∨
      s.started = [.front,.mid,.mid,.mid,.mid] ∧ s.statics.allowedMasterProcess = 25)

structure OneShot (masterStartTime : ℤ) (s : Booting) : Prop where
  phase : Phase masterStartTime s
  startedBy : ∀ c ∈ s.calls, c.starts = true → c.decides = true
  exact : ∀ c ∈ s.calls, longSub c.reading.now c.before.masterStartTime =
    c.reading.now - c.before.masterStartTime
  count_eq : s.statics.masterProcessCount = s.processed.length
  count_le : s.statics.masterProcessCount ≤ s.statics.allowedMasterProcess

theorem oneShot_start (masterStartTime : ℤ) : OneShot masterStartTime (start masterStartTime) :=
  ⟨.inl ⟨rfl,rfl,rfl,rfl⟩,(fun c hc => by cases hc),(fun c hc => by cases hc),rfl,Int.zero_le_ofNat 15⟩

def InRun (masterStartTime : ℤ) (x : BootReading) : Prop :=
  masterStartTime ≤ x.now ∧ x.now < 2 ^ 63

theorem Phase.longSub_eq {masterStartTime : ℤ} {s : Booting} (h : Phase masterStartTime s)
    (h0 : 0 ≤ masterStartTime) {x : BootReading} (hx : InRun masterStartTime x) :
    longSub x.now s.statics.masterStartTime = x.now - s.statics.masterStartTime := by
  obtain ⟨hlow,hhigh⟩ := hx
  unfold longSub
  apply Int.bmod_eq_of_le
  · rcases h with ⟨he,_⟩ | ⟨he,_⟩ <;> omega
  · rcases h with ⟨he,_⟩ | ⟨he,_⟩ <;> omega

theorem Phase.call {masterStartTime : ℤ} {s : Booting} (h : Phase masterStartTime s)
    (h0 : 0 ≤ masterStartTime) {x : BootReading} (hx : InRun masterStartTime x) {st : Statics}
    {started : List Tier} (hrate : Statics.BootRated s.statics x.now st started) (e : BootExit) :
    Phase masterStartTime ⟨st,s.calls ++ [⟨s.statics,x,started,e⟩]⟩ ∧
      ((BootCall.mk s.statics x started e).starts = true →
        (BootCall.mk s.statics x started e).decides = true) := by
  have hsub := h.longSub_eq h0 hx
  have hcount : (s.calls ++ [BootCall.mk s.statics x started e]).countP BootCall.decides =
      s.calls.countP BootCall.decides +
        if 1000 < longSub x.now s.statics.masterStartTime then 1 else 0 := by
    rw [List.countP_append, List.countP_singleton]
    simp only [BootCall.decides,decide_eq_true_eq]
  have hstarted : (s.calls ++ [BootCall.mk s.statics x started e]).flatMap (fun c => c.started) =
      s.started ++ started := by
    rw [List.flatMap_append, List.flatMap_singleton, Booting.started]
  unfold Phase Booting.started
  rw [hcount, hstarted]
  cases hrate with
  | waits hearly =>
    rw [if_neg hearly, List.append_nil, Nat.add_zero]
    exact ⟨h,fun hne => absurd hne Bool.false_ne_true⟩
  | decides allowed started hlate hchoice =>
    refine ⟨.inr ?_,fun _ => decide_eq_true hlate⟩
    rw [if_pos hlate]
    rcases h with ⟨_,hnone,hnothing,hcap⟩ | ⟨hmark,_⟩
    · rw [hnone, hnothing, List.nil_append]
      rw [hcap] at hchoice
      exact ⟨rfl,rfl,hchoice⟩
    · obtain ⟨_,hhigh⟩ := hx
      rw [hsub, hmark] at hlate
      omega

theorem processed_process {st : Statics} {calls : List BootCall} {c : BootCall}
    (h : c.exit.isProcessed = true) : (Booting.mk st (calls ++ [c])).processed =
      calls.filter (fun c => c.exit.isProcessed) ++ [c] := by
  rw [processed, List.filter_append, List.filter_singleton, h, cond_true]

theorem processed_drop {st : Statics} {calls : List BootCall} {c : BootCall}
    (h : c.exit.isProcessed = false) : (Booting.mk st (calls ++ [c])).processed =
      calls.filter (fun c => c.exit.isProcessed) := by
  rw [processed, List.filter_append, List.filter_singleton, h, cond_false, List.append_nil]

theorem oneShot_step {masterStartTime : ℤ} {s t : Booting} {x : BootReading}
    (h : OneShot masterStartTime s) (h0 : 0 ≤ masterStartTime) (hx : InRun masterStartTime x)
    (hs : system.step s x = some t) : OneShot masterStartTime t := by
  have hrate := s.statics.bootRated x.now x.queueLen
  generalize hdecided : (s.statics.bootRate x.now x.queueLen).1 = decided at hrate
  generalize hstarted : (s.statics.bootRate x.now x.queueLen).2 = started at hrate
  have hcalled := called_of_step hs
  rw [hdecided, hstarted] at hcalled
  have hphase := fun e => h.phase.call h0 hx hrate e
  have hcap : decided.masterProcessCount = s.statics.masterProcessCount ∧
      s.statics.allowedMasterProcess ≤ decided.allowedMasterProcess ∧
      decided.allowedMasterProcess ≤ 25 := by
    have hold : s.statics.allowedMasterProcess ≤ 25 := by
      rcases h.phase with ⟨_,_,_,hc⟩ | ⟨_,_,⟨_,hc⟩ | ⟨_,hc⟩ | ⟨_,hc⟩⟩ <;> omega
    cases hrate with
    | waits hearly => exact ⟨rfl,le_rfl,hold⟩
    | decides allowed started hlate hchoice =>
      refine ⟨rfl,?_,?_⟩ <;> rcases hchoice with ⟨_,hc⟩ | ⟨_,hc⟩ | ⟨_,hc⟩ <;> dsimp only <;> omega
  have hcount := h.count_eq
  have hle := h.count_le
  have hcalls : ∀ e, (∀ c ∈ s.calls ++ [⟨s.statics,x,started,e⟩], c.starts = true → c.decides = true) ∧
      ∀ c ∈ s.calls ++ [⟨s.statics,x,started,e⟩], longSub c.reading.now c.before.masterStartTime =
        c.reading.now - c.before.masterStartTime := by
    intro e
    exact ⟨forall_mem_concat.mpr ⟨h.startedBy,(hphase e).2⟩,
      forall_mem_concat.mpr ⟨h.exact,h.phase.longSub_eq h0 hx⟩⟩
  cases hcalled with
  | process hroom =>
    refine ⟨(hphase _).1,(hcalls _).1,(hcalls _).2,?_,?_⟩
    · rw [processed_process rfl, List.length_append, List.length_singleton]
      simp only [Statics.bootProcessed]
      rw [intInc_of_le (k := 25) (by omega) (by omega) (by omega), hcap.1, hcount]
      push_cast
      rfl
    · simp only [Statics.bootProcessed]
      rw [intInc_of_le (k := 25) (by omega) (by omega) (by omega)]
      omega
  | drop hfull =>
    refine ⟨(hphase _).1,(hcalls _).1,(hcalls _).2,?_,?_⟩
    · rw [processed_drop rfl, hcap.1, hcount]
      rfl
    · dsimp only
      omega

/-- Whatever the clock and the queue, the boot phase divides by no zero, decides once,
starts VMs in one call at most, and processes no more requests than it allows. -/
theorem handleBooting_oneShot (masterStartTime : ℤ) (h0 : 0 ≤ masterStartTime)
    (xs : List BootReading) (hclock : ∀ x ∈ xs, InRun masterStartTime x) :
    ∃ s, system.run (start masterStartTime) xs = some s ∧
      s.calls.countP BootCall.starts ≤ 1 ∧ s.calls.countP BootCall.decides ≤ 1 ∧
      (∀ c ∈ s.calls, longSub c.reading.now c.before.masterStartTime =
        c.reading.now - c.before.masterStartTime) ∧
      (s.started = [] ∨ s.started = [.mid] ∨ s.started = [.front,.mid,.mid,.mid,.mid]) ∧
      s.statics.masterProcessCount = s.processed.length ∧
      s.statics.masterProcessCount ≤ s.statics.allowedMasterProcess ∧
      s.statics.allowedMasterProcess =
        if s.started = [.front,.mid,.mid,.mid,.mid] then 25 else 15 := by
  obtain ⟨s,hr⟩ := run_isSome masterStartTime xs
  have h : OneShot masterStartTime s := LabelledSystem.run_invariant_of_meets
    (fun _ _ _ hu hx hs => oneShot_step hu h0 hx hs) hr (LabelledSystem.meets_of_forall hr hclock)
    (oneShot_start masterStartTime)
  have hdecides : s.calls.countP BootCall.decides ≤ 1 := by
    rcases h.phase with ⟨_,hd,_⟩ | ⟨_,hd,_⟩ <;> omega
  have hstarts : s.calls.countP BootCall.starts ≤ s.calls.countP BootCall.decides :=
    List.countP_mono_left h.startedBy
  refine ⟨s,hr,hstarts.trans hdecides,hdecides,h.exact,?_,h.count_eq,h.count_le,?_⟩
  · rcases h.phase with ⟨_,_,hs,_⟩ | ⟨_,_,⟨hs,_⟩ | ⟨hs,_⟩ | ⟨hs,_⟩⟩
    · exact .inl hs
    · exact .inl hs
    · exact .inr (.inl hs)
    · exact .inr (.inr hs)
  · rcases h.phase with ⟨_,_,hs,hc⟩ | ⟨_,_,⟨hs,hc⟩ | ⟨hs,hc⟩ | ⟨hs,hc⟩⟩ <;> rw [hs, hc] <;> decide

theorem handleBooting_oneShot_highRate : ∃ s,
    system.run (start 1000) [⟨1500,3,1500⟩,⟨2100,10,2100⟩,⟨9000,40,9000⟩] = some s ∧
      s.started = [.front,.mid,.mid,.mid,.mid] ∧ s.statics.masterProcessCount = 3 ∧
      s.statics.masterProcessCount ≤ s.statics.allowedMasterProcess := by
  obtain ⟨s,hr,_,_,_,_,_,hle,_⟩ :=
    handleBooting_oneShot 1000 (by decide) [⟨1500,3,1500⟩,⟨2100,10,2100⟩,⟨9000,40,9000⟩] (by
      intro x hx
      simp only [List.mem_cons,List.not_mem_nil,or_false] at hx
      rcases hx with rfl | rfl | rfl <;> exact ⟨by decide,by decide⟩)
  have hrun : ∃ s, system.run (start 1000) [⟨1500,3,1500⟩,⟨2100,10,2100⟩,⟨9000,40,9000⟩] = some s ∧
      s.started = [.front,.mid,.mid,.mid,.mid] ∧ s.statics.masterProcessCount = 3 := by
    decide +kernel
  obtain ⟨t,ht,hstarted,hcount⟩ := hrun
  rw [hr] at ht
  cases ht
  exact ⟨s,hr,hstarted,hcount,hle⟩

/-- A drop of the head right after a request is processed comes only when that request was
taken less than 800 ms after the one processed before it. -/
def DropsWhenClose (s : Booting) : Prop :=
  Each (fun before c => c.exit = .processed true →
    ∃ q, before.getLast? = some q ∧ c.reading.takenAt - q.reading.takenAt < 800) s.processed

/-- The call waits no longer for its request than the last one that processed one, and comes
less than `2^63` ms after it. -/
def WaitsNoLonger (s : Booting) (x : BootReading) : Prop :=
  ∀ q ∈ s.processed.getLast?, x.wait ≤ q.reading.wait ∧ x.now - q.reading.now < 2 ^ 63

instance decidableWaitsNoLonger (s : Booting) (x : BootReading) : Decidable (WaitsNoLonger s x) :=
  inferInstanceAs (Decidable (∀ q ∈ s.processed.getLast?,
    x.wait ≤ q.reading.wait ∧ x.now - q.reading.now < 2 ^ 63))

def LastStart (s : Booting) : Prop :=
  s.statics.lastProcessTime = s.processed.getLast?.elim 0 (fun q => q.reading.now)

theorem lastStart_step {s t : Booting} {x : BootReading} (h : LastStart s)
    (hs : system.step s x = some t) : LastStart t := by
  have hlast := (s.statics.bootRated x.now x.queueLen).lastProcessTime_eq
  cases called_of_step hs with
  | process hroom =>
    unfold LastStart
    rw [processed_process rfl, List.getLast?_concat]
    rfl
  | drop hfull =>
    unfold LastStart
    rw [processed_drop rfl, hlast]
    exact h

theorem dropsWhenClose_step {s t : Booting} {x : BootReading} (h : LastStart s) (hd : DropsWhenClose s)
    (hw : WaitsNoLonger s x) (hs : system.step s x = some t) : DropsWhenClose t := by
  have hlast := (s.statics.bootRated x.now x.queueLen).lastProcessTime_eq
  rw [h] at hlast
  unfold DropsWhenClose
  cases called_of_step hs with
  | process hroom =>
    rw [processed_process rfl, each_concat]
    refine ⟨hd,?_⟩
    intro hexit
    rw [BootExit.processed.injEq, Statics.bootProcessed_drops_iff, hlast] at hexit
    cases hq : s.processed.getLast? with
    | none => simp [hq] at hexit
    | some q =>
      obtain ⟨hwait,hrange⟩ := hw q hq
      simp only [hq,Option.elim_some] at hexit
      have hgap := sub_lt_of_longSub_lt (by decide) hrange hexit.2
      refine ⟨q,hq,?_⟩
      unfold BootReading.wait at hwait
      dsimp only
      omega
  | drop hfull =>
    rw [processed_drop rfl]
    exact hd

/-- In every run of the boot phase in which no request waits longer in `SL.getNextRequest()`
than the one processed before it, the drops after processing come only when requests are
close. -/
theorem dropsWhenClose_of_waitsNoLonger (masterStartTime : ℤ) (xs : List BootReading) (s : Booting)
    (hr : system.run (start masterStartTime) xs = some s)
    (hw : system.Meets WaitsNoLonger (start masterStartTime) xs) : DropsWhenClose s := by
  have hkept : LastStart s ∧ DropsWhenClose s := LabelledSystem.run_invariant_of_meets
    (I := fun u : Booting => LastStart u ∧ DropsWhenClose u)
    (fun _ _ _ hu hw hs => ⟨lastStart_step hu.1 hs,dropsWhenClose_step hu.1 hu.2 hw hs⟩) hr hw
    ⟨rfl,Each.nil⟩
  exact hkept.2

/-- The first request is taken and processed at once, in 100 ms; the second call then waits
ten seconds for its request. -/
def longWait : List BootReading := [⟨1000,0,1000⟩,⟨1100,0,11100⟩]

theorem longWait_not_dropsWhenClose : ∃ s, system.run (start 500) longWait = some s ∧
    s.processed.map (fun c => (c.reading.takenAt,c.exit)) =
      [(1000,.processed false),(11100,.processed true)] ∧ ¬ DropsWhenClose s := by
  have hrun : ∃ s, system.run (start 500) longWait = some s ∧
      s.processed.map (fun c => (c.reading.takenAt,c.exit)) =
        [(1000,.processed false),(11100,.processed true)] := by decide +kernel
  obtain ⟨s,hs,hcalls⟩ := hrun
  refine ⟨s,hs,hcalls,?_⟩
  intro hclose
  obtain ⟨q,rest,hsplit,hq,hrest⟩ := List.map_eq_cons_iff.mp hcalls
  obtain ⟨c,rest',rfl,hc,hrest'⟩ := List.map_eq_cons_iff.mp hrest
  rw [Prod.mk.injEq] at hq hc
  obtain ⟨q',hlast,hgap⟩ := hclose [q] c rest' hsplit hc.2
  rw [List.getLast?_singleton, Option.some.injEq] at hlast
  rw [← hlast, hq.1, hc.1] at hgap
  omega

/-- Both requests are waited for, the second for 200 ms instead of 300, and the drop after it
is right. -/
theorem dropsWhenClose_shorterWait : ∃ s,
    system.run (start 500) [⟨1000,0,1300⟩,⟨1700,0,1900⟩] = some s ∧
      s.processed.map (fun c => c.exit) = [.processed false,.processed true] ∧ DropsWhenClose s := by
  have hrun : ∃ s, system.run (start 500) [⟨1000,0,1300⟩,⟨1700,0,1900⟩] = some s ∧
      s.processed.map (fun c => c.exit) = [.processed false,.processed true] := by decide +kernel
  obtain ⟨s,hs,hexits⟩ := hrun
  exact ⟨s,hs,hexits,dropsWhenClose_of_waitsNoLonger 500 _ s hs (by decide +kernel)⟩

end Booting
end AutoScaling
