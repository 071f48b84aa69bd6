import AutoScaling.Cluster.Server
import AutoScaling.Foundation.LabelledSystem
import AutoScaling.Foundation.Streak

/-! # The passes of the master

The main thread of the master, one read of shared data at a time, with whatever the other
threads of the master do to the registry in between. Outside boot it starts front servers
more than `addFrontInterval` apart, the first one that much after its first clock reading.
-/
namespace AutoScaling
open Streak

theorem Statics.bootRate_lastAddFrontTime (st : Statics) (now : ℤ) (queueLen : ℕ) :
    (st.bootRate now queueLen).1.lastAddFrontTime = st.lastAddFrontTime := by
  unfold Statics.bootRate
  dsimp only
  split_ifs <;> rfl

/-- What a pass of `masterRoutine` outside boot reads: the clock, `SL.getQueueLength()`
and `frontCount`. -/
structure FrontCheck where
  now : ℤ
  queueLen : ℕ
  frontCount : ℤ
  deriving DecidableEq

/-- The program points of the main thread, with what its pass has read so far. -/
inductive MasterPc
  | startMid
  | startFront
  | loop
  | bootScaleOut (now : ℤ) (pending : List Tier)
  | bootProcess (now : ℤ)
  | bootProcessing (now : ℤ)
  | next
  | addRequest
  | newDate
  | queueLength (now : ℤ)
  | compare (now : ℤ) (queueLen : ℕ)
  | scaleFront (x : FrontCheck)
  deriving DecidableEq

def MasterPc.reading : MasterPc → Option ℤ
  | .queueLength now => some now
  | .compare now _ => some now
  | .scaleFront x => some x.now
  | _ => none

/-- `clocks` are the clock readings of `masterRoutine` and `fronts` its calls of
`masterScaleOut(0)`, both outside `handleBooting`. -/
structure MasterThread where
  statics : Statics
  reg : Registry
  pc : MasterPc
  clocks : List ℤ
  fronts : List FrontCheck

namespace MasterThread

/-- `remote` is what the other threads of the master do to the registry: a
`deleteVMFromMap`, a `scaleOut`, or any part of one. -/
inductive Action
  | main (booting : Bool) (now : ℤ) (queueLen : ℕ) (vmId : VmId)
  | remote (change : Registry → Registry)

/-- `masterHandler`, then `masterRoutine` again and again. -/
def mainStep (s : MasterThread) (booting : Bool) (now : ℤ) (queueLen : ℕ) (vmId : VmId) : MasterThread :=
  match s.pc with
  | .startMid => { s with reg := s.reg.masterScaleOut vmId 1, pc := .startFront }
  | .startFront => { s with reg := s.reg.masterScaleOut vmId 0, pc := .loop }
  | .loop =>
    if booting then
      let decided := s.statics.bootRate now queueLen
      { s with statics := decided.1, pc := .bootScaleOut now decided.2 }
    else { s with pc := .next }
  | .bootScaleOut start [] => { s with pc := .bootProcess start }
  | .bootScaleOut start (tier :: pending) =>
    { s with reg := s.reg.masterScaleOut vmId tier.id, pc := .bootScaleOut start pending }
  | .bootProcess start =>
    { s with pc := if s.statics.masterProcessCount < s.statics.allowedMasterProcess then
        .bootProcessing start else .loop }
  | .bootProcessing start => { s with statics := (s.statics.bootProcessed start).1, pc := .loop }
  | .next => { s with pc := .addRequest }
  | .addRequest => { s with pc := .newDate }
  | .newDate =>
    { s with
      statics := s.statics.addFrontClock now
      pc := .queueLength now
      clocks := s.clocks ++ [now] }
  | .queueLength start => { s with pc := .compare start queueLen }
  | .compare start len =>
    { s with pc := if s.statics.frontBehind start len s.reg.frontCount then
        .scaleFront ⟨start,len,s.reg.frontCount⟩ else .loop }
  | .scaleFront x =>
    { s with
      statics := { s.statics with lastAddFrontTime := x.now }
      reg := s.reg.masterScaleOut vmId 0
      pc := .loop
      fronts := s.fronts ++ [x] }

def step (s : MasterThread) : Action → Option MasterThread
  | .main booting now queueLen vmId => some (s.mainStep booting now queueLen vmId)
  | .remote change => some { s with reg := change s.reg }

def system : LabelledSystem MasterThread Action := ⟨step⟩

def start (masterStartTime : ℤ) : MasterThread :=
  ⟨{ Statics.initial with masterStartTime := masterStartTime },.masterHandlerStart,.startMid,[],[]⟩

/-- What a step does to the cool-down. In all but four of them nothing. -/
inductive Moved (s : MasterThread) (a : Action) : MasterThread → Prop
  | quiet (statics : Statics) (reg : Registry) (pc : MasterPc)
      (hadd : statics.lastAddFrontTime = s.statics.lastAddFrontTime) (hpc : pc.reading = none) :
      Moved s a { s with statics := statics, reg := reg, pc := pc }
  | remote (reg : Registry) : Moved s a { s with reg := reg }
  | newDate (booting : Bool) (now : ℤ) (queueLen : ℕ) (vmId : VmId)
      (ha : a = .main booting now queueLen vmId) (hpc : s.pc = .newDate) : Moved s a { s with
      statics := s.statics.addFrontClock now
      pc := .queueLength now
      clocks := s.clocks ++ [now] }
  | queueLength (start : ℤ) (queueLen : ℕ) (hpc : s.pc = .queueLength start) :
      Moved s a { s with pc := .compare start queueLen }
  | behind (start : ℤ) (len : ℕ) (hpc : s.pc = .compare start len)
      (hbehind : s.statics.frontBehind start len s.reg.frontCount = true) :
      Moved s a { s with pc := .scaleFront ⟨start,len,s.reg.frontCount⟩ }
  | scaleFront (x : FrontCheck) (reg : Registry) (hpc : s.pc = .scaleFront x) : Moved s a { s with
      statics := { s.statics with lastAddFrontTime := x.now }
      reg := reg
      pc := .loop
      fronts := s.fronts ++ [x] }

theorem moved_of_mainStep (s : MasterThread) (booting : Bool) (now : ℤ) (queueLen : ℕ) (vmId : VmId) :
    Moved s (.main booting now queueLen vmId) (s.mainStep booting now queueLen vmId) := by
  unfold mainStep
  cases hpc : s.pc with
  | loop =>
    dsimp only
    split
    · exact .quiet _ _ _ (s.statics.bootRate_lastAddFrontTime now queueLen) rfl
    · exact .quiet _ _ _ rfl rfl
  | bootScaleOut start pending =>
    cases pending with
    | nil => exact .quiet _ _ _ rfl rfl
    | cons tier pending => exact .quiet _ _ _ rfl rfl
  | bootProcess start =>
    refine .quiet _ _ _ rfl ?_
    split <;> rfl
  | newDate => exact .newDate booting now queueLen vmId rfl hpc
  | queueLength start => exact .queueLength start queueLen hpc
  | compare start len =>
    dsimp only
    split
    · rename_i hbehind
      exact .behind start len hpc hbehind
    · exact .quiet _ _ _ rfl rfl
  | scaleFront x => exact .scaleFront x _ hpc
  | _ => exact .quiet _ _ _ rfl rfl

theorem moved_of_step {s t : MasterThread} {a : Action} (hs : system.step s a = some t) : Moved s a t := by
  cases a with
  | main booting now queueLen vmId =>
    cases hs
    exact moved_of_mainStep s booting now queueLen vmId
  | remote change =>
    cases hs
    exact .remote _

def addTimes (s : MasterThread) : List ℤ := s.clocks.head?.toList ++ s.fronts.map FrontCheck.now

/-- `lastAddFrontTime` is 0 until the first clock reading and the last of its values from
then on; a pass that comes to its comparison has read the clock no earlier than that. -/
structure CoolDown (s : MasterThread) : Prop where
  positive : ∀ c ∈ s.clocks, 0 < c
  last : s.statics.lastAddFrontTime = s.addTimes.getLast?.getD 0
  read : ∀ t ∈ s.addTimes, t ∈ s.clocks
  spaced : s.addTimes.IsChain (fun a b => 3000 < b - a)
  justified : ∀ x ∈ s.fronts, 29 * x.frontCount < 10 * x.queueLen
  reading : ∀ now, s.pc.reading = some now → now ∈ s.clocks ∧ s.statics.lastAddFrontTime ≤ now
  behind : ∀ x, s.pc = .scaleFront x →
    3000 < x.now - s.statics.lastAddFrontTime ∧ 29 * x.frontCount < 10 * x.queueLen

/-- The clock readings outside boot are positive and never go back. -/
def ClockRuns (s : MasterThread) : Action → Prop
  | .main _ now _ _ => s.pc = .newDate → 0 < now ∧ ∀ c ∈ s.clocks, c ≤ now
  | .remote _ => True

instance decidableClockRuns (s : MasterThread) : (a : Action) → Decidable (ClockRuns s a)
  | .main _ _ _ _ => inferInstanceAs (Decidable (_ → _))
  | .remote _ => .isTrue trivial

theorem coolDown_start (masterStartTime : ℤ) : CoolDown (start masterStartTime) where
  positive := by intro c hc; cases hc
  last := rfl
  read := by intro t ht; cases ht
  spaced := List.isChain_nil
  justified := by intro x hx; cases hx
  reading := by intro now hnow; cases hnow
  behind := by intro x hx; cases hx

theorem CoolDown.fronts_eq_nil {s : MasterThread} (h : CoolDown s) (hc : s.clocks = []) :
    s.fronts = [] := by
  cases hf : s.fronts with
  | nil => rfl
  | cons x fronts =>
    have hx : x.now ∈ s.clocks := h.read x.now (by simp [addTimes,hf])
    rw [hc] at hx
    cases hx

theorem CoolDown.lastAddFrontTime_mem {s : MasterThread} (h : CoolDown s) {c : ℤ} (hc : c ∈ s.clocks) :
    s.statics.lastAddFrontTime ∈ s.clocks := by
  obtain ⟨t0,clocks,hclocks⟩ := List.exists_cons_of_ne_nil (List.ne_nil_of_mem hc)
  have hne : s.addTimes ≠ [] := by simp [addTimes,hclocks]
  rw [h.last, List.getLast?_eq_some_getLast hne, Option.getD_some]
  exact h.read _ (List.getLast_mem hne)

/-- The clock reading of a pass sets `lastAddFrontTime` the first time, and only then. -/
theorem CoolDown.newDate {s : MasterThread} (h : CoolDown s) {now : ℤ} (hpos : 0 < now)
    (hmono : ∀ c ∈ s.clocks, c ≤ now) : CoolDown { s with
      statics := s.statics.addFrontClock now
      pc := .queueLength now
      clocks := s.clocks ++ [now] } := by
  have hpositive : ∀ c ∈ s.clocks ++ [now], 0 < c := forall_mem_concat.mpr ⟨h.positive,hpos⟩
  have hnow : now ∈ s.clocks ++ [now] := List.mem_append_right _ (List.mem_singleton_self now)
  by_cases hclocks : s.clocks = []
  · have hfronts := h.fronts_eq_nil hclocks
    have hunset : s.statics.lastAddFrontTime = 0 := by
      rw [h.last, addTimes, hclocks, hfronts]
      rfl
    have hset : (s.statics.addFrontClock now).lastAddFrontTime = now := by
      rw [Statics.addFrontClock, if_pos hunset]
    have htimes : ([now] : List ℤ) = (s.clocks ++ [now]).head?.toList ++ s.fronts.map FrontCheck.now := by
      rw [hclocks, hfronts]
      rfl
    refine ⟨hpositive,?_,?_,?_,h.justified,?_,(fun x hx => by cases hx)⟩
    · rw [hset, addTimes, ← htimes]
      rfl
    · rw [addTimes, ← htimes]
      exact fun t ht => List.mem_append_right _ ht
    · rw [addTimes, ← htimes]
      exact List.isChain_singleton now
    · rintro _ ⟨⟩
      exact ⟨hnow,hset.le⟩
  · obtain ⟨t0,clocks,hcons⟩ := List.exists_cons_of_ne_nil hclocks
    have hmem := h.lastAddFrontTime_mem (c := t0) (by rw [hcons]; exact List.mem_cons_self)
    have hkeep : s.statics.addFrontClock now = s.statics := by
      rw [Statics.addFrontClock, if_neg (h.positive _ hmem).ne']
    have htimes : (s.clocks ++ [now]).head?.toList ++ s.fronts.map FrontCheck.now = s.addTimes := by
      rw [addTimes, hcons]
      rfl
    refine ⟨hpositive,?_,?_,?_,h.justified,?_,(fun x hx => by cases hx)⟩
    · rw [hkeep, addTimes, htimes]
      exact h.last
    · rw [addTimes, htimes]
      exact fun t ht => List.mem_append_left _ (h.read t ht)
    · rw [addTimes, htimes]
      exact h.spaced
    · rintro _ ⟨⟩
      rw [hkeep]
      exact ⟨hnow,hmono _ hmem⟩

theorem CoolDown.scaleFront {s : MasterThread} (h : CoolDown s) {x : FrontCheck} (hpc : s.pc = .scaleFront x)
    (reg : Registry) : CoolDown { s with
      statics := { s.statics with lastAddFrontTime := x.now }
      reg := reg
      pc := .loop
      fronts := s.fronts ++ [x] } := by
  obtain ⟨hgap,hjust⟩ := h.behind x hpc
  have hread : x.now ∈ s.clocks := (h.reading x.now (by rw [hpc]; rfl)).1
  have htimes : s.clocks.head?.toList ++ (s.fronts ++ [x]).map FrontCheck.now = s.addTimes ++ [x.now] := by
    rw [List.map_append, List.map_singleton, ← List.append_assoc, addTimes]
  refine ⟨h.positive,?_,?_,?_,?_,(fun now hnow => by cases hnow),(fun y hy => by cases hy)⟩
  · rw [addTimes, htimes, List.getLast?_concat, Option.getD_some]
  · rw [addTimes, htimes]
    exact forall_mem_concat.mpr ⟨h.read,hread⟩
  · rw [addTimes, htimes]
    refine h.spaced.append (List.isChain_singleton x.now) ?_
    intro a ha b hb
    cases hb
    rw [h.last, Option.mem_def.mp ha, Option.getD_some] at hgap
    exact hgap
  · exact forall_mem_concat.mpr ⟨h.justified,hjust⟩

theorem coolDown_step {s t : MasterThread} {a : Action} (h : CoolDown s) (hclock : ClockRuns s a)
    (hs : system.step s a = some t) : CoolDown t := by
  cases moved_of_step hs with
  | quiet statics reg pc hadd hpc =>
    refine ⟨h.positive,hadd.trans h.last,h.read,h.spaced,h.justified,?_,?_⟩
    · intro now hnow
      cases hpc.symm.trans hnow
    · rintro x rfl
      cases hpc
  | remote reg => exact ⟨h.positive,h.last,h.read,h.spaced,h.justified,h.reading,h.behind⟩
  | newDate booting now queueLen vmId ha hpc =>
    subst ha
    obtain ⟨hpos,hmono⟩ := hclock hpc
    exact h.newDate hpos hmono
  | queueLength start queueLen hpc =>
    refine ⟨h.positive,h.last,h.read,h.spaced,h.justified,?_,(fun x hx => by cases hx)⟩
    rintro _ ⟨⟩
    exact h.reading start (by rw [hpc]; rfl)
  | behind start len hpc hbehind =>
    have hread := h.reading start (by rw [hpc]; rfl)
    refine ⟨h.positive,h.last,h.read,h.spaced,h.justified,?_,?_⟩
    · rintro _ ⟨⟩
      exact hread
    · rintro _ ⟨⟩
      obtain ⟨hgap,hlen⟩ : 3000 < longSub start s.statics.lastAddFrontTime ∧
          29 * s.reg.frontCount < 10 * (len : ℤ) := by
        simpa [Statics.frontBehind] using hbehind
      exact ⟨hgap.trans_le (longSub_le hread.2),hlen⟩
  | scaleFront x reg hpc => exact h.scaleFront hpc reg

/-- Outside boot the master starts front servers only when its own queue is over 29/10 of
the count it compares with, and more than 3000 ms apart, from its first clock reading on. -/
theorem frontScaleOut_rateLimited (masterStartTime : ℤ) (as : List Action) (s : MasterThread)
    (hr : system.run (start masterStartTime) as = some s)
    (hclock : system.Meets ClockRuns (start masterStartTime) as) :
    (∀ x ∈ s.fronts, 29 * x.frontCount < 10 * x.queueLen) ∧
    (s.clocks = [] → s.fronts = []) ∧
    ∀ t0, s.clocks.head? = some t0 →
      (t0 :: s.fronts.map FrontCheck.now).IsChain (fun a b => 3000 < b - a) ∧
      ∀ x, s.fronts.getLast? = some x → 3000 * (s.fronts.length : ℤ) < x.now - t0 := by
  have h : CoolDown s := LabelledSystem.run_invariant_of_meets
    (fun _ _ _ hu hg hs => coolDown_step hu hg hs) hr hclock (coolDown_start masterStartTime)
  refine ⟨h.justified,h.fronts_eq_nil,?_⟩
  intro t0 ht0
  have hspaced : (t0 :: s.fronts.map FrontCheck.now).IsChain (fun a b => 3000 < b - a) := by
    have hchain := h.spaced
    rw [addTimes, ht0] at hchain
    exact hchain
  refine ⟨hspaced,?_⟩
  intro x hx
  have hlast := mul_length_lt_of_isChain (b := x.now) hspaced (by rw [List.getLast?_map, hx]; rfl)
  rw [List.length_map] at hlast
  exact hlast

def pass (now : ℤ) (queueLen : ℕ) (change : Registry → Registry) : List Action :=
  [.main false 0 0 0,.main false 0 0 0,.main false 0 0 0,.main false now 0 0,.main false 0 queueLen 0,
    .remote change,.main false 0 0 0]

/-- The second pass reads a queue of 5 while the other front server is deregistered. -/
def frontLeaves : List Action :=
  [.main false 0 0 2,.main false 0 0 3] ++ pass 1000 0 id ++
    pass 4500 5 (fun reg => reg.deleteVMFromMap 3) ++ [.main false 0 0 4]

theorem frontScaleOut_rateLimited_frontLeaves : ∃ s, system.run (start 500) frontLeaves = some s ∧
    s.fronts = [⟨4500,5,1⟩] ∧ 3000 * (s.fronts.length : ℤ) < 4500 - 1000 := by
  have hrun : ∃ s, system.run (start 500) frontLeaves = some s ∧
      s.clocks.head? = some 1000 ∧ s.fronts = [⟨4500,5,1⟩] := by decide +kernel
  obtain ⟨s,hs,hclocks,hfronts⟩ := hrun
  obtain ⟨_,_,hlimit⟩ := frontScaleOut_rateLimited 500 frontLeaves s hs (by decide +kernel)
  exact ⟨s,hs,hfronts,(hlimit 1000 hclocks).2 ⟨4500,5,1⟩ (by rw [hfronts]; rfl)⟩

end MasterThread
end AutoScaling
