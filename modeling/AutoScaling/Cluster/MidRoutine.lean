import AutoScaling.Cluster.Server
import AutoScaling.Foundation.LabelledSystem
import AutoScaling.Foundation.Streak

/-! # The passes of a mid-tier server

`midRoutine` as one function from the static fields and what the pass reads to the static
fields and the way out. `fastRequestCount` is the streak of fast requests at the end of
all that have been polled, and a request is shed only after twenty others.
-/
namespace AutoScaling
open Streak

/-- What one pass of `midRoutine` meets: the clock where it starts, the replies of the
master, and the clock in `dropFastRequest`. The other instants are ghosts: when
`pollRequest()` returns and when `SL.processRequest` is called and returns. -/
structure MidReading (R : Type*) where
  now : ℤ
  midMasterCnt : ℤ
  masterRequestLen : ℤ
  request : Option R
  polledAt : ℤ
  dropNow : ℤ
  servedFrom : ℤ
  servedTo : ℤ

/-- The ways out of `midRoutine`. -/
inductive MidExit
  | shutDown
  | nothing
  | fastDrop
  | overload
  | processed
  deriving DecidableEq

namespace MidExit

def gotRequest : MidExit → Bool
  | .shutDown => false
  | .nothing => false
  | .fastDrop => true
  | .overload => true
  | .processed => true

def isFastDrop : MidExit → Bool
  | .fastDrop => true
  | _ => false

end MidExit

variable {R : Type*}

def Statics.midRoutine (st : Statics) (x : MidReading R) : Statics × MidExit :=
  if st.idle x.now x.midMasterCnt then (st,.shutDown)
  else
    match x.request with
    | some _ =>
      let shed := st.dropFastRequest x.dropNow
      if shed.2 then (shed.1,.fastDrop)
      else if overloaded x.masterRequestLen x.midMasterCnt then (shed.1,.overload)
      else ({ shed.1 with lastProcessTime := x.now },.processed)
    | none =>
      ({ st with lastProcessTime := if st.lastProcessTime = 0 then x.now else st.lastProcessTime },
        .nothing)

/-- A pass that has been made: the static fields before it, what it met and its way out. -/
structure MidPass (R : Type*) where
  before : Statics
  reading : MidReading R
  exit : MidExit

namespace MidPass

/-- `now.getTime() - lastProcessTime < fastRequestInterval` -/
def fast (p : MidPass R) : Bool := longSub p.reading.dropNow p.before.lastProcessTime < 400

def dropped (p : MidPass R) : Bool := p.exit.isFastDrop

def counted (p : MidPass R) : Bool := p.fast && !p.dropped

end MidPass

structure MidServer (R : Type*) where
  statics : Statics
  passes : List (MidPass R)
  exited : Bool

namespace MidServer

def start : MidServer R := ⟨.initial,[],false⟩

/-- One pass of the loop of `midHandler`, which ends with `shutDown`. -/
def midHandler (s : MidServer R) (x : MidReading R) : Option (MidServer R) :=
  if s.exited then none
  else
    let passed := s.statics.midRoutine x
    some ⟨passed.1,s.passes ++ [⟨s.statics,x,passed.2⟩],passed.2 = .shutDown⟩

def system : LabelledSystem (MidServer R) (MidReading R) := ⟨midHandler⟩

def polls (s : MidServer R) : List (MidPass R) := s.passes.filter (fun p => p.exit.gotRequest)

theorem step_eq_some {s t : MidServer R} {x : MidReading R} :
    system.step s x = some t ↔ s.exited = false ∧
      t = ⟨(s.statics.midRoutine x).1,s.passes ++ [⟨s.statics,x,(s.statics.midRoutine x).2⟩],
        (s.statics.midRoutine x).2 = .shutDown⟩ := by
  simp only [system,midHandler]
  cases s.exited <;> simp [eq_comm]

theorem polls_concat (st : Statics) (ps : List (MidPass R)) (p : MidPass R) (b : Bool) :
    (MidServer.mk st (ps ++ [p]) b).polls =
      ps.filter (fun p => p.exit.gotRequest) ++ if p.exit.gotRequest then [p] else [] := by
  unfold polls
  rw [List.filter_append]
  split <;> simp [*]

end MidServer

namespace Statics

theorem dropFastRequest_spec (st : Statics) (now : ℤ) (h0 : 0 ≤ st.fastRequestCount)
    (h20 : st.fastRequestCount ≤ 20) :
    (st.dropFastRequest now).1.fastRequestCount =
      (if longSub now st.lastProcessTime < 400 ∧ st.fastRequestCount < 20
        then st.fastRequestCount + 1 else 0) ∧
    ((st.dropFastRequest now).2 = true ↔
      longSub now st.lastProcessTime < 400 ∧ st.fastRequestCount = 20) := by
  unfold dropFastRequest
  rw [intInc_of_le h0 h20 (by omega)]
  by_cases hfast : longSub now st.lastProcessTime < 400
  · by_cases hlt : st.fastRequestCount < 20
    · have hkeep : ¬ st.fastRequestCount + 1 > 20 := by omega
      simp only [hfast,hlt,hkeep,and_self,if_true,if_false,Bool.false_eq_true,true_and,false_iff]
      omega
    · have hdrop : st.fastRequestCount + 1 > 20 := by omega
      have hfull : st.fastRequestCount = 20 := by omega
      simp [hfast,hfull]
  · simp [hfast]

inductive MidPassed (st : Statics) (x : MidReading R) : Statics → MidExit → Prop
  | shutDown (hidle : st.idle x.now x.midMasterCnt = true) : MidPassed st x st .shutDown
  | nothing (hbusy : st.idle x.now x.midMasterCnt = false) (hnone : x.request = none) :
      MidPassed st x
        { st with lastProcessTime := if st.lastProcessTime = 0 then x.now else st.lastProcessTime }
        .nothing
  | fastDrop (r : R) (hbusy : st.idle x.now x.midMasterCnt = false) (hsome : x.request = some r)
      (hdrop : (st.dropFastRequest x.dropNow).2 = true) :
      MidPassed st x (st.dropFastRequest x.dropNow).1 .fastDrop
  | overload (r : R) (hbusy : st.idle x.now x.midMasterCnt = false) (hsome : x.request = some r)
      (hkeep : (st.dropFastRequest x.dropNow).2 = false)
      (hover : overloaded x.masterRequestLen x.midMasterCnt = true) :
      MidPassed st x (st.dropFastRequest x.dropNow).1 .overload
  | processed (r : R) (hbusy : st.idle x.now x.midMasterCnt = false) (hsome : x.request = some r)
      (hkeep : (st.dropFastRequest x.dropNow).2 = false)
      (hover : overloaded x.masterRequestLen x.midMasterCnt = false) :
      MidPassed st x { (st.dropFastRequest x.dropNow).1 with lastProcessTime := x.now } .processed

theorem midPassed (st : Statics) (x : MidReading R) :
    MidPassed st x (st.midRoutine x).1 (st.midRoutine x).2 := by
  unfold midRoutine
  split
  · rename_i hidle
    exact .shutDown hidle
  · rename_i hbusy
    rw [Bool.not_eq_true] at hbusy
    split
    · rename_i r hsome
      dsimp only
      split
      · rename_i hdrop
        exact .fastDrop r hbusy hsome hdrop
      · rename_i hkeep
        rw [Bool.not_eq_true] at hkeep
        split
        · rename_i hover
          exact .overload r hbusy hsome hkeep hover
        · rename_i hover
          rw [Bool.not_eq_true] at hover
          exact .processed r hbusy hsome hkeep hover
    · rename_i hnone
      exact .nothing hbusy hnone

theorem dropFastRequest_lastProcessTime (st : Statics) (now : ℤ) :
    (st.dropFastRequest now).1.lastProcessTime = st.lastProcessTime := by
  unfold dropFastRequest
  dsimp only
  split_ifs <;> rfl

/-- A pass without a request leaves the counter alone; one with a request leaves it and
the request to `dropFastRequest`. -/
theorem MidPassed.fastRequestCount_eq {st st' : Statics} {x : MidReading R} {e : MidExit}
    (h : MidPassed st x st' e) :
    (e.gotRequest = false → st'.fastRequestCount = st.fastRequestCount) ∧
    (e.gotRequest = true →
      st'.fastRequestCount = (st.dropFastRequest x.dropNow).1.fastRequestCount ∧
      e.isFastDrop = (st.dropFastRequest x.dropNow).2) := by
  cases h with
  | shutDown _ => exact ⟨fun _ => rfl,fun h => absurd h Bool.false_ne_true⟩
  | nothing _ _ => exact ⟨fun _ => rfl,fun h => absurd h Bool.false_ne_true⟩
  | fastDrop _ _ _ hdrop => exact ⟨fun h => absurd h.symm Bool.false_ne_true,fun _ => ⟨rfl,hdrop.symm⟩⟩
  | overload _ _ _ hkeep _ => exact ⟨fun h => absurd h.symm Bool.false_ne_true,fun _ => ⟨rfl,hkeep.symm⟩⟩
  | processed _ _ _ hkeep _ => exact ⟨fun h => absurd h.symm Bool.false_ne_true,fun _ => ⟨rfl,hkeep.symm⟩⟩

theorem MidPassed.lastProcessTime_eq {st st' : Statics} {x : MidReading R} {e : MidExit}
    (h : MidPassed st x st' e) :
    st'.lastProcessTime = st.lastProcessTime ∨ st'.lastProcessTime = x.now := by
  cases h with
  | shutDown _ => exact .inl rfl
  | nothing _ _ =>
    dsimp only
    split
    · exact .inr rfl
    · exact .inl rfl
  | fastDrop _ _ _ _ => exact .inl (st.dropFastRequest_lastProcessTime x.dropNow)
  | overload _ _ _ _ _ => exact .inl (st.dropFastRequest_lastProcessTime x.dropNow)
  | processed _ _ _ _ _ => exact .inr rfl

end Statics

namespace MidServer

/-- The counter is the streak of counted requests, and each shed one ends a full streak. -/
structure Shedding (s : MidServer R) : Prop where
  count_eq : s.statics.fastRequestCount = streak MidPass.counted s.polls
  count_le : s.statics.fastRequestCount ≤ 20
  dropped_fast : ∀ p ∈ s.polls, p.dropped = true → p.fast = true
  after_streak : Streak.EachAfter MidPass.counted 20 MidPass.dropped s.polls

theorem shedding_start : Shedding (start : MidServer R) :=
  ⟨rfl,Int.zero_le_ofNat 20,(fun p hp => by cases hp),Each.nil⟩

theorem shedding_step {s t : MidServer R} {x : MidReading R} (h : Shedding s)
    (hs : system.step s x = some t) : Shedding t := by
  obtain ⟨_,rfl⟩ := step_eq_some.mp hs
  obtain ⟨hsame,hpolled⟩ := (s.statics.midPassed x).fastRequestCount_eq
  by_cases hgot : (s.statics.midRoutine x).2.gotRequest = true
  · obtain ⟨hcount,hdrop⟩ := hpolled hgot
    have hnonneg : 0 ≤ s.statics.fastRequestCount := by rw [h.count_eq]; omega
    obtain ⟨hnew,hfull⟩ := s.statics.dropFastRequest_spec x.dropNow hnonneg h.count_le
    let p : MidPass R := ⟨s.statics,x,(s.statics.midRoutine x).2⟩
    have hpolls : ∀ st b, (MidServer.mk st (s.passes ++ [p]) b).polls = s.polls ++ [p] := by
      intro st b
      rw [polls_concat, if_pos hgot]
      rfl
    have hfast : p.fast = true ↔ longSub x.dropNow s.statics.lastProcessTime < 400 :=
      decide_eq_true_iff
    have hdropped : p.dropped = true ↔ p.fast = true ∧ s.statics.fastRequestCount = 20 := by
      rw [hfast, ← hfull, ← hdrop]
      rfl
    have hle := h.count_le
    have hcounted : p.counted = true ↔
        longSub x.dropNow s.statics.lastProcessTime < 400 ∧ s.statics.fastRequestCount < 20 := by
      unfold MidPass.counted
      rw [Bool.and_eq_true, Bool.not_eq_true', ← Bool.not_eq_true, hdropped, ← hfast]
      refine and_congr_right (fun hf => ?_)
      rw [and_iff_right hf]
      omega
    constructor
    · rw [hpolls, hcount, hnew, streak_concat]
      by_cases hc : p.counted = true
      · rw [if_pos (hcounted.mp hc), if_pos hc, h.count_eq]
        push_cast
        rfl
      · rw [if_neg (fun he => hc (hcounted.mpr he)), if_neg hc]
        rfl
    · rw [hcount, hnew]
      split <;> omega
    · rw [hpolls]
      exact forall_mem_concat.mpr ⟨h.dropped_fast,fun hd => (hdropped.mp hd).1⟩
    · rw [hpolls]
      refine each_concat.mpr ⟨h.after_streak,?_⟩
      intro hd
      have hstreak := h.count_eq
      rw [(hdropped.mp hd).2] at hstreak
      omega
  · rw [Bool.not_eq_true] at hgot
    have hpolls : ∀ st b, (MidServer.mk st (s.passes ++ [⟨s.statics,x,(s.statics.midRoutine x).2⟩])
        b).polls = s.polls := by
      intro st b
      rw [polls_concat, if_neg (by simpa using hgot), List.append_nil]
      rfl
    constructor
    · rw [hpolls, hsame hgot, h.count_eq]
    · rw [hsame hgot]
      exact h.count_le
    · rw [hpolls]
      exact h.dropped_fast
    · rw [hpolls]
      exact h.after_streak

def InRange (x : MidReading R) : Prop :=
  0 ≤ x.now ∧ x.now < 2 ^ 63 ∧ 0 ≤ x.dropNow ∧ x.dropNow < 2 ^ 63

/-- Where the clock is in range, `lastProcessTime` is too and differences do not wrap. -/
structure Exact (s : MidServer R) : Prop where
  nonneg : 0 ≤ s.statics.lastProcessTime
  lt : s.statics.lastProcessTime < 2 ^ 63
  fast_iff : ∀ p ∈ s.passes,
    (p.fast = true ↔ p.reading.dropNow - p.before.lastProcessTime < 400)

theorem exact_step {s t : MidServer R} {x : MidReading R} (h : Exact s) (hx : InRange x)
    (hs : system.step s x = some t) : Exact t := by
  obtain ⟨_,rfl⟩ := step_eq_some.mp hs
  obtain ⟨hnow0,hnow,hdrop0,hdrop⟩ := hx
  obtain ⟨hnonneg,hlt,hfast⟩ := h
  have hlast := (s.statics.midPassed x).lastProcessTime_eq
  refine ⟨?_,?_,?_⟩
  · rcases hlast with he | he <;> dsimp only <;> omega
  · rcases hlast with he | he <;> dsimp only <;> omega
  · refine forall_mem_concat.mpr ⟨hfast,?_⟩
    simp only [MidPass.fast,decide_eq_true_eq]
    rw [longSub_of_nonneg hdrop0 hdrop hnonneg hlt]

theorem shedding_of_run {xs : List (MidReading R)} {s : MidServer R}
    (hr : system.run start xs = some s) : Shedding s :=
  LabelledSystem.run_invariant (fun _ _ _ hu hs => shedding_step hu hs) hr shedding_start

/-- At most one polled request in 21 is shed as too fast, each after twenty fast ones in a
row that are not. Where the clock is in range, fast means less than 400 ms. -/
theorem fastDrop_bounded (xs : List (MidReading R)) (s : MidServer R)
    (hr : system.run start xs = some s) :
    (∀ n, (s.polls.take n).countP MidPass.dropped ≤ n / 21) ∧
    (∀ before p after, s.polls = before ++ p :: after → p.dropped = true → p.fast = true ∧
      ∃ earlier twenty, before = earlier ++ twenty ∧ twenty.length = 20 ∧
        ∀ q ∈ twenty, q.fast = true ∧ q.dropped = false) ∧
    (0 ≤ s.statics.fastRequestCount ∧ s.statics.fastRequestCount ≤ 20) ∧
    ((∀ x ∈ xs, InRange x) → ∀ p ∈ s.polls,
      (p.fast = true ↔ p.reading.dropNow - p.before.lastProcessTime < 400)) := by
  have hshed := shedding_of_run hr
  have hcounted : ∀ q : MidPass R, q.counted = true ↔ q.fast = true ∧ q.dropped = false := by
    intro q
    rw [MidPass.counted, Bool.and_eq_true, Bool.not_eq_true']
  refine ⟨?_,?_,⟨?_,hshed.count_le⟩,?_⟩
  · refine hshed.after_streak.countP_take_le ?_
    intro p hp
    rw [MidPass.counted, hp, Bool.not_true, Bool.and_false]
  · intro before p after hpolls hp
    refine ⟨hshed.dropped_fast p (by simp [hpolls]) hp,?_⟩
    obtain ⟨earlier,twenty,hsplit,hlen,hall⟩ :=
      le_streak_iff.mp (hshed.after_streak before p after hpolls hp)
    exact ⟨earlier,twenty,hsplit,hlen,fun q hq => (hcounted q).mp (hall q hq)⟩
  · rw [hshed.count_eq]
    exact Int.natCast_nonneg _
  · intro hrange p hp
    have hexact : Exact s := LabelledSystem.run_invariant_of_meets
      (fun _ _ _ hu hx hs => exact_step hu hx hs) hr (LabelledSystem.meets_of_forall hr hrange)
      ⟨le_rfl,(by decide : (0 : ℤ) < 2 ^ 63),fun q hq => by cases hq⟩
    exact hexact.fast_iff p (List.mem_filter.mp hp).1

/-- A request after a long wait, and 21 more in the 400 ms after it. -/
def rapidRequests : List (MidReading ℕ) :=
  (List.range 22).map (fun (k : ℕ) => ⟨1000 + k,1,0,some k,1000 + k,1000 + k,1000 + k,1000 + k⟩)

theorem fastDrop_bounded_rapidRequests :
    ∃ s, system.run start rapidRequests = some s ∧ s.polls.countP MidPass.dropped = 1 ∧
      (s.polls.take 22).countP MidPass.dropped ≤ 22 / 21 := by
  have hrun : ∃ s, system.run start rapidRequests = some s ∧
      s.polls.countP MidPass.dropped = 1 := by decide +kernel
  obtain ⟨s,hs,hone⟩ := hrun
  exact ⟨s,hs,hone,(fastDrop_bounded rapidRequests s hs).1 22⟩

end MidServer
end AutoScaling
