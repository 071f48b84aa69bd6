import AutoScaling.Cluster.MidRoutine

/-! # When a mid-tier server takes itself to be idle

`lastProcessTime` is the only record of work. A pass that processes a request sets it to
the clock reading from before the work, and a pass that drops one does not set it, so it
lags behind the work. A server that makes no pass while the 2000 ms are over since
`lastProcessTime` and not since its work has been idle when it scales in.
-/
namespace AutoScaling
open Streak
variable {R : Type*}

/-- The pass receives its request at `τ`, or is in `SL.processRequest` then. -/
def MidPass.BusyAt (p : MidPass R) (τ : ℤ) : Prop :=
  p.exit.gotRequest = true ∧ (τ = p.reading.polledAt ∨
    p.exit = .processed ∧ p.reading.servedFrom ≤ τ ∧ τ ≤ p.reading.servedTo)

instance decidableBusyAt (p : MidPass R) (τ : ℤ) : Decidable (p.BusyAt τ) :=
  inferInstanceAs (Decidable (_ ∧ (_ ∨ _ ∧ _)))

/-- The last instant at which a pass that gets a request works for it. -/
def MidPass.workedTo (p : MidPass R) : ℤ :=
  if p.exit = .processed then p.reading.servedTo else p.reading.polledAt

theorem MidPass.BusyAt.le_workedTo {p : MidPass R} {τ : ℤ} (h : p.BusyAt τ)
    (hserved : p.reading.polledAt ≤ p.reading.servedTo) : τ ≤ p.workedTo := by
  obtain ⟨_,hτ⟩ := h
  unfold MidPass.workedTo
  split
  · rcases hτ with rfl | ⟨_,_,hle⟩
    · exact hserved
    · exact hle
  · rename_i hexit
    rcases hτ with rfl | ⟨hprocessed,_⟩
    · exact le_rfl
    · exact absurd hprocessed hexit

namespace MidServer

def BusyAt (s : MidServer R) (τ : ℤ) : Prop := ∃ p ∈ s.passes, p.BusyAt τ

/-- The clock does not go back. An instant that a pass does not come to is counted as the
last that it came to. -/
def InOrder (s : MidServer R) (x : MidReading R) : Prop :=
  (∀ p ∈ s.passes, p.reading.servedTo ≤ x.now) ∧ x.now ≤ x.polledAt ∧ x.polledAt ≤ x.dropNow ∧
    x.dropNow ≤ x.servedFrom ∧ x.servedFrom ≤ x.servedTo

/-- A pass that gets a request leaves `lastProcessTime` no more than `lag` before the end of
its work, or at 0. -/
def MarksWithin (lag : ℤ) (s : MidServer R) (x : MidReading R) : Prop :=
  x.request.isSome = true → s.statics.idle x.now x.midMasterCnt = false →
    if (s.statics.dropFastRequest x.dropNow).2 = true ∨
      overloaded x.masterRequestLen x.midMasterCnt = true
    then s.statics.lastProcessTime = 0 ∨ x.polledAt ≤ s.statics.lastProcessTime + lag
    else x.now = 0 ∨ x.servedTo ≤ x.now + lag

/-- With another mid server in the count, no pass starts in the `lag` after the 2000 ms that
are counted from `lastProcessTime`. -/
def SkipsLag (lag : ℤ) (s : MidServer R) (x : MidReading R) : Prop :=
  1 < x.midMasterCnt → s.statics.lastProcessTime ≠ 0 →
    x.now ≤ s.statics.lastProcessTime + 2000 ∨ s.statics.lastProcessTime + 2000 + lag < x.now

instance decidableServerBusyAt (s : MidServer R) (τ : ℤ) : Decidable (s.BusyAt τ) :=
  inferInstanceAs (Decidable (∃ p ∈ s.passes, p.BusyAt τ))

instance decidableInOrder (s : MidServer R) (x : MidReading R) : Decidable (InOrder s x) :=
  inferInstanceAs (Decidable (_ ∧ _ ∧ _ ∧ _ ∧ _))

instance decidableMarksWithin (lag : ℤ) (s : MidServer R) (x : MidReading R) :
    Decidable (MarksWithin lag s x) :=
  inferInstanceAs (Decidable (_ → _ → ite _ _ _))

instance decidableSkipsLag (lag : ℤ) (s : MidServer R) (x : MidReading R) : Decidable (SkipsLag lag s x) :=
  inferInstanceAs (Decidable (_ → _ → _ ∨ _))

theorem marksWithin_iff (lag : ℤ) (s : MidServer R) (x : MidReading R) : MarksWithin lag s x ↔
    ((s.statics.midRoutine x).2.gotRequest = true → (s.statics.midRoutine x).1.lastProcessTime = 0 ∨
      (MidPass.mk s.statics x (s.statics.midRoutine x).2).workedTo ≤
        (s.statics.midRoutine x).1.lastProcessTime + lag) := by
  have hpass := s.statics.midPassed x
  generalize s.statics.midRoutine x = passed at hpass ⊢
  obtain ⟨st',e⟩ := passed
  dsimp only at hpass ⊢
  unfold MarksWithin MidPass.workedTo
  cases hpass with
  | shutDown hidle => simp [hidle,MidExit.gotRequest]
  | nothing hbusy hnone => simp [hnone,MidExit.gotRequest]
  | fastDrop r hbusy hsome hdrop =>
    simp [hbusy,hsome,hdrop,MidExit.gotRequest,Statics.dropFastRequest_lastProcessTime]
  | overload r hbusy hsome hkeep hover =>
    simp [hbusy,hsome,hover,MidExit.gotRequest,Statics.dropFastRequest_lastProcessTime]
  | processed r hbusy hsome hkeep hover => simp [hbusy,hsome,hkeep,hover,MidExit.gotRequest]

/-- Of the passes made: `lastProcessTime` is the start of one of them, and no work is more
than `lag` later. -/
structure Marked (lag : ℤ) (s : MidServer R) : Prop where
  in_order : ∀ p ∈ s.passes,
    p.reading.now ≤ p.reading.polledAt ∧ p.reading.polledAt ≤ p.reading.servedTo
  started : s.statics.lastProcessTime = 0 ∨
    ∃ p ∈ s.passes, s.statics.lastProcessTime = p.reading.now
  busy_le : s.statics.lastProcessTime = 0 ∨ ∀ τ, s.BusyAt τ → τ ≤ s.statics.lastProcessTime + lag

theorem marked_start (lag : ℤ) : Marked lag (start : MidServer R) :=
  ⟨(fun p hp => by cases hp),.inl rfl,.inl rfl⟩

theorem Marked.busy_le_now {lag : ℤ} {s : MidServer R} (h : Marked lag s) {x : MidReading R} (hx : InOrder s x)
    {τ : ℤ} (hτ : s.BusyAt τ) : τ ≤ x.now := by
  obtain ⟨p,hp,hbusy⟩ := hτ
  obtain ⟨_,hpolled⟩ := h.in_order p hp
  have hle := hbusy.le_workedTo hpolled
  have hend := hx.1 p hp
  unfold MidPass.workedTo at hle
  split at hle <;> omega

theorem Marked.last_le_now {lag : ℤ} {s : MidServer R} (h : Marked lag s) {x : MidReading R}
    (hx : InOrder s x) :
    s.statics.lastProcessTime = 0 ∨ s.statics.lastProcessTime ≤ x.now := by
  refine h.started.imp_right ?_
  rintro ⟨p,hp,hlast⟩
  have horder := h.in_order p hp
  have hend := hx.1 p hp
  omega

theorem marked_step {lag : ℤ} (hlag : 0 ≤ lag) {s t : MidServer R} {x : MidReading R} (h : Marked lag s)
    (hx : InOrder s x) (hmarks : MarksWithin lag s x) (hs : system.step s x = some t) : Marked lag t := by
  obtain ⟨_,rfl⟩ := step_eq_some.mp hs
  have hnow : x.now ≤ x.polledAt ∧ x.polledAt ≤ x.servedTo := by
    obtain ⟨_,h1,h2,h3,h4⟩ := hx
    omega
  have hlast := (s.statics.midPassed x).lastProcessTime_eq
  rw [marksWithin_iff] at hmarks
  refine ⟨?_,?_,?_⟩
  · exact forall_mem_concat.mpr ⟨h.in_order,hnow⟩
  · rcases hlast with hsame | hstart
    · dsimp only
      rw [hsame]
      exact h.started.imp_right (fun ⟨p,hp,he⟩ => ⟨p,List.mem_append_left _ hp,he⟩)
    · exact .inr ⟨_,List.mem_append_right _ (List.mem_singleton_self _),hstart⟩
  · dsimp only
    by_cases hzero : (s.statics.midRoutine x).1.lastProcessTime = 0
    · exact .inl hzero
    · refine .inr ?_
      rintro τ ⟨p,hp,hbusy⟩
      rcases List.mem_append.mp hp with hp | hp
      · rcases hlast with hsame | hstart
        · rw [hsame] at hzero ⊢
          exact h.busy_le.resolve_left hzero τ ⟨p,hp,hbusy⟩
        · have hpast := h.busy_le_now hx ⟨p,hp,hbusy⟩
          omega
      · obtain rfl := List.mem_singleton.mp hp
        exact (hbusy.le_workedTo hnow.2).trans ((hmarks hbusy.1).resolve_left hzero)

theorem idle_eq_true {st : Statics} {now cnt : ℤ} : st.idle now cnt = true ↔
    st.lastProcessTime ≠ 0 ∧ 2000 < longSub now st.lastProcessTime ∧ 1 < cnt := by
  simp [Statics.idle,and_assoc]

theorem midRoutine_shutDown_iff (st : Statics) (x : MidReading R) :
    (st.midRoutine x).2 = .shutDown ↔ st.idle x.now x.midMasterCnt = true := by
  have hpass := st.midPassed x
  generalize st.midRoutine x = passed at hpass ⊢
  obtain ⟨st',e⟩ := passed
  dsimp only at hpass ⊢
  cases hpass <;> simp [*]

/-- The server was not at work at any instant of the 2000 ms before `t`. -/
def IdleBefore (s : MidServer R) (t : ℤ) : Prop := ∀ τ, t - 2000 ≤ τ → τ ≤ t → ¬ s.BusyAt τ

/-- A pass that scales in starts past the lag, and so 2000 ms past all work. -/
theorem Marked.idleBefore {lag : ℤ} {s : MidServer R} (h : Marked lag s) {x : MidReading R}
    (hx : InOrder s x) (hskips : SkipsLag lag s x) (hshut : (s.statics.midRoutine x).2 = .shutDown) :
    IdleBefore s x.now := by
  obtain ⟨hset,hlong,hmore⟩ := idle_eq_true.mp ((midRoutine_shutDown_iff _ x).mp hshut)
  have hpast := (h.last_le_now hx).resolve_left hset
  have hsub := longSub_le hpast
  have hlate : s.statics.lastProcessTime + 2000 + lag < x.now :=
    (hskips hmore hset).resolve_left (by omega)
  intro τ hfrom _ hbusy
  have hwork := h.busy_le.resolve_left hset τ hbusy
  omega

/-- A mid-tier server scales in only when it has been idle for 2000 ms, in every run in which
`lastProcessTime` lags behind the work by no more than `lag` and no pass with another mid
server in its count starts within the `lag` after the 2000 ms. -/
theorem shutDown_idle_of_skipsLag (lag : ℤ) (hlag : 0 ≤ lag) (xs : List (MidReading R)) (s : MidServer R)
    (hr : system.run start xs = some s) (hclock : system.Meets InOrder start xs)
    (hmarks : system.Meets (MarksWithin lag) start xs) (x : MidReading R) (hx : InOrder s x)
    (hskips : SkipsLag lag s x) (hshut : (s.statics.midRoutine x).2 = .shutDown) : IdleBefore s x.now := by
  have hmarked : Marked lag s := LabelledSystem.run_invariant_of_meets
    (fun _ _ _ hu hg hs => marked_step hlag hu hg.1 hg.2 hs) hr (hclock.and hr hmarks) (marked_start lag)
  exact hmarked.idleBefore hx hskips hshut

/-- A request that takes 2500 ms, after which the server finds its last work 2501 ms old. -/
def longService : List (MidReading ℕ) := [⟨1000,2,1,some 0,1000,1000,1000,3500⟩]

def afterLongService : MidReading ℕ := ⟨3501,2,0,none,3501,3501,3501,3501⟩

theorem longService_not_idle : ∃ s, system.run start longService = some s ∧
    system.Meets InOrder start longService ∧ InOrder s afterLongService ∧
    (s.statics.midRoutine afterLongService).2 = .shutDown ∧ ¬ IdleBefore s afterLongService.now := by
  have hrun : ∃ s, system.run start longService = some s ∧ InOrder s afterLongService ∧
      (s.statics.midRoutine afterLongService).2 = .shutDown ∧ s.BusyAt 3500 := by decide +kernel
  obtain ⟨s,hs,horder,hshut,hbusy⟩ := hrun
  exact ⟨s,hs,by decide +kernel,horder,hshut,fun hidle => hidle 3500 (by decide) (by decide) hbusy⟩

/-- A request that takes 200 ms, and passes without one until 1300 ms after it. -/
def shortService : List (MidReading ℕ) :=
  [⟨1000,2,1,some 0,1005,1005,1010,1200⟩,⟨1205,2,0,none,1210,1210,1210,1210⟩,
    ⟨2500,2,0,none,2505,2505,2505,2505⟩]

/-- The next pass comes 2100 ms after the end of the service, and scales in. -/
def afterShortService : MidReading ℕ := ⟨3300,2,0,none,3300,3300,3300,3300⟩

theorem shutDown_idle_afterShortService : ∃ s, system.run start shortService = some s ∧
    s.BusyAt 1200 ∧ (s.statics.midRoutine afterShortService).2 = .shutDown ∧ IdleBefore s 3300 := by
  have hrun : ∃ s, system.run start shortService = some s ∧ s.BusyAt 1200 ∧
      InOrder s afterShortService ∧ SkipsLag 200 s afterShortService ∧
      (s.statics.midRoutine afterShortService).2 = .shutDown := by decide +kernel
  obtain ⟨s,hs,hbusy,horder,hskips,hshut⟩ := hrun
  exact ⟨s,hs,hbusy,hshut,shutDown_idle_of_skipsLag 200 (by decide) _ s hs (by decide +kernel)
    (by decide +kernel) _ horder hskips hshut⟩

end MidServer
end AutoScaling
