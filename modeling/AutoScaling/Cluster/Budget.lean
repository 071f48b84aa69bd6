import AutoScaling.Cluster.Booting
import AutoScaling.Cluster.Launches
import AutoScaling.Cluster.MasterRoutine
import AutoScaling.Cluster.Requests

/-! # How many VMs a run can start

The main thread starts two servers at start-up, at most five more in the whole boot phase,
and front servers more than `addFrontInterval` apart after that. Nobody else starts a front
server.
-/
namespace AutoScaling

namespace MainPc
variable {R : Type*}

def unstarted : MainPc R → List Tier
  | .startMid => [.mid,.front]
  | .startFront => [.front]
  | _ => []

/-- What the rate decision of the call of `handleBooting` under way has still to start. -/
def pending : MainPc R → List Tier
  | .bootScaleOut _ pending => pending
  | _ => []

def atScaleCheck : MainPc R → Bool
  | .scaleCheck => true
  | _ => false

theorem atScaleCheck_iff {pc : MainPc R} : pc.atScaleCheck = true ↔ pc = .scaleCheck := by
  cases pc <;> simp [atScaleCheck]

end MainPc

namespace Cluster
variable {R : Type*}

def tiersFor (cause : Cause) (started : List Launch) : List Tier :=
  (started.filter (fun x => decide (x.cause = cause))).map Launch.tier

@[simp] theorem tiersFor_append (cause : Cause) (l l' : List Launch) :
    tiersFor cause (l ++ l') = tiersFor cause l ++ tiersFor cause l' := by
  simp only [tiersFor,List.filter_append,List.map_append]

theorem tiersFor_singleton (cause : Cause) (x : Launch) :
    tiersFor cause [x] = if x.cause = cause then [x.tier] else [] := by
  by_cases h : x.cause = cause <;> simp [tiersFor,h]

/-- The clock that the main thread reads: in range in boot, and between `t0` and `t1` outside
boot. -/
def ClockWithin (t0 t1 : ℤ) (st : State R) : Action R → Prop
  | .main _ now _ => (st.main = .loop → 0 ≤ now ∧ now < 2 ^ 63) ∧
      (st.main = .scaleCheck → t0 ≤ now ∧ now ≤ t1)
  | _ => True

def BootPlan (tiers : List Tier) : Prop :=
  tiers = [] ∨ tiers = [.mid] ∨ tiers = [.front,.mid,.mid,.mid,.mid]

/-- The starts of the main thread so far and to come, and the cool-down between the front
servers it adds. -/
structure Budget (masterStartTime t0 t1 : ℤ) (started : List Launch) (st : State R) : Prop where
  startUp : tiersFor .startUp started ++ st.main.unstarted = [.mid,.front]
  boot : st.statics.masterStartTime = masterStartTime ∧ tiersFor .boot started = [] ∧
      st.main.pending = [] ∨
    st.statics.masterStartTime = 2 ^ 63 - 1 ∧ BootPlan (tiersFor .boot started ++ st.main.pending)
  added : st.statics.lastAddFrontTime = 0 ∧ tiersFor .frontBehind started = [] ∨
    t0 + 3001 * (tiersFor .frontBehind started).length ≤ st.statics.lastAddFrontTime ∧
      st.statics.lastAddFrontTime ≤ t1
  behind : ∀ now, st.main = .scaleFront now → 3000 < now - st.statics.lastAddFrontTime ∧ now ≤ t1 ∧
    t0 ≤ st.statics.lastAddFrontTime
  fronts : ∀ x ∈ started, x.tier = .front → x.cause = .startUp ∨ x.cause = .boot ∨ x.cause = .frontBehind

theorem budget_start (masterStartTime t0 t1 : ℤ) :
    Budget masterStartTime t0 t1 [] (start masterStartTime : State R) where
  startUp := rfl
  boot := .inl ⟨rfl,rfl,rfl⟩
  added := .inl ⟨rfl,rfl⟩
  behind := by intro now hm; cases hm
  fronts := by intro x hx; cases hx

theorem Budget.keep {masterStartTime t0 t1 : ℤ} {started l : List Launch} {st st' : State R}
    (h : Budget masterStartTime t0 t1 started st) (hl : ∀ x ∈ l, ∃ i, x.cause = .overload i)
    (hfront : ∀ x ∈ l, x.tier = .mid) (hunstarted : st'.main.unstarted = st.main.unstarted)
    (hpending : st'.main.pending = st.main.pending)
    (hboot : st'.statics.masterStartTime = st.statics.masterStartTime)
    (hadd : st'.statics.lastAddFrontTime = st.statics.lastAddFrontTime)
    (hbehind : ∀ now, st'.main = .scaleFront now → st.main = .scaleFront now) :
    Budget masterStartTime t0 t1 (started ++ l) st' := by
  have hnone : ∀ cause, (∀ i, cause ≠ .overload i) → tiersFor cause l = [] := by
    intro cause hcause
    rw [tiersFor, List.map_eq_nil_iff, List.filter_eq_nil_iff]
    intro x hx
    obtain ⟨i,hi⟩ := hl x hx
    rw [decide_eq_true_iff, hi]
    exact fun he => hcause i he.symm
  have hkeep : ∀ cause, (∀ i, cause ≠ .overload i) →
      tiersFor cause (started ++ l) = tiersFor cause started := by
    intro cause hcause
    rw [tiersFor_append, hnone cause hcause, List.append_nil]
  refine ⟨?_,?_,?_,?_,?_⟩
  · rw [hkeep .startUp (fun i he => by cases he), hunstarted]
    exact h.startUp
  · rw [hkeep .boot (fun i he => by cases he), hpending, hboot]
    exact h.boot
  · rw [hkeep .frontBehind (fun i he => by cases he), hadd]
    exact h.added
  · intro now hm
    rw [hadd]
    exact h.behind now (hbehind now hm)
  · intro x hx ht
    rcases List.mem_append.mp hx with hx | hx
    · exact h.fronts x hx ht
    · rw [hfront x hx] at ht
      cases ht

theorem Budget.quiet {masterStartTime t0 t1 : ℤ} {started : List Launch} {st st' : State R}
    (h : Budget masterStartTime t0 t1 started st) (hunstarted : st'.main.unstarted = st.main.unstarted)
    (hpending : st'.main.pending = st.main.pending)
    (hboot : st'.statics.masterStartTime = st.statics.masterStartTime)
    (hadd : st'.statics.lastAddFrontTime = st.statics.lastAddFrontTime)
    (hbehind : ∀ now, st'.main = .scaleFront now → st.main = .scaleFront now) :
    Budget masterStartTime t0 t1 (started ++ []) st' :=
  h.keep (l := []) (fun x hx => by cases hx) (fun x hx => by cases hx) hunstarted hpending hboot hadd hbehind

/-- The rate decision: before it the start-up clock stands, and after it no reading is late
enough for another one. -/
theorem Budget.decide {masterStartTime t0 t1 : ℤ} {started : List Launch} {st : State R}
    (h : Budget masterStartTime t0 t1 started st) (hm : st.main = .loop) {now : ℤ} (hlow : 0 ≤ now)
    (hhigh : now < 2 ^ 63) (queueLen : ℕ) :
    Budget masterStartTime t0 t1 started { st with
      statics := (st.statics.bootRate now queueLen).1
      main := .bootScaleOut now (st.statics.bootRate now queueLen).2 } := by
  have hadd := st.statics.bootRate_lastAddFrontTime now queueLen
  have hboot := h.boot
  have hstartUp := h.startUp
  rw [hm] at hboot hstartUp
  refine ⟨hstartUp,?_,?_,(fun t ht => by cases ht),h.fronts⟩
  · have hrated := st.statics.bootRated now queueLen
    generalize (st.statics.bootRate now queueLen).1 = statics at hrated
    generalize (st.statics.bootRate now queueLen).2 = tiers at hrated
    cases hrated with
    | waits hearly => exact hboot
    | decides allowed tiers hlate hchoice =>
      rcases hboot with ⟨_,hnone,_⟩ | ⟨hmark,_⟩
      · refine .inr ⟨rfl,?_⟩
        rw [hnone]
        rcases hchoice with ⟨he,_⟩ | ⟨he,_⟩ | ⟨he,_⟩
        · exact .inl he
        · exact .inr (.inl he)
        · exact .inr (.inr he)
      · rw [hmark, longSub_of_nonneg hlow hhigh (by omega) (by omega)] at hlate
        omega
  · dsimp only
    rw [hadd]
    exact h.added

/-- The check: the first one sets `lastAddFrontTime`, and one that finds the queue too long
has read the clock more than `addFrontInterval` after it. -/
theorem Budget.check {masterStartTime t0 t1 : ℤ} (h0 : 0 < t0) (h1 : t1 < 2 ^ 63) {started : List Launch}
    {st : State R} (h : Budget masterStartTime t0 t1 started st) (hm : st.main = .scaleCheck) {now : ℤ}
    (hlow : t0 ≤ now) (hhigh : now ≤ t1) (queueLen : ℕ) (frontCount : ℤ) :
    Budget masterStartTime t0 t1 started { st with
      statics := st.statics.addFrontClock now
      main := if (st.statics.addFrontClock now).frontBehind now queueLen frontCount then .scaleFront now
        else .loop } := by
  have hadded : t0 + 3001 * (tiersFor .frontBehind started).length ≤
      (st.statics.addFrontClock now).lastAddFrontTime ∧
      (st.statics.addFrontClock now).lastAddFrontTime ≤ t1 := by
    rcases h.added with ⟨hunset,hnone⟩ | ⟨hset,hlast⟩
    · rw [Statics.addFrontClock, if_pos hunset, hnone]
      simpa using ⟨hlow,hhigh⟩
    · have hne : st.statics.lastAddFrontTime ≠ 0 := by omega
      rw [Statics.addFrontClock, if_neg hne]
      exact ⟨hset,hlast⟩
  have hmark : (st.statics.addFrontClock now).masterStartTime = st.statics.masterStartTime := by
    unfold Statics.addFrontClock
    split <;> rfl
  have hboot := h.boot
  have hstartUp := h.startUp
  rw [hm] at hboot hstartUp
  have hpc : ∀ isBehind : Bool, (if isBehind then MainPc.scaleFront now else .loop : MainPc R).unstarted = [] ∧
      (if isBehind then MainPc.scaleFront now else .loop : MainPc R).pending = [] := by
    intro isBehind
    cases isBehind <;> exact ⟨rfl,rfl⟩
  refine ⟨?_,?_,.inr hadded,?_,h.fronts⟩
  · rw [(hpc _).1]
    exact hstartUp
  · rw [(hpc _).2]
    dsimp only
    rw [hmark]
    exact hboot
  · intro start hstart
    dsimp only at hstart ⊢
    split at hstart
    · rename_i hbehind
      cases hstart
      have hgap : 3000 < longSub now (st.statics.addFrontClock now).lastAddFrontTime := by
        rw [Statics.frontBehind, Bool.and_eq_true, decide_eq_true_iff] at hbehind
        exact hbehind.1
      rw [longSub_of_nonneg (by omega) (by omega) (by omega) (by omega)] at hgap
      refine ⟨hgap,hhigh,?_⟩
      omega
    · cases hstart

theorem Budget.launch {masterStartTime t0 t1 : ℤ} {started : List Launch} {st st' : State R}
    (h : Budget masterStartTime t0 t1 started st) {x : Launch}
    (hunstarted : tiersFor .startUp [x] ++ st'.main.unstarted = st.main.unstarted)
    (hpending : tiersFor .boot [x] ++ st'.main.pending = st.main.pending)
    (hboot : st'.statics.masterStartTime = st.statics.masterStartTime)
    (hadded : tiersFor .frontBehind [x] = [] ∧ st'.statics.lastAddFrontTime = st.statics.lastAddFrontTime ∨
      (tiersFor .frontBehind [x]).length = 1 ∧ st.main = .scaleFront st'.statics.lastAddFrontTime)
    (hbehind : ∀ now, st'.main ≠ .scaleFront now) (hfront : ∀ i, x.cause ≠ .overload i) :
    Budget masterStartTime t0 t1 (started ++ [x]) st' := by
  refine ⟨?_,?_,?_,(fun now hm => absurd hm (hbehind now)),?_⟩
  · rw [tiersFor_append, List.append_assoc, hunstarted]
    exact h.startUp
  · rw [tiersFor_append, List.append_assoc, hpending, hboot, List.append_eq_nil_iff]
    rcases h.boot with ⟨hmark,hnone,hpend⟩ | hdone
    · rw [hpend, List.append_eq_nil_iff] at hpending
      exact .inl ⟨hmark,⟨hnone,hpending.1⟩,hpending.2⟩
    · exact .inr hdone
  · rw [tiersFor_append, List.length_append]
    rcases hadded with ⟨hnone,hlast⟩ | ⟨hone,hm⟩
    · rw [hnone, hlast, List.append_nil]
      exact h.added
    · obtain ⟨hgap,hhigh,hset⟩ := h.behind _ hm
      rcases h.added with ⟨hunset,hnil⟩ | ⟨hlow,_⟩
      · rw [hnil, hone, List.length_nil]
        refine .inr ⟨?_,hhigh⟩
        push_cast
        omega
      · rw [hone]
        refine .inr ⟨?_,hhigh⟩
        push_cast
        omega
  · intro y hy ht
    rcases List.mem_append.mp hy with hy | hy
    · exact h.fronts y hy ht
    · rw [List.mem_singleton.mp hy]
      cases hc : x.cause with
      | overload i => exact absurd hc (hfront i)
      | startUp => exact .inl rfl
      | boot => exact .inr (.inl rfl)
      | frontBehind => exact .inr (.inr rfl)

theorem budget_mainStep {masterStartTime t0 t1 : ℤ} (h0 : 0 < t0) (h1 : t1 < 2 ^ 63)
    {started : List Launch} {st st' : State R} {booting : Bool} {now : ℤ} {vmId : VmId}
    (h : Budget masterStartTime t0 t1 started st)
    (hclock : ClockWithin t0 t1 st (.main booting now vmId))
    (hs : st.mainStep booting now vmId = some st') :
    Budget masterStartTime t0 t1 (started ++ launches st (.main booting now vmId)) st' := by
  simp only [State.mainStep] at hs
  simp only [launches]
  cases hm : st.main with
  | startMid =>
    simp only [hm,Option.map_eq_some_iff,scaleOutCore_eq_some] at hs
    obtain ⟨_,⟨_,rfl⟩,rfl⟩ := hs
    exact h.launch (by rw [hm]; rfl) (by rw [hm]; rfl) rfl (.inl ⟨rfl,rfl⟩) (fun t ht => by cases ht)
      (fun i hi => by cases hi)
  | startFront =>
    simp only [hm,Option.map_eq_some_iff,scaleOutCore_eq_some] at hs
    obtain ⟨_,⟨_,rfl⟩,rfl⟩ := hs
    exact h.launch (by rw [hm]; rfl) (by rw [hm]; rfl) rfl (.inl ⟨rfl,rfl⟩) (fun t ht => by cases ht)
      (fun i hi => by cases hi)
  | loop =>
    simp only [hm] at hs
    split at hs <;> cases hs
    · obtain ⟨hlow,hhigh⟩ := hclock.1 hm
      rw [List.append_nil]
      exact h.decide hm hlow hhigh st.slQueue.length
    · exact h.quiet (by rw [hm]; rfl) (by rw [hm]; rfl) rfl rfl (fun t ht => by cases ht)
  | bootScaleOut start pending =>
    cases pending with
    | nil =>
      simp only [hm] at hs
      cases hs
      exact h.quiet (by rw [hm]; rfl) (by rw [hm]; rfl) rfl rfl (fun t ht => by cases ht)
    | cons tier pending =>
      simp only [hm,Option.map_eq_some_iff,scaleOutCore_eq_some] at hs
      obtain ⟨_,⟨_,rfl⟩,rfl⟩ := hs
      exact h.launch (by rw [hm]; rfl) (by rw [hm]; rfl) rfl (.inl ⟨rfl,rfl⟩) (fun t ht => by cases ht)
        (fun i hi => by cases hi)
  | bootProcess start =>
    simp only [hm] at hs
    split at hs
    · split at hs <;> cases hs
      exact h.quiet (by rw [hm]; rfl) (by rw [hm]; rfl) rfl rfl (fun t ht => by cases ht)
    · cases hs
      exact h.quiet (by rw [hm]; rfl) (by rw [hm]; rfl) rfl rfl (fun t ht => by cases ht)
  | bootProcessing start r =>
    simp only [hm] at hs
    cases hs
    exact h.quiet (by rw [hm]; rfl) (by rw [hm]; rfl) rfl rfl (fun t ht => by cases ht)
  | next =>
    simp only [hm] at hs
    split at hs <;> cases hs
    exact h.quiet (by rw [hm]; rfl) (by rw [hm]; rfl) rfl rfl (fun t ht => by cases ht)
  | addRequest r =>
    simp only [hm] at hs
    cases hs
    exact h.quiet (by rw [hm]; rfl) (by rw [hm]; rfl) rfl rfl (fun t ht => by cases ht)
  | scaleCheck =>
    simp only [hm] at hs
    cases hs
    obtain ⟨hlow,hhigh⟩ := hclock.2 hm
    rw [List.append_nil]
    exact h.check h0 h1 hm hlow hhigh _ _
  | scaleFront start =>
    simp only [hm,Option.map_eq_some_iff,scaleOutCore_eq_some] at hs
    obtain ⟨_,⟨_,rfl⟩,rfl⟩ := hs
    exact h.launch (by rw [hm]; rfl) (by rw [hm]; rfl) rfl (.inr ⟨rfl,hm⟩) (fun t ht => by cases ht)
      (fun i hi => by cases hi)

theorem budget_step {masterStartTime t0 t1 : ℤ} (h0 : 0 < t0) (h1 : t1 < 2 ^ 63) {started : List Launch}
    {st st' : State R} {a : Action R} (h : Budget masterStartTime t0 t1 started st)
    (hclock : ClockWithin t0 t1 st a) (hs : system.step st a = some st') :
    Budget masterStartTime t0 t1 (started ++ launches st a) st' := by
  by_cases ha : ∃ booting now vmId, a = .main booting now vmId
  · obtain ⟨booting,now,vmId,rfl⟩ := ha
    exact budget_mainStep h0 h1 h hclock hs
  · -- whoever else starts a VM is a mid server, and it starts a mid server
    obtain ⟨hmain,hstatics⟩ := thread_of_step (fun b n v he => ha ⟨b,n,v,he⟩) hs
    have hover : ∀ x ∈ launches st a, (∃ i, x.cause = .overload i) ∧ x.tier = .mid := by
      intro x hx
      cases a with
      | main booting now vmId => exact absurd ⟨booting,now,vmId,rfl⟩ ha
      | execute i vmId =>
        simp only [launches] at hx
        split at hx
        · rw [List.mem_singleton.mp hx]
          exact ⟨⟨i,rfl⟩,rfl⟩
        · cases hx
      | _ => cases hx
    exact h.keep (fun x hx => (hover x hx).1) (fun x hx => (hover x hx).2) (by rw [hmain]) (by rw [hmain])
      (by rw [hstatics]) (by rw [hstatics]) (fun t ht => by rwa [hmain] at ht)

theorem length_fronts {started : List Launch} (h : ∀ x ∈ started, x.tier = .front →
    x.cause = .startUp ∨ x.cause = .boot ∨ x.cause = .frontBehind) :
    (started.filter (fun x => decide (x.tier = .front))).length =
      (tiersFor .startUp started).count .front + (tiersFor .boot started).count .front +
        (tiersFor .frontBehind started).count .front := by
  induction started with
  | nil => rfl
  | cons x started ih =>
    rw [List.forall_mem_cons] at h
    rw [← List.singleton_append, List.filter_append, List.length_append, ih h.2, tiersFor_append,
      tiersFor_append, tiersFor_append, List.count_append, List.count_append, List.count_append,
      tiersFor_singleton, tiersFor_singleton, tiersFor_singleton]
    by_cases ht : x.tier = .front
    · rcases h.1 ht with hc | hc | hc <;> simp [ht,hc] <;> omega
    · simp [ht]
      split_ifs <;> simp [ht]

theorem BootPlan.of_append {tiers rest : List Tier} (h : BootPlan (tiers ++ rest)) :
    (tiers <+: [.mid] ∨ tiers <+: [.front,.mid,.mid,.mid,.mid]) ∧ tiers.count .front ≤ 1 := by
  have hcount : tiers.count .front ≤ (tiers ++ rest).count .front :=
    (List.sublist_append_left tiers rest).count_le _
  have hbefore : tiers <+: tiers ++ rest := List.prefix_append tiers rest
  rcases h with he | he | he <;> rw [he] at hcount hbefore
  · rw [List.prefix_nil.mp hbefore]
    exact ⟨.inl List.nil_prefix,Nat.zero_le 1⟩
  · exact ⟨.inl hbefore,hcount.trans (by decide)⟩
  · exact ⟨.inr hbefore,hcount.trans (by decide)⟩

/-- The master starts one mid and one front server at start-up and at most one front and
four mid servers in the whole boot phase; and in a run whose clock shows times between `t0`
and `t1`, even if it goes back, it ever has at most `2 + (t1 - t0) / 3001` front servers
started, whatever the load and whatever its slaves call. -/
theorem front_budget (masterStartTime t0 t1 : ℤ) (h0 : 0 < t0) (hle : t0 ≤ t1) (h1 : t1 < 2 ^ 63)
    (as : List (Action R)) (st : State R) (hr : system.run (start masterStartTime) as = some st)
    (hclock : system.Meets (ClockWithin t0 t1) (start masterStartTime) as) :
    let started := system.emitted launches (start masterStartTime) as
    tiersFor .startUp started <+: [.mid,.front] ∧
    (tiersFor .boot started <+: [.mid] ∨ tiersFor .boot started <+: [.front,.mid,.mid,.mid,.mid]) ∧
    ((started.filter (fun x => decide (x.tier = .front))).length : ℤ) ≤ 2 + (t1 - t0) / 3001 := by
  intro started
  have h : Budget masterStartTime t0 t1 started st :=
    LabelledSystem.emitted_invariant (I := fun l (u : State R) => Budget masterStartTime t0 t1 l u)
      (fun _ _ _ _ hl hg hs => budget_step h0 h1 hl hg hs) hr hclock (budget_start masterStartTime t0 t1)
  have hboot : (tiersFor .boot started <+: [.mid] ∨ tiersFor .boot started <+: [.front,.mid,.mid,.mid,.mid]) ∧
      (tiersFor .boot started).count .front ≤ 1 := by
    rcases h.boot with ⟨_,hnone,_⟩ | ⟨_,hplan⟩
    · rw [hnone]
      exact ⟨.inl List.nil_prefix,Nat.zero_le 1⟩
    · exact hplan.of_append
  have hstartUp : (tiersFor .startUp started).count .front ≤ 1 := by
    have hcount := (List.sublist_append_left (tiersFor .startUp started) st.main.unstarted).count_le .front
    rw [h.startUp] at hcount
    exact hcount.trans (by decide)
  have hadded : 3001 * ((tiersFor .frontBehind started).count .front : ℤ) ≤ t1 - t0 := by
    have hcount : (tiersFor .frontBehind started).count .front ≤ (tiersFor .frontBehind started).length :=
      List.count_le_length
    rcases h.added with ⟨_,hnone⟩ | ⟨hlow,hhigh⟩
    · rw [hnone, List.count_nil]
      push_cast
      omega
    · omega
  refine ⟨⟨_,h.startUp⟩,hboot.1,?_⟩
  rw [length_fronts h.fronts]
  push_cast
  omega

instance decidableClockWithin (t0 t1 : ℤ) (st : State R) : (a : Action R) → Decidable (ClockWithin t0 t1 st a)
  | .main _ now _ => decidable_of_iff ((st.main.atLoop = true → 0 ≤ now ∧ now < 2 ^ 63) ∧
      (st.main.atScaleCheck = true → t0 ≤ now ∧ now ≤ t1))
      (by rw [MainPc.atLoop_iff, MainPc.atScaleCheck_iff]; rfl)
  | .boot _ => .isTrue trivial
  | .run _ _ => .isTrue trivial
  | .execute _ _ => .isTrue trivial
  | .arrive _ _ => .isTrue trivial
  | .throws _ => .isTrue trivial

/-- Two passes outside boot, 3500 ms apart; the second finds seven requests waiting. -/
def oneFrontMore : List (Action ℕ) :=
  [.main false 0 2,.main false 0 3,.arrive 1 0,.main false 0 0,.main false 0 0,.main false 0 0,
    .main false 1000 0,.arrive 1 1,.arrive 1 2,.arrive 1 3,.arrive 1 4,.arrive 1 5,.arrive 1 6,
    .arrive 1 7,.main false 0 0,.main false 0 0,.main false 0 0,.main false 4500 0,.main false 0 4]

theorem front_budget_oneFrontMore : ∃ st, system.run (start 500) oneFrontMore = some st ∧
    (((system.emitted launches (start 500) oneFrontMore).filter
      (fun x => decide (x.tier = .front))).length : ℤ) ≤ 2 + (4500 - 1000) / 3001 := by
  have hrun : (system.run (start 500) oneFrontMore).isSome := by decide +kernel
  obtain ⟨st,hst⟩ := Option.isSome_iff_exists.mp hrun
  exact ⟨st,hst,(front_budget 500 1000 4500 (by decide) (by decide) (by decide) oneFrontMore st
    hst (by decide +kernel)).2.2⟩

end Cluster
end AutoScaling
