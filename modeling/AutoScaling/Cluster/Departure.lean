import AutoScaling.Cluster.Requests
import AutoScaling.Master.Removal

/-! # What a departing server leaves behind

One slave against the master's handlers as threads. The master takes up the slave's
`getTier`, `scaleOut` and `deleteVMFromMap` in a thread each, and executes its other calls
in one step. What the other servers and the master's own thread call is left open, and so
is where an exception meets the slave. The normal way out of a routine, `shutDown`,
deregisters; an exception from any other call ends the loop with the id still in the map,
and with whatever request the slave held.
-/
namespace AutoScaling
variable {R : Type*}

namespace SlavePc

def call (i : VmId) : SlavePc R → Option Handlers.Call
  | .getTier .sent => some (.getTier i)
  | .midScaleOut _ _ _ .sent => some (.scaleOut Tier.mid.id)
  | .deleteVM _ .sent => some (.deleteVMFromMap i)
  | _ => none

def returned : SlavePc R → Option TierId → Option (SlavePc R)
  | .getTier .sent, some tierId => some (.getTier (.replied tierId))
  | .midScaleOut cnt len r .sent, none => some (.midScaleOut cnt len r (.replied ()))
  | .deleteVM tier .sent, none => some (.deleteVM tier (.replied ()))
  | _, _ => none

def left : SlavePc R → Bool
  | .exited _ _ => true
  | .ended (some _) _ => true
  | _ => false

end SlavePc

namespace Departure
open ValueCount

/-- `thread` is the master's thread that serves the slave's call; `log` is a ghost. -/
structure State (R : Type*) where
  slave : Slave R
  thread : Option ℕ
  master : Handlers.State
  requestQueue : List (Ticket R)
  log : List (Event R)

namespace State

def goto (st : State R) (pc : SlavePc R) : State R := { st with slave := st.slave.goto pc }

def execute (i : VmId) (st : State R) : Option (State R) :=
  match st.slave.pc with
  | .frontVMCount .sent => some (st.goto (.frontVMCount (.replied (st.master.reg.getVMCount 0))))
  | .frontLength cnt .sent => some (st.goto (.frontLength cnt (.replied st.requestQueue.length)))
  | .frontAdd r .sent =>
    some ({ st with
      requestQueue := st.requestQueue ++ [r]
      log := st.log ++ [Event.queued r] }.goto (.frontAdd r (.replied ())))
  | .midVMCount now .sent => some (st.goto (.midVMCount now (.replied (st.master.reg.getVMCount 1))))
  | .midLength now cnt .sent => some (st.goto (.midLength now cnt (.replied st.requestQueue.length)))
  | .midPoll now cnt len .sent =>
    match st.requestQueue with
    | [] => some (st.goto (.midPoll now cnt len (.replied none)))
    | r :: rest =>
      some ({ st with
        requestQueue := rest
        log := st.log ++ [Event.polled i r] }.goto (.midPoll now cnt len (.replied (some r))))
  | _ => none

def call (i : VmId) (st : State R) : Option (State R) :=
  match st.thread, st.slave.pc.call i with
  | none, some c => some { st with master := st.master.issue c, thread := some st.master.next }
  | _, _ => none

def reply (st : State R) : Option (State R) :=
  match st.thread with
  | none => none
  | some t =>
    match st.master.pc t with
    | .returned val => (st.slave.pc.returned val).map (fun pc => { st.goto pc with thread := none })
    | _ => none

end State

/-- What others than server `i` do at the master: scale-outs of the two tiers, any lookups,
deregistrations of other ids, and the steps of all threads. -/
def foreign (i : VmId) : Handlers.Action → Bool
  | .call (.scaleOut tierId) => tierId = 0 || tierId = 1
  | .call (.deleteVMFromMap vmId) => vmId ≠ i
  | .call (.getTier _) => true
  | .step _ _ => true

inductive Action (R : Type*)
  | boot
  | run (now : ℤ)
  | arrive (r : R)
  | throws
  | call
  | reply
  | execute
  | master (a : Handlers.Action)
  | others (requestQueue : List (Ticket R))

def step (i : VmId) (st : State R) : Action R → Option (State R)
  | .boot => if i ∈ st.master.vms ∧ st.slave.pc.isOff then some (st.goto .booting) else none
  | .run now => (st.slave.run i now).map (fun moved =>
      { st with slave := moved.1, log := st.log ++ moved.2 })
  | .arrive r => some { st with slave := { st.slave with slQueue := st.slave.slQueue ++ [r] } }
  -- the thread that serves the failing call goes on by itself
  | .throws => st.slave.throws.map (fun s => { st with slave := s, thread := none })
  | .call => st.call i
  | .reply => st.reply
  | .execute => st.execute i
  | .master a =>
    if foreign i a then (Handlers.step st.master a).map (fun m => { st with master := m }) else none
  | .others requestQueue => some { st with requestQueue := requestQueue }

def system (i : VmId) : LabelledSystem (State R) (Action R) := ⟨step i⟩

def start : State R := ⟨Slave.initial,none,Handlers.start,[],[]⟩

/-- The id is out of the map and in neither counter, and every request that the server
obtained it has put into the master's queue, processed or dropped. -/
def Clean (i : VmId) (st : State R) : Prop :=
  i ∉ st.master.reg.id2TierMap ∧ Handlers.NotCounted i st.master ∧
    (obtained st.log : Multiset (Ticket R)) = settled st.log

def StoresCurrent (st : State R) : Action R → Prop
  | .master a => Handlers.StoresCurrent st.master a
  | _ => True

/-- The master has taken the server out of the map and brought its counter down. -/
def deregistered (st : State R) : Bool :=
  match st.slave.pc with
  | .deleteVM _ .sent => st.thread.any (fun t => (st.master.pc t).deregistered)
  | .deleteVM _ (.replied _) => true
  | _ => false

/-- No call of a front or mid server throws before the master has deregistered it. -/
def ThrowsOnlyDeregistered (st : State R) : Action R → Prop
  | .throws => st.slave.pc.tier.isSome = true → deregistered st = true
  | _ => True

instance decidableStoresCurrent (st : State R) : (a : Action R) → Decidable (StoresCurrent st a)
  | .master a => inferInstanceAs (Decidable (Handlers.StoresCurrent st.master a))
  | .boot => .isTrue trivial
  | .run _ => .isTrue trivial
  | .arrive _ => .isTrue trivial
  | .throws => .isTrue trivial
  | .call => .isTrue trivial
  | .reply => .isTrue trivial
  | .execute => .isTrue trivial
  | .others _ => .isTrue trivial

instance decidableThrowsOnlyDeregistered (st : State R) :
    (a : Action R) → Decidable (ThrowsOnlyDeregistered st a)
  | .throws => inferInstanceAs (Decidable (_ → _))
  | .boot => .isTrue trivial
  | .run _ => .isTrue trivial
  | .arrive _ => .isTrue trivial
  | .call => .isTrue trivial
  | .reply => .isTrue trivial
  | .execute => .isTrue trivial
  | .master _ => .isTrue trivial
  | .others _ => .isTrue trivial

/-- What the master has made of server `i`, by where the server stands and which thread
serves its call. -/
def Standing (i : VmId) (m : Handlers.State) : SlavePc R → Option ℕ → Prop
  | .getTier .sent, some t => Handlers.NoDelete i m ∧
    ∀ val, m.pc t = .returned (some val) → i ∈ m.reg.id2TierMap ∨ val = -1
  | .getTier (.replied val), _ => Handlers.NoDelete i m ∧ (i ∈ m.reg.id2TierMap ∨ val = -1)
  | .deleteVM _ .sent, some t => Handlers.DeletesOnly i t m ∧
    (i ∈ m.reg.id2TierMap ↔ (m.pc t).call = some (.deleteVMFromMap i))
  | .deleteVM _ (.replied _), _ => i ∉ m.reg.id2TierMap ∧ Handlers.Paid i m
  | .exited _ _, _ => True
  | .ended _ _, _ => True
  | pc, _ => Handlers.NoDelete i m ∧ (pc.tier.isSome → i ∈ m.reg.id2TierMap)

/-- The master's threads are in order, the slave's account is balanced, and what the slave
and the master know of each other agrees. -/
structure Inv (i : VmId) (st : State R) : Prop where
  master : Handlers.Deregistering i st.master
  account : (obtained st.log : Multiset (Ticket R)) = settled st.log + st.slave.pc.held.toList
  started : st.slave.pc ≠ .off → i ∈ st.master.vms
  recorded : st.slave.pc.tier ≠ none → Handlers.Recorded i st.master
  calling : ∀ t ∈ st.thread, t < st.master.next ∧
    ∃ c, st.slave.pc.call i = some c ∧ st.master.call t = some c
  standing : Standing i st.master st.slave.pc st.thread

theorem inv_start (i : VmId) : Inv i (start : State R) := by
  refine ⟨Handlers.deregistering_start i,rfl,fun h => absurd rfl h,fun h => absurd rfl h,?_,?_⟩
  · intro t ht
    cases ht
  · exact ⟨fun j hj => (by cases hj),fun h => (by cases h)⟩

/-- A step at the master that is no call to deregister `i` leaves the server where it stands. -/
theorem Standing.step {i : VmId} {m m' : Handlers.State} {pc : SlavePc R} {thread : Option ℕ}
    {a : Handlers.Action} (h : Standing i m pc thread) (hm : Handlers.Deregistering i m)
    (hrec : pc.tier ≠ none → Handlers.Recorded i m)
    (hcalling : ∀ t ∈ thread, t < m.next ∧ ∃ c, pc.call i = some c ∧ m.call t = some c)
    (ha : a ≠ .call (.deleteVMFromMap i)) (hs : Handlers.system.step m a = some m') :
    Standing i m' pc thread := by
  have horder := hm.order
  have hmember : ∀ q : Prop, Handlers.NoDelete i m ∧ (q → i ∈ m.reg.id2TierMap) →
      Handlers.NoDelete i m' ∧ (q → i ∈ m'.reg.id2TierMap) := fun q hq =>
    ⟨hq.1.step ha hs,fun hb => Handlers.mem_step horder hq.1 (hq.2 hb) hs⟩
  cases pc with
  | getTier b =>
    cases b with
    | sent =>
      cases thread with
      | none => exact hmember _ h
      | some t =>
        obtain ⟨hno,htold⟩ := h
        obtain ⟨hlt,c,hc,hcall⟩ := hcalling t rfl
        cases hc
        exact ⟨hno.step ha hs,Handlers.answer_step horder hno hlt hcall htold hs⟩
    | replied val =>
      obtain ⟨hno,htold⟩ := h
      exact ⟨hno.step ha hs,htold.imp_left (fun hin => Handlers.mem_step horder hno hin hs)⟩
  | deleteVM tier b =>
    have hout := hrec (by simp [SlavePc.tier])
    cases b with
    | sent =>
      cases thread with
      | none => exact hmember _ h
      | some t =>
        obtain ⟨honly,hpc⟩ := h
        obtain ⟨hlt,c,hc,hcall⟩ := hcalling t rfl
        cases hc
        exact ⟨honly.step ha hs,hm.progress_step hout hcall honly hpc hs⟩
    | replied u =>
      obtain ⟨hgone,hpaid⟩ := h
      exact ⟨hout.notMem_step hgone hs,hm.paid_step hgone hpaid hs⟩
  | exited tier d => trivial
  | ended tier r => trivial
  | _ => exact hmember _ h

theorem Inv.move {i : VmId} {st st' : State R} (h : Inv i st) {a : Handlers.Action}
    (htiers : Handlers.TwoTiers a) (hcurrent : Handlers.StoresCurrent st.master a)
    (hs : Handlers.system.step st.master a = some st'.master) (hslave : st'.slave = st.slave)
    (hlog : st'.log = st.log)
    (hcalling : ∀ t ∈ st'.thread, t < st'.master.next ∧
      ∃ c, st.slave.pc.call i = some c ∧ st'.master.call t = some c)
    (hstanding : Standing i st'.master st.slave.pc st'.thread) : Inv i st' := by
  refine ⟨Handlers.deregistering_step h.master htiers hcurrent hs,?_,?_,?_,?_,?_⟩ <;> rw [hslave]
  · rw [hlog]
    exact h.account
  · exact fun hoff => Handlers.vms_step hs (h.started hoff)
  · intro htier
    refine (h.recorded htier).step (h.started ?_) hs
    intro hoff
    rw [hoff] at htier
    exact htier rfl
  · exact hcalling
  · exact hstanding

theorem Inv.others {i : VmId} {st : State R} (h : Inv i st) {a : Handlers.Action}
    {m : Handlers.State} (hforeign : foreign i a = true)
    (hcurrent : Handlers.StoresCurrent st.master a)
    (hs : Handlers.system.step st.master a = some m) : Inv i { st with master := m } := by
  have htiers : Handlers.TwoTiers a := by
    cases a with
    | call c =>
      cases c with
      | scaleOut tierId => simpa [foreign,Handlers.TwoTiers] using hforeign
      | deleteVMFromMap vmId => trivial
      | getTier id => trivial
    | step k vmId => trivial
  have ha : a ≠ .call (.deleteVMFromMap i) := by
    rintro rfl
    simp [foreign] at hforeign
  refine h.move htiers hcurrent hs rfl rfl ?_ (h.standing.step h.master h.recorded h.calling ha hs)
  intro t ht
  obtain ⟨hlt,c,hc,hcall⟩ := h.calling t ht
  obtain ⟨hkeep,hlt'⟩ := Handlers.call_step hs hlt
  exact ⟨hlt',c,hc,hkeep.trans hcall⟩

theorem Inv.thread_none {i : VmId} {st : State R} (h : Inv i st) (hcall : st.slave.pc.call i = none) :
    st.thread = none := by
  cases ht : st.thread with
  | none => rfl
  | some t =>
    obtain ⟨_,c,hc,_⟩ := h.calling t ht
    rw [hcall] at hc
    cases hc

theorem call_eq_some {i : VmId} {pc : SlavePc R} {c : Handlers.Call} (h : pc.call i = some c) :
    (pc = .getTier .sent ∧ c = .getTier i) ∨
    (∃ cnt len r, pc = .midScaleOut cnt len r .sent ∧ c = .scaleOut Tier.mid.id) ∨
    (∃ tier, pc = .deleteVM tier .sent ∧ c = .deleteVMFromMap i) := by
  cases pc with
  | getTier b =>
    cases b <;> cases h
    exact .inl ⟨rfl,rfl⟩
  | midScaleOut cnt len r b =>
    cases b <;> cases h
    exact .inr (.inl ⟨cnt,len,r,rfl,rfl⟩)
  | deleteVM tier b =>
    cases b <;> cases h
    exact .inr (.inr ⟨tier,rfl,rfl⟩)
  | _ => cases h

theorem Inv.call {i : VmId} {st st' : State R} (h : Inv i st) (hs : st.call i = some st') :
    Inv i st' := by
  simp only [State.call] at hs
  split at hs <;> cases hs
  rename_i c hthread hcall
  have hstanding := h.standing
  rw [hthread] at hstanding
  have hstep : Handlers.system.step st.master (.call c) = some (st.master.issue c) := rfl
  have hcalling : ∀ t ∈ some st.master.next, t < (st.master.issue c).next ∧
      ∃ d, st.slave.pc.call i = some d ∧ (st.master.issue c).call t = some d := by
    rintro t ⟨⟩
    exact ⟨Nat.lt_succ_self _,c,hcall,Handlers.issue_call_next st.master c⟩
  rcases call_eq_some hcall with ⟨hpc,rfl⟩ | ⟨cnt,len,r,hpc,rfl⟩ | ⟨tier,hpc,rfl⟩ <;>
    rw [hpc] at hstanding
  · refine h.move (a := .call (.getTier i)) trivial (fun _ => rfl) hstep rfl rfl hcalling ?_
    rw [hpc]
    refine ⟨hstanding.1.step (by simp) hstep,?_⟩
    intro val hval
    rw [Handlers.State.issue_pc_next] at hval
    cases hval
  · refine h.move (a := .call (.scaleOut 1)) (.inr rfl) (fun _ => rfl) hstep rfl rfl hcalling ?_
    rw [hpc]
    exact ⟨hstanding.1.step (by simp) hstep,hstanding.2⟩
  · refine h.move (a := .call (.deleteVMFromMap i)) trivial (fun _ => rfl) hstep rfl rfl hcalling ?_
    rw [hpc]
    refine ⟨?_,iff_of_true (hstanding.2 rfl) (by rw [Handlers.State.issue_pc_next]; rfl)⟩
    intro j hj
    by_contra hne
    rw [Handlers.issue_call_of_ne st.master _ hne] at hj
    exact hstanding.1 j hj

theorem Inv.slave {i : VmId} {st st' : State R} (h : Inv i st) {ev : List (Event R)}
    (hmaster : st'.master = st.master) (hlog : st'.log = st.log ++ ev)
    (haccount : (st.slave.pc.held.toList : Multiset (Ticket R)) + obtained ev =
      settled ev + st'.slave.pc.held.toList)
    (hon : st.slave.pc ≠ .off) (hthread : st'.thread = none)
    (hstanding : Standing i st.master st'.slave.pc none)
    (htier : st'.slave.pc.tier ≠ none → st.slave.pc.tier ≠ none ∨ i ∈ st.master.reg.id2TierMap) :
    Inv i st' := by
  refine ⟨?_,?_,?_,?_,?_,?_⟩
  · rw [hmaster]
    exact h.master
  · rw [hlog, obtained, settled, tickets_append, tickets_append, ← Multiset.coe_add, ← Multiset.coe_add]
    exact Cluster.total_step h.account haccount (add_comm _ _)
  · rw [hmaster]
    exact fun _ => h.started hon
  · rw [hmaster]
    intro ht
    rcases htier ht with hold | hin
    · exact h.recorded hold
    · exact h.master.order.recorded hin
  · rw [hthread]
    exact fun t ht => (by cases ht)
  · rw [hmaster, hthread]
    exact hstanding

theorem returned_eq_some {pc pc' : SlavePc R} {val : Option TierId} (h : pc.returned val = some pc') :
    (∃ tierId, val = some tierId ∧ pc = .getTier .sent ∧ pc' = .getTier (.replied tierId)) ∨
    (∃ cnt len r, pc = .midScaleOut cnt len r .sent ∧ pc' = .midScaleOut cnt len r (.replied ())) ∨
    (∃ tier, pc = .deleteVM tier .sent ∧ pc' = .deleteVM tier (.replied ())) := by
  cases pc with
  | getTier b =>
    cases b <;> cases val <;> cases h
    exact .inl ⟨_,rfl,rfl,rfl⟩
  | midScaleOut cnt len r b =>
    cases b <;> cases val <;> cases h
    exact .inr (.inl ⟨cnt,len,r,rfl,rfl⟩)
  | deleteVM tier b =>
    cases b <;> cases val <;> cases h
    exact .inr (.inr ⟨tier,rfl,rfl⟩)
  | _ => cases h

theorem Inv.reply {i : VmId} {st st' : State R} (h : Inv i st) (hs : st.reply = some st') :
    Inv i st' := by
  simp only [State.reply] at hs
  split at hs
  · cases hs
  rename_i t hthread
  have hstanding := h.standing
  rw [hthread] at hstanding
  split at hs
  · rename_i val hval
    obtain ⟨pc',hpc',rfl⟩ := Option.map_eq_some_iff.mp hs
    have hlog : st.log = st.log ++ [] := (List.append_nil _).symm
    rcases returned_eq_some hpc' with ⟨tierId,rfl,hpc,rfl⟩ | ⟨cnt,len,r,hpc,rfl⟩ | ⟨tier,hpc,rfl⟩ <;>
      rw [hpc] at hstanding
    · refine h.slave rfl hlog ?_ (by rw [hpc]; simp) rfl ⟨hstanding.1,hstanding.2 tierId hval⟩ ?_
      · rw [hpc]
        rfl
      · exact fun ht => absurd rfl ht
    · refine h.slave rfl hlog ?_ (by rw [hpc]; simp) rfl hstanding
        (fun _ => .inl (by rw [hpc]; simp [SlavePc.tier]))
      rw [hpc]
      exact add_comm _ _
    · obtain ⟨honly,hin⟩ := hstanding
      refine h.slave rfl hlog ?_ (by rw [hpc]; simp) rfl ⟨?_,?_⟩
        (fun _ => .inl (by rw [hpc]; simp [SlavePc.tier]))
      · rw [hpc]
        rfl
      · rw [hin, hval]
        exact fun he => by cases he
      · intro j hj c
        rw [honly j hj, hval]
        rfl
  · cases hs

theorem Standing.run {i : VmId} {m : Handlers.State} {s s' : Slave R} {now : ℤ} {ev : List (Event R)}
    (h : Standing i m s.pc none) (hrun : s.run i now = some (s',ev)) :
    Standing i m s'.pc none ∧ (s'.pc.tier ≠ none → s.pc.tier ≠ none ∨ i ∈ m.reg.id2TierMap) := by
  have hran := Slave.ran_of_run hrun
  rcases s with ⟨pc,st,q⟩
  cases hran with
  | booting => exact ⟨h,fun ht => absurd rfl ht⟩
  | toFront =>
    obtain ⟨hno,htold⟩ := h
    have hin := htold.resolve_right (by decide)
    exact ⟨⟨hno,fun _ => hin⟩,fun _ => .inr hin⟩
  | toMid =>
    obtain ⟨hno,htold⟩ := h
    have hin := htold.resolve_right (by decide)
    exact ⟨⟨hno,fun _ => hin⟩,fun _ => .inr hin⟩
  | toNone tierId h0 h1 => exact ⟨⟨h.1,fun ht => (by cases ht)⟩,fun ht => absurd rfl ht⟩
  | deleteVM tier u => exact ⟨trivial,fun _ => .inl (by simp [SlavePc.tier])⟩
  | _ => exact ⟨h,fun _ => .inl (by simp [SlavePc.tier])⟩

theorem awake_of_run {i : VmId} {s s' : Slave R} {now : ℤ} {ev : List (Event R)}
    (hrun : s.run i now = some (s',ev)) : s.pc ≠ .off ∧ s.pc.call i = none := by
  have hran := Slave.ran_of_run hrun
  rcases s with ⟨pc,st,q⟩
  cases hran <;> exact ⟨by simp,rfl⟩

theorem Inv.run {i : VmId} {st st' : State R} (h : Inv i st) {now : ℤ}
    (hs : step i st (.run now) = some st') : Inv i st' := by
  obtain ⟨⟨s,ev⟩,hrun,rfl⟩ := Option.map_eq_some_iff.mp hs
  obtain ⟨hon,hcall⟩ := awake_of_run hrun
  have hthread := h.thread_none hcall
  have hstanding := h.standing
  rw [hthread] at hstanding
  obtain ⟨hafter,htier⟩ := hstanding.run hrun
  exact h.slave rfl rfl (run_flow [] hrun).flow.account hon hthread hafter htier

theorem throws_eq_some {s s' : Slave R} (h : s.throws = some s') :
    s.pc ≠ .off ∧ (s'.pc = .ended s.pc.tier s.pc.held ∨
      ∃ tier a d, s.pc = .deleteVM tier a ∧ s'.pc = .exited tier d) := by
  rcases s with ⟨pc,st,q⟩
  cases pc with
  | deleteVM tier a =>
    refine ⟨by simp,.inr ?_⟩
    cases a <;> cases h
    · exact ⟨tier,_,_,rfl,rfl⟩
    · exact ⟨tier,_,_,rfl,rfl⟩
  | _ =>
    cases h
    try exact ⟨by simp,.inl rfl⟩

theorem Inv.throws {i : VmId} {st st' : State R} (h : Inv i st)
    (hs : step i st .throws = some st') : Inv i st' := by
  obtain ⟨s,hthrow,rfl⟩ := Option.map_eq_some_iff.mp hs
  obtain ⟨hon,hways⟩ := throws_eq_some hthrow
  refine h.slave rfl (List.append_nil _).symm (throws_flow (i := i) [] hthrow).flow.account hon rfl ?_ ?_
  · rcases hways with hended | ⟨tier,a,d,hpc,hexited⟩
    · rw [hended]
      trivial
    · rw [hexited]
      trivial
  · rcases hways with hended | ⟨tier,a,d,hpc,hexited⟩
    · rw [hended]
      exact .inl
    · rw [hpc]
      exact fun _ => .inl (by simp [SlavePc.tier])

theorem Inv.execute {i : VmId} {st st' : State R} (h : Inv i st) (hs : st.execute i = some st') :
    Inv i st' := by
  have hmoved : ∀ (p q : SlavePc R) (ev : List (Event R)), st.slave.pc = p → st'.slave.pc = q →
      p.call i = none → p.tier ≠ none → st'.thread = st.thread → st'.master = st.master →
      st'.log = st.log ++ ev →
      (p.held.toList : Multiset (Ticket R)) + obtained ev = settled ev + q.held.toList →
      (Standing i st.master p none → Standing i st.master q none) → Inv i st' := by
    rintro p q ev rfl rfl hcall htier hthread hmaster hlog haccount hkeep
    have hstanding := h.standing
    rw [h.thread_none hcall] at hstanding
    refine h.slave hmaster hlog haccount ?_ (hthread.trans (h.thread_none hcall)) (hkeep hstanding)
      (fun _ => .inl htier)
    intro hoff
    rw [hoff] at htier
    exact htier rfl
  have hnil : st.log = st.log ++ [] := (List.append_nil _).symm
  simp only [State.execute] at hs
  cases hpc : st.slave.pc with
  | frontVMCount a =>
    cases a <;> simp only [hpc] at hs <;> cases hs
    exact hmoved _ _ [] hpc rfl rfl (by simp [SlavePc.tier]) rfl rfl hnil rfl id
  | frontLength cnt a =>
    cases a <;> simp only [hpc] at hs <;> cases hs
    exact hmoved _ _ [] hpc rfl rfl (by simp [SlavePc.tier]) rfl rfl hnil rfl id
  | frontAdd r a =>
    cases a <;> simp only [hpc] at hs <;> cases hs
    exact hmoved _ _ [.queued r] hpc rfl rfl (by simp [SlavePc.tier]) rfl rfl rfl rfl id
  | midVMCount now a =>
    cases a <;> simp only [hpc] at hs <;> cases hs
    exact hmoved _ _ [] hpc rfl rfl (by simp [SlavePc.tier]) rfl rfl hnil rfl id
  | midLength now cnt a =>
    cases a <;> simp only [hpc] at hs <;> cases hs
    exact hmoved _ _ [] hpc rfl rfl (by simp [SlavePc.tier]) rfl rfl hnil rfl id
  | midPoll now cnt len a =>
    cases a with
    | sent =>
      simp only [hpc] at hs
      split at hs <;> cases hs
      · exact hmoved _ _ [] hpc rfl rfl (by simp [SlavePc.tier]) rfl rfl hnil rfl id
      · rename_i r rest hqueue
        exact hmoved _ _ [.polled i r] hpc rfl rfl (by simp [SlavePc.tier]) rfl rfl rfl rfl id
    | replied o => simp only [hpc] at hs; cases hs
  | _ => simp only [hpc] at hs; cases hs

theorem Inv.boot {i : VmId} {st st' : State R} (h : Inv i st) (hs : step i st .boot = some st') :
    Inv i st' := by
  obtain ⟨⟨hvms,hoff⟩,hst⟩ := Option.ite_none_right_eq_some.mp hs
  cases hst
  have hpc : st.slave.pc = .off := SlavePc.isOff_iff.mp hoff
  have hstanding := h.standing
  have haccount := h.account
  rw [hpc] at hstanding haccount
  have hnone : (st.goto .booting).thread = none := h.thread_none (by rw [hpc]; rfl)
  refine ⟨h.master,haccount,fun _ => hvms,fun ht => absurd rfl ht,?_,hstanding⟩
  rw [hnone]
  exact fun t ht => (by cases ht)

theorem inv_step {i : VmId} {st st' : State R} {a : Action R} (h : Inv i st)
    (hcurrent : StoresCurrent st a) (hs : (system i).step st a = some st') : Inv i st' := by
  cases a with
  | boot => exact h.boot hs
  | run now => exact h.run hs
  | arrive r =>
    cases hs
    exact ⟨h.master,h.account,h.started,h.recorded,h.calling,h.standing⟩
  | throws => exact h.throws hs
  | call => exact h.call hs
  | reply => exact h.reply hs
  | execute => exact h.execute hs
  | master b =>
    obtain ⟨hforeign,hst⟩ := Option.ite_none_right_eq_some.mp hs
    obtain ⟨m,hm,rfl⟩ := Option.map_eq_some_iff.mp hst
    exact h.others hforeign hcurrent hm
  | others requestQueue =>
    cases hs
    exact ⟨h.master,h.account,h.started,h.recorded,h.calling,h.standing⟩

theorem left_of_execute {i : VmId} {st st' : State R} (hs : st.execute i = some st') :
    st'.slave.pc.left = false := by
  simp only [State.execute] at hs
  split at hs
  case h_6 =>
    split at hs <;> cases hs <;> rfl
  all_goals
    cases hs
    try rfl

theorem left_of_reply {st st' : State R} (hs : st.reply = some st') : st'.slave.pc.left = false := by
  simp only [State.reply] at hs
  split at hs
  · cases hs
  split at hs
  · obtain ⟨pc',hpc',rfl⟩ := Option.map_eq_some_iff.mp hs
    rcases returned_eq_some hpc' with ⟨_,_,_,rfl⟩ | ⟨_,_,_,_,rfl⟩ | ⟨_,_,rfl⟩ <;> rfl
  · cases hs

theorem left_of_call {i : VmId} {st st' : State R} (hs : st.call i = some st') :
    st'.slave.pc.left = false := by
  simp only [State.call] at hs
  split at hs <;> cases hs
  rename_i c hthread hcall
  rcases call_eq_some hcall with ⟨hpc,_⟩ | ⟨_,_,_,hpc,_⟩ | ⟨_,hpc,_⟩ <;> simp [hpc,SlavePc.left]

theorem left_of_run {i : VmId} {s s' : Slave R} {now : ℤ} {ev : List (Event R)}
    (hrun : s.run i now = some (s',ev)) (h : s'.pc.left = true) :
    ev = [] ∧ s'.pc.held = none ∧ ∃ tier, s.pc = .deleteVM tier (.replied ()) := by
  have hran := Slave.ran_of_run hrun
  rcases s with ⟨pc,st,q⟩
  cases hran with
  | deleteVM tier u => exact ⟨rfl,rfl,tier,rfl⟩
  | _ => cases h

theorem left_of_throws {s s' : Slave R} (h : s.throws = some s') : s'.pc.left = s.pc.tier.isSome := by
  rcases s with ⟨pc,st,q⟩
  cases pc with
  | getTier a => cases a <;> cases h <;> rfl
  | deleteVM tier a => cases a <;> cases h <;> rfl
  | _ =>
    cases h
    try rfl

theorem tier_of_left {pc : SlavePc R} (h : pc.left = true) : pc.tier ≠ none := by
  cases pc with
  | exited tier d => exact fun he => by cases he
  | ended tier r =>
    cases tier with
    | none => cases h
    | some tier => exact fun he => by cases he
  | _ => cases h

/-- A server is clean when it is out of the map, its deregistration owes nothing and it
holds no request. -/
theorem Inv.clean_iff {i : VmId} {st : State R} (h : Inv i st) (hout : i ∉ st.master.reg.id2TierMap) :
    Clean i st ↔ Handlers.Paid i st.master ∧ st.slave.pc.held = none := by
  have haccount := h.account
  rw [Clean, and_iff_right hout, h.master.notCounted_iff hout]
  apply and_congr_right
  intro _
  cases hheld : st.slave.pc.held with
  | none =>
    rw [hheld] at haccount
    exact iff_of_true (haccount.trans (add_zero _)) rfl
  | some r =>
    rw [hheld] at haccount
    refine iff_of_false ?_ (fun he => by cases he)
    intro he
    rw [he] at haccount
    have hcard := congrArg Multiset.card haccount
    simp at hcard

theorem Inv.clean_others {i : VmId} {st : State R} (h : Inv i st) {a : Handlers.Action}
    {m : Handlers.State} (h' : Inv i { st with master := m })
    (hs : Handlers.system.step st.master a = some m) (htier : st.slave.pc.tier ≠ none)
    (hclean : Clean i st) : Clean i { st with master := m } := by
  have hout := (h.recorded htier).notMem_step hclean.1 hs
  obtain ⟨hpaid,hheld⟩ := (h.clean_iff hclean.1).mp hclean
  exact (h'.clean_iff hout).mpr ⟨h.master.paid_step hclean.1 hpaid hs,hheld⟩

theorem Inv.paid_iff {i : VmId} {st : State R} (h : Inv i st) {tier : Tier} {t : ℕ}
    (hpc : st.slave.pc = .deleteVM tier .sent) (hthread : st.thread = some t) :
    i ∉ st.master.reg.id2TierMap ∧ Handlers.Paid i st.master ↔
      (st.master.pc t).deregistered = true := by
  have hstanding := h.standing
  rw [hpc, hthread] at hstanding
  obtain ⟨honly,hin⟩ := hstanding
  obtain ⟨_,c,hc,hcall⟩ := h.calling t hthread
  rw [hpc] at hc
  cases hc
  have hdel := h.master.deletes t hcall
  have hpaid : Handlers.Paid i st.master ↔ ∀ c, Handlers.owed c (st.master.pc t) = 0 := by
    constructor
    · exact fun hp => hp t hcall
    · intro hp j hj
      rw [honly j hj]
      exact hp
  rw [hpaid, Handlers.owes_nothing_iff hdel, hin]
  constructor
  · rintro ⟨hnone,hsome | hover⟩
    · exact absurd hsome hnone
    · exact hover
  · intro hover
    refine ⟨?_,.inr hover⟩
    rw [Handlers.Pc.call_of_deregistered hover]
    exact fun he => by cases he

/-- An exception leaves the server clean just when its deregistration is done. -/
theorem Inv.clean_throws {i : VmId} {st : State R} {s : Slave R} (h : Inv i st)
    (hthrow : st.slave.throws = some s) (h' : Inv i { st with slave := s, thread := none })
    (htier : st.slave.pc.tier.isSome = true) :
    Clean i { st with slave := s, thread := none } ↔ deregistered st = true := by
  have hstanding := h.standing
  cases hpc : st.slave.pc with
  | deleteVM tier a =>
    obtain ⟨_,hended | ⟨_,_,d,_,hexited⟩⟩ := throws_eq_some hthrow
    · rw [Slave.throws, hpc] at hthrow
      cases a <;> cases hthrow <;> cases hended
    have hheld : s.pc.held = none := by
      rw [hexited]
      rfl
    cases a with
    | sent =>
      cases hthread : st.thread with
      | none =>
        rw [hpc, hthread] at hstanding
        refine iff_of_false (fun hc => hc.1 (hstanding.2 rfl)) ?_
        simp [deregistered,hpc,hthread]
      | some t =>
        have hpaid := h.paid_iff hpc hthread
        have hder : deregistered st = true ↔ (st.master.pc t).deregistered = true := by
          simp [deregistered,hpc,hthread]
        rw [hder, ← hpaid]
        constructor
        · intro hc
          exact ⟨hc.1,((h'.clean_iff hc.1).mp hc).1⟩
        · rintro ⟨hout,hp⟩
          exact (h'.clean_iff hout).mpr ⟨hp,hheld⟩
    | replied u =>
      rw [hpc] at hstanding
      refine iff_of_true ((h'.clean_iff hstanding.1).mpr ⟨hstanding.2,hheld⟩) ?_
      simp [deregistered,hpc]
  | getTier a =>
    rw [hpc] at htier
    cases htier
  | exited tier d =>
    rw [Slave.throws, hpc] at hthrow
    cases hthrow
  | ended tier r =>
    rw [Slave.throws, hpc] at hthrow
    cases hthrow
  | _ =>
    rw [hpc] at hstanding htier
    exact iff_of_false (fun hc => hc.1 (hstanding.2 htier)) (by simp [deregistered,hpc])

theorem clean_step {i : VmId} {st st' : State R} {a : Action R} (h : Inv i st)
    (hcurrent : StoresCurrent st a) (hclean : st.slave.pc.left = true → Clean i st)
    (hs : (system i).step st a = some st') :
    (st'.slave.pc.left = true → Clean i st') ↔ ThrowsOnlyDeregistered st a := by
  have h' := inv_step h hcurrent hs
  have hstays : st'.slave.pc.left = false → ((st'.slave.pc.left = true → Clean i st') ↔ True) := by
    intro hleft
    rw [hleft]
    exact iff_of_true (fun he => by cases he) trivial
  cases a with
  | boot =>
    obtain ⟨_,hst⟩ := Option.ite_none_right_eq_some.mp hs
    cases hst
    exact hstays rfl
  | run now =>
    obtain ⟨⟨s,ev⟩,hrun,rfl⟩ := Option.map_eq_some_iff.mp hs
    refine iff_of_true ?_ trivial
    intro hleft
    obtain ⟨rfl,hheld,tier,hpc⟩ := left_of_run hrun hleft
    have hstanding := h.standing
    rw [hpc] at hstanding
    exact (h'.clean_iff hstanding.1).mpr ⟨hstanding.2,hheld⟩
  | arrive r =>
    cases hs
    exact iff_of_true hclean trivial
  | throws =>
    obtain ⟨s,hthrow,rfl⟩ := Option.map_eq_some_iff.mp hs
    change (s.pc.left = true → _) ↔ (st.slave.pc.tier.isSome = true → _)
    rw [left_of_throws hthrow]
    exact imp_congr_right (fun htier => h.clean_throws hthrow h' htier)
  | call => exact hstays (left_of_call hs)
  | reply => exact hstays (left_of_reply hs)
  | execute => exact hstays (left_of_execute hs)
  | master b =>
    obtain ⟨_,hst⟩ := Option.ite_none_right_eq_some.mp hs
    obtain ⟨m,hm,rfl⟩ := Option.map_eq_some_iff.mp hst
    refine iff_of_true ?_ trivial
    intro hleft
    exact h.clean_others h' hm (tier_of_left hleft) (hclean hleft)
  | others requestQueue =>
    cases hs
    exact iff_of_true hclean trivial

/-- In every run in which no counter update is lost to another, a server that has stopped
serving has left the system clean, at each moment from then on, just when none of its calls
threw before its deregistration was done. -/
theorem clean_iff_throwsOnlyDeregistered (i : VmId) (as : List (Action R)) (st : State R)
    (hr : (system i).run start as = some st) (hcurrent : (system i).Meets StoresCurrent start as) :
    (system i).Along (fun u => u.slave.pc.left = true → Clean i u) start as ↔
      (system i).Meets ThrowsOnlyDeregistered start as :=
  LabelledSystem.along_iff_meets (fun _ _ _ h hc hs => inv_step h hc hs)
    (fun _ _ _ h hc hq hs => clean_step h hc hq hs) hr hcurrent (inv_start i) (fun h => by cases h)

def scaledOut (t : ℕ) (vmId : VmId) (tierId : TierId) : List (Action ℕ) :=
  [.master (.call (.scaleOut tierId)),.master (.step t vmId)] ++
    List.replicate 6 (.master (.step t 0))

/-- Front server 3 takes a request, and its `addRequest` throws. -/
def lostAddRequest : List (Action ℕ) :=
  scaledOut 0 3 0 ++ [.boot,.run 0,.call,.master (.step 1 0),.master (.step 1 0),.reply,.run 0,.run 0,
    .run 0,.execute,.run 0,.execute,.run 0,.arrive 7,.run 0,.throws]

/-- Mid servers 2 and 4 serve, and 2 has found nothing to do for long enough. The master has
served its deregistration up to the load of `midCount`. -/
def scalesIn : List (Action ℕ) :=
  scaledOut 0 2 1 ++ scaledOut 1 4 1 ++ [.boot,.run 0,.call,.master (.step 2 0),.master (.step 2 0),
    .reply,.run 0,.run 0,.run 1000,.execute,.run 0,.execute,.run 0,.execute,.run 0,.run 3001,.execute,
    .run 0,.execute,.run 0,.run 0,.run 0,.call] ++ List.replicate 5 (.master (.step 3 0))

/-- A scale-out loads `midCount` before the deregistration has stored it, and stores it after. -/
def lostDecrement : List (Action ℕ) :=
  scalesIn ++ [.master (.call (.scaleOut 1)),.master (.step 4 5)] ++
    List.replicate 5 (.master (.step 4 0)) ++ [.master (.step 3 0),.master (.step 3 0),
    .master (.step 4 0),.reply,.run 0]

/-- With its `addRequest` failed a server is gone, its id still counted and the request
nowhere; and with no call failed `midCount` is left at 3 for the servers 4 and 5. -/
theorem departures_not_clean :
    (∃ st, (system 3).run start lostAddRequest = some st ∧ st.slave.pc.left = true ∧ ¬ Clean 3 st ∧
      st.master.reg.frontCount = 2 ∧ obtained st.log = [⟨.front 3,7⟩] ∧ settled st.log = []) ∧
    (∃ st, (system 2).run start lostDecrement = some st ∧ st.slave.pc.left = true ∧ ¬ Clean 2 st ∧
      st.master.reg.midCount = 3 ∧ Handlers.AllReturned st.master) := by
  constructor
  · have hrun : ∃ st, (system 3).run start lostAddRequest = some st ∧ st.slave.pc.left = true ∧
        3 ∈ st.master.reg.id2TierMap ∧ st.master.reg.frontCount = 2 ∧
        obtained st.log = [⟨.front 3,7⟩] ∧ settled st.log = [] := by decide +kernel
    obtain ⟨st,hst,hleft,hin,hrest⟩ := hrun
    exact ⟨st,hst,hleft,fun hclean => hclean.1 hin,hrest⟩
  · have hrun : ∃ st, (system 2).run start lostDecrement = some st ∧ st.slave.pc.left = true ∧
        st.master.reg.counter .mid + ∑ j ∈ (Finset.range st.master.next).filter
          (fun j => st.master.call j ≠ some (.deleteVMFromMap 2)), Handlers.owed .mid (st.master.pc j) ≠
          valueCount (st.master.reg.id2TierMap.erase 2) Tier.mid.id ∧
        st.master.reg.midCount = 3 ∧ Handlers.AllReturned st.master := by decide +kernel
    obtain ⟨st,hst,hleft,hcount,hrest⟩ := hrun
    exact ⟨st,hst,hleft,fun hclean => hcount (hclean.2.1 .mid),hrest⟩

/-- Mid server 2 leaves while another scale-out is under way, and only the reply to its
deregistration is lost. -/
def lostReply : List (Action ℕ) :=
  scalesIn ++ [.master (.call (.scaleOut 1)),.master (.step 4 5),.master (.step 4 0),
    .master (.step 3 0),.throws,.master (.step 4 0),.master (.step 3 0)]

theorem clean_lostReply : ∃ st, (system 2).run start lostReply = some st ∧ Clean 2 st := by
  have hrun : ∃ st, (system 2).run start lostReply = some st ∧ st.slave.pc.left = true ∧
      (system 2).Meets StoresCurrent start lostReply ∧
      (system 2).Meets ThrowsOnlyDeregistered start lostReply := by decide +kernel
  obtain ⟨st,hst,hleft,hcurrent,hthrows⟩ := hrun
  have hclean := (clean_iff_throwsOnlyDeregistered 2 lostReply st hst hcurrent).mpr hthrows
  exact ⟨st,hst,hclean.last hst hleft⟩

end Departure
end AutoScaling
