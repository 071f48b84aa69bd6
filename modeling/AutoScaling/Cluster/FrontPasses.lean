import AutoScaling.Cluster.Arrivals
import AutoScaling.Cluster.FrontScaleIn
import AutoScaling.Cluster.SlaveSteps

/-! # When a front server leaves

What a front server reads in a run of the cluster, and what it makes of it: it leaves at
the first of its readings that closes a window, and every reading was true at the master.
-/
namespace AutoScaling

namespace Statics

theorem firstShutDown_concat {st : Statics} {xs : List FrontReading} (h : st.firstShutDown xs = none)
    (x : FrontReading) : st.firstShutDown (xs ++ [x]) =
      if ((st.afterScaleIns xs).frontScaleIn x.frontMasterCnt x.masterRequestLen).2 then
        some (xs.length + 1)
      else none := by
  induction xs generalizing st with
  | nil =>
    simp only [List.nil_append,firstShutDown,afterScaleIns,List.foldl_nil,List.length_nil,Nat.zero_add,
      Option.map_none]
  | cons y xs ih =>
    simp only [firstShutDown] at h
    split at h
    · cases h
    · rename_i hstay
      rw [Option.map_eq_none_iff] at h
      have hrest := ih h
      simp only [List.cons_append,firstShutDown]
      rw [if_neg hstay, hrest]
      simp only [afterScaleIns,List.foldl_cons,List.length_cons]
      exact apply_ite (Option.map (· + 1)) _ _ _

end Statics

namespace Cluster
variable {R : Type*}

/-- What front server `i` reads where the master executes its `getRequestLength()`: the
count that it has been told before, and the length. -/
def frontReadings (i : VmId) (st : State R) : Action R → List FrontReading
  | .execute j _ =>
    if j = i then
      match (st.slaves i).pc with
      | .frontLength cnt .sent => [⟨cnt,st.requestQueue.length⟩]
      | _ => []
    else []
  | _ => []

def servesFront : SlavePc R → Bool
  | .frontHandler => true
  | .frontRoutine => true
  | .frontVMCount _ => true
  | .frontLength _ .sent => true
  | .frontNext => true
  | .frontAdd _ _ => true
  | _ => false

def leavesFront : SlavePc R → Bool
  | .shutDown .front => true
  | .lookupMaster .front => true
  | .deleteVM .front _ => true
  | .exited .front _ => true
  | _ => false

def Open (l : List FrontReading) (st : Statics) : Prop :=
  st = Statics.initial.afterScaleIns l ∧ Statics.initial.firstShutDown l = none

def Stands (l : List FrontReading) (s : Slave R) : Prop :=
  match s.pc with
  | .off => l = [] ∧ s.statics = .initial
  | .booting => l = [] ∧ s.statics = .initial
  | .getTier _ => l = [] ∧ s.statics = .initial
  | .frontHandler => Open l s.statics
  | .frontRoutine => Open l s.statics
  | .frontVMCount _ => Open l s.statics
  | .frontLength _ .sent => Open l s.statics
  | .frontLength cnt (.replied len) => ∃ l₀, l = l₀ ++ [⟨cnt,len⟩] ∧ Open l₀ s.statics
  | .frontNext => Open l s.statics
  | .frontAdd _ _ => Open l s.statics
  | .shutDown .front => Statics.initial.firstShutDown l = some l.length
  | .lookupMaster .front => Statics.initial.firstShutDown l = some l.length
  | .deleteVM .front _ => Statics.initial.firstShutDown l = some l.length
  | .exited .front _ => Statics.initial.firstShutDown l = some l.length
  | _ => True

theorem Stands.serves {l : List FrontReading} {s : Slave R} (h : Stands l s)
    (hpc : servesFront s.pc = true) : Open l s.statics := by
  rcases s with ⟨pc,st,q⟩
  cases pc with
  | frontLength cnt a => cases a <;> cases hpc; exact h
  | _ => cases hpc <;> exact h

theorem Stands.leaves {l : List FrontReading} {s : Slave R} (h : Stands l s)
    (hpc : leavesFront s.pc = true) : Statics.initial.firstShutDown l = some l.length := by
  rcases s with ⟨pc,st,q⟩
  cases pc with
  | shutDown tier => cases tier <;> cases hpc; exact h
  | lookupMaster tier => cases tier <;> cases hpc; exact h
  | deleteVM tier a => cases tier <;> cases hpc; exact h
  | exited tier d => cases tier <;> cases hpc; exact h
  | _ => cases hpc

theorem Open.shutDown {l : List FrontReading} {st : Statics} (h : Open l st) {x : FrontReading}
    (hshut : (st.frontScaleIn x.frontMasterCnt x.masterRequestLen).2 = true) :
    Statics.initial.firstShutDown (l ++ [x]) = some (l ++ [x]).length := by
  rw [Statics.firstShutDown_concat h.2, ← h.1, if_pos hshut, List.length_append, List.length_singleton]

theorem Open.stay {l : List FrontReading} {st : Statics} (h : Open l st) {x : FrontReading}
    (hstay : (st.frontScaleIn x.frontMasterCnt x.masterRequestLen).2 = false) :
    Open (l ++ [x]) (st.frontScaleIn x.frontMasterCnt x.masterRequestLen).1 := by
  constructor
  · rw [Statics.afterScaleIns_concat, ← h.1]
  · rw [Statics.firstShutDown_concat h.2, ← h.1, if_neg (by rw [hstay]; exact Bool.false_ne_true)]

theorem Stands.run {i : VmId} {l : List FrontReading} {s s' : Slave R} {now : ℤ} {ev : List (Event R)}
    (h : Stands l s) (hrun : s.run i now = some (s',ev)) : Stands l s' := by
  have hran := Slave.ran_of_run hrun
  rcases s with ⟨pc,st,q⟩
  cases hran with
  | toFront =>
    obtain ⟨hl,hst⟩ : l = [] ∧ st = .initial := h
    exact ⟨hl ▸ hst,hl ▸ rfl⟩
  | frontShutDown cnt len hshut =>
    obtain ⟨l₀,rfl,hopen⟩ : ∃ l₀, l = l₀ ++ [FrontReading.mk cnt len] ∧ Open l₀ st := h
    exact hopen.shutDown (x := ⟨cnt,len⟩) hshut
  | frontStay cnt len hstay =>
    obtain ⟨l₀,rfl,hopen⟩ : ∃ l₀, l = l₀ ++ [FrontReading.mk cnt len] ∧ Open l₀ st := h
    exact hopen.stay (x := ⟨cnt,len⟩) hstay
  | shutDown tier => cases tier <;> exact h
  | lookupMaster tier => cases tier <;> exact h
  | deleteVM tier u => cases tier <;> exact h
  | booting => exact h
  | frontHandler => exact h
  | frontRoutine => exact h
  | frontVMCount cnt => exact h
  | frontNext r rest => exact h
  | frontAdd r u => exact h
  | _ => trivial

theorem Stands.throws {l : List FrontReading} {s s' : Slave R} (h : Stands l s)
    (hthrow : s.throws = some s') : Stands l s' := by
  rcases s with ⟨pc,st,q⟩
  cases pc with
  | deleteVM tier a => cases tier <;> cases a <;> cases hthrow <;> exact h
  | getTier a => cases a <;> cases hthrow <;> trivial
  | _ => cases hthrow <;> trivial

theorem frontReadings_eq_nil {i vmId : VmId} {st : State R}
    (h : ∀ cnt, (st.slaves i).pc ≠ .frontLength cnt .sent) : frontReadings i st (.execute i vmId) = [] := by
  rw [frontReadings, if_pos rfl]
  split
  · exact absurd ‹_› (h _)
  · rfl

theorem Stands.execute {i vmId : VmId} {l : List FrontReading} {st st' : State R}
    (h : Stands l (st.slaves i)) (hs : Executed st i st') :
    Stands (l ++ frontReadings i st (.execute i vmId)) (st'.slaves i) := by
  cases hs with
  | answer pc ha =>
    simp only [State.setPc,State.setSlave,Function.update_self,Slave.goto,frontReadings,if_pos]
    unfold Stands at h
    generalize (st.slaves i).pc = old at ha h
    cases ha with
    | frontLength cnt => exact ⟨l,rfl,h⟩
    | getTier => simpa [Stands] using h
    | frontVMCount => simpa [Stands] using h
    | _ => trivial
  | addRequest r hpc =>
    rw [frontReadings_eq_nil (fun cnt he => by rw [hpc] at he; cases he), List.append_nil]
    simpa [Stands,hpc,State.setPc,State.setSlave,Slave.goto,State.addRequest] using h
  | deleteVM tier hpc =>
    rw [frontReadings_eq_nil (fun cnt he => by rw [hpc] at he; cases he), List.append_nil]
    cases tier with
    | front => simpa [Stands,hpc,State.setPc,State.setSlave,Slave.goto] using h
    | mid => simp [Stands,State.setPc,State.setSlave,Slave.goto]
  | pollRequest now cnt len r rest hpc hqueue => simp [Stands,State.setPc,State.setSlave,Slave.goto]
  | scaleOut vmId' cnt len r hpc hnew => simp [Stands,State.setPc,State.setSlave,Slave.goto]

theorem frontReadings_of_other {i : VmId} {st : State R} {a : Action R} (h : a.isStepOf i = false) :
    frontReadings i st a = [] := by
  cases a with
  | execute j vmId => exact if_neg (of_decide_eq_false h)
  | _ => rfl

theorem stands_step {i : VmId} (hone : i ≠ 1) {l : List FrontReading} {st st' : State R} {a : Action R}
    (h : Stands l (st.slaves i)) (hs : system.step st a = some st') :
    Stands (l ++ frontReadings i st a) (st'.slaves i) := by
  cases seen_of_step hs hone with
  | other hown hslave ev hlog hev =>
    rw [frontReadings_of_other hown, List.append_nil, hslave]
    exact h
  | boot ha hoff hslave hlog =>
    subst ha
    rw [hslave]
    simpa [Stands,hoff,frontReadings,Slave.goto] using h
  | arrive r ha hslave hlog =>
    subst ha
    rw [hslave]
    simpa [Stands,frontReadings] using h
  | throws s ha hthrow hslave hlog =>
    subst ha
    rw [hslave, frontReadings_of_other rfl, List.append_nil]
    exact h.throws hthrow
  | run now s ev ha hrun hslave hlog =>
    subst ha
    have hnone : frontReadings i st (.run i now) = [] := rfl
    rw [hslave, hnone, List.append_nil]
    exact h.run hrun
  | execute vmId ha hexec =>
    subst ha
    exact h.execute hexec

def told : SlavePc R → Option ℤ
  | .frontVMCount (.replied cnt) => some cnt
  | .frontLength cnt .sent => some cnt
  | _ => none

/-- The count was the master's in a state that the run has been in. -/
def WasCount (history : List (State R × Action R)) (cnt : ℤ) : Prop :=
  ∃ p ∈ history, cnt = p.1.reg.getVMCount 0

structure Truthful (i : VmId) (history : List (State R × Action R)) (st : State R) : Prop where
  told_was : ∀ cnt, told (st.slaves i).pc = some cnt → WasCount history cnt
  read_was : ∀ x ∈ history.flatMap (fun p => frontReadings i p.1 p.2), WasCount history x.frontMasterCnt

theorem told_run {i : VmId} {s s' : Slave R} {now : ℤ} {ev : List (Event R)}
    (h : s.run i now = some (s',ev)) {cnt : ℤ} (ht : told s'.pc = some cnt) : told s.pc = some cnt := by
  have hran := Slave.ran_of_run h
  rcases s with ⟨pc,st,q⟩
  cases hran with
  | frontVMCount c => exact ht
  | _ => cases ht

theorem told_throws {s s' : Slave R} (h : s.throws = some s') : told s'.pc = none := by
  rcases Slave.pc_of_throws h with ⟨tier,d,hpc⟩ | ⟨tier,r,hpc⟩ <;> rw [hpc] <;> rfl

theorem told_execute {i : VmId} {st st' : State R} (hs : Executed st i st') {cnt : ℤ}
    (ht : told (st'.slaves i).pc = some cnt) : cnt = st.reg.getVMCount 0 := by
  cases hs with
  | answer pc ha =>
    simp only [State.setPc,State.setSlave,Function.update_self,Slave.goto] at ht
    generalize (st.slaves i).pc = old at ha
    cases ha <;> cases ht
    rfl
  | _ =>
    simp only [State.setPc,State.setSlave,Function.update_self,Slave.goto] at ht
    cases ht

theorem told_step {i : VmId} (hone : i ≠ 1) {st st' : State R} {a : Action R}
    (hs : system.step st a = some st') {cnt : ℤ} (ht : told (st'.slaves i).pc = some cnt) :
    told (st.slaves i).pc = some cnt ∨ cnt = st.reg.getVMCount 0 := by
  cases seen_of_step hs hone with
  | other hown hslave ev hlog hev =>
    rw [hslave] at ht
    exact .inl ht
  | boot ha hoff hslave hlog =>
    rw [hslave] at ht
    cases ht
  | arrive r ha hslave hlog =>
    rw [hslave] at ht
    exact .inl ht
  | throws s ha hthrow hslave hlog =>
    rw [hslave, told_throws hthrow] at ht
    cases ht
  | run now s ev ha hrun hslave hlog =>
    rw [hslave] at ht
    exact .inl (told_run hrun ht)
  | execute vmId ha hexec => exact .inr (told_execute hexec ht)

theorem told_of_mem_frontReadings {i : VmId} {st : State R} {a : Action R} {x : FrontReading}
    (hx : x ∈ frontReadings i st a) : told (st.slaves i).pc = some x.frontMasterCnt := by
  cases a with
  | execute j vmId =>
    simp only [frontReadings] at hx
    split at hx
    · split at hx
      · rename_i cnt hpc
        rw [hpc, List.mem_singleton.mp hx]
        rfl
      · cases hx
    · cases hx
  | _ => cases hx

theorem truthful_step {i : VmId} (hone : i ≠ 1) {history : List (State R × Action R)} {st st' : State R}
    {a : Action R} (h : Truthful i history st) (hs : system.step st a = some st') :
    Truthful i (history ++ [(st,a)]) st' := by
  have hlater : ∀ {cnt}, WasCount history cnt → WasCount (history ++ [(st,a)]) cnt := by
    rintro cnt ⟨p,hp,hcnt⟩
    exact ⟨p,List.mem_append_left _ hp,hcnt⟩
  constructor
  · intro cnt ht
    rcases told_step hone hs ht with hbefore | hnow
    · exact hlater (h.told_was cnt hbefore)
    · exact ⟨(st,a),List.mem_append_right _ (List.mem_singleton_self _),hnow⟩
  · intro x hx
    rw [List.flatMap_append, List.flatMap_singleton] at hx
    rcases List.mem_append.mp hx with hx | hx
    · exact hlater (h.read_was x hx)
    · exact hlater (h.told_was _ (told_of_mem_frontReadings hx))

def visited (masterStartTime : ℤ) (as : List (Action R)) : List (State R) :=
  system.emitted (fun u _ => [u]) (start masterStartTime) as

/-- A front server leaves on what is so. Each of its readings of `getRequestLength()` is the
length of `requestQueue` where the master executes the call, with a count of front servers
that was the master's before. It leaves exactly at the first of them that closes a window
of 56 lengths under 2 with a count over 1, and while it serves none has. -/
theorem front_leaves (masterStartTime : ℤ) (as : List (Action R)) (st : State R)
    (hr : system.run (start masterStartTime) as = some st) (i : VmId) (hone : i ≠ 1)
    (hlen : (system.emitted (frontReadings i) (start masterStartTime) as).length < 2 ^ 31) :
    let readings := system.emitted (frontReadings i) (start masterStartTime) as
    (∀ x ∈ readings, ∃ u ∈ visited masterStartTime as, x.frontMasterCnt = u.reg.getVMCount 0) ∧
    (leavesFront (st.slaves i).pc = true →
      IsLeast {n | Statics.WindowCloses readings n} readings.length) ∧
    (servesFront (st.slaves i).pc = true → ∀ n, ¬ Statics.WindowCloses readings n) := by
  have hstands : Stands (system.emitted (frontReadings i) (start masterStartTime) as) (st.slaves i) :=
    LabelledSystem.emitted_invariant (I := fun l (u : State R) => Stands l (u.slaves i))
      (G := fun _ _ => True) (fun _ _ _ _ hl _ hs => stands_step hone hl hs) hr
      (LabelledSystem.meets_true hr) ⟨rfl,rfl⟩
  have htruthful : Truthful i (system.emitted (fun u a => [(u,a)]) (start masterStartTime) as) st :=
    LabelledSystem.emitted_invariant (I := fun l (u : State R) => Truthful i l u) (G := fun _ _ => True)
      (fun _ _ _ _ hl _ hs => truthful_step hone hl hs) hr (LabelledSystem.meets_true hr)
      ⟨(fun cnt ht => by cases ht),(fun x hx => by cases hx)⟩
  intro readings
  refine ⟨?_,?_,?_⟩
  · intro x hx
    have hx : x ∈ system.emitted (frontReadings i) (start masterStartTime) as := hx
    rw [LabelledSystem.emitted_eq_flatMap] at hx
    obtain ⟨p,hp,hcnt⟩ := htruthful.read_was x hx
    refine ⟨p.1,?_,hcnt⟩
    rw [visited, LabelledSystem.emitted_eq_flatMap]
    exact List.mem_flatMap.mpr ⟨p,hp,List.mem_singleton_self _⟩
  · intro hpc
    exact (Statics.firstShutDown_iff_windowCloses hlen _).mp (hstands.leaves hpc)
  · intro hpc
    exact Statics.not_windowCloses_of_firstShutDown_eq_none hlen (hstands.serves hpc).2

def servedPass : List (Action ℕ) :=
  [.arrive 3 7,.run 3 0,.execute 3 0,.run 3 0,.execute 3 0,.run 3 0,.run 3 0,.execute 3 0,.run 3 0,
    .run 2 0,.execute 2 0,.run 2 0,.execute 2 0,.run 2 0,.execute 2 0,.run 2 500,.run 2 0,.run 2 0]

/-- Each of 56 passes finds `requestQueue` empty, and the last one closes the window. -/
def frontLeaves : List (Action ℕ) :=
  [.main false 0 2,.main false 0 3,.boot 3,.run 3 0,.execute 3 0,.run 3 0,.run 3 0,.boot 2,.run 2 0,
    .execute 2 0,.run 2 0,.run 2 0] ++ (List.replicate 55 servedPass).flatten ++
    [.run 3 0,.execute 3 0,.run 3 0,.execute 3 0,.run 3 0]

theorem front_leaves_frontLeaves : ∃ st, system.run (start 0) frontLeaves = some st ∧
    leavesFront (st.slaves 3).pc = true ∧
    IsLeast {n | Statics.WindowCloses (system.emitted (frontReadings 3) (start 0) frontLeaves) n} 56 := by
  have hrun : ∃ st, system.run (start 0) frontLeaves = some st ∧ leavesFront (st.slaves 3).pc = true ∧
      (system.emitted (frontReadings 3) (start 0) frontLeaves).length = 56 := by decide +kernel
  obtain ⟨st,hst,hleaves,hlen⟩ := hrun
  have hleast := (front_leaves 0 frontLeaves st hst 3 (by decide) (by rw [hlen]; decide)).2.1 hleaves
  rw [hlen] at hleast
  exact ⟨st,hst,hleaves,hleast⟩

end Cluster
end AutoScaling
