import AutoScaling.Cluster.Naming
import AutoScaling.Cluster.OneSlave
import AutoScaling.Foundation.Simulation

/-! # Start-up and the registry

`main` of the master, and what the slaves do with the registry, put before and around
the cluster. Every exception of the registry is left open. The steps of the cluster that
bind or look up a name are taken here call by call.
-/
namespace AutoScaling
namespace StartUp
variable {R : Type*}

/-- How far `main` of the master has come. `down` is `System.exit(-1)`, or an exception
that nothing catches; `up` begins with the scale-outs of `masterHandler`. -/
inductive Phase (R : Type*)
  | registerMaster
  | startCache
  | masterHandler
  | down
  | up (cl : Cluster.State R)

/-- What a slave has of the registry: what `getInstance("Master")` has last returned,
whether `registerServer` has, and `cache` of `midHandler`. -/
structure Locals where
  master : Option Remote
  registered : Bool
  cache : Option Remote

structure State (R : Type*) where
  names : Names
  phase : Phase R
  locals : VmId → Locals

def start : State R := ⟨.ofCloud,.registerMaster,fun _ => ⟨none,false,none⟩⟩

inductive Action (R : Type*)
  | registerMaster (newFails fails : Bool)
  | startCache (thrown : Option Exn) (fails : Bool)
  | masterHandler (masterStartTime : ℤ)
  | getInstance (i : VmId) (fails : Bool)
  | registerServer (i : VmId) (newFails fails : Bool)
  | getCache (i : VmId) (fails : Bool)
  | cluster (a : Cluster.Action R)

/-- `slaveHandler` and `shutDown` look the master up. -/
def callsGetInstance : SlavePc R → Bool
  | .booting => true
  | .lookupMaster _ => true
  | _ => false

def callsRegisterServer (registered : Bool) : SlavePc R → Bool
  | .frontHandler => !registered
  | .midHandler => !registered
  | _ => false

def callsGetCache (registered : Bool) : SlavePc R → Bool
  | .midHandler => registered
  | _ => false

def inRegistry (registered : Bool) (pc : SlavePc R) : Bool :=
  callsGetInstance pc || callsRegisterServer registered pc || callsGetCache registered pc

namespace State

def setLocals (st : State R) (i : VmId) (l : Locals) : State R :=
  { st with locals := Function.update st.locals i l }

def move (st : State R) (cl : Cluster.State R) (a : Cluster.Action R) : Option (State R) :=
  (Cluster.system.step cl a).map (fun cl' => { st with phase := .up cl' })

/-- The next line calls a method of the master: `null` is a `NullPointerException`. -/
def getInstance (st : State R) (cl : Cluster.State R) (i : VmId) (fails : Bool) : Option (State R) :=
  match st.names.getInstance .master fails with
  | .ok (some obj) => (st.setLocals i { st.locals i with master := some obj }).move cl (.run i 0)
  | _ => st.move cl (.throws i)

def registerServer (st : State R) (cl : Cluster.State R) (i : VmId) (newFails fails : Bool) :
    Option (State R) :=
  match st.names.registerServer i newFails fails with
  | .ok names => some ({ st with names := names }.setLocals i { st.locals i with registered := true })
  | .error _ => st.move cl (.throws i)

/-- `cache` may be `null`. -/
def getCache (st : State R) (cl : Cluster.State R) (i : VmId) (fails : Bool) : Option (State R) :=
  match st.names.getCache fails with
  | .ok cache => (st.setLocals i { st.locals i with cache := cache }).move cl (.run i 0)
  | .error _ => st.move cl (.throws i)

def calls (st : State R) (cl : Cluster.State R) : Cluster.Action R → Bool
  | .run i _ => inRegistry (st.locals i).registered (cl.slaves i).pc
  | .throws i => inRegistry (st.locals i).registered (cl.slaves i).pc
  | _ => false

/-- A slave's call is executed by the object that its `getInstance("Master")` has returned:
the master executes it where that is the master's. -/
def reaches (st : State R) : Cluster.Action R → Bool
  | .execute i _ => decide ((st.locals i).master = some (.server 1))
  | _ => true

end State

def step (st : State R) (a : Action R) : Option (State R) :=
  match st.phase, a with
  | .registerMaster, .registerMaster newFails fails =>
    match st.names.registerMaster newFails fails with
    | none => some { st with phase := .down }
    | some names => some { st with names := names, phase := .startCache }
  | .startCache, .startCache thrown fails =>
    match st.names.startCache thrown fails with
    | .error _ => some { st with phase := .down }
    | .ok names => some { st with names := names, phase := .masterHandler }
  | .masterHandler, .masterHandler masterStartTime =>
    some { st with phase := .up (Cluster.start masterStartTime) }
  | .up cl, .getInstance i fails =>
    if callsGetInstance (cl.slaves i).pc then st.getInstance cl i fails else none
  | .up cl, .registerServer i newFails fails =>
    if callsRegisterServer (st.locals i).registered (cl.slaves i).pc then
      st.registerServer cl i newFails fails
    else none
  | .up cl, .getCache i fails =>
    if callsGetCache (st.locals i).registered (cl.slaves i).pc then st.getCache cl i fails else none
  | .up cl, .cluster a => if !st.calls cl a && st.reaches a then st.move cl a else none
  | _, _ => none

def system : LabelledSystem (State R) (Action R) := ⟨step⟩

inductive Stepped (st : State R) : Action R → State R → Prop
  | exit (newFails fails : Bool) (hphase : st.phase = .registerMaster) :
      Stepped st (.registerMaster newFails fails) { st with phase := .down }
  | registerMaster (newFails fails : Bool) (names : Names) (hphase : st.phase = .registerMaster)
      (hnames : st.names.registerMaster newFails fails = some names) :
      Stepped st (.registerMaster newFails fails) { st with names := names, phase := .startCache }
  | crash (thrown : Option Exn) (fails : Bool) (hphase : st.phase = .startCache) :
      Stepped st (.startCache thrown fails) { st with phase := .down }
  | startCache (thrown : Option Exn) (fails : Bool) (names : Names) (hphase : st.phase = .startCache)
      (hnames : st.names.startCache thrown fails = .ok names) :
      Stepped st (.startCache thrown fails) { st with names := names, phase := .masterHandler }
  | masterHandler (masterStartTime : ℤ) (hphase : st.phase = .masterHandler) :
      Stepped st (.masterHandler masterStartTime) { st with phase := .up (Cluster.start masterStartTime) }
  | found (i : VmId) (fails : Bool) (obj : Remote) (cl cl' : Cluster.State R) (hphase : st.phase = .up cl)
      (hobj : st.names.getInstance .master fails = .ok (some obj))
      (hs : Cluster.system.step cl (.run i 0) = some cl') (hpc : callsGetInstance (cl.slaves i).pc = true) :
      Stepped st (.getInstance i fails)
        { st.setLocals i { st.locals i with master := some obj } with phase := .up cl' }
  | registered (i : VmId) (newFails fails : Bool) (names : Names) (cl : Cluster.State R)
      (hphase : st.phase = .up cl) (hnames : st.names.registerServer i newFails fails = .ok names)
      (hpc : callsRegisterServer (st.locals i).registered (cl.slaves i).pc = true) :
      Stepped st (.registerServer i newFails fails)
        ({ st with names := names }.setLocals i { st.locals i with registered := true })
  | gotCache (i : VmId) (fails : Bool) (cache : Option Remote) (cl cl' : Cluster.State R)
      (hphase : st.phase = .up cl) (hcache : st.names.getCache fails = .ok cache)
      (hs : Cluster.system.step cl (.run i 0) = some cl')
      (hpc : callsGetCache (st.locals i).registered (cl.slaves i).pc = true) :
      Stepped st (.getCache i fails)
        { st.setLocals i { st.locals i with cache := cache } with phase := .up cl' }
  | throws (a : Action R) (i : VmId) (cl cl' : Cluster.State R) (hphase : st.phase = .up cl)
      (hs : Cluster.system.step cl (.throws i) = some cl') : Stepped st a { st with phase := .up cl' }
  | cluster (a : Cluster.Action R) (cl cl' : Cluster.State R) (hphase : st.phase = .up cl)
      (hcalls : st.calls cl a = false) (hreaches : st.reaches a = true)
      (hs : Cluster.system.step cl a = some cl') : Stepped st (.cluster a) { st with phase := .up cl' }

theorem move_eq_some {st st' : State R} {cl : Cluster.State R} {a : Cluster.Action R} :
    st.move cl a = some st' ↔
      ∃ cl', Cluster.system.step cl a = some cl' ∧ st' = { st with phase := .up cl' } := by
  unfold State.move
  rw [Option.map_eq_some_iff]
  simp only [eq_comm]

theorem stepped_of_step {st st' : State R} {a : Action R} (hs : system.step st a = some st') :
    Stepped st a st' := by
  simp only [system,step] at hs
  split at hs
  · rename_i newFails fails hphase
    split at hs <;> cases hs
    · exact .exit newFails fails hphase
    · exact .registerMaster newFails fails _ hphase ‹_›
  · rename_i thrown fails hphase
    split at hs <;> cases hs
    · exact .crash thrown fails hphase
    · exact .startCache thrown fails _ hphase ‹_›
  · rename_i masterStartTime hphase
    cases hs
    exact .masterHandler masterStartTime hphase
  · rename_i cl i fails hphase
    split at hs
    · rename_i hpc
      unfold State.getInstance at hs
      split at hs
      · obtain ⟨cl',hmove,rfl⟩ := move_eq_some.mp hs
        exact .found i fails _ cl cl' hphase ‹_› hmove hpc
      · obtain ⟨cl',hmove,rfl⟩ := move_eq_some.mp hs
        exact .throws _ i cl cl' hphase hmove
    · cases hs
  · rename_i cl i newFails fails hphase
    split at hs
    · rename_i hpc
      unfold State.registerServer at hs
      split at hs
      · cases hs
        exact .registered i newFails fails _ cl hphase ‹_› hpc
      · obtain ⟨cl',hmove,rfl⟩ := move_eq_some.mp hs
        exact .throws _ i cl cl' hphase hmove
    · cases hs
  · rename_i cl i fails hphase
    split at hs
    · rename_i hpc
      unfold State.getCache at hs
      split at hs
      · obtain ⟨cl',hmove,rfl⟩ := move_eq_some.mp hs
        exact .gotCache i fails _ cl cl' hphase ‹_› hmove hpc
      · obtain ⟨cl',hmove,rfl⟩ := move_eq_some.mp hs
        exact .throws _ i cl cl' hphase hmove
    · cases hs
  · rename_i cl a hphase
    split at hs
    · rename_i hown
      rw [Bool.and_eq_true, Bool.not_eq_true'] at hown
      obtain ⟨cl',hmove,rfl⟩ := move_eq_some.mp hs
      exact .cluster a cl cl' hphase hown.1 hown.2 hmove
    · cases hs
  · cases hs

def usesMaster : SlavePc R → Bool
  | .off => false
  | .booting => false
  | .ended _ _ => false
  | _ => true

def usesCache : SlavePc R → Bool
  | .midRoutine => true
  | .midVMCount _ _ => true
  | .midLength _ _ _ => true
  | .midPoll _ _ _ _ => true
  | .midFastDrop _ => true
  | .midScaleOut _ _ _ _ => true
  | .midDrop _ => true
  | .midDropTail => true
  | .midProcess _ _ => true
  | .midProcessing _ => true
  | _ => false

/-- What a slave uses of the registry is what is there. -/
structure Served (names : Names) (l : Locals) (pc : SlavePc R) : Prop where
  master : usesMaster pc = true → l.master = some (.server 1)
  cache : usesCache pc = true → l.cache = names.lookup .cache

theorem uses_of_ran {i : VmId} {now : ℤ} {st : Statics} {q : List R} {pc : SlavePc R} {s' : Slave R}
    {ev : List (Event R)} {registered : Bool} (hran : Slave.Ran i now st q pc s' ev)
    (hfree : inRegistry registered pc = false) :
    (usesMaster s'.pc = true → usesMaster pc = true) ∧
      (usesCache s'.pc = true → usesCache pc = true) := by
  cases hran with
  | booting => cases hfree
  | midHandler => cases registered <;> cases hfree
  | lookupMaster tier => cases hfree
  | midShutDown start cnt len hidle => exact ⟨fun _ => rfl,fun _ => rfl⟩
  | _ => exact ⟨fun _ => rfl,fun h => h⟩

theorem uses_of_replied {pc pc' : SlavePc R} (h : Replied pc pc') :
    usesMaster pc' = usesMaster pc ∧ usesCache pc' = usesCache pc := by
  cases h <;> exact ⟨rfl,rfl⟩

theorem uses_of_throws {s s' : Slave R} (h : s.throws = some s') :
    (usesMaster s'.pc = true → usesMaster s.pc = true) ∧ usesCache s'.pc = false := by
  rcases s with ⟨pc,st,q⟩
  cases pc with
  | deleteVM tier a => cases a <;> cases h <;> exact ⟨fun _ => rfl,rfl⟩
  | getTier a => cases a <;> cases h <;> exact ⟨fun _ => rfl,rfl⟩
  | _ => cases h <;> exact ⟨(fun hu => by cases hu),rfl⟩

theorem Served.mono {names : Names} {l : Locals} {pc pc' : SlavePc R} (h : Served names l pc)
    (hmaster : usesMaster pc' = true → usesMaster pc = true)
    (hcache : usesCache pc' = true → usesCache pc = true) : Served names l pc' :=
  ⟨fun hu => h.master (hmaster hu),fun hu => h.cache (hcache hu)⟩

theorem Served.throws {names : Names} {l : Locals} {s s' : Slave R} (h : Served names l s.pc)
    (hthrow : s.throws = some s') : Served names l s'.pc := by
  obtain ⟨hmaster,hcache⟩ := uses_of_throws hthrow
  exact h.mono hmaster (fun hu => by rw [hcache] at hu; cases hu)

theorem served_update {names : Names} {locals : VmId → Locals} {slaves : VmId → Slave R}
    (h : ∀ i, Served names (locals i) (slaves i).pc) {j : VmId} {l : Locals} {s : Slave R}
    (hj : Served names l s.pc) (i : VmId) :
    Served names (Function.update locals j l i) (Function.update slaves j s i).pc := by
  by_cases hi : i = j
  · subst hi
    rw [Function.update_self, Function.update_self]
    exact hj
  · rw [Function.update_of_ne hi, Function.update_of_ne hi]
    exact h i

theorem served_setSlave {names : Names} {locals : VmId → Locals} {cl : Cluster.State R}
    (h : ∀ i, Served names (locals i) (cl.slaves i).pc) {j : VmId} {s : Slave R}
    (hj : Served names (locals j) s.pc) : ∀ i, Served names (locals i) ((cl.setSlave j s).slaves i).pc := by
  have hupdate := served_update (j := j) h hj
  rw [Function.update_eq_self] at hupdate
  exact hupdate

theorem served_of_throws {names : Names} {locals : VmId → Locals} {cl cl' : Cluster.State R} {i : VmId}
    (hs : Cluster.system.step cl (.throws i) = some cl')
    (h : ∀ i, Served names (locals i) (cl.slaves i).pc) :
    ∀ i, Served names (locals i) (cl'.slaves i).pc := by
  obtain ⟨s,hthrow,rfl⟩ := Option.map_eq_some_iff.mp hs
  exact served_setSlave h ((h i).throws hthrow)

theorem served_of_step {names : Names} {st : State R} {cl cl' : Cluster.State R} {a : Cluster.Action R}
    (hs : Cluster.system.step cl a = some cl') (hcalls : st.calls cl a = false)
    (h : ∀ i, Served names (st.locals i) (cl.slaves i).pc) :
    ∀ i, Served names (st.locals i) (cl'.slaves i).pc := by
  simp only [Cluster.system] at hs
  cases a with
  | main booting now vmId =>
    rw [Cluster.slaves_of_mainStep hs]
    exact h
  | boot j =>
    obtain ⟨⟨_,hoff⟩,rfl⟩ := Cluster.boot_eq_some.mp hs
    exact served_setSlave h ⟨(fun hu => by cases hu),(fun hu => by cases hu)⟩
  | run j now =>
    obtain ⟨⟨s,ev⟩,hrun,rfl⟩ := Option.map_eq_some_iff.mp hs
    obtain ⟨hmaster,hcache⟩ := uses_of_ran (Slave.ran_of_run hrun) hcalls
    exact served_setSlave h ((h j).mono hmaster hcache)
  | execute j vmId =>
    obtain ⟨pc,hreply,hslaves⟩ := Cluster.execute_moves hs
    obtain ⟨hmaster,hcache⟩ := uses_of_replied hreply
    rw [hslaves]
    exact served_setSlave h ((h j).mono hmaster.le hcache.le)
  | arrive j r =>
    cases hs
    rw [Cluster.State.arrive]
    split
    · exact h
    · exact served_setSlave h (h j)
  | throws j => exact served_of_throws hs h

def MasterBound (names : Names) : Phase R → Prop
  | .registerMaster => names.lookup .master = none
  | .down => True
  | _ => names.lookup .master = some (.server 1)

/-- Each name is unbound or names its own object, and the slaves use what is bound. -/
structure Sound (st : State R) : Prop where
  master : MasterBound st.names st.phase
  cache : ∀ o, st.names.lookup .cache = some o → o = .cache
  server : ∀ i o, st.names.lookup (.server i) = some o → o = .server i ∧ (st.locals i).registered = true
  slaves : ∀ cl, st.phase = .up cl → ∀ i, Served st.names (st.locals i) (cl.slaves i).pc

theorem sound_start : Sound (start : State R) where
  master := by simp [start,MasterBound,Names.ofCloud]
  cache := by simp [start,Names.ofCloud]
  server := by simp [start,Names.ofCloud]
  slaves := fun cl hup => by cases hup

theorem Sound.master_up {st : State R} (h : Sound st) {cl : Cluster.State R} (hup : st.phase = .up cl) :
    st.names.lookup .master = some (.server 1) := by
  have hmaster := h.master
  rw [hup] at hmaster
  exact hmaster

theorem uses_of_getInstance {i : VmId} {now : ℤ} {s s' : Slave R} {ev : List (Event R)}
    (hrun : s.run i now = some (s',ev)) (hpc : callsGetInstance s.pc = true) : usesCache s'.pc = false := by
  rcases s with ⟨pc,st,q⟩
  cases pc <;> cases hpc <;> cases hrun <;> rfl

theorem usesMaster_of_callsGetCache {registered : Bool} {pc : SlavePc R}
    (h : callsGetCache registered pc = true) : usesMaster pc = true := by
  cases pc <;> first | rfl | cases h

theorem registered_update {locals : VmId → Locals} {i k : VmId} {l : Locals}
    (hl : (locals i).registered = true → l.registered = true) (h : (locals k).registered = true) :
    (Function.update locals i l k).registered = true := by
  by_cases hk : k = i
  · subst hk
    rw [Function.update_self]
    exact hl h
  · rw [Function.update_of_ne hk]
    exact h

theorem sound_step {st st' : State R} {a : Action R} (h : Sound st) (hs : system.step st a = some st') :
    Sound st' := by
  cases stepped_of_step hs with
  | exit newFails fails hphase => exact ⟨trivial,h.cache,h.server,fun cl hup => by cases hup⟩
  | crash thrown fails hphase => exact ⟨trivial,h.cache,h.server,fun cl hup => by cases hup⟩
  | registerMaster newFails fails names hphase hnames =>
    obtain rfl := Names.registerMaster_eq_some hnames
    have hfree := h.master
    rw [hphase] at hfree
    refine ⟨?_,?_,?_,fun cl hup => by cases hup⟩
    · have hmaster : st.names.lookup .master = none := hfree
      simp [MasterBound,Names.lookup_bind,hmaster]
    · simpa [Names.lookup_bind_of_ne] using h.cache
    · simpa [Names.lookup_bind_of_ne] using h.server
  | startCache thrown fails names hphase hnames =>
    obtain ⟨f,rfl⟩ := Names.startCache_eq_ok hnames
    have hmaster := h.master
    rw [hphase] at hmaster
    refine ⟨Names.lookup_bind_of_some hmaster,?_,?_,fun cl hup => by cases hup⟩
    · intro o ho
      rw [Names.lookup_bind, Option.or_eq_some_iff] at ho
      rcases ho with ho | ⟨_,ho⟩
      · exact h.cache o ho
      · cases f <;> simp at ho
        exact ho.symm
    · simpa [Names.lookup_bind_of_ne] using h.server
  | masterHandler masterStartTime hphase =>
    have hmaster := h.master
    rw [hphase] at hmaster
    refine ⟨hmaster,h.cache,h.server,?_⟩
    intro cl hup i
    cases hup
    exact ⟨(fun hu => by cases hu),(fun hu => by cases hu)⟩
  | found i fails obj cl cl' hphase hobj hmove hpc =>
    have hmaster := h.master_up hphase
    obtain ⟨⟨s,ev⟩,hrun,rfl⟩ := Option.map_eq_some_iff.mp hmove
    have hfound : obj = .server 1 := by
      rw [Names.getInstance_of_bound hmaster] at hobj
      cases fails <;> cases hobj
      rfl
    refine ⟨hmaster,h.cache,?_,?_⟩
    · intro k o ho
      exact ⟨(h.server k o ho).1,registered_update (fun hi => hi) (h.server k o ho).2⟩
    · intro cl' hup
      cases hup
      refine served_update (h.slaves cl hphase) ⟨fun _ => ?_,fun hu => ?_⟩
      · rw [hfound]
      · rw [uses_of_getInstance hrun hpc] at hu
        cases hu
  | registered i newFails fails names cl hphase hnames hpc =>
    obtain rfl := Names.registerServer_eq_ok hnames
    have hcache : (st.names.bind (.server i) (.server i) fails).1.lookup .cache = st.names.lookup .cache :=
      Names.lookup_bind_of_ne (fun he => by cases he)
    refine ⟨?_,?_,?_,?_⟩
    · dsimp only [State.setLocals]
      rw [hphase]
      exact Names.lookup_bind_of_some (h.master_up hphase)
    · intro o ho
      exact h.cache o (hcache ▸ ho)
    · intro k o ho
      dsimp only [State.setLocals] at ho ⊢
      rw [Names.lookup_bind, Option.or_eq_some_iff] at ho
      rcases ho with ho | ⟨_,ho⟩
      · exact ⟨(h.server k o ho).1,registered_update (fun _ => rfl) (h.server k o ho).2⟩
      · by_cases hk : Name.server i = Name.server k
        · cases hk
          rw [Function.update_self]
          cases fails <;> simp at ho
          exact ⟨ho.symm,rfl⟩
        · rw [if_neg hk] at ho
          cases ho
    · intro cl' hup
      have hsame : cl' = cl := Phase.up.inj (hup.symm.trans hphase)
      subst hsame
      have hserved : ∀ k, Served (st.names.bind (.server i) (.server i) fails).1 (st.locals k)
          (cl'.slaves k).pc :=
        fun k => ⟨(h.slaves cl' hphase k).master,fun hu => hcache ▸ (h.slaves cl' hphase k).cache hu⟩
      have hupdate := served_update (j := i) (l := { st.locals i with registered := true }) hserved
        ⟨(hserved i).master,(hserved i).cache⟩
      rw [Function.update_eq_self] at hupdate
      exact hupdate
  | gotCache i fails cache cl cl' hphase hcache hmove hpc =>
    obtain ⟨⟨s,ev⟩,hrun,rfl⟩ := Option.map_eq_some_iff.mp hmove
    have hserved := h.slaves cl hphase
    have hfound : cache = st.names.lookup .cache := by
      rw [Names.getCache_of_bound h.cache] at hcache
      cases fails <;> cases hcache
      rfl
    refine ⟨h.master_up hphase,h.cache,?_,?_⟩
    · intro k o ho
      exact ⟨(h.server k o ho).1,registered_update (fun hi => hi) (h.server k o ho).2⟩
    · intro cl' hup
      cases hup
      exact served_update hserved
        ⟨fun _ => (hserved i).master (usesMaster_of_callsGetCache hpc),fun _ => hfound⟩
  | throws a i cl cl' hphase hmove =>
    refine ⟨h.master_up hphase,h.cache,h.server,?_⟩
    intro cl' hup
    cases hup
    exact served_of_throws hmove (h.slaves cl hphase)
  | cluster a cl cl' hphase hcalls hreaches hmove =>
    refine ⟨h.master_up hphase,h.cache,h.server,?_⟩
    intro cl' hup
    cases hup
    exact served_of_step hmove hcalls (h.slaves cl hphase)

theorem sound_run {as : List (Action R)} {st : State R} (hr : system.run start as = some st) : Sound st :=
  LabelledSystem.run_invariant (fun _ _ _ h hs => sound_step h hs) hr sound_start

theorem lookup_of_step {st st' : State R} {a : Action R} (hs : system.step st a = some st') {n : Name}
    {o : Remote} (h : st.names.lookup n = some o) : st'.names.lookup n = some o := by
  cases stepped_of_step hs with
  | registerMaster newFails fails names hphase hnames =>
    obtain rfl := Names.registerMaster_eq_some hnames
    exact Names.lookup_bind_of_some h
  | startCache thrown fails names hphase hnames =>
    obtain ⟨f,rfl⟩ := Names.startCache_eq_ok hnames
    exact Names.lookup_bind_of_some h
  | registered i newFails fails names cl hphase hnames hpc =>
    obtain rfl := Names.registerServer_eq_ok hnames
    exact Names.lookup_bind_of_some h
  | _ => exact h

theorem cache_of_step {st st' : State R} {a : Action R} (hs : system.step st a = some st')
    (hup : ∃ cl, st.phase = .up cl) :
    (∃ cl, st'.phase = .up cl) ∧ st'.names.lookup .cache = st.names.lookup .cache := by
  obtain ⟨cl,hup⟩ := hup
  cases stepped_of_step hs with
  | registered i newFails fails names cl hphase hnames hpc =>
    obtain rfl := Names.registerServer_eq_ok hnames
    exact ⟨⟨cl,hphase⟩,Names.lookup_bind_of_ne (fun he => by cases he)⟩
  | found => exact ⟨⟨_,rfl⟩,rfl⟩
  | gotCache => exact ⟨⟨_,rfl⟩,rfl⟩
  | throws => exact ⟨⟨_,rfl⟩,rfl⟩
  | cluster => exact ⟨⟨_,rfl⟩,rfl⟩
  | exit newFails fails hphase => rw [hup] at hphase; cases hphase
  | registerMaster newFails fails names hphase => rw [hup] at hphase; cases hphase
  | crash thrown fails hphase => rw [hup] at hphase; cases hphase
  | startCache thrown fails names hphase => rw [hup] at hphase; cases hphase
  | masterHandler masterStartTime hphase => rw [hup] at hphase; cases hphase

/-- Names resolve. From the moment that the master can start servers, and whatever fails:
the master's name is bound, so that a slave that loses it has met an exception of the
registry; every slave calls the master, no other object; a slave that registers finds its
name free; no name ever changes its object; and all mid servers at all times have the
same `cache`, the cache or `null`. -/
theorem names_resolve (as : List (Action R)) (st : State R) (hr : system.run start as = some st)
    (cl : Cluster.State R) (hup : st.phase = .up cl) (bs : List (Action R)) (st' : State R)
    (hr' : system.run st bs = some st') (cl' : Cluster.State R) (hup' : st'.phase = .up cl') :
    (∀ fails, st'.names.getInstance .master fails = .ok (if fails then none else some (.server 1))) ∧
    (∀ i, usesMaster (cl'.slaves i).pc = true → (st'.locals i).master = some (.server 1)) ∧
    (∀ i, callsRegisterServer (st'.locals i).registered (cl'.slaves i).pc = true →
      ∀ fails, (st'.names.bind (.server i) (.server i) fails).2 ≠ some .alreadyBound) ∧
    (∀ n o, st.names.lookup n = some o → st'.names.lookup n = some o) ∧
    (∀ i, usesCache (cl'.slaves i).pc = true → (st'.locals i).cache = st.names.lookup .cache) ∧
    (st.names.lookup .cache = none ∨ st.names.lookup .cache = some .cache) := by
  have hsound := sound_run hr
  have hsound' := sound_run (LabelledSystem.run_append_eq_some.mpr ⟨st,hr,hr'⟩)
  have hserved := hsound'.slaves cl' hup'
  have hcache : (∃ cl, st'.phase = .up cl) ∧ st'.names.lookup .cache = st.names.lookup .cache :=
    LabelledSystem.run_invariant
      (I := fun u : State R => (∃ cl, u.phase = .up cl) ∧ u.names.lookup .cache = st.names.lookup .cache)
      (fun u a v hu hs => ⟨(cache_of_step hs hu.1).1,(cache_of_step hs hu.1).2.trans hu.2⟩) hr'
      ⟨⟨cl,hup⟩,rfl⟩
  refine ⟨fun fails => Names.getInstance_of_bound (hsound'.master_up hup') fails,
    fun i => (hserved i).master,?_,?_,fun i hu => ((hserved i).cache hu).trans hcache.2,?_⟩
  · intro i hcalls fails hbound
    obtain ⟨_,hmem⟩ := Names.bind_alreadyBound.mp hbound
    obtain ⟨o,ho⟩ := Finmap.mem_iff.mp hmem
    rw [(hsound'.server i o ho).2] at hcalls
    generalize (cl'.slaves i).pc = pc at hcalls
    cases pc <;> cases hcalls
  · intro n o ho
    exact LabelledSystem.run_invariant (I := fun u : State R => u.names.lookup n = some o)
      (fun u a v hu hs => lookup_of_step hs hu) hr' ho
  · cases ho : st.names.lookup .cache with
    | none => exact .inl rfl
    | some o => exact .inr (congrArg some (hsound.cache o ho))

/-- The cache cannot be bound, and the first mid server comes to its loop. -/
def noCache : List (Action ℕ) × List (Action ℕ) :=
  ([.registerMaster false false,.startCache none true,.masterHandler 0],
    [.cluster (.main false 0 2),.cluster (.boot 2),.getInstance 2 false,.cluster (.execute 2 0),
      .cluster (.run 2 0),.registerServer 2 false false,.getCache 2 false])

theorem names_resolve_noCache : ∃ st cl st' cl',
    system.run start noCache.1 = some st ∧ st.phase = .up cl ∧
    system.run st noCache.2 = some st' ∧ st'.phase = .up cl' ∧ usesCache (cl'.slaves 2).pc = true ∧
      (st'.locals 2).master = some (.server 1) ∧ (st'.locals 2).cache = none := by
  have hrun : ∃ st cl st' cl', system.run start noCache.1 = some st ∧ st.phase = .up cl ∧
      system.run st noCache.2 = some st' ∧ st'.phase = .up cl' ∧ usesCache (cl'.slaves 2).pc = true ∧
        usesMaster (cl'.slaves 2).pc = true ∧ st.names.lookup .cache = none :=
    ⟨_,_,_,_,rfl,rfl,rfl,rfl,rfl,rfl,rfl⟩
  obtain ⟨st,cl,st',cl',hr,hup,hr',hup',hcache,hmaster,hnone⟩ := hrun
  obtain ⟨_,hcalls,_,_,hsame,_⟩ := names_resolve noCache.1 st hr cl hup noCache.2 st' hr' cl' hup'
  exact ⟨st,cl,st',cl',hr,hup,hr',hup',hcache,hcalls 2 hmaster,(hsame 2 hcache).trans hnone⟩

/-- The states of the cluster that come about with the registry come about without it. -/
theorem reachable_of_run {as : List (Action R)} {st : State R} (hr : system.run start as = some st)
    {cl : Cluster.State R} (hup : st.phase = .up cl) :
    ∃ masterStartTime, Cluster.system.Reachable (Cluster.start masterStartTime) cl := by
  revert cl
  refine LabelledSystem.run_invariant (I := fun u : State R => ∀ {cl}, u.phase = .up cl →
    ∃ t, Cluster.system.Reachable (Cluster.start t) cl) ?_ hr (fun hup => by cases hup)
  intro u a v h hs cl' hup
  have hmoves : ∀ {cl b}, u.phase = .up cl → Cluster.system.step cl b = some cl' →
      ∃ t, Cluster.system.Reachable (Cluster.start t) cl' := by
    intro cl b hphase hmove
    obtain ⟨t,bs,hbs⟩ := h hphase
    exact ⟨t,bs ++ [b],LabelledSystem.run_concat hbs hmove⟩
  cases stepped_of_step hs with
  | exit => cases hup
  | registerMaster => cases hup
  | crash => cases hup
  | startCache => cases hup
  | masterHandler masterStartTime hphase =>
    cases hup
    exact ⟨masterStartTime,[],rfl⟩
  | registered i newFails fails names cl hphase => exact h hup
  | found i fails obj cl cl' hphase hobj hmove => cases hup; exact hmoves hphase hmove
  | gotCache i fails cache cl cl' hphase hcache hmove => cases hup; exact hmoves hphase hmove
  | throws a i cl cl' hphase hmove => cases hup; exact hmoves hphase hmove
  | cluster a cl cl' hphase hcalls hreaches hmove => cases hup; exact hmoves hphase hmove

theorem run_inRegistry {registered : Bool} {s : Slave R} (h : inRegistry registered s.pc = true) (i : VmId)
    (now : ℤ) : s.run i now = s.run i 0 := by
  rcases s with ⟨pc,st,q⟩
  cases pc <;> first | rfl | cases h

theorem step_getInstance {st : State R} {cl cl' : Cluster.State R} {i : VmId} (hsound : Sound st)
    (hup : st.phase = .up cl) (hpc : callsGetInstance (cl.slaves i).pc = true)
    (hs : Cluster.system.step cl (.run i 0) = some cl') :
    ∃ st', system.step st (.getInstance i false) = some st' ∧ st'.phase = .up cl' := by
  have hfound := Names.getInstance_of_bound (hsound.master_up hup) false
  refine ⟨{ st.setLocals i { st.locals i with master := some (.server 1) } with phase := .up cl' },?_,rfl⟩
  simp only [system,step,hup]
  rw [if_pos hpc, State.getInstance, hfound]
  exact move_eq_some.mpr ⟨cl',hs,rfl⟩

theorem step_getCache {st : State R} {cl cl' : Cluster.State R} {i : VmId} (hsound : Sound st)
    (hup : st.phase = .up cl) (hpc : callsGetCache (st.locals i).registered (cl.slaves i).pc = true)
    (hs : Cluster.system.step cl (.run i 0) = some cl') :
    ∃ st', system.step st (.getCache i false) = some st' ∧ st'.phase = .up cl' := by
  have hcache := Names.getCache_of_bound hsound.cache false
  refine ⟨{ st.setLocals i { st.locals i with cache := st.names.lookup .cache } with phase := .up cl' },
    ?_,rfl⟩
  simp only [system,step,hup]
  rw [if_pos hpc, State.getCache, hcache]
  exact move_eq_some.mpr ⟨cl',hs,rfl⟩

theorem step_registerServer {st : State R} {cl : Cluster.State R} {i : VmId} (hup : st.phase = .up cl)
    (hpc : callsRegisterServer (st.locals i).registered (cl.slaves i).pc = true) :
    ∃ st', system.step st (.registerServer i false false) = some st' ∧ st'.phase = .up cl ∧
      (st'.locals i).registered = true := by
  refine ⟨{ st with names := (st.names.bind (.server i) (.server i) false).1 }.setLocals i
    { st.locals i with registered := true },?_,hup,?_⟩
  · simp [system,step,hup,hpc,State.registerServer,Names.registerServer]
  · dsimp only [State.setLocals]
    rw [Function.update_self]

theorem Sound.reaches {st : State R} {cl cl' : Cluster.State R} {a : Cluster.Action R} (h : Sound st)
    (hup : st.phase = .up cl) (hs : Cluster.system.step cl a = some cl') : st.reaches a = true := by
  cases a with
  | execute i vmId =>
    obtain ⟨pc,hreply,_⟩ := Cluster.execute_moves hs
    have huses : usesMaster (cl.slaves i).pc = true := by
      generalize (cl.slaves i).pc = sent at hreply
      cases hreply <;> rfl
    exact decide_eq_true ((h.slaves cl hup i).master huses)
  | _ => rfl

theorem step_cluster {st : State R} {cl cl' : Cluster.State R} {a : Cluster.Action R} (hsound : Sound st)
    (hup : st.phase = .up cl) (hcalls : st.calls cl a = false) (hs : Cluster.system.step cl a = some cl') :
    ∃ st', system.step st (.cluster a) = some st' ∧ st'.phase = .up cl' := by
  have hreaches := hsound.reaches hup hs
  refine ⟨{ st with phase := .up cl' },?_,rfl⟩
  simp only [system,step,hup]
  rw [if_pos (by rw [hcalls, hreaches]; rfl)]
  exact move_eq_some.mpr ⟨cl',hs,rfl⟩

/-- Each exception that the cluster allows for in a call of the registry can occur. -/
theorem step_throws {st : State R} {cl cl' : Cluster.State R} {i : VmId} (hup : st.phase = .up cl)
    (hcalls : st.calls cl (.throws i) = true) (hs : Cluster.system.step cl (.throws i) = some cl') :
    ∃ a st', system.step st a = some st' ∧ st'.phase = .up cl' := by
  simp only [State.calls,inRegistry,Bool.or_eq_true] at hcalls
  rcases hcalls with (hpc | hpc) | hpc
  · refine ⟨.getInstance i true,{ st with phase := .up cl' },?_,rfl⟩
    simp only [system,step,hup]
    rw [if_pos hpc]
    exact move_eq_some.mpr ⟨cl',hs,rfl⟩
  · refine ⟨.registerServer i true false,{ st with phase := .up cl' },?_,rfl⟩
    simp only [system,step,hup]
    rw [if_pos hpc]
    exact move_eq_some.mpr ⟨cl',hs,rfl⟩
  · refine ⟨.getCache i true,{ st with phase := .up cl' },?_,rfl⟩
    simp only [system,step,hup]
    rw [if_pos hpc]
    exact move_eq_some.mpr ⟨cl',hs,rfl⟩

theorem after_registerServer {registered : Bool} {pc : SlavePc R}
    (h : callsRegisterServer registered pc = true) :
    callsGetCache true pc = true ∨ inRegistry true pc = false := by
  cases pc with
  | frontHandler => exact .inr rfl
  | midHandler => exact .inl rfl
  | _ => cases h

/-- A slave's step is taken with the calls of the registry that it consists of. -/
theorem run_slave {st : State R} {cl cl' : Cluster.State R} {i : VmId} {now : ℤ} (hsound : Sound st)
    (hup : st.phase = .up cl) (hs : Cluster.system.step cl (.run i now) = some cl') :
    ∃ bs st', system.run st bs = some st' ∧ st'.phase = .up cl' := by
  have hclock : inRegistry (st.locals i).registered (cl.slaves i).pc = true →
      Cluster.system.step cl (.run i 0) = some cl' := by
    intro hin
    rw [← hs]
    simp only [Cluster.system,Cluster.step]
    rw [run_inRegistry hin i now]
  cases hcalls : st.calls cl (.run i now) with
  | false =>
    obtain ⟨st',hst,hup'⟩ := step_cluster hsound hup hcalls hs
    exact ⟨[_],st',LabelledSystem.run_singleton hst,hup'⟩
  | true =>
    have hs := hclock hcalls
    simp only [State.calls,inRegistry,Bool.or_eq_true] at hcalls
    rcases hcalls with (hpc | hpc) | hpc
    · obtain ⟨st',hst,hup'⟩ := step_getInstance hsound hup hpc hs
      exact ⟨[_],st',LabelledSystem.run_singleton hst,hup'⟩
    · obtain ⟨st₁,hst,hup₁,hregistered⟩ := step_registerServer hup hpc
      have hnext : ∃ a st', system.step st₁ a = some st' ∧ st'.phase = .up cl' := by
        rcases after_registerServer hpc with hcache | hout
        · have hcache : callsGetCache (st₁.locals i).registered (cl.slaves i).pc = true := by
            rw [hregistered]
            exact hcache
          obtain ⟨st',hst',hup'⟩ := step_getCache (sound_step hsound hst) hup₁ hcache hs
          exact ⟨_,st',hst',hup'⟩
        · have hcalls : st₁.calls cl (.run i 0) = false := by
            rw [State.calls, hregistered]
            exact hout
          obtain ⟨st',hst',hup'⟩ := step_cluster (sound_step hsound hst) hup₁ hcalls hs
          exact ⟨_,st',hst',hup'⟩
      obtain ⟨a,st',hst',hup'⟩ := hnext
      exact ⟨[_] ++ [a],st',LabelledSystem.run_concat (LabelledSystem.run_singleton hst) hst',hup'⟩
    · obtain ⟨st',hst,hup'⟩ := step_getCache hsound hup hpc hs
      exact ⟨[_],st',LabelledSystem.run_singleton hst,hup'⟩

theorem cluster_simulated {cl : Cluster.State R} {st : State R} {a : Cluster.Action R}
    {cl' : Cluster.State R} (h : st.phase = .up cl ∧ Sound st) (hs : Cluster.system.step cl a = some cl') :
    ∃ bs st', system.run st bs = some st' ∧ st'.phase = .up cl' ∧ Sound st' := by
  obtain ⟨hup,hsound⟩ := h
  have hmatched : ∃ bs st', system.run st bs = some st' ∧ st'.phase = .up cl' := by
    cases hcalls : st.calls cl a with
    | false =>
      obtain ⟨st',hst,hup'⟩ := step_cluster hsound hup hcalls hs
      exact ⟨[_],st',LabelledSystem.run_singleton hst,hup'⟩
    | true =>
      cases a with
      | run i now => exact run_slave hsound hup hs
      | throws i =>
        obtain ⟨b,st',hst,hup'⟩ := step_throws hup hcalls hs
        exact ⟨[b],st',LabelledSystem.run_singleton hst,hup'⟩
      | _ => cases hcalls
  obtain ⟨bs,st',hr,hup'⟩ := hmatched
  exact ⟨bs,st',hr,hup',LabelledSystem.run_invariant (fun _ _ _ h hs => sound_step h hs) hr hsound⟩

theorem run_startUp (masterStartTime : ℤ) : ∃ st : State R,
    system.run start [.registerMaster false false,.startCache none false,.masterHandler masterStartTime] =
      some st ∧ st.phase = .up (Cluster.start masterStartTime) :=
  ⟨_,rfl,rfl⟩

/-- The registry is transparent. The states that the cluster gets into with the registry,
call by call and with every failure of it, where a slave's call is executed by the object
that its lookup has returned, are those it gets into when the slaves' calls go to the
master by themselves. -/
theorem registry_transparent (cl : Cluster.State R) :
    (∃ as st, system.run start as = some st ∧ st.phase = .up cl) ↔
      ∃ masterStartTime, Cluster.system.Reachable (Cluster.start masterStartTime) cl := by
  constructor
  · rintro ⟨as,st,hr,hup⟩
    exact reachable_of_run hr hup
  · rintro ⟨masterStartTime,bs,hbs⟩
    obtain ⟨st₀,hr₀,hup₀⟩ := run_startUp (R := R) masterStartTime
    obtain ⟨as,st,hr,hup,_⟩ := LabelledSystem.run_simulated
      (R := fun (u : Cluster.State R) (v : State R) => v.phase = .up u ∧ Sound v)
      (fun _ _ _ _ h hs => cluster_simulated h hs) hbs ⟨hup₀,sound_run hr₀⟩
    exact ⟨_ ++ as,st,LabelledSystem.run_append_eq_some.mpr ⟨st₀,hr₀,hr⟩,hup⟩

end StartUp
end AutoScaling
