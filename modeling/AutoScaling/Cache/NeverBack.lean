import AutoScaling.Cache.ConcurrentGet

/-! # When reads through the cache never go back

A call that starts after an answer finds an entry at least as new, as long as no put
replaces a newer one; that is one invariant over the map, the log and what each call
under way may rely on. The other half continues a run from a put that does.
-/
namespace AutoScaling
namespace ConcurrentCache

/-- The steps of a running `get`. -/
inductive Advanced (st : State) (call : ℕ) : State → Prop
  | hit (s : String) (hpc : st.pc call = .containsKey s) (hin : s ∈ st.cacheMap) :
      Advanced st call (st.setPc call (.mapGet s))
  | miss (s : String) (hpc : st.pc call = .containsKey s) (hout : s ∉ st.cacheMap) :
      Advanced st call (st.setPc call (.dbGet s))
  | dbGet (s : String) (hpc : st.pc call = .dbGet s) :
      Advanced st call (st.setPc call (.put s (st.db.lookup s)))
  | putNull (s : String) (hpc : st.pc call = .put s none) :
      Advanced st call (st.setPc call .nullPointerException)
  | put (s : String) (val : Versioned) (hpc : st.pc call = .put s (some val)) : Advanced st call
      ({ st with cacheMap := st.cacheMap.insert s val }.setPc call (.ret s (some val)))
  | mapGet (s : String) (hpc : st.pc call = .mapGet s) :
      Advanced st call (st.setPc call (.ret s (st.cacheMap.lookup s)))
  | ret (s : String) (val : Option Versioned) (hpc : st.pc call = .ret s val) : Advanced st call
      ({ st with log := .returned call s val :: st.log }.setPc call .returned)

theorem advanced_of_advance {st st' : State} {call : ℕ} (hs : st.advance call = some st') :
    Advanced st call st' := by
  simp only [State.advance] at hs
  cases hpc : st.pc call with
  | containsKey s =>
    simp only [hpc] at hs
    cases hs
    split
    · rename_i hin
      exact .hit s hpc hin
    · rename_i hout
      exact .miss s hpc hout
  | dbGet s =>
    simp only [hpc] at hs
    cases hs
    exact .dbGet s hpc
  | put s val =>
    cases val with
    | none =>
      simp only [hpc] at hs
      cases hs
      exact .putNull s hpc
    | some val =>
      simp only [hpc] at hs
      cases hs
      exact .put s val hpc
  | mapGet s =>
    simp only [hpc] at hs
    cases hs
    exact .mapGet s hpc
  | ret s val =>
    simp only [hpc] at hs
    cases hs
    exact .ret s val hpc
  | _ => simp [hpc] at hs

theorem get_eq_some {st st' : State} {call : ℕ} {s : String} : step st (.get call s) = some st' ↔
    st.pc call = .idle ∧
      st' = { st with log := .started call s :: st.log }.setPc call (.containsKey s) := by
  rw [step, Option.ite_none_right_eq_some, Option.some.injEq, eq_comm (b := st')]

def Grows (m m' : Finmap (fun _ : String => Versioned)) : Prop :=
  ∀ s c, m.lookup s = some c → ∃ c', m'.lookup s = some c' ∧ c.ver ≤ c'.ver

theorem Grows.refl (m : Finmap (fun _ : String => Versioned)) : Grows m m :=
  fun _ c hc => ⟨c,hc,le_rfl⟩

theorem Grows.insert {m : Finmap (fun _ : String => Versioned)} {s : String} {val : Versioned}
    (h : ∀ cached ∈ m.lookup s, cached.ver ≤ val.ver) : Grows m (m.insert s val) := by
  intro k c hc
  by_cases hk : k = s
  · subst hk
    exact ⟨val,Finmap.lookup_insert m,h c hc⟩
  · exact ⟨c,by rw [Finmap.lookup_insert_of_ne m hk]; exact hc,le_rfl⟩

/-- `s` had been answered, in version `v`, before call `j` on it started. -/
def ServedBefore (log : List Event) (j : ℕ) (s : String) (v : Versioned) : Prop :=
  ∃ i, [Event.started j s,.returned i s (some v)].Sublist log

def PcOk (m : Finmap (fun _ : String => Versioned)) (log : List Event) (j : ℕ) : Pc → Prop
  | .idle => ∀ s, Event.started j s ∉ log
  | .dbGet s => ∀ v, ¬ ServedBefore log j s v
  | .put s _ => ∀ v, ¬ ServedBefore log j s v
  | .ret s (some w) =>
    (∃ c, m.lookup s = some c ∧ w.ver ≤ c.ver) ∧ ∀ v, ServedBefore log j s v → v.ver ≤ w.ver
  | _ => True

structure Inv (st : State) : Prop where
  served : ∀ i s v, Event.returned i s (some v) ∈ st.log →
    ∃ c, st.cacheMap.lookup s = some c ∧ v.ver ≤ c.ver
  pcOk : ∀ j, PcOk st.cacheMap st.log j (st.pc j)
  neverBack : NeverBack st.log

theorem ServedBefore.mem {log : List Event} {j : ℕ} {s : String} {v : Versioned}
    (h : ServedBefore log j s v) : ∃ i, Event.returned i s (some v) ∈ log := by
  obtain ⟨i,hi⟩ := h
  exact ⟨i,hi.subset (by simp)⟩

theorem ServedBefore.of_cons {log : List Event} {e : Event} {j : ℕ} {s : String} {v : Versioned}
    (h : ServedBefore (e :: log) j s v) (he : e ≠ .started j s) : ServedBefore log j s v := by
  obtain ⟨i,hi⟩ := h
  rcases List.cons_sublist_cons'.mp hi with hi | ⟨heq,_⟩
  · exact ⟨i,hi⟩
  · exact absurd heq.symm he

theorem PcOk.transfer {m m' : Finmap (fun _ : String => Versioned)} {log : List Event} {e : Event}
    {j : ℕ} {p : Pc} (h : PcOk m log j p) (hm : Grows m m') (he : ∀ s, e ≠ .started j s) :
    PcOk m' (e :: log) j p := by
  cases p with
  | idle =>
    intro s hs
    rcases List.mem_cons.mp hs with hs | hs
    · exact he s hs.symm
    · exact h s hs
  | dbGet s => exact fun v hv => h v (hv.of_cons (he s))
  | put s val => exact fun v hv => h v (hv.of_cons (he s))
  | ret s val =>
    cases val with
    | none => trivial
    | some w =>
      obtain ⟨⟨c,hc,hw⟩,hv⟩ := h
      obtain ⟨c',hc',hle⟩ := hm s c hc
      exact ⟨⟨c',hc',hw.trans hle⟩,fun v h => hv v (h.of_cons (he s))⟩
  | _ => trivial

theorem PcOk.grow {m m' : Finmap (fun _ : String => Versioned)} {log : List Event} {j : ℕ} {p : Pc}
    (h : PcOk m log j p) (hm : Grows m m') : PcOk m' log j p := by
  cases p with
  | ret s val =>
    cases val with
    | none => trivial
    | some w =>
      obtain ⟨⟨c,hc,hw⟩,hv⟩ := h
      obtain ⟨c',hc',hle⟩ := hm s c hc
      exact ⟨⟨c',hc',hw.trans hle⟩,hv⟩
  | _ => exact h

theorem NeverBack.cons {log : List Event} (h : NeverBack log) {e : Event}
    (he : ∀ j s w, e = .returned j s (some w) → ∀ v, ServedBefore log j s v → v.ver ≤ w.ver) :
    NeverBack (e :: log) := by
  intro i j s v w hsub
  rcases List.cons_sublist_cons'.mp hsub with hsub | ⟨heq,hsub⟩
  · exact h i j s v w hsub
  · exact he j s w heq.symm v ⟨i,hsub⟩

theorem Inv.setPc {st : State} (h : Inv st) {call : ℕ} {p : Pc}
    (hp : PcOk st.cacheMap st.log call p) : Inv (st.setPc call p) := by
  refine ⟨h.served,?_,h.neverBack⟩
  intro j
  by_cases hj : j = call
  · subst hj
    simpa [State.setPc] using hp
  · simpa [State.setPc,hj] using h.pcOk j

theorem Inv.log {st : State} (h : Inv st) {call : ℕ} {p : Pc} {e : Event}
    (he : ∀ j s, e = .started j s → j = call)
    (hserved : ∀ i s v, e = .returned i s (some v) → ∃ c, st.cacheMap.lookup s = some c ∧ v.ver ≤ c.ver)
    (hback : ∀ j s w, e = .returned j s (some w) → ∀ v, ServedBefore st.log j s v → v.ver ≤ w.ver)
    (hp : PcOk st.cacheMap (e :: st.log) call p) :
    Inv ({ st with log := e :: st.log }.setPc call p) := by
  refine ⟨?_,?_,h.neverBack.cons hback⟩
  · intro i s v hmem
    rcases List.mem_cons.mp hmem with hmem | hmem
    · exact hserved i s v hmem.symm
    · exact h.served i s v hmem
  · intro j
    by_cases hj : j = call
    · subst hj
      simpa [State.setPc] using hp
    · simpa [State.setPc,hj] using
        (h.pcOk j).transfer (Grows.refl _) (fun s hs => hj (he j s hs))

theorem Inv.install {st : State} (h : Inv st) {call : ℕ} {s : String} {val : Versioned}
    (hpc : st.pc call = .put s (some val))
    (hnew : ∀ cached ∈ st.cacheMap.lookup s, cached.ver ≤ val.ver) :
    Inv ({ st with cacheMap := st.cacheMap.insert s val }.setPc call (.ret s (some val))) := by
  have hm : Grows st.cacheMap (st.cacheMap.insert s val) := Grows.insert hnew
  have hmiss : ∀ v, ¬ ServedBefore st.log call s v := by
    have hp := h.pcOk call
    rw [hpc] at hp
    exact hp
  refine ⟨?_,?_,h.neverBack⟩
  · intro i k v hmem
    obtain ⟨c,hc,hv⟩ := h.served i k v hmem
    obtain ⟨c',hc',hle⟩ := hm k c hc
    exact ⟨c',hc',hv.trans hle⟩
  · intro j
    by_cases hj : j = call
    · subst hj
      simp only [State.setPc,Function.update_self]
      exact ⟨⟨val,Finmap.lookup_insert _,le_rfl⟩,fun v hv => absurd hv (hmiss v)⟩
    · simpa [State.setPc,hj] using (h.pcOk j).grow hm

theorem inv_start (d : Finmap (fun _ : String => Versioned)) : Inv (start d) := by
  refine ⟨?_,?_,?_⟩
  · intro i s v h
    simp [start] at h
  · intro j s h
    simp [start] at h
  · intro i j s v w h
    simp [start] at h

theorem inv_step {st st' : State} {a : Action} (h : Inv st) (hg : PutsNotOlder st a)
    (hs : system.step st a = some st') : Inv st' := by
  simp only [system] at hs
  cases a with
  | get call s =>
    obtain ⟨_,rfl⟩ := get_eq_some.mp hs
    refine h.log ?_ ?_ ?_ trivial
    · rintro j k ⟨⟩
      rfl
    · rintro i k v ⟨⟩
    · rintro j k w ⟨⟩
  | write s s1 =>
    cases hs
    exact ⟨h.served,h.pcOk,h.neverBack⟩
  | step call =>
    have hp := h.pcOk call
    simp only [PutsNotOlder] at hg
    cases advanced_of_advance hs with
    | hit s hpc hin => exact h.setPc trivial
    | miss s hpc hout =>
      -- nothing served for `s` so far, or `s` would have an entry
      refine h.setPc ?_
      intro v hv
      obtain ⟨i,hi⟩ := hv.mem
      obtain ⟨c,hc,_⟩ := h.served i s v hi
      exact hout (Finmap.mem_of_lookup_eq_some hc)
    | dbGet s hpc =>
      rw [hpc] at hp
      exact h.setPc hp
    | putNull s hpc => exact h.setPc trivial
    | put s val hpc =>
      rw [hpc] at hg
      exact h.install hpc hg
    | mapGet s hpc =>
      refine h.setPc ?_
      cases hc : st.cacheMap.lookup s with
      | none => trivial
      | some c =>
        refine ⟨⟨c,hc,le_rfl⟩,?_⟩
        intro v hv
        obtain ⟨i,hi⟩ := hv.mem
        obtain ⟨c',hc',hle⟩ := h.served i s v hi
        rw [hc] at hc'
        cases hc'
        exact hle
    | ret s val hpc =>
      rw [hpc] at hp
      refine h.log ?_ ?_ ?_ trivial
      · rintro j k ⟨⟩
      · rintro i k v ⟨⟩
        exact hp.1
      · rintro j k w ⟨⟩
        exact hp.2

/-- What holds of every reachable state, whatever the puts do: an entry was put there
by a call that has answered with it or is about to, and only finitely many calls
have started. -/
structure Provenance (st : State) : Prop where
  entry : ∀ s c, st.cacheMap.lookup s = some c →
    ∃ j, st.pc j = .ret s (some c) ∨ Event.returned j s (some c) ∈ st.log
  finite : ∃ n, ∀ i, n ≤ i → st.pc i = .idle

theorem Provenance.setPc {st : State} (h : Provenance st) {call : ℕ} {p : Pc}
    (hret : ∀ s c, st.pc call = .ret s (some c) → Event.returned call s (some c) ∈ st.log) :
    Provenance (st.setPc call p) := by
  obtain ⟨n,hn⟩ := h.finite
  refine ⟨?_,max n (call + 1),?_⟩
  · intro s c hc
    obtain ⟨j,hj⟩ := h.entry s c hc
    rcases hj with hj | hj
    · by_cases he : j = call
      · subst he
        exact ⟨j,.inr (hret s c hj)⟩
      · exact ⟨j,.inl (by simpa [State.setPc,he] using hj)⟩
    · exact ⟨j,.inr hj⟩
  · intro i hi
    have hne : i ≠ call := by omega
    simpa [State.setPc,hne] using hn i (by omega)

theorem Provenance.log {st : State} (h : Provenance st) (e : Event) :
    Provenance { st with log := e :: st.log } := by
  refine ⟨?_,h.finite⟩
  intro s c hc
  obtain ⟨j,hj⟩ := h.entry s c hc
  exact ⟨j,hj.imp_right (List.mem_cons_of_mem e)⟩

theorem provenance_step {st st' : State} {a : Action} (h : Provenance st)
    (hs : system.step st a = some st') : Provenance st' := by
  simp only [system] at hs
  cases a with
  | get call s =>
    obtain ⟨hidle,rfl⟩ := get_eq_some.mp hs
    refine (h.log (.started call s)).setPc ?_
    intro k c hc
    rw [hidle] at hc
    cases hc
  | write s s1 =>
    cases hs
    exact ⟨h.entry,h.finite⟩
  | step call =>
    have hmoves : ∀ {p : Pc}, st.pc call = p → (∀ s c, p ≠ .ret s (some c)) → ∀ q,
        Provenance (st.setPc call q) :=
      fun hpc hp _ => h.setPc (fun k c hc => absurd (hpc.symm.trans hc) (hp k c))
    cases advanced_of_advance hs with
    | hit s hpc hin => exact hmoves hpc (fun _ _ => Pc.noConfusion) _
    | miss s hpc hout => exact hmoves hpc (fun _ _ => Pc.noConfusion) _
    | dbGet s hpc => exact hmoves hpc (fun _ _ => Pc.noConfusion) _
    | putNull s hpc => exact hmoves hpc (fun _ _ => Pc.noConfusion) _
    | mapGet s hpc => exact hmoves hpc (fun _ _ => Pc.noConfusion) _
    | ret s val hpc =>
      refine (h.log (.returned call s val)).setPc ?_
      intro k c hc
      rw [hpc] at hc
      cases hc
      exact List.mem_cons_self
    | put s val hpc =>
      have hmoved := hmoves hpc (fun _ _ => Pc.noConfusion) (.ret s (some val))
      refine ⟨?_,hmoved.finite⟩
      intro k c hc
      by_cases hk : k = s
      · subst hk
        simp only [State.setPc,Finmap.lookup_insert] at hc
        cases hc
        exact ⟨call,.inl (Function.update_self _ _ _)⟩
      · simp only [State.setPc,Finmap.lookup_insert_of_ne _ hk] at hc
        exact hmoved.entry k c hc

theorem provenance_start (d : Finmap (fun _ : String => Versioned)) : Provenance (start d) :=
  ⟨fun s c h => by simp [start] at h,0,fun _ _ => rfl⟩

theorem put_then_read_goes_back {st : State} {call n j : ℕ} {s : String} {val cached : Versioned}
    (hpc : st.pc call = .put s (some val)) (hn : st.pc n = .idle)
    (hserved : Event.returned j s (some cached) ∈ st.log) (hold : val.ver < cached.ver) :
    ∃ bs st', system.run st bs = some st' ∧ ¬ NeverBack st'.log := by
  have hne : n ≠ call := by
    rintro rfl
    rw [hn] at hpc
    cases hpc
  let put := { st with cacheMap := st.cacheMap.insert s val }.setPc call (.ret s (some val))
  let asked := { put with log := .started n s :: put.log }.setPc n (.containsKey s)
  let found := (asked.setPc n (.mapGet s)).setPc n (.ret s (some val))
  let done := { found with log := .returned n s (some val) :: found.log }.setPc n .returned
  have hput : system.step st (.step call) = some put := by
    simp only [system,step,State.advance,hpc]
    rfl
  have hget : system.step put (.get n s) = some asked := by
    have hidle : put.pc n = .idle := by simpa [put,State.setPc,hne] using hn
    simp only [system,step,if_pos hidle]
    rfl
  have hcontains : system.step asked (.step n) = some (asked.setPc n (.mapGet s)) := by
    simp [system,step,State.advance,asked,put,State.setPc]
  have hmap : system.step (asked.setPc n (.mapGet s)) (.step n) = some found := by
    simp [system,step,State.advance,found,asked,put,State.setPc]
  have hret : system.step found (.step n) = some done := by
    simp [system,step,State.advance,found,done,State.setPc]
  refine ⟨[.step call,.get n s,.step n,.step n,.step n],done,?_,?_⟩
  · simp only [LabelledSystem.run_cons,LabelledSystem.run_nil,hput,hget,hcontains,hmap,hret,
      Option.bind_some]
  · intro hback
    have hsub : [Event.returned n s (some val),.started n s,.returned j s (some cached)].Sublist
        (.returned n s (some val) :: .started n s :: st.log) :=
      ((List.singleton_sublist.mpr hserved).cons_cons _).cons_cons _
    exact absurd (hback j n s cached val hsub) (Nat.not_le.mpr hold)

/-- Any reachable put of an older string can be continued to a read that goes back. -/
theorem older_put_goes_back {d : Finmap (fun _ : String => Versioned)} {st : State}
    (hr : system.Reachable (start d) st) {call : ℕ} (hg : ¬ PutsNotOlder st (.step call)) :
    ∃ bs st', system.run st bs = some st' ∧ ¬ NeverBack st'.log := by
  obtain ⟨as,hr⟩ := hr
  have hprov := LabelledSystem.run_invariant (fun _ _ _ => provenance_step) hr (provenance_start d)
  obtain ⟨n,hn⟩ := hprov.finite
  simp only [PutsNotOlder] at hg
  cases hpc : st.pc call with
  | put s val =>
    cases val with
    | none => simp [hpc,Pc.NotOlder] at hg
    | some val =>
      simp only [hpc,Pc.NotOlder,not_forall,Nat.not_le] at hg
      obtain ⟨cached,hc,hold⟩ := hg
      obtain ⟨j,hj⟩ := hprov.entry s cached hc
      rcases hj with hj | hj
      · have hne : call ≠ j := by
          rintro rfl
          rw [hpc] at hj
          cases hj
        let answered := { st with log := .returned j s (some cached) :: st.log }.setPc j .returned
        have hanswer : system.step st (.step j) = some answered := by
          simp only [system,step,State.advance,hj]
          rfl
        have hnj : n ≠ j := by
          rintro rfl
          rw [hn n le_rfl] at hj
          cases hj
        obtain ⟨bs,st',hrun,hbad⟩ := @put_then_read_goes_back answered call n _ _ _ _
          (by simpa [answered,State.setPc,hne] using hpc)
          (by simpa [answered,State.setPc,hnj] using hn n le_rfl)
          (List.mem_cons_self : Event.returned j s (some cached) ∈ answered.log) hold
        exact ⟨.step j :: bs,st',(system.run_cons_eq_some).mpr ⟨answered,hanswer,hrun⟩,hbad⟩
      · exact put_then_read_goes_back hpc (hn n le_rfl) hj hold
  | _ => simp [hpc,Pc.NotOlder] at hg

/-- Reads never go back in time in a run whose puts never replace a newer entry, and
no weaker condition on the puts would do: any other put a run can come to may be
followed by a read that goes back. -/
theorem reads_neverBack (d : Finmap (fun _ : String => Versioned)) :
    (∀ as st, system.run (start d) as = some st → system.Meets PutsNotOlder (start d) as →
      NeverBack st.log) ∧
    ∀ st call, system.Reachable (start d) st → ¬ PutsNotOlder st (.step call) →
      ∃ bs st', system.run st bs = some st' ∧ ¬ NeverBack st'.log :=
  ⟨fun _ _ hr hg =>
    (LabelledSystem.run_invariant_of_meets (fun _ _ _ => inv_step) hr hg (inv_start d)).neverBack,
    fun _ _ hr hg => older_put_goes_back hr hg⟩

def lampDb : Finmap (fun _ : String => Versioned) := Finmap.insert "lamp" ⟨"5",0⟩ ∅

/-- Two overlapping misses around a write: call 0 fetches version 0 and is overtaken by
call 1, which fetches, caches and answers version 1; call 0 then caches version 0. -/
def overtakenMiss : List Action :=
  [.get 0 "lamp",.step 0,.step 0,.write "lamp" "4",.get 1 "lamp",.step 1,.step 1,.step 1,.step 1,
    .step 0,.step 0,.get 2 "lamp",.step 2,.step 2,.step 2]

/-- Call 1 has answered version 1 before call 2 starts, and call 2 answers version 0. -/
theorem overtakenMiss_goes_back :
    ∃ st, system.run (start lampDb) overtakenMiss = some st ∧ ¬ NeverBack st.log := by
  refine ⟨_,rfl,?_⟩
  intro h
  have hle := h 1 2 "lamp" ⟨"4",1⟩ ⟨"5",0⟩ (by decide)
  exact absurd hle (by decide)

def orderedMisses : List Action :=
  [.get 0 "lamp",.step 0,.step 0,.write "lamp" "4",.get 1 "lamp",.step 1,.step 1,.step 0,.step 0,
    .step 1,.step 1,.get 2 "lamp",.step 2,.step 2,.step 2]

theorem reads_neverBack_orderedMisses :
    ∃ st, system.run (start lampDb) orderedMisses = some st ∧ NeverBack st.log := by
  have hrun : (system.run (start lampDb) orderedMisses).isSome := by decide
  obtain ⟨st,hst⟩ := Option.isSome_iff_exists.mp hrun
  exact ⟨st,hst,(reads_neverBack lampDb).1 orderedMisses st hst (by decide)⟩

end ConcurrentCache
end AutoScaling
