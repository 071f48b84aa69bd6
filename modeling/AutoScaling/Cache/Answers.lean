import AutoScaling.Cache.NeverBack
import AutoScaling.Foundation.Emission

/-! # Where concurrent answers come from

A string that a `get` returns has been the database's, the entry that `containsKey` found
is there for the `get` that follows, and once a key has been answered only calls that had
missed it before still ask the database.
-/
namespace AutoScaling
namespace ConcurrentCache

theorem State.setPc_pc (st : State) (call : ℕ) (p : Pc) : (st.setPc call p).pc call = p :=
  Function.update_self _ _ _

def visited (st : State) (as : List Action) : List State := system.emitted (fun u _ => [u]) st as

/-- The database held `c` for `s` in one of the states. -/
def Held (l : List State) (s : String) (c : Option Versioned) : Prop := ∃ u ∈ l, u.db.lookup s = c

theorem Held.append {l : List State} {s : String} {c : Option Versioned} (h : Held l s c)
    (l' : List State) : Held (l ++ l') s c := by
  obtain ⟨u,hu,hc⟩ := h
  exact ⟨u,List.mem_append_left l' hu,hc⟩

def StartedOn (log : List Event) (j : ℕ) (s : String) : Prop := ∀ k, Event.started j k ∈ log → k = s

/-- What is known of a call at each of its program points. -/
def PcGenuine (l : List State) (m : Finmap (fun _ : String => Versioned)) (log : List Event) (j : ℕ) :
    Pc → Prop
  | .idle => ∀ s, Event.started j s ∉ log
  | .containsKey s => StartedOn log j s
  | .dbGet s => StartedOn log j s
  | .put s val => StartedOn log j s ∧ Held l s val
  | .mapGet s => StartedOn log j s ∧ s ∈ m
  | .ret s val => s ∈ m ∧ ∃ w, val = some w ∧ Held l s (some w)
  | .returned => True
  | .nullPointerException => ∀ s, Event.started j s ∈ log → Held l s none

/-- The states a run has left account for its entries and its answers. -/
structure Genuine (l : List State) (st : State) : Prop where
  entry : ∀ s c, st.cacheMap.lookup s = some c → Held l s (some c)
  pc : ∀ j, PcGenuine l st.cacheMap st.log j (st.pc j)
  answer : ∀ i s val, Event.returned i s val ∈ st.log →
    s ∈ st.cacheMap ∧ ∃ w, val = some w ∧ Held l s (some w)

theorem genuine_start (d : Finmap (fun _ : String => Versioned)) : Genuine [] (start d) :=
  ⟨(fun s c h => by simp [start] at h),(fun _ _ h => by cases h),fun i s val h => by cases h⟩

theorem PcGenuine.mono {l : List State} {m m' : Finmap (fun _ : String => Versioned)} {log log' : List Event}
    {j : ℕ} {p : Pc} (h : PcGenuine l m log j p) (l' : List State) (hm : ∀ s ∈ m, s ∈ m')
    (hlog : ∀ s, Event.started j s ∈ log' → Event.started j s ∈ log) :
    PcGenuine (l ++ l') m' log' j p := by
  cases p with
  | idle => exact fun s hs => h s (hlog s hs)
  | containsKey s => exact fun k hk => h k (hlog k hk)
  | dbGet s => exact fun k hk => h k (hlog k hk)
  | put s val => exact ⟨fun k hk => h.1 k (hlog k hk),h.2.append l'⟩
  | mapGet s => exact ⟨fun k hk => h.1 k (hlog k hk),hm s h.2⟩
  | ret s val =>
    obtain ⟨hin,w,hval,hw⟩ := h
    exact ⟨hm s hin,w,hval,hw.append l'⟩
  | returned => trivial
  | nullPointerException => exact fun s hs => (h s (hlog s hs)).append l'

theorem Genuine.next {l : List State} {st st' : State} (h : Genuine l st) (call : ℕ)
    (hpc : ∀ j, j ≠ call → st'.pc j = st.pc j) (hmap : ∀ s ∈ st.cacheMap, s ∈ st'.cacheMap)
    (hlog : ∀ j s, j ≠ call → Event.started j s ∈ st'.log → Event.started j s ∈ st.log)
    (hcall : PcGenuine (l ++ [st]) st'.cacheMap st'.log call (st'.pc call))
    (hentry : ∀ s c, st'.cacheMap.lookup s = some c → st.cacheMap.lookup s = some c ∨ Held l s (some c))
    (hanswer : ∀ i s val, Event.returned i s val ∈ st'.log → Event.returned i s val ∈ st.log ∨
      s ∈ st.cacheMap ∧ ∃ w, val = some w ∧ Held l s (some w)) : Genuine (l ++ [st]) st' := by
  refine ⟨?_,?_,?_⟩
  · intro s c hc
    exact ((hentry s c hc).elim (h.entry s c) id).append [st]
  · intro j
    by_cases hj : j = call
    · rw [hj]
      exact hcall
    · rw [hpc j hj]
      exact (h.pc j).mono [st] hmap (fun s => hlog j s hj)
  · intro i s val hi
    obtain ⟨hin,w,hval,hw⟩ := (hanswer i s val hi).elim (h.answer i s val) id
    exact ⟨hmap s hin,w,hval,hw.append [st]⟩

theorem Genuine.move {l : List State} {st : State} (h : Genuine l st) {call : ℕ} {p : Pc}
    (hp : PcGenuine (l ++ [st]) st.cacheMap st.log call p) : Genuine (l ++ [st]) (st.setPc call p) := by
  refine h.next call (fun j hj => Function.update_of_ne hj _ _) (fun _ hs => hs) (fun _ _ _ hs => hs) ?_
    (fun _ _ hc => .inl hc) (fun _ _ _ hi => .inl hi)
  rw [State.setPc_pc]
  exact hp

theorem genuine_step {l : List State} {st st' : State} {a : Action} (h : Genuine l st)
    (hs : system.step st a = some st') : Genuine (l ++ [st]) st' := by
  simp only [system] at hs
  cases a with
  | get call s =>
    obtain ⟨hidle,rfl⟩ := get_eq_some.mp hs
    have hp := h.pc call
    rw [hidle] at hp
    refine h.next call (fun j hj => Function.update_of_ne hj _ _) (fun _ hs => hs) ?_ ?_
      (fun _ _ hc => .inl hc) ?_
    · intro j k hj hk
      rcases List.mem_cons.mp hk with hk | hk
      · cases hk
        exact absurd rfl hj
      · exact hk
    · rw [State.setPc_pc]
      intro k hk
      rcases List.mem_cons.mp hk with hk | hk
      · cases hk
        rfl
      · exact absurd hk (hp k)
    · intro i k val hi
      rcases List.mem_cons.mp hi with hi | hi
      · cases hi
      · exact .inl hi
  | write s s1 =>
    cases hs
    exact h.next 0 (fun _ _ => rfl) (fun _ hs => hs) (fun _ _ _ hs => hs)
      ((h.pc 0).mono [st] (fun _ hs => hs) (fun _ hs => hs)) (fun _ _ hc => .inl hc) (fun _ _ _ hi => .inl hi)
  | step call =>
    have hp := h.pc call
    cases advanced_of_advance hs with
    | hit s hpc hin =>
      rw [hpc] at hp
      exact h.move ⟨hp,hin⟩
    | miss s hpc hout =>
      rw [hpc] at hp
      exact h.move hp
    | dbGet s hpc =>
      rw [hpc] at hp
      exact h.move ⟨hp,st,List.mem_append_right l (List.mem_singleton_self st),rfl⟩
    | putNull s hpc =>
      rw [hpc] at hp
      refine h.move ?_
      intro k hk
      rw [hp.1 k hk]
      exact hp.2.append [st]
    | mapGet s hpc =>
      rw [hpc] at hp
      obtain ⟨w,hw⟩ := Finmap.mem_iff.mp hp.2
      exact h.move ⟨hp.2,w,hw,(h.entry s w hw).append [st]⟩
    | put s val hpc =>
      rw [hpc] at hp
      refine h.next call (fun j hj => Function.update_of_ne hj _ _) ?_ (fun _ _ _ hs => hs) ?_ ?_
        (fun _ _ _ hi => .inl hi)
      · exact fun k hk => Finmap.mem_insert.mpr (.inr hk)
      · rw [State.setPc_pc]
        exact ⟨Finmap.mem_insert.mpr (.inl rfl),val,rfl,hp.2.append [st]⟩
      · intro k c hc
        by_cases hk : k = s
        · subst hk
          simp only [State.setPc,Finmap.lookup_insert] at hc
          cases hc
          exact .inr hp.2
        · simp only [State.setPc,Finmap.lookup_insert_of_ne _ hk] at hc
          exact .inl hc
    | ret s val hpc =>
      rw [hpc] at hp
      refine h.next call (fun j hj => Function.update_of_ne hj _ _) (fun _ hs => hs) ?_ ?_
        (fun _ _ hc => .inl hc) ?_
      · intro j k _ hk
        rcases List.mem_cons.mp hk with hk | hk
        · cases hk
        · exact hk
      · rw [State.setPc_pc]
        trivial
      · intro i k v hi
        rcases List.mem_cons.mp hi with hi | hi
        · cases hi
          exact .inr hp
        · exact .inl hi

theorem genuine_run {d : Finmap (fun _ : String => Versioned)} {as : List Action} {st : State}
    (hr : system.run (start d) as = some st) : Genuine (visited (start d) as) st :=
  LabelledSystem.emitted_invariant (I := fun l (u : State) => Genuine l u) (G := fun _ _ => True)
    (fun _ _ _ _ hl _ hs => genuine_step hl hs) hr (LabelledSystem.meets_true hr) (genuine_start d)

/-- In every interleaving each answer is a string that the database has held for its key,
never `null`, and a call throws only if the database has been without its key. -/
theorem answers_genuine (d : Finmap (fun _ : String => Versioned)) (as : List Action) (st : State)
    (hr : system.run (start d) as = some st) :
    (∀ i s val, Event.returned i s val ∈ st.log →
      ∃ w, val = some w ∧ ∃ u ∈ visited (start d) as, u.db.lookup s = some w) ∧
    ∀ i s, Event.started i s ∈ st.log → st.pc i = .nullPointerException →
      ∃ u ∈ visited (start d) as, u.db.lookup s = none := by
  have h := genuine_run hr
  refine ⟨fun i s val hi => (h.answer i s val hi).2,?_⟩
  intro i s hi hpc
  have hp := h.pc i
  rw [hpc] at hp
  exact hp s hi

theorem answers_genuine_orderedMisses : ∃ st, system.run (start lampDb) orderedMisses = some st ∧
    ∃ u ∈ visited (start lampDb) orderedMisses, u.db.lookup "lamp" = some ⟨"4",1⟩ := by
  have hrun : ∃ st, system.run (start lampDb) orderedMisses = some st ∧
      Event.returned 2 "lamp" (some ⟨"4",1⟩) ∈ st.log := by decide
  obtain ⟨st,hst,hin⟩ := hrun
  obtain ⟨w,hw,hheld⟩ := (answers_genuine lampDb orderedMisses st hst).1 2 "lamp" _ hin
  cases hw
  exact ⟨st,hst,hheld⟩

/-- The `DB.get` that a step makes: which call makes it, and for which key. -/
def asks (st : State) : Action → List (ℕ × String)
  | .step call =>
    match st.pc call with
    | .dbGet s => [(call,s)]
    | _ => []
  | .get _ _ => []
  | .write _ _ => []

def Pc.mayAsk : Pc → Bool
  | .idle => true
  | .containsKey _ => true
  | .dbGet _ => true
  | _ => false

def Action.isStepOf (i : ℕ) : Action → Bool
  | .step call => decide (call = i)
  | .get _ _ => false
  | .write _ _ => false

/-- A step moves one call on, or starts it, and takes nothing out of the map. -/
inductive Moved (st : State) (i : ℕ) (a : Action) (st' : State) : Prop
  | same (hpc : st'.pc i = st.pc i) (hother : a.isStepOf i = false)
  | started (s : String) (hidle : st.pc i = .idle) (hpc : st'.pc i = .containsKey s)
  | hit (s : String) (hown : a = .step i) (hpc : st.pc i = .containsKey s) (hpc' : st'.pc i = .mapGet s)
  | miss (s : String) (hown : a = .step i) (hpc : st.pc i = .containsKey s) (hout : s ∉ st.cacheMap)
      (hpc' : st'.pc i = .dbGet s)
  | onward (hown : a = .step i) (hask : (st'.pc i).mayAsk = false) (hpc : ∀ s, st.pc i ≠ .containsKey s)

theorem moved_of_step {st st' : State} {a : Action} (hs : system.step st a = some st') (i : ℕ) :
    Moved st i a st' := by
  simp only [system] at hs
  cases a with
  | get call s =>
    obtain ⟨hidle,rfl⟩ := get_eq_some.mp hs
    by_cases hi : i = call
    · subst hi
      exact .started s hidle (State.setPc_pc _ _ _)
    · exact .same (Function.update_of_ne hi _ _) rfl
  | write s s1 =>
    cases hs
    exact .same rfl rfl
  | step call =>
    by_cases hi : i = call
    · subst hi
      cases advanced_of_advance hs with
      | hit s hpc hin => exact .hit s rfl hpc (State.setPc_pc _ _ _)
      | miss s hpc hout => exact .miss s rfl hpc hout (State.setPc_pc _ _ _)
      | _ =>
        rename_i hpc
        refine .onward rfl ?_ ?_
        · rw [State.setPc_pc]
          rfl
        · simp [hpc]
    · have hother : (Action.step call).isStepOf i = false := decide_eq_false (Ne.symm hi)
      cases advanced_of_advance hs <;> exact .same (Function.update_of_ne hi _ _) hother

theorem cacheMap_grows {st st' : State} {a : Action} (hs : system.step st a = some st') {s : String}
    (hin : s ∈ st.cacheMap) : s ∈ st'.cacheMap := by
  simp only [system] at hs
  cases a with
  | get call k =>
    obtain ⟨_,rfl⟩ := get_eq_some.mp hs
    exact hin
  | write k s1 =>
    cases hs
    exact hin
  | step call =>
    cases advanced_of_advance hs with
    | put k val hpc => exact Finmap.mem_insert.mpr (.inr hin)
    | _ => exact hin

theorem asks_eq {st : State} {a : Action} {x : ℕ × String} (hx : x ∈ asks st a) :
    a = .step x.1 ∧ st.pc x.1 = .dbGet x.2 ∧ asks st a = [x] := by
  cases a with
  | get call s => cases hx
  | write s s1 => cases hx
  | step call =>
    simp only [asks] at hx ⊢
    cases hpc : st.pc call with
    | dbGet s =>
      rw [hpc] at hx
      rw [List.mem_singleton.mp hx]
      exact ⟨rfl,hpc,rfl⟩
    | _ =>
      rw [hpc] at hx
      cases hx

/-- Since `s` came into the map, `l` have asked the database: each once, and only those
that had missed `s` before. -/
structure Settled (st : State) (s : String) (l : List (ℕ × String)) (u : State) : Prop where
  cached : s ∈ u.cacheMap
  pending : ∀ j, u.pc j = .dbGet s → st.pc j = .dbGet s
  asked : ∀ x ∈ l, (u.pc x.1).mayAsk = false ∧ (x.2 = s → st.pc x.1 = .dbGet s)
  nodup : l.Nodup

theorem settled_step {st u v : State} {s : String} {l : List (ℕ × String)} {a : Action}
    (h : Settled st s l u) (hs : system.step u a = some v) : Settled st s (l ++ asks u a) v := by
  refine ⟨cacheMap_grows hs h.cached,?_,?_,?_⟩
  · intro j hj
    cases moved_of_step hs j with
    | same hpc hother =>
      rw [hpc] at hj
      exact h.pending j hj
    | started k hidle hpc =>
      rw [hpc] at hj
      cases hj
    | hit k hown hpc hpc' =>
      rw [hpc'] at hj
      cases hj
    | miss k hown hpc hout hpc' =>
      rw [hpc'] at hj
      cases hj
      exact absurd h.cached hout
    | onward hown hask hpc =>
      rw [hj] at hask
      cases hask
  · intro x hx
    rcases List.mem_append.mp hx with hx | hx
    · obtain ⟨hask,hbefore⟩ := h.asked x hx
      refine ⟨?_,hbefore⟩
      cases moved_of_step hs x.1 with
      | same hpc hother =>
        rw [hpc]
        exact hask
      | started k hidle hpc =>
        rw [hidle] at hask
        cases hask
      | hit k hown hpc hpc' =>
        rw [hpc']
        rfl
      | miss k hown hpc hout hpc' =>
        rw [hpc] at hask
        cases hask
      | onward hown hask' hpc => exact hask'
    · obtain ⟨ha,hpc,_⟩ := asks_eq hx
      refine ⟨?_,fun he => h.pending x.1 (he ▸ hpc)⟩
      cases moved_of_step hs x.1 with
      | same hsame hother =>
        rw [ha, Action.isStepOf, decide_eq_false_iff_not] at hother
        exact absurd rfl hother
      | onward hown hask hne => exact hask
      | started k hpc' => exact absurd (hpc.symm.trans hpc') Pc.noConfusion
      | hit k hown hpc' => exact absurd (hpc.symm.trans hpc') Pc.noConfusion
      | miss k hown hpc' => exact absurd (hpc.symm.trans hpc') Pc.noConfusion
  · cases hl : asks u a with
    | nil =>
      rw [List.append_nil]
      exact h.nodup
    | cons x rest =>
      obtain ⟨_,hpc,hone⟩ := asks_eq (x := x) (hl ▸ List.mem_cons_self)
      rw [← hl, hone, List.nodup_append]
      refine ⟨h.nodup,List.nodup_singleton x,?_⟩
      rintro y hy z hz rfl
      rw [List.mem_singleton.mp hz] at hy
      obtain ⟨hask,_⟩ := h.asked x hy
      rw [hpc] at hask
      cases hask

/-- From the moment that a key has been answered, the database is asked for it only by
calls that had missed it before, each once, however many calls are made later. -/
theorem answered_not_asked (d : Finmap (fun _ : String => Versioned)) (as bs : List Action) (st st' : State)
    (hr : system.run (start d) as = some st) (i : ℕ) (s : String) (val : Option Versioned)
    (hin : Event.returned i s val ∈ st.log) (hr' : system.run st bs = some st') :
    let asked := (system.emitted asks st bs).filter (fun x => decide (x.2 = s))
    asked.Nodup ∧ ∀ x ∈ asked, st.pc x.1 = .dbGet s := by
  intro asked
  have hcached : s ∈ st.cacheMap := ((genuine_run hr).answer i s val hin).1
  have h : Settled st s (system.emitted asks st bs) st' :=
    LabelledSystem.emitted_invariant (I := fun l (u : State) => Settled st s l u) (G := fun _ _ => True)
      (fun _ _ _ _ hl _ hs => settled_step hl hs) hr' (LabelledSystem.meets_true hr')
      ⟨hcached,(fun _ hj => hj),(fun x hx => by cases hx),List.nodup_nil⟩
  refine ⟨h.nodup.filter _,?_⟩
  intro x hx
  obtain ⟨hx,hs⟩ := List.mem_filter.mp hx
  exact (h.asked x hx).2 (of_decide_eq_true hs)

theorem answered_not_asked_orderedMisses :
    ∃ st st', system.run (start lampDb) (orderedMisses.take 9) = some st ∧
    system.run st (orderedMisses.drop 9) = some st' ∧
    ∀ x ∈ (system.emitted asks st (orderedMisses.drop 9)).filter (fun x => decide (x.2 = "lamp")),
      st.pc x.1 = .dbGet "lamp" := by
  have hrun : ∃ st, system.run (start lampDb) (orderedMisses.take 9) = some st ∧
      Event.returned 0 "lamp" (some ⟨"5",0⟩) ∈ st.log ∧ (system.run st (orderedMisses.drop 9)).isSome := by
    decide
  obtain ⟨st,hst,hin,hmore⟩ := hrun
  obtain ⟨st',hst'⟩ := Option.isSome_iff_exists.mp hmore
  exact ⟨st,st',hst,hst',(answered_not_asked lampDb _ _ st st' hst 0 "lamp" _ hin hst').2⟩

end ConcurrentCache
end AutoScaling
