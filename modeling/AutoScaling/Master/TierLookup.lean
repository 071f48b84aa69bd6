import AutoScaling.Master.BootOrder

/-! # The unlocked lookup in `getTier`

Between `containsKey` and `get` any other handler may run. No slave removes an id but its
own, and that only after its one `getTier` has been answered, so what a lookup has found
stays until it has read it. An id that has been removed has no scale-out left to put it
back.
-/
namespace AutoScaling
namespace Handlers

/-- The id has been started, is not in the map and is not about to be put there. -/
structure Gone (id : VmId) (st : State) : Prop where
  started : id = 1 ∨ id ∈ st.vms
  out : id ∉ st.reg.id2TierMap
  notAdding : ∀ i, (st.pc i).adding ≠ some id

theorem Effect.adding {st st' : State} {i j : ℕ} (he : Effect st i st') {id : VmId}
    (hj : (st'.pc j).adding = some id) :
    (st.pc j).adding = some id ∨ id ∉ st.vms ∧ id ≠ 1 := by
  have hmove : ∀ {p : Pc}, (p.adding = some id → (st.pc i).adding = some id ∨ id ∉ st.vms ∧ id ≠ 1) →
      (Function.update st.pc i p j).adding = some id →
      (st.pc j).adding = some id ∨ id ∉ st.vms ∧ id ≠ 1 := by
    intro p hp hj
    by_cases hji : j = i
    · subst hji
      rw [Function.update_self] at hj
      exact hp hj
    · rw [Function.update_of_ne hji] at hj
      exact .inl hj
  cases he with
  | quiet reg cm mm p hmap hadd hserves hreads hp hrun hlook =>
    refine hmove ?_ hj
    rw [Pc.adding_eq, Pc.adding_eq, hadd]
    exact .inl
  | startVM vmId tierId hpc hnew hone =>
    refine hmove ?_ hj
    rintro ⟨⟩
    exact .inr ⟨hnew,hone⟩
  | put vmId tierId hpc => exact hmove (fun h => by cases h) hj
  | remove vmId tierId p hpc hp =>
    refine hmove ?_ hj
    rcases hp with rfl | ⟨c,rfl⟩
    · exact fun h => by cases h
    · exact fun h => by cases h
  | found id' hpc hin => exact hmove (fun h => by cases h) hj
  | missing id' hpc hout => exact hmove (fun h => by cases h) hj
  | answer id' tierId hpc hget => exact hmove (fun h => by cases h) hj

theorem Effect.mem {st st' : State} {i : ℕ} (he : Effect st i st') {id : VmId}
    (hid : id ∈ st'.reg.id2TierMap) : id ∈ st.reg.id2TierMap ∨ ∃ j, (st.pc j).adding = some id := by
  cases he with
  | quiet reg cm mm p hmap hadd hserves hreads hp hrun hlook =>
    dsimp only at hid
    rw [hmap] at hid
    exact .inl hid
  | startVM vmId tierId hpc hnew hone => exact .inl hid
  | put vmId tierId hpc =>
    rcases Finmap.mem_insert.mp hid with rfl | hid
    · exact .inr ⟨i,by simp [hpc,Pc.adding]⟩
    · exact .inl hid
  | remove vmId tierId p hpc hp => exact .inl (Finmap.mem_erase.mp hid).2
  | found id' hpc hin => exact .inl hid
  | missing id' hpc hout => exact .inl hid
  | answer id' tierId hpc hget => exact .inl hid

theorem Effect.started {st st' : State} {i : ℕ} (he : Effect st i st') {id : VmId}
    (hid : id ∈ st.vms) : id ∈ st'.vms := by
  cases he with
  | startVM vmId tierId hpc hnew hone => exact Finmap.mem_insert.mpr (.inr hid)
  | _ => exact hid

theorem gone_step {st st' : State} {a : Action} {id : VmId} (h : Orderly st) (hg : Gone id st)
    (hs : system.step st a = some st') : Gone id st' := by
  cases a with
  | call c =>
    cases hs
    refine ⟨hg.started,hg.out,?_⟩
    intro i
    by_cases hi : i = st.next
    · subst hi
      simp only [State.issue,Function.update_self]
      cases c <;> exact fun he => by cases he
    · simp only [State.issue,Function.update_of_ne hi]
      exact hg.notAdding i
  | step i vmId =>
    have he := effect_of_advance h.1 h.2 hs
    refine ⟨hg.started.imp_right he.started,?_,?_⟩
    · intro hin
      rcases he.mem hin with hold | ⟨j,hj⟩
      · exact hg.out hold
      · exact hg.notAdding j hj
    · intro j hj
      rcases he.adding hj with hold | ⟨hnew,hone⟩
      · exact hg.notAdding j hold
      · exact hg.started.elim hone hnew

theorem gone_of_removed {st st' : State} {a : Action} {id : VmId} (h : Orderly st)
    (hs : system.step st a = some st') (hin : id ∈ st.reg.id2TierMap)
    (hout : id ∉ st'.reg.id2TierMap) : Gone id st' := by
  have hidle : ∀ j, (st.pc j).adding ≠ some id := fun j hj => (h.1.adding j id hj).2 hin
  cases a with
  | call c =>
    cases hs
    exact absurd hin hout
  | step i vmId =>
    have he := effect_of_advance h.1 h.2 hs
    have hstarted := h.1.known id hin
    refine ⟨hstarted.imp_right he.started,hout,?_⟩
    intro j hj
    rcases he.adding hj with hold | ⟨hnew,hone⟩
    · exact hidle j hold
    · exact hstarted.elim hone hnew

/-- In every run that keeps to the protocol no lookup unboxes `null`, and an id that a step
has removed is in the map in no later state. -/
theorem tierLookup_safe {as : List Action} {st : State} (hr : system.run start as = some st)
    (hp : system.Meets Protocol start as) :
    (∀ i, st.pc i ≠ .nullPointerException) ∧
    ∀ pre a post s t id, as = pre ++ a :: post → system.run start pre = some s →
      system.step s a = some t → id ∈ s.reg.id2TierMap → id ∉ t.reg.id2TierMap →
      id ∉ st.reg.id2TierMap := by
  constructor
  · intro i hnull
    have hreads := (orderly_of_run hr hp).2.reads i
    rw [hnull] at hreads
    exact hreads
  · rintro pre a post s t id rfl hs ht hin hout
    rw [LabelledSystem.meets_append hs] at hp
    rw [LabelledSystem.meets_cons ht] at hp
    have horderly := orderly_of_run hs hp.1
    have horderly' := orderly_step horderly hp.2.1 ht
    have hrest : system.run t post = some st := by
      rw [system.run_append, hs, Option.bind_some, system.run_cons, ht, Option.bind_some] at hr
      exact hr
    have hgone : Orderly st ∧ Gone id st := LabelledSystem.run_invariant_of_meets
      (I := fun u : State => Orderly u ∧ Gone id u)
      (fun _ _ _ hu ha hs => ⟨orderly_step hu.1 ha hs,gone_step hu.1 hu.2 hs⟩) hrest hp.2.2
      ⟨horderly',gone_of_removed horderly ht hin hout⟩
    exact hgone.2.out

theorem tierLookup_safe_bootAfterPut :
    ∃ st, system.run start bootAfterPut = some st ∧ ∀ i, st.pc i ≠ .nullPointerException := by
  have hrun : (system.run start bootAfterPut).isSome := by decide
  obtain ⟨st,hst⟩ := Option.isSome_iff_exists.mp hrun
  exact ⟨st,hst,(tierLookup_safe hst (by decide)).1⟩

end Handlers
end AutoScaling
