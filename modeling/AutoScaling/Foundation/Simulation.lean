import AutoScaling.Foundation.Emission

/-! # One system inside another

A relation between the states of two systems. What one step can be matched by, a run can
be matched by: some run of the other system, or the one that the steps themselves name.
-/
namespace LabelledSystem
variable {σ τ α β : Type*} {S : LabelledSystem σ α} {T : LabelledSystem τ β} {R : σ → τ → Prop}

/-- A step from related states is matched by a run, which may be empty. -/
theorem run_simulated
    (hstep : ∀ s t a s', R s t → S.step s a = some s' → ∃ bs t', T.run t bs = some t' ∧ R s' t')
    {s s' : σ} {as : List α} (hr : S.run s as = some s') {t : τ} (h : R s t) :
    ∃ bs t', T.run t bs = some t' ∧ R s' t' := by
  induction as generalizing s t with
  | nil =>
    cases hr
    exact ⟨[],t,rfl,h⟩
  | cons a as ih =>
    obtain ⟨u,hu,hr⟩ := S.run_cons_eq_some.mp hr
    obtain ⟨bs,v,hv,hrel⟩ := hstep s t a u h hu
    obtain ⟨cs,t',ht,hrel'⟩ := ih hr hrel
    exact ⟨bs ++ cs,t',run_append_eq_some.mpr ⟨v,hv,ht⟩,hrel'⟩

/-- The matching run is what the steps emit. The relation may speak of the actions so far. -/
theorem run_emitted {f : σ → α → List β} {s₀ : σ} {t₀ : τ} {Q : List α → σ → τ → Prop}
    (hstep : ∀ as s t a s', S.run s₀ as = some s → Q as s t → S.step s a = some s' →
      ∃ t', T.run t (f s a) = some t' ∧ Q (as ++ [a]) s' t')
    {s : σ} {as : List α} (hr : S.run s₀ as = some s) (h : Q [] s₀ t₀) :
    ∃ t, T.run t₀ (S.emitted f s₀ as) = some t ∧ Q as s t := by
  refine run_invariant_of_past (I := fun as u => ∃ t, T.run t₀ (S.emitted f s₀ as) = some t ∧ Q as u t)
    ?_ hr ⟨t₀,rfl,h⟩
  rintro as u a v hu ⟨t,ht,hrel⟩ hs
  obtain ⟨t',ht',hrel'⟩ := hstep as u t a v hu hrel hs
  refine ⟨t',?_,hrel'⟩
  rw [emitted_concat hu hs]
  exact run_append_eq_some.mpr ⟨t,ht,ht'⟩

end LabelledSystem
