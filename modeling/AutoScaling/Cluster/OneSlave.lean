import AutoScaling.Cluster.System

/-! # One slave against any master

What one slave can go through in the cluster, with every reply of the master, every
arrival and every exception left open. A step of the cluster is such a move of a slave, or
leaves it alone.
-/
namespace AutoScaling
variable {R : Type*}

/-- A call that has been sent gets some reply. -/
inductive Replied : SlavePc R → SlavePc R → Prop
  | getTier (tierId : TierId) : Replied (.getTier .sent) (.getTier (.replied tierId))
  | frontVMCount (cnt : ℤ) : Replied (.frontVMCount .sent) (.frontVMCount (.replied cnt))
  | frontLength (cnt len : ℤ) :
      Replied (.frontLength cnt .sent) (.frontLength cnt (.replied len))
  | frontAdd (r : Ticket R) : Replied (.frontAdd r .sent) (.frontAdd r (.replied ()))
  | midVMCount (now cnt : ℤ) : Replied (.midVMCount now .sent) (.midVMCount now (.replied cnt))
  | midLength (now cnt len : ℤ) :
      Replied (.midLength now cnt .sent) (.midLength now cnt (.replied len))
  | midPoll (now cnt len : ℤ) (o : Option (Ticket R)) :
      Replied (.midPoll now cnt len .sent) (.midPoll now cnt len (.replied o))
  | midScaleOut (cnt len : ℤ) (r : Ticket R) :
      Replied (.midScaleOut cnt len r .sent) (.midScaleOut cnt len r (.replied ()))
  | deleteVM (tier : Tier) : Replied (.deleteVM tier .sent) (.deleteVM tier (.replied ()))

inductive SlaveMoves (i : VmId) (s : Slave R) : Slave R → Prop
  | boot (hoff : s.pc = .off) : SlaveMoves i s (s.goto .booting)
  | run (now : ℤ) (s' : Slave R) (ev : List (Event R)) (hrun : s.run i now = some (s',ev)) :
      SlaveMoves i s s'
  | reply (pc : SlavePc R) (h : Replied s.pc pc) : SlaveMoves i s (s.goto pc)
  | arrive (r : R) : SlaveMoves i s { s with slQueue := s.slQueue ++ [r] }
  | throws (s' : Slave R) (hthrow : s.throws = some s') : SlaveMoves i s s'

namespace Cluster

theorem Answered.replied {st : State R} {i : VmId} {p q : SlavePc R} (h : Answered st i p q) :
    Replied p q := by
  cases h with
  | getTier => exact .getTier _
  | frontVMCount => exact .frontVMCount _
  | frontLength cnt => exact .frontLength cnt _
  | midVMCount now => exact .midVMCount now _
  | midLength now cnt => exact .midLength now cnt _
  | midPoll now cnt len _ => exact .midPoll now cnt len none

theorem execute_moves {st st' : State R} {i vmId : VmId} (hs : st.execute i vmId = some st') :
    ∃ pc, Replied (st.slaves i).pc pc ∧
      st'.slaves = Function.update st.slaves i ((st.slaves i).goto pc) := by
  cases executed_of_execute hs with
  | answer pc h => exact ⟨pc,h.replied,rfl⟩
  | addRequest r hpc => exact ⟨_,hpc ▸ .frontAdd r,rfl⟩
  | pollRequest now cnt len r rest hpc hqueue => exact ⟨_,hpc ▸ .midPoll now cnt len (some r),rfl⟩
  | scaleOut vmId cnt len r hpc hnew => exact ⟨_,hpc ▸ .midScaleOut cnt len r,rfl⟩
  | deleteVM tier hpc => exact ⟨_,hpc ▸ .deleteVM tier,rfl⟩

theorem slaveMoves_of_step {st st' : State R} {a : Action R} (hs : system.step st a = some st')
    (i : VmId) : st'.slaves i = st.slaves i ∨ SlaveMoves i (st.slaves i) (st'.slaves i) := by
  have hone : ∀ (j : VmId) (s : Slave R), st'.slaves = Function.update st.slaves j s →
      SlaveMoves j (st.slaves j) s →
      st'.slaves i = st.slaves i ∨ SlaveMoves i (st.slaves i) (st'.slaves i) := by
    intro j s hslaves hmove
    rw [hslaves]
    by_cases hj : i = j
    · subst hj
      rw [Function.update_self]
      exact .inr hmove
    · rw [Function.update_of_ne hj]
      exact .inl rfl
  simp only [system] at hs
  cases a with
  | main booting now vmId =>
    rw [slaves_of_mainStep hs]
    exact .inl rfl
  | boot j =>
    obtain ⟨⟨_,hoff⟩,rfl⟩ := boot_eq_some.mp hs
    exact hone j _ rfl (.boot hoff)
  | run j now =>
    obtain ⟨⟨s,ev⟩,hrun,rfl⟩ := Option.map_eq_some_iff.mp hs
    exact hone j s rfl (.run now s ev hrun)
  | execute j vmId =>
    obtain ⟨pc,hreply,hslaves⟩ := execute_moves hs
    exact hone j _ hslaves (.reply pc hreply)
  | arrive j r =>
    cases hs
    by_cases hj : j = 1
    · refine .inl ?_
      rw [State.arrive, if_pos hj]
    · refine hone j { st.slaves j with slQueue := (st.slaves j).slQueue ++ [r] } ?_ (.arrive r)
      rw [State.arrive, if_neg hj]
      rfl
  | throws j =>
    obtain ⟨s,hthrow,rfl⟩ := Option.map_eq_some_iff.mp hs
    exact hone j s rfl (.throws s hthrow)

end Cluster
end AutoScaling
