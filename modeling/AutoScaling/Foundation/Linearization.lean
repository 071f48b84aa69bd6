import AutoScaling.Foundation.Simulation

/-! # Linearization points

An object executes operations one at a time and answers each. A system of concurrent calls
is compared with it by the steps in which the calls take their effect: what these steps
emit, in their order, is an execution of the object.
-/
namespace Linearization
variable {σ α ρ ω β ι : Type*}

/-- An operation that has taken its effect, the call that made it, and its answer. -/
structure Occurrence (ι ω β : Type*) where
  caller : ι
  op : ω
  answer : β

/-- The object as a system. An occurrence is a step of it only with the object's own answer. -/
def sequential [DecidableEq β] (apply : ρ → ω → ρ × β) : LabelledSystem ρ (Occurrence ι ω β) :=
  ⟨fun r e => if (apply r e.op).2 = e.answer then some (apply r e.op).1 else none⟩

theorem run_occurrence [DecidableEq β] {apply : ρ → ω → ρ × β} {r : ρ} {e : Occurrence ι ω β}
    (h : (apply r e.op).2 = e.answer) : (sequential apply).run r [e] = some (apply r e.op).1 :=
  LabelledSystem.run_singleton (if_pos h)

variable [DecidableEq ι]

variable {S : LabelledSystem σ α} {I : σ → Prop} {point : σ → α → List (Occurrence ι ω β)}
  {answered : σ → ι → Option β}

end Linearization
