import Mathlib.Data.Finmap
import Mathlib.Data.List.Basic

/-! # A table that keeps the first value it is offered for each key

Offers come one after another, some of them without a value. The table needs no history:
what it holds for a key is the first value that has been offered for it.
-/
namespace WriteOnce
variable {κ β : Type*} [DecidableEq κ]

def offer (m : Finmap (fun _ : κ => β)) (x : κ × Option β) : Finmap (fun _ : κ => β) :=
  match m.lookup x.1, x.2 with
  | none, some v => m.insert x.1 v
  | _, _ => m

def first (k : κ) (l : List (κ × Option β)) : Option β := l.findSome? (fun x => if x.1 = k then x.2 else none)

theorem first_append (k : κ) (l l' : List (κ × Option β)) :
    first k (l ++ l') = (first k l).or (first k l') := List.findSome?_append

theorem first_singleton (k : κ) (x : κ × Option β) : first k [x] = if x.1 = k then x.2 else none := by
  rw [first, List.findSome?_singleton]

theorem lookup_offer (m : Finmap (fun _ : κ => β)) (x : κ × Option β) (k : κ) :
    (offer m x).lookup k = (m.lookup k).or (first k [x]) := by
  obtain ⟨s,v⟩ := x
  rw [first_singleton]
  cases hs : m.lookup s with
  | some w =>
    by_cases hk : s = k
    · subst hk
      simp [offer,hs]
    · simp [offer,hs,hk]
  | none =>
    cases v with
    | none => simp [offer,hs]
    | some v =>
      by_cases hk : s = k
      · subst hk
        simp [offer,hs]
      · simp [offer,hs,hk,Finmap.lookup_insert_of_ne m (Ne.symm hk)]

/-- After any offers a key is looked up as before, or else as it was first offered. -/
theorem lookup_offers (m : Finmap (fun _ : κ => β)) (l : List (κ × Option β)) (k : κ) :
    (l.foldl offer m).lookup k = (m.lookup k).or (first k l) := by
  induction l generalizing m with
  | nil => exact (Option.or_none).symm
  | cons x l ih =>
    rw [List.foldl_cons, ih, lookup_offer, Option.or_assoc, ← first_append, List.singleton_append]

end WriteOnce
