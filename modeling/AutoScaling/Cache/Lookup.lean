import Mathlib.Data.Finmap
import Mathlib.Data.List.Basic

/-! # The cache between the mid tier and the database

`Cache` implements `Cloud.DatabaseOps` in front of another `Cloud.DatabaseOps`. The
database is code outside the repository and stays a parameter. Calls are executed one
after another here; a call that throws leaves the cache as it was.
-/
namespace AutoScaling

/-- `Cloud.DatabaseOps` over the database state `D`; `null` is `none`. -/
structure DatabaseOps (D Price : Type) where
  get : D → String → Option String
  set : D → String → String → String → Bool × D
  transaction : D → String → Price → ℤ → Bool × D

/-- What the interface promises of a call that returns `true`. -/
structure DatabaseOps.Lawful {D Price : Type} (DB : DatabaseOps D Price) : Prop where
  get_set : ∀ d key val auth, (DB.set d key val auth).1 = true →
    DB.get (DB.set d key val auth).2 key = some val
  get_transaction : ∀ d item price qty, (DB.transaction d item price qty).1 = true →
    DB.get (DB.transaction d item price qty).2 item ≠ DB.get d item

/-- The instance field `cacheMap`, and the database as it stands. -/
structure Cache (D : Type) where
  cacheMap : Finmap (fun _ : String => String)
  db : D

inductive Reply
  | string (val : String)
  | bool (val : Bool)
  | nullPointerException
  deriving DecidableEq

inductive CacheCall (Price : Type)
  | get (s : String)
  | set (s s1 s2 : String)
  | transaction (s : String) (v : Price) (i : ℤ)

namespace Cache
variable {D Price : Type} (DB : DatabaseOps D Price)

def new (d : D) : Cache D := ⟨∅,d⟩

/-- `cacheMap.put(s, val)` rejects a `null` value with an exception. -/
def get (c : Cache D) (s : String) : Reply × Cache D :=
  match c.cacheMap.lookup s with
  | some val => (.string val,c)
  | none =>
    match DB.get c.db s with
    | none => (.nullPointerException,c)
    | some val => (.string val,{ c with cacheMap := c.cacheMap.insert s val })

def set (c : Cache D) (s s1 s2 : String) : Reply × Cache D :=
  let r := DB.set c.db s s1 s2
  (.bool r.1,{ c with db := r.2 })

def transaction (c : Cache D) (s : String) (v : Price) (i : ℤ) : Reply × Cache D :=
  let r := DB.transaction c.db s v i
  (.bool r.1,{ c with db := r.2 })

def call (c : Cache D) : CacheCall Price → Reply × Cache D
  | .get s => c.get DB s
  | .set s s1 s2 => c.set DB s s1 s2
  | .transaction s v i => c.transaction DB s v i

def after (c : Cache D) (calls : List (CacheCall Price)) : Cache D :=
  calls.foldl (fun c call => (c.call DB call).2) c

def dbAfter (d : D) (calls : List (CacheCall Price)) : D :=
  calls.foldl (fun d call => match call with
    | .get _ => d
    | .set s s1 s2 => (DB.set d s s1 s2).2
    | .transaction s v i => (DB.transaction d s v i).2) d

theorem after_append (c : Cache D) (xs ys : List (CacheCall Price)) :
    c.after DB (xs ++ ys) = (c.after DB xs).after DB ys := List.foldl_append

theorem after_cons (c : Cache D) (x : CacheCall Price) (xs : List (CacheCall Price)) :
    c.after DB (x :: xs) = (c.call DB x).2.after DB xs := rfl

theorem get_of_cached {c : Cache D} {s val : String} (h : c.cacheMap.lookup s = some val) :
    c.get DB s = (.string val,c) := by
  rw [get, h]

theorem get_of_missing {c : Cache D} {s val : String} (h : c.cacheMap.lookup s = none)
    (hval : DB.get c.db s = some val) :
    c.get DB s = (.string val,{ c with cacheMap := c.cacheMap.insert s val }) := by
  rw [get, h]
  dsimp only
  rw [hval]

theorem after_db (c : Cache D) (calls : List (CacheCall Price)) :
    (c.after DB calls).db = dbAfter DB c.db calls := by
  induction calls generalizing c with
  | nil => rfl
  | cons x calls ih =>
    rw [after_cons, ih]
    cases x with
    | get s =>
      have hdb : (c.get DB s).2.db = c.db := by
        unfold get
        split
        · rfl
        · split <;> rfl
      simp only [call,hdb]
      rfl
    | set s s1 s2 => rfl
    | transaction s v i => rfl

theorem call_keeps_entry {c : Cache D} {k val : String} (h : c.cacheMap.lookup k = some val)
    (x : CacheCall Price) : (c.call DB x).2.cacheMap.lookup k = some val := by
  cases x with
  | get s =>
    simp only [call,get]
    split
    · exact h
    · rename_i hs
      split
      · exact h
      · have hk : k ≠ s := by
          rintro rfl
          rw [h] at hs
          cases hs
        dsimp only
        rw [Finmap.lookup_insert_of_ne _ hk]
        exact h
  | set s s1 s2 => exact h
  | transaction s v i => exact h

theorem after_keeps_entry {c : Cache D} {k val : String} (h : c.cacheMap.lookup k = some val)
    (calls : List (CacheCall Price)) : (c.after DB calls).cacheMap.lookup k = some val := by
  induction calls generalizing c with
  | nil => exact h
  | cons x calls ih => exact ih (call_keeps_entry DB h x)

theorem call_missing {c : Cache D} {k : String} (h : c.cacheMap.lookup k = none)
    {x : CacheCall Price} (hx : x ≠ .get k) : (c.call DB x).2.cacheMap.lookup k = none := by
  cases x with
  | get s =>
    have hk : k ≠ s := by
      rintro rfl
      exact hx rfl
    simp only [call,get]
    split
    · exact h
    · split
      · exact h
      · dsimp only
        rw [Finmap.lookup_insert_of_ne _ hk]
        exact h
  | set s s1 s2 => exact h
  | transaction s v i => exact h

theorem after_missing {c : Cache D} {k : String} (h : c.cacheMap.lookup k = none)
    {calls : List (CacheCall Price)} (hx : .get k ∉ calls) :
    (c.after DB calls).cacheMap.lookup k = none := by
  induction calls generalizing c with
  | nil => exact h
  | cons x calls ih =>
    rw [List.mem_cons, not_or] at hx
    exact ih (call_missing DB h (Ne.symm hx.1)) hx.2

end Cache
end AutoScaling
