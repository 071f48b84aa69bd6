import AutoScaling.Foundation.LabelledSystem
import Mathlib.Data.Finmap
import Mathlib.Data.List.Basic

/-! # Concurrent `Cache.get` calls

Every call is a thread whose atomic steps are the single `ConcurrentHashMap`
operations and the `DB.get` call; `set` and `transaction` are one database step each.
Database strings carry the ghost number of the value of their key, so that "older"
can be said. The log is ghost too and has the newest event first.
-/
namespace AutoScaling
namespace ConcurrentCache

structure Versioned where
  val : String
  ver : ℕ
  deriving DecidableEq

/-- The program points of `Cache.get(s)`; `null` is `none`. -/
inductive Pc
  | idle
  | containsKey (s : String)
  | dbGet (s : String)
  | put (s : String) (val : Option Versioned)
  | mapGet (s : String)
  | ret (s : String) (val : Option Versioned)
  | returned
  | nullPointerException
  deriving DecidableEq

inductive Event
  | started (call : ℕ) (s : String)
  | returned (call : ℕ) (s : String) (val : Option Versioned)
  deriving DecidableEq

structure State where
  cacheMap : Finmap (fun _ : String => Versioned)
  db : Finmap (fun _ : String => Versioned)
  pc : ℕ → Pc
  log : List Event

inductive Action
  | get (call : ℕ) (s : String)
  | step (call : ℕ)
  /-- The database step of a `set` or `transaction` call that changes the string of `s`. -/
  | write (s s1 : String)

def start (d : Finmap (fun _ : String => Versioned)) : State := ⟨∅,d,fun _ => .idle,[]⟩

def State.setPc (st : State) (call : ℕ) (p : Pc) : State :=
  { st with pc := Function.update st.pc call p }

def nextVersion (d : Finmap (fun _ : String => Versioned)) (s : String) : ℕ :=
  match d.lookup s with
  | none => 0
  | some old => old.ver + 1

/-- One atomic step of a running `get`. -/
def State.advance (st : State) (call : ℕ) : Option State :=
  match st.pc call with
  | .containsKey s => some (st.setPc call (if s ∈ st.cacheMap then .mapGet s else .dbGet s))
  | .dbGet s => some (st.setPc call (.put s (st.db.lookup s)))
  | .put _ none => some (st.setPc call .nullPointerException)
  | .put s (some val) =>
    some ({ st with cacheMap := st.cacheMap.insert s val }.setPc call (.ret s (some val)))
  | .mapGet s => some (st.setPc call (.ret s (st.cacheMap.lookup s)))
  | .ret s val => some ({ st with log := .returned call s val :: st.log }.setPc call .returned)
  | .idle => none
  | .returned => none
  | .nullPointerException => none

def step (st : State) : Action → Option State
  | .get call s =>
    if st.pc call = .idle then
      some ({ st with log := .started call s :: st.log }.setPc call (.containsKey s))
    else none
  | .step call => st.advance call
  | .write s s1 => some { st with db := st.db.insert s ⟨s1,nextVersion st.db s⟩ }

def system : LabelledSystem State Action := ⟨step⟩

/-- Once a call has returned a version of `s`, a call on `s` that starts later does
not return an older one. -/
def NeverBack (log : List Event) : Prop :=
  ∀ i j s v w,
    [Event.returned j s (some w),.started j s,.returned i s (some v)].Sublist log → v.ver ≤ w.ver

def Pc.NotOlder (cacheMap : Finmap (fun _ : String => Versioned)) : Pc → Prop
  | .put s (some val) => ∀ cached ∈ cacheMap.lookup s, cached.ver ≤ val.ver
  | _ => True

def PutsNotOlder (st : State) : Action → Prop
  | .step call => (st.pc call).NotOlder st.cacheMap
  | _ => True

instance Pc.decidableNotOlder (m : Finmap (fun _ : String => Versioned)) :
    (p : Pc) → Decidable (p.NotOlder m)
  | .put s (some val) => inferInstanceAs (Decidable (∀ cached ∈ m.lookup s, cached.ver ≤ val.ver))
  | .put _ none => .isTrue trivial
  | .idle => .isTrue trivial
  | .containsKey _ => .isTrue trivial
  | .dbGet _ => .isTrue trivial
  | .mapGet _ => .isTrue trivial
  | .ret _ _ => .isTrue trivial
  | .returned => .isTrue trivial
  | .nullPointerException => .isTrue trivial

instance decidablePutsNotOlder (st : State) : (a : Action) → Decidable (PutsNotOlder st a)
  | .step call => inferInstanceAs (Decidable ((st.pc call).NotOlder st.cacheMap))
  | .get _ _ => .isTrue trivial
  | .write _ _ => .isTrue trivial

end ConcurrentCache
end AutoScaling
