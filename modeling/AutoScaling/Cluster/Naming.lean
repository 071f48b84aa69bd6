import AutoScaling.Foundation.WriteOnce
import AutoScaling.Master.Registry

/-! # The names of the processes

The processes find each other in the RMI registry of the cloud, under names that are
bound once and never rebound or unbound. `fails` is a `RemoteException` or a
`MalformedURLException` out of a call of `Naming`, `newFails` one out of a constructor
that exports its object.
-/
namespace AutoScaling

/-- The last part of a URL; the parts before it are the same for all processes. -/
inductive Name
  | cloud
  | master
  | cache
  | server (id : VmId)
  deriving DecidableEq

inductive Remote
  | cloudOps
  | server (id : VmId)
  | cache
  deriving DecidableEq

inductive Exn
  | alreadyBound
  | notBound
  | remote
  | classCast
  | nullPointer
  deriving DecidableEq

def Remote.isServer : Remote → Bool
  | .server _ => true
  | _ => false

def Remote.isDatabase : Remote → Bool
  | .cache => true
  | _ => false

abbrev Names := Finmap (fun _ : Name => Remote)

namespace Names
open WriteOnce

def ofCloud : Names := (∅ : Names).insert .cloud .cloudOps

def bind (names : Names) (name : Name) (obj : Remote) (fails : Bool) : Names × Option Exn :=
  if fails then (names,some .remote)
  else if name ∈ names then (names,some .alreadyBound)
  else (names.insert name obj,none)

def find (names : Names) (name : Name) (fails : Bool) : Except Exn Remote :=
  if fails then .error .remote
  else match names.lookup name with
    | none => .error .notBound
    | some obj => .ok obj

/-- `null` for the exceptions it catches; a failed cast is not among them. -/
def getInstance (names : Names) (name : Name) (fails : Bool) : Except Exn (Option Remote) :=
  match names.find name fails with
  | .error _ => .ok none
  | .ok obj => if obj.isServer then .ok (some obj) else .error .classCast

/-- `null` where the name is unbound only. -/
def getCache (names : Names) (fails : Bool) : Except Exn (Option Remote) :=
  match names.find .cache fails with
  | .error .notBound => .ok none
  | .error e => .error e
  | .ok obj => if obj.isDatabase then .ok (some obj) else .error .classCast

/-- `none` is `System.exit(-1)`. -/
def registerMaster (names : Names) (newFails fails : Bool) : Option Names :=
  if newFails then none
  else match names.bind .master (.server 1) fails with
    | (_,some .remote) => none
    | (names,_) => some names

/-- Only the constructor of `Server` can throw out of it. -/
def registerServer (names : Names) (id : VmId) (newFails fails : Bool) : Except Exn Names :=
  if newFails then .error .remote else .ok (names.bind (.server id) (.server id) fails).1

/-- `thrown` is the exception out of the constructor of `Cache`; without a cloud it is a
`NullPointerException`, which is not caught. -/
def startCache (names : Names) (thrown : Option Exn) (fails : Bool) : Except Exn Names :=
  match thrown with
  | none => .ok (names.bind .cache .cache fails).1
  | some .remote => .ok names
  | some e => .error e

theorem bind_fst (names : Names) (name : Name) (obj : Remote) (fails : Bool) :
    (names.bind name obj fails).1 = offer names (name,if fails then none else some obj) := by
  unfold bind offer
  cases fails with
  | true => cases names.lookup name <;> rfl
  | false =>
    cases hname : names.lookup name with
    | none =>
      have hfree : name ∉ names := Finmap.lookup_eq_none.mp hname
      simp [hfree]
    | some o =>
      have hbound : name ∈ names := Finmap.mem_of_lookup_eq_some hname
      simp [hbound]

theorem lookup_bind (names : Names) (name : Name) (obj : Remote) (fails : Bool) (n : Name) :
    (names.bind name obj fails).1.lookup n =
      (names.lookup n).or (if name = n then if fails then none else some obj else none) := by
  rw [bind_fst, lookup_offer, first_singleton]

theorem lookup_bind_of_ne {names : Names} {name n : Name} {obj : Remote} {fails : Bool} (hn : name ≠ n) :
    (names.bind name obj fails).1.lookup n = names.lookup n := by
  rw [lookup_bind, if_neg hn, Option.or_none]

theorem lookup_bind_of_some {names : Names} {name n : Name} {obj o : Remote} {fails : Bool}
    (h : names.lookup n = some o) : (names.bind name obj fails).1.lookup n = some o := by
  rw [lookup_bind, h, Option.some_or]

theorem bind_alreadyBound {names : Names} {name : Name} {obj : Remote} {fails : Bool} :
    (names.bind name obj fails).2 = some .alreadyBound ↔ fails = false ∧ name ∈ names := by
  unfold bind
  cases fails with
  | true => simp
  | false => by_cases hname : name ∈ names <;> simp [hname]

/-- Where the master is bound, a lookup of it that gets through returns it. -/
theorem getInstance_of_bound {names : Names} {name : Name} {id : VmId}
    (h : names.lookup name = some (.server id)) (fails : Bool) :
    names.getInstance name fails = .ok (if fails then none else some (.server id)) := by
  cases fails with
  | true => rfl
  | false => simp [getInstance,find,h,Remote.isServer]

/-- Bound or not, a lookup of the cache that gets through returns what is there. -/
theorem getCache_of_bound {names : Names} (h : ∀ o, names.lookup .cache = some o → o = .cache)
    (fails : Bool) :
    names.getCache fails = if fails then .error .remote else .ok (names.lookup .cache) := by
  cases fails with
  | true => rfl
  | false =>
    cases hcache : names.lookup .cache with
    | none => simp [getCache,find,hcache]
    | some o =>
      obtain rfl := h o hcache
      simp [getCache,find,hcache,Remote.isDatabase]

theorem registerMaster_eq_some {names names' : Names} {newFails fails : Bool}
    (h : names.registerMaster newFails fails = some names') :
    names' = (names.bind .master (.server 1) false).1 := by
  unfold registerMaster at h
  cases newFails with
  | true => cases h
  | false =>
    cases fails with
    | true => cases h
    | false =>
      by_cases hmaster : .master ∈ names <;> simp [bind,hmaster] at h ⊢ <;> exact h.symm

theorem startCache_eq_ok {names names' : Names} {thrown : Option Exn} {fails : Bool}
    (h : names.startCache thrown fails = .ok names') : ∃ f, names' = (names.bind .cache .cache f).1 := by
  unfold startCache at h
  split at h <;> cases h
  · exact ⟨fails,rfl⟩
  · exact ⟨true,rfl⟩

theorem registerServer_eq_ok {names names' : Names} {id : VmId} {newFails fails : Bool}
    (h : names.registerServer id newFails fails = .ok names') :
    names' = (names.bind (.server id) (.server id) fails).1 := by
  unfold registerServer at h
  cases newFails <;> cases h
  rfl

end Names
end AutoScaling
