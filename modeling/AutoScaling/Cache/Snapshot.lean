import AutoScaling.Cache.WriteThrough
import AutoScaling.Foundation.WriteOnce

/-! # What the cache serves

For each key, and whatever is written in between, the value that the database had when a
lookup of the key first found one. The store below says this of the database alone, with
no `cacheMap`; every sequence of calls is answered as that store answers it. The database
in turn is asked for a key as long as it has no value for it, and once more.
-/
namespace AutoScaling

def Reply.ofString : Option String → Reply
  | some val => .string val
  | none => .nullPointerException

def CacheCall.finds {D Price : Type} (DB : DatabaseOps D Price) (d : D) :
    CacheCall Price → List (String × Option String)
  | .get k => [(k,DB.get d k)]
  | .set _ _ _ => []
  | .transaction _ _ _ => []

def CacheCall.readKey {Price : Type} : CacheCall Price → Option String
  | .get k => some k
  | .set _ _ _ => none
  | .transaction _ _ _ => none

namespace Cache
variable {D Price : Type} (DB : DatabaseOps D Price)

def replies (c : Cache D) : List (CacheCall Price) → List Reply
  | [] => []
  | x :: calls => (c.call DB x).1 :: replies (c.call DB x).2 calls

/-- The answer of the store: of a lookup the first value of the key that has been seen,
this moment included; of a write what the database says. -/
def snapshotReply (d : D) (seen : List (String × Option String)) : CacheCall Price → Reply
  | .get k => Reply.ofString (WriteOnce.first k (seen ++ [(k,DB.get d k)]))
  | .set s s1 s2 => .bool (DB.set d s s1 s2).1
  | .transaction s v i => .bool (DB.transaction d s v i).1

def snapshotReplies (d : D) (seen : List (String × Option String)) : List (CacheCall Price) → List Reply
  | [] => []
  | x :: calls => snapshotReply DB d seen x ::
      snapshotReplies (dbAfter DB d [x]) (seen ++ x.finds DB d) calls

/-- The cache holds what the store would answer with. -/
structure Simulates (c : Cache D) (d : D) (seen : List (String × Option String)) : Prop where
  db : c.db = d
  cacheMap : ∀ k, c.cacheMap.lookup k = WriteOnce.first k seen

theorem simulates_new (d : D) : Simulates (new d) d [] := ⟨rfl,fun k => Finmap.lookup_empty k⟩

theorem get_eq (c : Cache D) (k : String) : c.get DB k =
    (Reply.ofString ((c.cacheMap.lookup k).or (DB.get c.db k)),
      { c with cacheMap := WriteOnce.offer c.cacheMap (k,DB.get c.db k) }) := by
  cases hk : c.cacheMap.lookup k with
  | some val => simp [get,hk,WriteOnce.offer,Reply.ofString]
  | none =>
    cases hval : DB.get c.db k with
    | none => simp [get,hk,hval,WriteOnce.offer,Reply.ofString]
    | some val => simp [get,hk,hval,WriteOnce.offer,Reply.ofString]

theorem call_cacheMap (c : Cache D) (x : CacheCall Price) :
    (c.call DB x).2.cacheMap = (x.finds DB c.db).foldl WriteOnce.offer c.cacheMap := by
  cases x with
  | get k => rw [call, get_eq]; rfl
  | set s s1 s2 => rfl
  | transaction s v i => rfl

theorem Simulates.call {c : Cache D} {d : D} {seen : List (String × Option String)}
    (h : Simulates c d seen) (x : CacheCall Price) : (c.call DB x).1 = snapshotReply DB d seen x ∧
      Simulates (c.call DB x).2 (dbAfter DB d [x]) (seen ++ x.finds DB d) := by
  obtain ⟨rfl,hmap⟩ := h
  refine ⟨?_,after_db DB c [x],?_⟩
  · cases x with
    | get k =>
      rw [Cache.call, get_eq, snapshotReply, WriteOnce.first_append, WriteOnce.first_singleton, if_pos rfl,
        hmap]
    | set s s1 s2 => rfl
    | transaction s v i => rfl
  · intro k
    rw [call_cacheMap, WriteOnce.lookup_offers, hmap, WriteOnce.first_append]

theorem Simulates.replies {c : Cache D} {d : D} {seen : List (String × Option String)}
    (h : Simulates c d seen) (calls : List (CacheCall Price)) :
    c.replies DB calls = snapshotReplies DB d seen calls := by
  induction calls generalizing c d seen with
  | nil => rfl
  | cons x calls ih =>
    obtain ⟨hreply,hnext⟩ := h.call DB x
    rw [Cache.replies, snapshotReplies, hreply, ih hnext]

/-- Every sequence of calls, on any database, present keys or not, is answered by the
cache as by the store of snapshots, and does to the database what the calls do to it
directly. -/
theorem answers_snapshots (d : D) (calls : List (CacheCall Price)) :
    (new d).replies DB calls = snapshotReplies DB d [] calls ∧
      ((new d).after DB calls).db = dbAfter DB d calls :=
  ⟨(simulates_new d).replies DB calls,after_db DB (new d) calls⟩

def asks (c : Cache D) : CacheCall Price → List String
  | .get s => if c.cacheMap.lookup s = none then [s] else []
  | .set _ _ _ => []
  | .transaction _ _ _ => []

def asked (c : Cache D) : List (CacheCall Price) → List String
  | [] => []
  | x :: calls => c.asks x ++ asked (c.call DB x).2 calls

/-- A lookup of `k`, with its answer, that throws. -/
def misses (k : String) (x : CacheCall Price × Reply) : Bool :=
  decide (x.1.readKey = some k) && decide (x.2 = .nullPointerException)

/-- A lookup of `k`, with its answer, that returns. -/
def serves (k : String) (x : CacheCall Price × Reply) : Bool :=
  decide (x.1.readKey = some k) && !decide (x.2 = .nullPointerException)

def history (c : Cache D) (calls : List (CacheCall Price)) : List (CacheCall Price × Reply) :=
  calls.zip (c.replies DB calls)

def entries (k : String) (c : Cache D) : ℕ := if c.cacheMap.lookup k = none then 0 else 1

theorem history_cons (c : Cache D) (x : CacheCall Price) (calls : List (CacheCall Price)) :
    c.history DB (x :: calls) = (x,(c.call DB x).1) :: (c.call DB x).2.history DB calls := rfl

/-- A call asks for a key that it then misses, or makes the entry for it. -/
theorem asks_balance (c : Cache D) (x : CacheCall Price) (k : String) :
    (c.asks x).count k + c.entries k =
      (if misses k (x,(c.call DB x).1) then 1 else 0) + (c.call DB x).2.entries k := by
  cases x with
  | set s s1 s2 => rfl
  | transaction s v i => rfl
  | get s =>
    rw [Cache.call, get_eq]
    simp only [asks,misses,CacheCall.readKey,entries,WriteOnce.lookup_offer,WriteOnce.first_singleton]
    by_cases hk : s = k
    · subst hk
      cases hs : c.cacheMap.lookup s with
      | some val => simp [Reply.ofString]
      | none => cases DB.get c.db s <;> simp [Reply.ofString]
    · by_cases hs : c.cacheMap.lookup s = none <;> simp [hs,hk]

theorem asked_balance (c : Cache D) (calls : List (CacheCall Price)) (k : String) :
    (c.asked DB calls).count k + c.entries k =
      (c.history DB calls).countP (misses k) + (c.after DB calls).entries k := by
  induction calls generalizing c with
  | nil => rfl
  | cons x calls ih =>
    have hfirst := asks_balance DB c x k
    have hrest := ih (c.call DB x).2
    rw [asked, history_cons, after_cons, List.count_append, List.countP_cons]
    omega

theorem call_lookup_isSome (c : Cache D) (x : CacheCall Price) (k : String) :
    ((c.call DB x).2.cacheMap.lookup k).isSome =
      ((c.cacheMap.lookup k).isSome || serves k (x,(c.call DB x).1)) := by
  cases x with
  | set s s1 s2 => simp [serves,CacheCall.readKey,Cache.call,set]
  | transaction s v i => simp [serves,CacheCall.readKey,Cache.call,transaction]
  | get s =>
    rw [Cache.call, get_eq]
    simp only [serves,CacheCall.readKey,WriteOnce.lookup_offer,WriteOnce.first_singleton]
    by_cases hk : s = k
    · subst hk
      cases hs : c.cacheMap.lookup s with
      | some val => rfl
      | none => cases DB.get c.db s <;> simp [Reply.ofString]
    · simp [hk]

theorem after_lookup_isSome (c : Cache D) (calls : List (CacheCall Price)) (k : String) :
    ((c.after DB calls).cacheMap.lookup k).isSome =
      ((c.cacheMap.lookup k).isSome || (c.history DB calls).any (serves k)) := by
  induction calls generalizing c with
  | nil => exact (Bool.or_false _).symm
  | cons x calls ih =>
    rw [after_cons, ih, call_lookup_isSome, history_cons, List.any_cons, Bool.or_assoc]

/-- The database is asked for a key at each lookup of it that throws, and once for all the
lookups of it that return, whatever else is called in between. -/
theorem asked_once (d : D) (calls : List (CacheCall Price)) (k : String) :
    ((new d).asked DB calls).count k = ((new d).history DB calls).countP (misses k) +
      if ((new d).history DB calls).any (serves k) then 1 else 0 := by
  have hbalance := asked_balance DB (new d) calls k
  have hentry := after_lookup_isSome DB (new d) calls k
  have hnew : (new d).cacheMap.lookup k = none := Finmap.lookup_empty k
  rw [hnew, Option.isSome_none, Bool.false_or] at hentry
  rw [entries, if_pos hnew] at hbalance
  rw [← hentry]
  unfold entries at hbalance
  cases hk : ((new d).after DB calls).cacheMap.lookup k <;> simpa [hk] using hbalance

end Cache
end AutoScaling
