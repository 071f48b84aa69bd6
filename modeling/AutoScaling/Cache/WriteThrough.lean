import AutoScaling.Cache.Lookup
import Mathlib.Data.Rat.Init

/-! # When the cache is a write-through cache

`set` and `transaction` reach the database but never `cacheMap`. A sequence of calls
is answered as the database would answer it exactly when no write changes a key
between two reads of it; that condition is about the database alone.
-/
namespace AutoScaling
namespace Cache
variable {D Price : Type} (DB : DatabaseOps D Price)

/-- Every `get` of the sequence is on a key that then has a value in the database. -/
def PresentReads (d : D) (calls : List (CacheCall Price)) : Prop :=
  ∀ pre k post, calls = pre ++ .get k :: post → DB.get (dbAfter DB d pre) k ≠ none

/-- Every `get` answers what `DB.get` would return at that moment. -/
def WriteThrough (d : D) (calls : List (CacheCall Price)) : Prop :=
  ∀ pre k post, calls = pre ++ .get k :: post →
    ∀ val, DB.get ((new d).after DB pre).db k = some val →
      (((new d).after DB pre).get DB k).1 = .string val

/-- Two reads of a key always find the same string in the database. -/
def UnchangedBetweenReads (d : D) (calls : List (CacheCall Price)) : Prop :=
  ∀ pre k mid post, calls = pre ++ .get k :: (mid ++ .get k :: post) →
    DB.get (dbAfter DB d (pre ++ .get k :: mid)) k = DB.get (dbAfter DB d pre) k

theorem first_read {d : D} {pre : List (CacheCall Price)} {k val : String}
    (hfirst : .get k ∉ pre) (hval : DB.get (dbAfter DB d pre) k = some val) :
    ((new d).after DB pre).get DB k = (.string val,{ (new d).after DB pre with
      cacheMap := ((new d).after DB pre).cacheMap.insert k val }) := by
  have hmiss : ((new d).after DB pre).cacheMap.lookup k = none :=
    after_missing DB (Finmap.lookup_empty k) hfirst
  refine get_of_missing DB hmiss ?_
  rw [after_db]
  exact hval

theorem later_read {d : D} {pre : List (CacheCall Price)} {k val : String}
    (hfirst : .get k ∉ pre) (hval : DB.get (dbAfter DB d pre) k = some val)
    (mid : List (CacheCall Price)) :
    (((new d).after DB (pre ++ .get k :: mid)).get DB k).1 = .string val := by
  have hentry : (((new d).after DB pre).call DB (.get k)).2.cacheMap.lookup k = some val := by
    rw [call, first_read DB hfirst hval]
    exact Finmap.lookup_insert _
  have hkept := after_keeps_entry DB hentry mid
  rw [after_append, after_cons, get_of_cached DB hkept]

/-- The cache answers as the database exactly when the database holds the same
string for a key at every read of it. -/
theorem writeThrough_iff_unchangedBetweenReads (d : D) (calls : List (CacheCall Price))
    (hp : PresentReads DB d calls) :
    WriteThrough DB d calls ↔ UnchangedBetweenReads DB d calls := by
  constructor
  · intro hw pre k mid post hc
    have hc' : calls = (pre ++ .get k :: mid) ++ .get k :: post := by rw [hc]; simp
    obtain ⟨v,hv⟩ := Option.ne_none_iff_exists'.mp (hp pre k _ hc)
    obtain ⟨w,hw'⟩ := Option.ne_none_iff_exists'.mp (hp _ k post hc')
    have hread := hw pre k _ hc v (by rw [after_db]; exact hv)
    have hread' := hw _ k post hc' w (by rw [after_db]; exact hw')
    have hsame : v = w := by
      by_cases hk : CacheCall.get k ∈ pre
      · obtain ⟨first,rest,rfl,hfirst⟩ := List.eq_append_cons_of_mem hk
        obtain ⟨u,hu⟩ := Option.ne_none_iff_exists'.mp
          (hp first k (rest ++ .get k :: (mid ++ .get k :: post)) (by rw [hc]; simp))
        have hlater := later_read DB hfirst hu rest
        have hlater' := later_read DB hfirst hu (rest ++ .get k :: mid)
        rw [hread] at hlater
        rw [List.append_assoc, List.cons_append] at hread'
        rw [hread'] at hlater'
        exact Reply.string.inj (hlater.trans hlater'.symm)
      · have hlater := later_read DB hk hv mid
        rw [hread'] at hlater
        exact (Reply.string.inj hlater).symm
    rw [hv, hw', hsame]
  · intro hu pre k post hc val hval
    rw [after_db] at hval
    change DB.get (dbAfter DB d pre) k = some val at hval
    by_cases hk : CacheCall.get k ∈ pre
    · obtain ⟨first,mid,rfl,hfirst⟩ := List.eq_append_cons_of_mem hk
      have hcalls : calls = first ++ .get k :: (mid ++ .get k :: post) := by rw [hc]; simp
      have hold : DB.get (dbAfter DB d first) k = some val := (hu first k mid post hcalls).symm.trans hval
      exact later_read DB hfirst hold mid
    · rw [first_read DB hk hval]

/-- A table that accepts every write under its password and holds no `ITEM` row, so
that no purchase succeeds. -/
def tableDatabase (auth : String) : DatabaseOps (Finmap (fun _ : String => String)) ℚ where
  get d key := d.lookup key
  set d key val auth' := if auth' = auth then (true,d.insert key val) else (false,d)
  transaction d _ _ _ := (false,d)

theorem tableDatabase_lawful (auth : String) : (tableDatabase auth).Lawful := by
  constructor
  · intro d key val auth' h
    by_cases ha : auth' = auth
    · simp [tableDatabase,ha]
    · simp [tableDatabase,ha] at h
  · intro d item price qty h
    simp [tableDatabase] at h

def readWriteRead : List (CacheCall ℚ) :=
  [.get "lamp_qty",.set "lamp_qty" "4" "secret",.get "lamp_qty"]

/-- On a lawful database, with present keys and a write that returned `true`, the
cache keeps answering `5` where the database holds `4`. -/
theorem not_writeThrough_readWriteRead :
    let DB := tableDatabase "secret"
    let d := (∅ : Finmap (fun _ : String => String)).insert "lamp_qty" "5"
    DB.Lawful ∧ PresentReads DB d readWriteRead ∧ ¬ WriteThrough DB d readWriteRead := by
  refine ⟨tableDatabase_lawful _,?_,?_⟩
  · intro pre k post hc
    rcases pre with _ | ⟨x,_ | ⟨y,_ | ⟨z,_ | ⟨w,pre⟩⟩⟩⟩
    · cases hc
      decide
    · cases hc
    · cases hc
      decide
    · cases hc
    · cases hc
  · intro h
    have hread := h [.get "lamp_qty",.set "lamp_qty" "4" "secret"] "lamp_qty" [] rfl "4" (by decide)
    revert hread
    decide

/-- A write to another key between two reads leaves both answers right. -/
theorem writeThrough_readOtherRead :
    WriteThrough (tableDatabase "secret")
      ((∅ : Finmap (fun _ : String => String)).insert "lamp_qty" "5")
      [.get "lamp_qty",.set "desk_qty" "4" "secret",.get "lamp_qty"] := by
  refine (writeThrough_iff_unchangedBetweenReads (tableDatabase "secret") _ _ ?_).mpr ?_
  · intro pre k post hc
    rcases pre with _ | ⟨x,_ | ⟨y,_ | ⟨z,_ | ⟨w,pre⟩⟩⟩⟩
    · cases hc
      decide
    · cases hc
    · cases hc
      decide
    · cases hc
    · cases hc
  · intro pre k mid post hc
    rcases pre with _ | ⟨x,_ | ⟨y,_ | ⟨z,pre⟩⟩⟩
    · rcases mid with _ | ⟨u,_ | ⟨v,_ | ⟨w,mid⟩⟩⟩
      · cases hc
      · cases hc
        decide
      · cases hc
      · cases hc
    · cases hc
    · rcases mid with _ | ⟨u,mid⟩
      · cases hc
      · cases hc
    · rcases pre with _ | ⟨w,pre⟩
      · cases hc
      · cases hc

end Cache
end AutoScaling
