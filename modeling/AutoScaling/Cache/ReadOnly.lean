import AutoScaling.Cache.WriteThrough
import AutoScaling.Foundation.ValueCount

/-! # Lookups with no write in between

With nothing but lookups the cache only ever holds what the database holds. It answers
each lookup as the database does, but for a key without a value: `null` cannot be put
into `cacheMap`, and the lookup throws where `DB.get` returns `null`.
-/
namespace AutoScaling

/-- What a lookup returns normally, `null` being `some none`. -/
def Reply.returned : Reply → Option (Option String)
  | .string val => some (some val)
  | .bool _ => none
  | .nullPointerException => none

namespace Cache
variable {D Price : Type} (DB : DatabaseOps D Price)

def afterGets (c : Cache D) (keys : List String) : Cache D := c.after DB (keys.map .get)

def EntriesCurrent (c : Cache D) : Prop :=
  ∀ k val, c.cacheMap.lookup k = some val → DB.get c.db k = some val

/-- Every lookup of the sequence returns what `DB.get` returns. -/
def AnswersAsDatabase (d : D) (keys : List String) : Prop :=
  ∀ pre k post, keys = pre ++ k :: post →
    (((new d).afterGets DB pre).get DB k).1.returned = some (DB.get d k)

theorem entriesCurrent_new (d : D) : (new d).EntriesCurrent DB := by
  intro k val h
  simp [new] at h

theorem EntriesCurrent.get {c : Cache D} (h : c.EntriesCurrent DB) (s : String) :
    (c.get DB s).2.db = c.db ∧ (c.get DB s).2.EntriesCurrent DB := by
  cases hs : c.cacheMap.lookup s with
  | some val =>
    rw [get_of_cached DB hs]
    exact ⟨rfl,h⟩
  | none =>
    cases hval : DB.get c.db s with
    | none =>
      rw [Cache.get, hs]
      dsimp only
      rw [hval]
      exact ⟨rfl,h⟩
    | some val =>
      rw [get_of_missing DB hs hval]
      refine ⟨rfl,?_⟩
      intro k w hk
      rcases ValueCount.lookup_insert_eq_some.mp hk with ⟨rfl,rfl⟩ | ⟨_,hk⟩
      · exact hval
      · exact h k w hk

theorem entriesCurrent_afterGets {c : Cache D} (h : c.EntriesCurrent DB) (keys : List String) :
    (c.afterGets DB keys).db = c.db ∧ (c.afterGets DB keys).EntriesCurrent DB := by
  induction keys generalizing c with
  | nil => exact ⟨rfl,h⟩
  | cons k keys ih =>
    obtain ⟨hdb,hentries⟩ := h.get DB k
    obtain ⟨hdb',hentries'⟩ := ih hentries
    exact ⟨hdb'.trans hdb,hentries'⟩

theorem EntriesCurrent.returned_iff {c : Cache D} (h : c.EntriesCurrent DB) (s : String) :
    (c.get DB s).1.returned = some (DB.get c.db s) ↔ DB.get c.db s ≠ none := by
  cases hval : DB.get c.db s with
  | none =>
    have hmiss : c.cacheMap.lookup s = none := by
      by_contra hne
      obtain ⟨val,hs⟩ := Option.ne_none_iff_exists'.mp hne
      rw [h s val hs] at hval
      cases hval
    rw [Cache.get, hmiss]
    dsimp only
    rw [hval]
    exact iff_of_false (fun he => by cases he) (fun hne => hne rfl)
  | some val =>
    have hanswer : (c.get DB s).1 = .string val := by
      cases hs : c.cacheMap.lookup s with
      | some w =>
        rw [get_of_cached DB hs]
        rw [h s w hs] at hval
        rw [Option.some.inj hval]
      | none => rw [get_of_missing DB hs hval]
    rw [hanswer]
    exact iff_of_true rfl (Option.some_ne_none val)

/-- On a read-only workload the cache is transparent just when every key that is looked
up has a value. Its entries are the database's in any case. -/
theorem transparent_iff_present (d : D) (keys : List String) :
    (AnswersAsDatabase DB d keys ↔ ∀ k ∈ keys, DB.get d k ≠ none) ∧
    ∀ pre post, keys = pre ++ post → ∀ k val,
      ((new d).afterGets DB pre).cacheMap.lookup k = some val → DB.get d k = some val := by
  have hcurrent : ∀ pre, ((new d).afterGets DB pre).db = d ∧
      ((new d).afterGets DB pre).EntriesCurrent DB :=
    fun pre => entriesCurrent_afterGets DB (entriesCurrent_new DB d) pre
  have hanswer : ∀ pre k, (((new d).afterGets DB pre).get DB k).1.returned = some (DB.get d k) ↔
      DB.get d k ≠ none := by
    intro pre k
    obtain ⟨hdb,hentries⟩ := hcurrent pre
    have hiff := hentries.returned_iff DB k
    rw [hdb] at hiff
    exact hiff
  refine ⟨⟨?_,?_⟩,?_⟩
  · intro h k hk
    obtain ⟨pre,post,hkeys⟩ := List.append_of_mem hk
    exact (hanswer pre k).mp (h pre k post hkeys)
  · intro h pre k post hkeys
    exact (hanswer pre k).mpr (h k (by simp [hkeys]))
  · intro pre _ _ k val hk
    obtain ⟨hdb,hentries⟩ := hcurrent pre
    rw [← hdb]
    exact hentries k val hk

/-- A lookup of an absent key throws where the database returns `null`. -/
theorem not_answersAsDatabase_absent :
    (tableDatabase "secret").get ∅ "lamp_qty" = none ∧
      ((new ∅).get (tableDatabase "secret") "lamp_qty").1 = .nullPointerException ∧
      ¬ AnswersAsDatabase (tableDatabase "secret") ∅ ["lamp_qty"] := by
  refine ⟨by decide,by decide,?_⟩
  intro h
  have hread := h [] "lamp_qty" [] rfl
  revert hread
  decide

end Cache
end AutoScaling
