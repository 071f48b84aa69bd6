import Mathlib.Data.Finmap
import Mathlib.Data.Finset.Card
import Mathlib.Algebra.Order.Group.Int
import Mathlib.Tactic.Linarith

/-! # Finite maps: one insertion or erasure, and how many keys hold a given value

First what is looked up after one change of Mathlib's `Finmap`. The count is taken over the
key set, and two laws are what a counter kept beside the map has to follow: inserting a new
key adds one to the count of its value, erasing a key takes one from the count of the value
it held.
-/
namespace ValueCount
variable {α β : Type*} [DecidableEq α]

theorem lookup_insert_eq_some {m : Finmap (fun _ : α => β)} {a x : α} {b c : β} :
    (m.insert a b).lookup x = some c ↔ x = a ∧ c = b ∨ x ≠ a ∧ m.lookup x = some c := by
  by_cases hx : x = a
  · subst hx
    simp [eq_comm]
  · simp [Finmap.lookup_insert_of_ne m hx,hx]

theorem lookup_erase_eq_some {m : Finmap (fun _ : α => β)} {a x : α} {c : β} :
    (m.erase a).lookup x = some c ↔ x ≠ a ∧ m.lookup x = some c := by
  by_cases hx : x = a
  · subst hx
    simp
  · simp [Finmap.lookup_erase_ne hx,hx]

theorem lookup_insert_of_notMem {m : Finmap (fun _ : α => β)} {a x : α} (ha : a ∉ m) (b : β) {c : β}
    (hx : m.lookup x = some c) : (m.insert a b).lookup x = some c := by
  apply lookup_insert_eq_some.mpr
  refine .inr ⟨?_,hx⟩
  rintro rfl
  exact ha (Finmap.mem_of_lookup_eq_some hx)

theorem erase_of_notMem {m : Finmap (fun _ : α => β)} {a : α} (ha : a ∉ m) : m.erase a = m := by
  refine Finmap.ext_lookup (fun x => ?_)
  by_cases hx : x = a
  · rw [hx, Finmap.lookup_erase, Finmap.lookup_eq_none.mpr ha]
  · rw [Finmap.lookup_erase_ne hx]

theorem erase_insert_of_ne {m : Finmap (fun _ : α => β)} {a a' : α} (h : a' ≠ a) (b : β) :
    (m.insert a b).erase a' = (m.erase a').insert a b := by
  refine Finmap.ext_lookup (fun x => Option.ext (fun c => ?_))
  rw [lookup_erase_eq_some, lookup_insert_eq_some, lookup_insert_eq_some, lookup_erase_eq_some]
  constructor
  · rintro ⟨hx,⟨rfl,hc⟩ | ⟨hxa,hc⟩⟩
    · exact .inl ⟨rfl,hc⟩
    · exact .inr ⟨hxa,hx,hc⟩
  · rintro (⟨rfl,hc⟩ | ⟨hxa,hx,hc⟩)
    · exact ⟨h.symm,.inl ⟨rfl,hc⟩⟩
    · exact ⟨hx,.inr ⟨hxa,hc⟩⟩

theorem erase_insert_self {m : Finmap (fun _ : α => β)} {a : α} (ha : a ∉ m) (b : β) :
    (m.insert a b).erase a = m := by
  refine Finmap.ext_lookup (fun x => ?_)
  by_cases hx : x = a
  · rw [hx, Finmap.lookup_erase, Finmap.lookup_eq_none.mpr ha]
  · rw [Finmap.lookup_erase_ne hx, Finmap.lookup_insert_of_ne m hx]

variable [DecidableEq β]

def holders (m : Finmap (fun _ : α => β)) (b : β) : Finset α :=
  m.keys.filter (fun a => m.lookup a = some b)

def valueCount (m : Finmap (fun _ : α => β)) (b : β) : ℕ := (holders m b).card

@[simp] theorem mem_holders {m : Finmap (fun _ : α => β)} {a : α} {b : β} :
    a ∈ holders m b ↔ m.lookup a = some b := by
  rw [holders, Finset.mem_filter, Finmap.mem_keys, and_iff_right_iff_imp]
  exact Finmap.mem_of_lookup_eq_some

@[simp] theorem valueCount_empty (b : β) : valueCount (∅ : Finmap (fun _ : α => β)) b = 0 := by
  simp [valueCount,holders]

theorem holders_insert_self {m : Finmap (fun _ : α => β)} (a : α) (b : β) :
    holders (m.insert a b) b = insert a (holders m b) := by
  ext x
  by_cases hx : x = a
  · subst hx
    simp
  · simp [Finmap.lookup_insert_of_ne m hx,hx]

theorem holders_insert_of_ne {m : Finmap (fun _ : α => β)} {a : α} (ha : a ∉ m) {b c : β}
    (hbc : b ≠ c) : holders (m.insert a b) c = holders m c := by
  ext x
  by_cases hx : x = a
  · subst hx
    simp [hbc,Finmap.lookup_eq_none.mpr ha]
  · simp [Finmap.lookup_insert_of_ne m hx]

theorem valueCount_insert {m : Finmap (fun _ : α => β)} {a : α} (ha : a ∉ m) (b c : β) :
    valueCount (m.insert a b) c = valueCount m c + if b = c then 1 else 0 := by
  by_cases hbc : b = c
  · subst hbc
    have hnew : a ∉ holders m b := by simp [Finmap.lookup_eq_none.mpr ha]
    rw [valueCount, holders_insert_self, Finset.card_insert_of_notMem hnew, if_pos rfl, valueCount]
  · rw [valueCount, holders_insert_of_ne ha hbc, if_neg hbc, Nat.add_zero, valueCount]

theorem holders_erase {m : Finmap (fun _ : α => β)} (a : α) (b : β) :
    holders (m.erase a) b = (holders m b).erase a := by
  ext x
  by_cases hx : x = a
  · subst hx
    simp
  · simp [Finmap.lookup_erase_ne hx,hx]

theorem valueCount_erase {m : Finmap (fun _ : α => β)} {a : α} {b : β} (ha : m.lookup a = some b)
    (c : β) : valueCount (m.erase a) c + (if b = c then 1 else 0) = valueCount m c := by
  rw [valueCount, holders_erase]
  by_cases hbc : b = c
  · subst hbc
    rw [if_pos rfl]
    exact Finset.card_erase_add_one (mem_holders.mpr ha)
  · have hout : a ∉ holders m c := by simp [ha,hbc]
    rw [if_neg hbc, Nat.add_zero, Finset.erase_eq_of_notMem hout, valueCount]

theorem valueCount_pos {m : Finmap (fun _ : α => β)} {b : β} :
    0 < valueCount m b ↔ ∃ a, m.lookup a = some b := by
  rw [valueCount, Finset.card_pos]
  exact ⟨fun ⟨a,ha⟩ => ⟨a,mem_holders.mp ha⟩, fun ⟨a,ha⟩ => ⟨a,mem_holders.mpr ha⟩⟩

theorem card_le_valueCount {m : Finmap (fun _ : α => β)} {b : β} {s : Finset α}
    (hs : ∀ a ∈ s, m.lookup a = some b) : s.card ≤ valueCount m b :=
  Finset.card_le_card (fun a ha => mem_holders.mpr (hs a ha))

theorem valueCount_eq_length {m : Finmap (fun _ : α => β)} {b : β} {l : List α} (hnodup : l.Nodup)
    (hl : ∀ a, a ∈ l ↔ m.lookup a = some b) : valueCount m b = l.length := by
  rw [valueCount, ← List.toFinset_card_of_nodup hnodup]
  congr 1
  ext a
  rw [mem_holders, List.mem_toFinset, hl]

theorem valueCount_add {m : Finmap (fun _ : α => β)} {b c : β} (hbc : b ≠ c)
    (hm : ∀ a d, m.lookup a = some d → d = b ∨ d = c) :
    valueCount m b + valueCount m c = m.keys.card := by
  have hdis : Disjoint (holders m b) (holders m c) := by
    rw [Finset.disjoint_left]
    intro a hb hc
    rw [mem_holders] at hb hc
    exact hbc (Option.some.inj (hb.symm.trans hc))
  have hcover : holders m b ∪ holders m c = m.keys := by
    ext a
    rw [Finset.mem_union, mem_holders, mem_holders, Finmap.mem_keys, Finmap.mem_iff]
    constructor
    · rintro (h | h)
      · exact ⟨b,h⟩
      · exact ⟨c,h⟩
    · rintro ⟨d,hd⟩
      rcases hm a d hd with rfl | rfl
      · exact .inl hd
      · exact .inr hd
  rw [valueCount, valueCount, ← Finset.card_union_of_disjoint hdis, hcover]

end ValueCount
