import AutoScaling.Foundation.LabelledSystem
import AutoScaling.Foundation.ValueCount
import Mathlib.Logic.Function.Basic

/-! # Members of classes that ask, serve and withdraw

A registrar keeps the class of every member. A member asks for its class, serves in
it, decides to leave, and is then withdrawn; it may fail at any point before, and is
not withdrawn then. One member, the anchor, is there from the start and does none of
this. Ids are never used twice.
-/

inductive Stage (κ : Type*)
  | waiting
  | told (k : κ)
  | serving (k : κ)
  | leaving (k : κ)
  | gone
  | failed (k : Option κ)
  deriving DecidableEq

structure Roster (ι κ : Type*) where
  members : Finmap (fun _ : ι => κ)
  known : Finset ι
  stage : ι → Stage κ

namespace Stage
variable {κ : Type*}

def Agrees : Stage κ → Option κ → Prop
  | .waiting, o => o.isSome
  | .told k, o => o = some k
  | .serving k, o => o = some k
  | .leaving k, o => o = some k
  | .gone, o => o = none
  | .failed (some k), o => o = some k
  | .failed none, o => o.isSome

/-- The class a member was taken up in and has not been withdrawn from. -/
def actsAs : Stage κ → Option κ
  | .serving k => some k
  | .leaving k => some k
  | .failed k => k
  | _ => none

def isLeaving : Stage κ → Bool
  | .leaving _ => true
  | _ => false

theorem Agrees.of_actsAs {s : Stage κ} {o : Option κ} (h : s.Agrees o) {k : κ}
    (hk : s.actsAs = some k) : o = some k := by
  cases s with
  | serving k' => exact h.trans hk
  | leaving k' => exact h.trans hk
  | failed k' =>
    simp only [actsAs] at hk
    subst hk
    exact h
  | _ => cases hk

theorem Agrees.fail {s : Stage κ} {o : Option κ} (h : s.Agrees o) (hs : s ≠ .gone) :
    (Stage.failed s.actsAs).Agrees o := by
  cases s with
  | gone => exact absurd rfl hs
  | told k => exact Option.isSome_iff_exists.mpr ⟨k,h⟩
  | failed k => cases k <;> exact h
  | _ => exact h

theorem Agrees.eq_none_iff {s : Stage κ} {o : Option κ} (h : s.Agrees o) : o = none ↔ s = .gone := by
  constructor
  · rintro rfl
    cases s with
    | gone => rfl
    | failed k => cases k <;> cases h
    | _ => cases h
  · rintro rfl
    exact h

end Stage

namespace Roster
variable {ι κ : Type*} [DecidableEq ι]

inductive Move (ι κ : Type*)
  | start (id : ι) (k : κ)
  | tell (id : ι)
  | serve (id : ι)
  | leave (id : ι)
  | withdraw (id : ι)
  | fail (id : ι)

def setStage (x : Roster ι κ) (id : ι) (s : Stage κ) : Roster ι κ :=
  { x with stage := Function.update x.stage id s }

def step (anchor : ι) (x : Roster ι κ) : Move ι κ → Option (Roster ι κ)
  | .start id k =>
    if id ∉ x.known ∧ id ≠ anchor then
      some { x with members := x.members.insert id k, known := insert id x.known }
    else none
  | .tell id =>
    match x.stage id, x.members.lookup id with
    | .waiting, some k => if id ∈ x.known then some (x.setStage id (.told k)) else none
    | _, _ => none
  | .serve id =>
    match x.stage id with
    | .told k => some (x.setStage id (.serving k))
    | _ => none
  | .leave id =>
    match x.stage id with
    | .serving k => some (x.setStage id (.leaving k))
    | _ => none
  | .withdraw id =>
    match x.stage id with
    | .leaving _ => some ({ x with members := x.members.erase id }.setStage id .gone)
    | _ => none
  | .fail id =>
    match x.stage id with
    | .gone => none
    | s => if id ∈ x.known then some (x.setStage id (.failed s.actsAs)) else none

def system (anchor : ι) : LabelledSystem (Roster ι κ) (Move ι κ) := ⟨step anchor⟩

inductive Moved (anchor : ι) (x : Roster ι κ) : Move ι κ → Roster ι κ → Prop
  | start (id : ι) (k : κ) (hnew : id ∉ x.known) (hne : id ≠ anchor) : Moved anchor x (.start id k)
      { x with members := x.members.insert id k, known := insert id x.known }
  | tell (id : ι) (k : κ) (hstage : x.stage id = .waiting) (hk : x.members.lookup id = some k)
      (hid : id ∈ x.known) : Moved anchor x (.tell id) (x.setStage id (.told k))
  | serve (id : ι) (k : κ) (hstage : x.stage id = .told k) :
      Moved anchor x (.serve id) (x.setStage id (.serving k))
  | leave (id : ι) (k : κ) (hstage : x.stage id = .serving k) :
      Moved anchor x (.leave id) (x.setStage id (.leaving k))
  | withdraw (id : ι) (k : κ) (hstage : x.stage id = .leaving k) : Moved anchor x (.withdraw id)
      ({ x with members := x.members.erase id }.setStage id .gone)
  | fail (id : ι) (hgone : x.stage id ≠ .gone) (hid : id ∈ x.known) :
      Moved anchor x (.fail id) (x.setStage id (.failed (x.stage id).actsAs))

theorem moved_of_step {anchor : ι} {x y : Roster ι κ} {m : Move ι κ}
    (hs : (system anchor).step x m = some y) : Moved anchor x m y := by
  simp only [system,step] at hs
  cases m with
  | start id k =>
    dsimp only at hs
    split at hs <;> cases hs
    rename_i hnew
    exact .start id k hnew.1 hnew.2
  | tell id =>
    dsimp only at hs
    split at hs
    · rename_i k hstage hk
      split at hs <;> cases hs
      rename_i hid
      exact .tell id k hstage hk hid
    · cases hs
  | serve id =>
    dsimp only at hs
    split at hs <;> cases hs
    rename_i k hstage
    exact .serve id k hstage
  | leave id =>
    dsimp only at hs
    split at hs <;> cases hs
    rename_i k hstage
    exact .leave id k hstage
  | withdraw id =>
    dsimp only at hs
    split at hs <;> cases hs
    rename_i k hstage
    exact .withdraw id k hstage
  | fail id =>
    dsimp only at hs
    split at hs
    · cases hs
    · rename_i hgone
      split at hs <;> cases hs
      rename_i hid
      exact .fail id hgone hid

/-- The registrar and the members agree, and the anchor is where it was. -/
structure Inv (anchor : ι) (home : κ) (x : Roster ι κ) : Prop where
  anchor_lookup : x.members.lookup anchor = some home
  anchor_notMem : anchor ∉ x.known
  known_of_mem : ∀ id ∈ x.members, id = anchor ∨ id ∈ x.known
  waiting : ∀ id, id ∉ x.known → x.stage id = .waiting
  agrees : ∀ id ∈ x.known, (x.stage id).Agrees (x.members.lookup id)

theorem Inv.known_of_stage {anchor : ι} {home : κ} {x : Roster ι κ} (h : Inv anchor home x) (id : ι)
    (hs : x.stage id ≠ .waiting) : id ∈ x.known := by
  by_contra hn
  exact hs (h.waiting id hn)

theorem Inv.setStage {anchor : ι} {home : κ} {x : Roster ι κ} (h : Inv anchor home x) {id : ι}
    {s : Stage κ} (hid : id ∈ x.known) (hs : s.Agrees (x.members.lookup id)) :
    Inv anchor home (x.setStage id s) := by
  refine ⟨h.anchor_lookup,h.anchor_notMem,h.known_of_mem,?_,?_⟩
  · intro j hj
    have hne : j ≠ id := by
      rintro rfl
      exact hj hid
    exact (Function.update_of_ne hne _ _).trans (h.waiting j hj)
  · exact (Function.forall_update_iff x.stage
      (fun j t => j ∈ x.known → t.Agrees (x.members.lookup j))).mpr
      ⟨fun _ => hs,fun j _ => h.agrees j⟩

theorem Inv.start {anchor : ι} {home : κ} {x : Roster ι κ} (h : Inv anchor home x) {id : ι} (k : κ)
    (hnew : id ∉ x.known) (hne : id ≠ anchor) :
    Inv anchor home { x with members := x.members.insert id k, known := insert id x.known } := by
  refine ⟨?_,?_,?_,?_,?_⟩
  · exact (Finmap.lookup_insert_of_ne _ hne.symm).trans h.anchor_lookup
  · intro ha
    rcases Finset.mem_insert.mp ha with ha | ha
    · exact hne ha.symm
    · exact h.anchor_notMem ha
  · intro j hj
    rcases Finmap.mem_insert.mp hj with rfl | hj
    · exact .inr (Finset.mem_insert_self _ _)
    · exact (h.known_of_mem j hj).imp_right (fun hk => Finset.mem_insert_of_mem hk)
  · intro j hj
    exact h.waiting j (fun hk => hj (Finset.mem_insert_of_mem hk))
  · intro j hj
    by_cases he : j = id
    · subst he
      dsimp only
      rw [h.waiting j hnew, Finmap.lookup_insert]
      rfl
    · dsimp only
      rw [Finmap.lookup_insert_of_ne _ he]
      exact h.agrees j (Finset.mem_of_mem_insert_of_ne hj he)

theorem Inv.withdraw {anchor : ι} {home : κ} {x : Roster ι κ} (h : Inv anchor home x) {id : ι}
    (hid : id ∈ x.known) :
    Inv anchor home ({ x with members := x.members.erase id }.setStage id .gone) := by
  have hne : anchor ≠ id := by
    rintro rfl
    exact h.anchor_notMem hid
  refine ⟨(Finmap.lookup_erase_ne hne).trans h.anchor_lookup,h.anchor_notMem,?_,?_,?_⟩
  · intro j hj
    exact h.known_of_mem j (Finmap.mem_erase.mp hj).2
  · intro j hj
    have hji : j ≠ id := by
      rintro rfl
      exact hj hid
    exact (Function.update_of_ne hji _ _).trans (h.waiting j hj)
  · intro j hj
    by_cases he : j = id
    · subst he
      simp only [Roster.setStage,Function.update_self,Finmap.lookup_erase]
      rfl
    · simp only [Roster.setStage,Function.update_of_ne he,Finmap.lookup_erase_ne he]
      exact h.agrees j hj

theorem Inv.step {anchor : ι} {home : κ} {x y : Roster ι κ} {m : Move ι κ} (h : Inv anchor home x)
    (hs : (system anchor).step x m = some y) : Inv anchor home y := by
  cases moved_of_step hs with
  | start id k hnew hne => exact h.start k hnew hne
  | tell id k hstage hk hid => exact h.setStage hid hk
  | serve id k hstage =>
    have hid := h.known_of_stage id (by simp [hstage])
    have ha := h.agrees id hid
    rw [hstage] at ha
    exact h.setStage hid ha
  | leave id k hstage =>
    have hid := h.known_of_stage id (by simp [hstage])
    have ha := h.agrees id hid
    rw [hstage] at ha
    exact h.setStage hid ha
  | withdraw id k hstage => exact h.withdraw (h.known_of_stage id (by simp [hstage]))
  | fail id hgone hid => exact h.setStage hid ((h.agrees id hid).fail hgone)

def Stays (k : κ) (x : Roster ι κ) : Prop :=
  ∃ id, x.members.lookup id = some k ∧ (x.stage id).isLeaving = false

/-- Whoever decides to leave class `k` leaves there another member that has not. -/
def LeavesAnother (k : κ) (x : Roster ι κ) : Move ι κ → Prop
  | .leave id => x.stage id = .serving k →
    ∃ other, other ≠ id ∧ x.members.lookup other = some k ∧ (x.stage other).isLeaving = false
  | _ => True

/-- The survivor rule. -/
theorem Stays.step {anchor : ι} {home k : κ} {x y : Roster ι κ} {m : Move ι κ}
    (hx : Inv anchor home x) (h : Stays k x) (hm : LeavesAnother k x m)
    (hs : (system anchor).step x m = some y) : Stays k y := by
  obtain ⟨id,hid,hstay⟩ := h
  have hmoved : ∀ j s, (j = id → s.isLeaving = false) → Stays k (x.setStage j s) := by
    intro j s hj
    refine ⟨id,hid,?_⟩
    by_cases he : id = j
    · subst he
      simp only [Roster.setStage,Function.update_self]
      exact hj rfl
    · simp only [Roster.setStage,Function.update_of_ne he]
      exact hstay
  cases moved_of_step hs with
  | start j k' hnew hne =>
    have hout : j ∉ x.members := fun hj => (hx.known_of_mem j hj).elim hne hnew
    exact ⟨id,ValueCount.lookup_insert_of_notMem hout k' hid,hstay⟩
  | tell j k' hstage hk hj => exact hmoved j _ (fun _ => rfl)
  | serve j k' hstage => exact hmoved j _ (fun _ => rfl)
  | leave j k' hstage =>
    by_cases he : j = id
    · -- the member that stayed leaves now, and leaves another behind
      subst he
      have hj := hx.known_of_stage j (by simp [hstage])
      have ha := hx.agrees j hj
      rw [hstage] at ha
      cases hid.symm.trans ha
      obtain ⟨other,hne,hother,hstay'⟩ := hm hstage
      exact ⟨other,hother,by simpa [Roster.setStage,hne] using hstay'⟩
    · exact hmoved j _ (fun h => absurd h he)
  | withdraw j k' hstage =>
    have hne : id ≠ j := by
      rintro rfl
      rw [hstage] at hstay
      cases hstay
    refine ⟨id,?_,?_⟩
    · simp only [Roster.setStage,Finmap.lookup_erase_ne hne]
      exact hid
    · simp only [Roster.setStage,Function.update_of_ne hne]
      exact hstay
  | fail j hgone hj => exact hmoved j _ (fun _ => rfl)

variable [DecidableEq κ]

def acting (x : Roster ι κ) (k : κ) : Finset ι := x.known.filter (fun id => (x.stage id).actsAs = some k)

/-- The anchor rule: the anchor's class counts it beside all members acting in it. -/
theorem Inv.card_acting_lt {anchor : ι} {home : κ} {x : Roster ι κ} (h : Inv anchor home x) :
    (x.acting home).card + 1 ≤ ValueCount.valueCount x.members home := by
  have hout : anchor ∉ x.acting home := fun ha => h.anchor_notMem (Finset.mem_filter.mp ha).1
  rw [← Finset.card_insert_of_notMem hout]
  apply ValueCount.card_le_valueCount
  intro id hid
  rcases Finset.mem_insert.mp hid with rfl | hid
  · exact h.anchor_lookup
  · obtain ⟨hk,ha⟩ := Finset.mem_filter.mp hid
    exact (h.agrees id hk).of_actsAs ha

end Roster
