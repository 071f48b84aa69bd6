import AutoScaling.Cluster.Server
import Mathlib.Algebra.Order.Group.Multiset

/-! # The log of the requests

What the ghost log says of a request: what has happened to it, at whose hands, and in
which order. The lists read off it are appended to as the log is.
-/
namespace AutoScaling
variable {R : Type*}

inductive Kind
  | took
  | queued
  | polled
  | processed
  | dropped
  deriving DecidableEq

def Event.kind : Event R → Kind
  | .took _ => .took
  | .queued _ => .queued
  | .polled _ _ => .polled
  | .processed _ _ => .processed
  | .dropped _ _ => .dropped

def Event.ticket : Event R → Ticket R
  | .took r => r
  | .queued r => r
  | .polled _ r => r
  | .processed _ r => r
  | .dropped _ r => r

def Origin.vm : Origin → VmId
  | .front id => id
  | .master => 1
  | .masterBoot => 1

def Event.actor : Event R → VmId
  | .took r => r.origin.vm
  | .queued r => r.origin.vm
  | .polled i _ => i
  | .processed i _ => i
  | .dropped i _ => i

/-- The requests to which one of these things has happened, in the order in which it did. -/
def tickets (kinds : List Kind) (log : List (Event R)) : List (Ticket R) :=
  (log.filter (fun e => decide (e.kind ∈ kinds))).map Event.ticket

abbrev taken (log : List (Event R)) : List (Ticket R) := tickets [.took] log
abbrev queued (log : List (Event R)) : List (Ticket R) := tickets [.queued] log
abbrev polled (log : List (Event R)) : List (Ticket R) := tickets [.polled] log
abbrev processed (log : List (Event R)) : List (Ticket R) := tickets [.processed] log
abbrev dropped (log : List (Event R)) : List (Ticket R) := tickets [.dropped] log

/-- Requests that came into a party's hands. -/
abbrev obtained (log : List (Event R)) : List (Ticket R) := tickets [.took,.polled] log

/-- Requests that a party passed on or did away with. -/
abbrev settled (log : List (Event R)) : List (Ticket R) := tickets [.queued,.processed,.dropped] log

def ofOrigin (o : Origin) (rs : List (Ticket R)) : List (Ticket R) :=
  rs.filter (fun r => decide (r.origin = o))

def byVm (i : VmId) (log : List (Event R)) : List (Event R) := log.filter (fun e => decide (e.actor = i))

@[simp] theorem tickets_nil (kinds : List Kind) : tickets kinds ([] : List (Event R)) = [] := rfl

@[simp] theorem tickets_append (kinds : List Kind) (l l' : List (Event R)) :
    tickets kinds (l ++ l') = tickets kinds l ++ tickets kinds l' := by
  simp only [tickets,List.filter_append,List.map_append]

theorem tickets_cons (kinds : List Kind) (e : Event R) (log : List (Event R)) :
    tickets kinds (e :: log) =
      if e.kind ∈ kinds then e.ticket :: tickets kinds log else tickets kinds log := by
  by_cases h : e.kind ∈ kinds <;> simp [tickets,h]

@[simp] theorem tickets_singleton (kinds : List Kind) (e : Event R) :
    tickets kinds [e] = if e.kind ∈ kinds then [e.ticket] else [] := by
  by_cases h : e.kind ∈ kinds <;> simp [tickets,h]

@[simp] theorem ofOrigin_append (o : Origin) (l l' : List (Ticket R)) :
    ofOrigin o (l ++ l') = ofOrigin o l ++ ofOrigin o l' := List.filter_append ..

theorem ofOrigin_eq_self {o : Origin} {l : List (Ticket R)} (h : ∀ r ∈ l, r.origin = o) :
    ofOrigin o l = l :=
  List.filter_eq_self.mpr (fun r hr => decide_eq_true (h r hr))

theorem ofOrigin_eq_nil {o : Origin} {l : List (Ticket R)} (h : ∀ r ∈ l, r.origin ≠ o) :
    ofOrigin o l = [] :=
  List.filter_eq_nil_iff.mpr (fun r hr => by simpa using h r hr)

theorem byVm_append (i : VmId) (l l' : List (Event R)) : byVm i (l ++ l') = byVm i l ++ byVm i l' :=
  List.filter_append ..

theorem byVm_eq_self {i : VmId} {l : List (Event R)} (h : ∀ e ∈ l, e.actor = i) : byVm i l = l :=
  List.filter_eq_self.mpr (fun e he => decide_eq_true (h e he))

theorem byVm_eq_nil {i : VmId} {l : List (Event R)} (h : ∀ e ∈ l, e.actor ≠ i) : byVm i l = [] :=
  List.filter_eq_nil_iff.mpr (fun e he => by simpa using h e he)

theorem coe_tickets_append (k l : List Kind) (h : ∀ x ∈ k, x ∉ l) (log : List (Event R)) :
    (tickets (k ++ l) log : Multiset (Ticket R)) = (tickets k log : Multiset (Ticket R)) + tickets l log := by
  induction log with
  | nil => rfl
  | cons e log ih =>
    simp only [tickets_cons,List.mem_append]
    by_cases hk : e.kind ∈ k
    · rw [if_pos (.inl hk), if_pos hk, if_neg (h _ hk), ← Multiset.cons_coe, ih, ← Multiset.cons_coe,
        Multiset.cons_add]
    · by_cases hl : e.kind ∈ l
      · rw [if_pos (.inr hl), if_neg hk, if_pos hl, ← Multiset.cons_coe, ih, ← Multiset.cons_coe,
          Multiset.add_cons]
      · rw [if_neg (not_or.mpr ⟨hk,hl⟩), if_neg hk, if_neg hl, ih]

theorem coe_obtained (log : List (Event R)) :
    (obtained log : Multiset (Ticket R)) = (taken log : Multiset (Ticket R)) + polled log :=
  coe_tickets_append [.took] [.polled] (by decide) log

theorem coe_settled (log : List (Event R)) :
    (settled log : Multiset (Ticket R)) =
      (queued log : Multiset (Ticket R)) + ((processed log : Multiset (Ticket R)) + dropped log) := by
  have hrest := coe_tickets_append [.processed] [.dropped] (by decide) log
  rw [← hrest]
  exact coe_tickets_append [.queued] [.processed,.dropped] (by decide) log

end AutoScaling
