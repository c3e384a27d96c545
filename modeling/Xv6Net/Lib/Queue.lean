import Mathlib.Data.List.Basic
import Mathlib.Data.List.Nodup
import Mathlib.Logic.Function.Basic

/-!
# Linked queues

Nodes of a heap are linked by `next`, and a queue keeps a pointer to its first and to its last node. What the
pointers stand for is the list of the nodes from the first one on.
-/

namespace Xv6Net.Lib

variable {α : Type} {next next' : α → Option α}

/-- The nodes reached from `head` by `next` are `ps`, in this order. -/
def Linked (next : α → Option α) : Option α → List α → Prop
  | head, [] => head = none
  | head, p :: ps => head = some p ∧ Linked next (next p) ps

namespace Linked

variable {head : Option α} {p : α} {ps qs : List α}

theorem unique : ∀ {head : Option α} {ps qs : List α}, Linked next head ps → Linked next head qs → ps = qs
  | _, [], [], _, _ => rfl
  | _, [], _ :: _, h, h' => by rw [h'.1] at h; cases h
  | _, _ :: _, [], h, h' => by rw [h.1] at h'; cases h'
  | _, p :: ps, q :: qs, h, h' => by
      obtain rfl : p = q := Option.some.inj (h.1.symm.trans h'.1)
      rw [unique h.2 h'.2]

theorem congr (h : Linked next head ps) (hn : ∀ p ∈ ps, next' p = next p) : Linked next' head ps := by
  induction ps generalizing head with
  | nil => exact h
  | cons p ps ih =>
      refine ⟨h.1, ?_⟩
      rw [hn p List.mem_cons_self]
      exact ih h.2 fun q hq => hn q (List.mem_cons_of_mem _ hq)

/-- From a node of the list on, the list is the one that starts there. -/
theorem suffix (h : Linked next head (ps ++ p :: qs)) : Linked next (some p) (p :: qs) := by
  induction ps generalizing head with
  | nil => exact ⟨rfl, h.2⟩
  | cons q ps ih => exact ih h.2

theorem nodup (h : Linked next head ps) : ps.Nodup := by
  induction ps generalizing head with
  | nil => exact List.nodup_nil
  | cons p ps ih =>
      refine List.nodup_cons.mpr ⟨fun hp => ?_, ih h.2⟩
      -- a second `p` would start the same list, which is shorter
      obtain ⟨as, bs, rfl⟩ := List.append_of_mem hp
      have hlen := congrArg List.length (unique h.2 h.2.suffix.2)
      simp only [List.length_append, List.length_cons] at hlen
      omega

theorem snoc [DecidableEq α] {t : α} (h : Linked next head ps) (ht : ps.getLast? = some t) (hp : p ∉ ps)
    (hnone : next p = none) : Linked (Function.update next t (some p)) head (ps ++ [p]) := by
  have hnd := h.nodup
  induction ps generalizing head with
  | nil => cases ht
  | cons q ps ih =>
      refine ⟨h.1, ?_⟩
      cases ps with
      | nil =>
          obtain rfl : q = t := by simpa using ht
          have hne : p ≠ q := fun he => hp (by simp [he])
          simp [Linked, Function.update_of_ne hne, hnone]
      | cons r ps =>
          have ht' : (r :: ps).getLast? = some t := by simpa using ht
          have hmem : t ∈ r :: ps := List.mem_of_getLast? ht'
          have hne : q ≠ t := by rintro rfl; exact (List.nodup_cons.mp hnd).1 hmem
          rw [Function.update_of_ne hne]
          exact ih h.2 ht' (fun hmem' => hp (List.mem_cons_of_mem _ hmem')) hnd.of_cons

end Linked

/-- The pointers of a queue with the nodes `ps`. -/
structure IsQueue (next : α → Option α) (head tail : Option α) (ps : List α) : Prop where
  linked : Linked next head ps
  tail_eq : tail = ps.getLast?

namespace IsQueue

variable {head tail : Option α} {p : α} {ps : List α}

theorem nil (next : α → Option α) : IsQueue next none none [] := ⟨rfl, rfl⟩

theorem head_eq_none (h : IsQueue next head tail ps) : head = none ↔ ps = [] := by
  cases ps with
  | nil => exact iff_of_true h.linked rfl
  | cons p ps => simp [h.linked.1]

theorem tail_eq_none (h : IsQueue next head tail ps) : tail = none ↔ ps = [] := by
  rw [h.tail_eq, List.getLast?_eq_none_iff]

theorem congr (h : IsQueue next head tail ps) (hn : ∀ p ∈ ps, next' p = next p) : IsQueue next' head tail ps :=
  ⟨h.linked.congr hn, h.tail_eq⟩

theorem unique {qs : List α} {tail' : Option α} (h : IsQueue next head tail ps)
    (h' : IsQueue next head tail' qs) : ps = qs := h.linked.unique h'.linked

theorem single (hnone : next p = none) : IsQueue next (some p) (some p) [p] := ⟨⟨rfl, hnone⟩, rfl⟩

theorem snoc [DecidableEq α] {t : α} (h : IsQueue next head (some t) ps) (hp : p ∉ ps) (hnone : next p = none) :
    IsQueue (Function.update next t (some p)) head (some p) (ps ++ [p]) :=
  ⟨h.linked.snoc h.tail_eq.symm hp hnone, by simp⟩

/-- Taking the first node off; a queue that becomes empty has no last node. -/
theorem pop [DecidableEq α] (h : IsQueue next (some p) tail ps) :
    ∃ qs, ps = p :: qs ∧ IsQueue next (next p) (if next p = none then none else tail) qs := by
  cases ps with
  | nil => have := h.linked; cases this
  | cons q qs =>
      obtain ⟨hq, hl⟩ := h.linked
      cases hq
      refine ⟨qs, rfl, hl, ?_⟩
      cases qs with
      | nil => rw [if_pos (show next p = none from hl)]; rfl
      | cons r qs => rw [if_neg (by rw [hl.1]; simp), h.tail_eq]; simp

end IsQueue

end Xv6Net.Lib
