import Mathlib.Data.List.Basic
import Mathlib.Logic.Function.Basic

/-!
# Writes to a store and crashes between them

A store is a map from addresses to values, and what a program does to it is the list of its writes. A crash leaves the
store with a first part of them.
-/

namespace Xv6Net.Lib

variable {α β : Type} [DecidableEq α]

/-- The store after the writes `ws`, the first one first. -/
def applyWrites (m : α → β) : List (α × β) → α → β
  | [] => m
  | w :: ws => applyWrites (Function.update m w.1 w.2) ws

variable {m : α → β} {ws vs : List (α × β)} {a : α}

@[simp] theorem applyWrites_nil : applyWrites m [] = m := rfl

@[simp] theorem applyWrites_cons (w : α × β) :
    applyWrites m (w :: ws) = applyWrites (Function.update m w.1 w.2) ws := rfl

theorem applyWrites_append : applyWrites m (ws ++ vs) = applyWrites (applyWrites m ws) vs := by
  induction ws generalizing m with
  | nil => rfl
  | cons w ws ih => simp [ih]

theorem applyWrites_of_notMem (h : a ∉ ws.map Prod.fst) : applyWrites m ws a = m a := by
  induction ws generalizing m with
  | nil => rfl
  | cons w ws ih =>
      simp only [List.map_cons, List.mem_cons, not_or] at h
      rw [applyWrites_cons, ih h.2, Function.update_of_ne h.1]

theorem applyWrites_of_mem (hnodup : (ws.map Prod.fst).Nodup) {v : β} (h : (a, v) ∈ ws) : applyWrites m ws a = v := by
  induction ws generalizing m with
  | nil => simp at h
  | cons w ws ih =>
      simp only [List.map_cons, List.nodup_cons] at hnodup
      rcases List.mem_cons.mp h with rfl | h
      · rw [applyWrites_cons, applyWrites_of_notMem hnodup.1, Function.update_self]
      · exact ih hnodup.2 h

/-- `P` holds before the writes, between any two of them and after them. -/
def Throughout (P : (α → β) → Prop) (m : α → β) (ws : List (α × β)) : Prop := ∀ k, P (applyWrites m (ws.take k))

variable {P : (α → β) → Prop}

theorem Throughout.last (h : Throughout P m ws) : P (applyWrites m ws) := by
  simpa using h ws.length

theorem throughout_nil (h : P m) : Throughout P m [] := by
  intro k; simpa using h

theorem throughout_of_write (h : P m) (hw : ∀ m, P m → ∀ w ∈ ws, P (Function.update m w.1 w.2)) :
    Throughout P m ws := by
  induction ws generalizing m with
  | nil => exact throughout_nil h
  | cons w ws ih =>
      intro k
      cases k with
      | zero => simpa using h
      | succ k => exact ih (hw m h w List.mem_cons_self) (fun m hm v hv => hw m hm v (List.mem_cons_of_mem w hv)) k

theorem Throughout.append (h : Throughout P m ws) (h' : Throughout P (applyWrites m ws) vs) :
    Throughout P m (ws ++ vs) := by
  intro k
  rw [List.take_append, applyWrites_append]
  rcases Nat.le_total k ws.length with hk | hk
  · simpa [Nat.sub_eq_zero_of_le hk] using h k
  · rw [List.take_of_length_le hk]; exact h' _

theorem Throughout.mono {Q : (α → β) → Prop} (h : Throughout P m ws) (hPQ : ∀ m, P m → Q m) : Throughout Q m ws :=
  fun k => hPQ _ (h k)

end Xv6Net.Lib
