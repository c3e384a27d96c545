import Mathlib.Data.Fintype.Card

/-!
# Counting the pointers to an entry

A table of pointers is a function from places to `Option α`. How many places point to an entry changes by one when a
single place is set or cleared.
-/

namespace Xv6Net.Lib

variable {ι α : Type} [Fintype ι] [DecidableEq α] {t : ι → Option α} {i : ι} {a : α}

/-- The number of places that point to `a`. -/
def pointers (t : ι → Option α) (a : α) : Nat := (Finset.univ.filter fun i => t i = some a).card

theorem pointers_pos (h : t i = some a) : 0 < pointers t a :=
  Finset.card_pos.mpr ⟨i, Finset.mem_filter.mpr ⟨Finset.mem_univ i, h⟩⟩

theorem pointers_eq_zero (h : ∀ i, t i = none) : pointers t a = 0 :=
  Finset.card_eq_zero.mpr (Finset.filter_eq_empty_iff.mpr fun i _ => by rw [h i]; exact nofun)

variable [DecidableEq ι]

theorem pointers_set (h : t i = none) : pointers (Function.update t i (some a)) a = pointers t a + 1 := by
  have hins : (Finset.univ.filter fun j => Function.update t i (some a) j = some a) =
      insert i (Finset.univ.filter fun j => t j = some a) := by
    ext j
    by_cases hj : j = i
    · simp [hj]
    · simp [hj]
  unfold pointers
  rw [hins, Finset.card_insert_of_notMem (by simp [h])]

theorem pointers_set_of_ne (h : t i = none) {b : α} (hb : b ≠ a) :
    pointers (Function.update t i (some a)) b = pointers t b := by
  refine congrArg Finset.card (Finset.filter_congr fun j _ => ?_)
  by_cases hj : j = i
  · simp [hj, h, Ne.symm hb]
  · simp [hj]

omit [Fintype ι] [DecidableEq α] in
/-- Clearing a place is the inverse of setting it. -/
theorem update_clear_set (h : t i = some a) : Function.update (Function.update t i none) i (some a) = t := by
  rw [Function.update_idem, ← h, Function.update_eq_self]

theorem pointers_clear (h : t i = some a) : pointers (Function.update t i none) a + 1 = pointers t a := by
  rw [← pointers_set (Function.update_self ..), update_clear_set h]

theorem pointers_clear_of_ne (h : t i = some a) {b : α} (hb : b ≠ a) :
    pointers (Function.update t i none) b = pointers t b := by
  rw [← pointers_set_of_ne (Function.update_self ..) hb, update_clear_set h]

end Xv6Net.Lib
