import Mathlib.Data.List.Basic
import Mathlib.Data.Nat.ModEq
import Mathlib.Logic.Function.Basic

/-!
# Rings driven by a free-running counter

A ring has `n` slots, and the entry with number `i` is written to slot `i % n`. The list `log` records every
entry ever written. What a reader relies on is that the entries from number `lo` on are still there.
-/

namespace Xv6Net.Lib

/-- The slots of `ring` still hold the entries of `log` from number `lo` on. -/
def RingHolds {α : Type} (n : Nat) (ring : Nat → α) (log : List α) (lo : Nat) : Prop :=
  ∀ i x, lo ≤ i → log[i]? = some x → ring (i % n) = x

/-- Two entry numbers less than `n` apart use different slots. -/
theorem mod_ne_of_lt {n i j : Nat} (hij : i < j) (hj : j < i + n) : i % n ≠ j % n := by
  intro h
  obtain ⟨c, hc⟩ := (Nat.modEq_iff_dvd' (Nat.le_of_lt hij)).mp h
  have hc0 : c ≠ 0 := by rintro rfl; omega
  have : n ≤ n * c := Nat.le_mul_of_pos_right n (Nat.pos_of_ne_zero hc0)
  omega

namespace RingHolds

variable {α : Type} {n : Nat} {ring : Nat → α} {log : List α} {lo : Nat}

theorem mono {lo' : Nat} (h : RingHolds n ring log lo) (hlo : lo ≤ lo') : RingHolds n ring log lo' :=
  fun i x hi hx => h i x (Nat.le_trans hlo hi) hx

theorem get {i : Nat} (h : RingHolds n ring log lo) (hlo : lo ≤ i) (hi : i < log.length) :
    log[i]? = some (ring (i % n)) := by
  have hx : log[i]? = some log[i] := List.getElem?_eq_getElem hi
  rw [h i _ hlo hx, hx]

/-- Writing the next slot keeps the pending entries, as long as fewer than `n` are pending. -/
theorem write (h : RingHolds n ring log lo) (hn : log.length < lo + n) (x : α) :
    RingHolds n (Function.update ring (log.length % n) x) log lo := by
  intro i y hi hy
  have hlt : i < log.length := (List.getElem?_eq_some_iff.mp hy).1
  rw [Function.update_of_ne (mod_ne_of_lt hlt (by omega))]
  exact h i y hi hy

/-- An entry counts as written once its slot holds it. -/
theorem grow {x : α} (h : RingHolds n ring log lo) (hx : ring (log.length % n) = x) :
    RingHolds n ring (log ++ [x]) lo := by
  intro i y hi hy
  rcases Nat.lt_trichotomy i log.length with hlt | rfl | hgt
  · rw [List.getElem?_append_left hlt] at hy; exact h i y hi hy
  · simp only [List.getElem?_concat_length, Option.some.injEq] at hy; rw [hx, hy]
  · rw [List.getElem?_eq_none (by simp; omega)] at hy; cases hy

theorem push (h : RingHolds n ring log lo) (hn : log.length < lo + n) (x : α) :
    RingHolds n (Function.update ring (log.length % n) x) (log ++ [x]) lo :=
  (h.write hn x).grow (Function.update_self ..)

end RingHolds

/-! ## What a ring holds from a place on -/

section Window

variable {α : Type} {n m lo cnt : Nat} {ring : Nat → α}

/-- The `cnt` entries from number `lo` on. -/
def window (ring : Nat → α) (n lo cnt : Nat) : List α := (List.range cnt).map fun k => ring ((lo + k) % n)

@[simp] theorem window_zero (ring : Nat → α) (n lo : Nat) : window ring n lo 0 = [] := rfl

theorem window_succ (ring : Nat → α) (n lo cnt : Nat) :
    window ring n lo (cnt + 1) = ring (lo % n) :: window ring n (lo + 1) cnt := by
  simp [window, List.range_succ_eq_map, Function.comp_def, Nat.add_assoc, Nat.add_comm 1]

theorem dropLast_window (ring : Nat → α) (n lo cnt : Nat) : (window ring n lo (cnt + 1)).dropLast = window ring n lo cnt := by
  simp [window, List.range_succ]

/-- A slot behind the window, and not as far as `n` from its start. -/
theorem window_update_of_le (ring : Nat → α) (lo : Nat) (x : α) (h : cnt ≤ m) (hm : m < n) :
    window (Function.update ring ((lo + m) % n) x) n lo cnt = window ring n lo cnt := by
  apply List.map_congr_left
  intro k hk
  have hk := List.mem_range.mp hk
  exact Function.update_of_ne (mod_ne_of_lt (by omega) (by omega)) ..

theorem window_push (ring : Nat → α) (lo : Nat) (x : α) (h : cnt < n) :
    window (Function.update ring ((lo + cnt) % n) x) n lo (cnt + 1) = window ring n lo cnt ++ [x] := by
  rw [← window_update_of_le ring lo x (Nat.le_refl cnt) h]
  simp [window, List.range_succ]

theorem window_append (ring : Nat → α) (n lo cnt cnt' : Nat) :
    window ring n lo cnt ++ window ring n (lo + cnt) cnt' = window ring n lo (cnt + cnt') := by
  simp [window, List.range_add, Function.comp_def, Nat.add_assoc]

/-- A counter may wrap at a multiple of the number of slots. -/
theorem window_mod (ring : Nat → α) (lo cnt : Nat) (h : n ∣ m) : window ring n (lo % m) cnt = window ring n lo cnt := by
  simp only [window]
  apply List.map_congr_left
  intro k _
  rw [← Nat.mod_mod_of_dvd (lo + k) h, Nat.add_mod lo k m, ← Nat.mod_mod_of_dvd (lo % m + k) h, Nat.add_mod (lo % m) k m,
    Nat.mod_mod]

end Window

end Xv6Net.Lib
