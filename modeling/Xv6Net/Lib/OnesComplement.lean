import Mathlib.Algebra.BigOperators.Group.List.Basic
import Mathlib.Data.Nat.ModEq
import Mathlib.Tactic.Ring

/-!
# One's complement sums

Sums of words below a base `B`, with a carry that is added at the other end. Such a sum agrees with the sum of the numbers
modulo `B - 1`, and of the two words for 0, the word 0 itself stands only for the number 0.
-/

namespace Xv6Net.Lib.OnesComplement

/-- What is above the word is added to the word. -/
def carry (B n : Nat) : Nat := n % B + n / B

/-- The one's complement sum of two words. -/
def add (B x y : Nat) : Nat := carry B (x + y)

def sum (B : Nat) (ws : List Nat) : Nat := ws.foldl (add B) 0

/-- The word `x` stands for the number `n`. -/
structure Represents (B x n : Nat) : Prop where
  lt : x < B
  modEq : x ≡ n [MOD B - 1]
  zero : x = 0 ↔ n = 0

variable {B x y n m : Nat}

/-! ## Carries -/

theorem carry_modEq (hB : 0 < B) (n : Nat) : carry B n ≡ n [MOD B - 1] := by
  have hone : B ≡ 1 [MOD B - 1] := (Nat.modEq_iff_dvd' hB).mpr dvd_rfl |>.symm
  calc carry B n = n % B + 1 * (n / B) := by rw [carry, Nat.one_mul]
    _ ≡ n % B + B * (n / B) [MOD B - 1] := (hone.symm.mul_right _).add_left _
    _ = n := Nat.mod_add_div n B

theorem carry_eq_zero : carry B n = 0 ↔ n = 0 := by
  constructor
  · intro h
    have hdiv := Nat.mod_add_div n B
    simp only [carry, Nat.add_eq_zero_iff] at h
    simpa [h.1, h.2] using hdiv.symm
  · rintro rfl
    simp [carry]

theorem represents_carry (h : carry B n < B) : Represents B (carry B n) n := by
  have hB : 0 < B := Nat.zero_lt_of_lt h
  exact ⟨h, carry_modEq hB n, carry_eq_zero⟩

theorem carry_lt (h : n ≤ 2 * (B - 1)) (hB : 0 < B) : carry B n < B := by
  have hdiv := Nat.mod_add_div n B
  have hlt := Nat.mod_lt n hB
  have hq : n / B < 2 := Nat.div_lt_of_lt_mul (by omega)
  obtain hq | hq : n / B = 0 ∨ n / B = 1 := by
    generalize n / B = q at hq
    omega
  · simpa [carry, hq] using hlt
  · simp only [hq, Nat.mul_one] at hdiv
    simp only [carry, hq]
    omega

/-- Two carries are enough for what fits into two words; the second one may be added to the whole. -/
theorem represents_carry_carry (h : n < B * B) :
    Represents B ((carry B n + carry B n / B) % B) n := by
  have hB : 0 < B := Nat.pos_of_ne_zero fun h0 => by simp [h0] at h
  have hle : carry B n ≤ 2 * (B - 1) := by
    have hmod := Nat.mod_lt n hB
    have hdiv : n / B < B := Nat.div_lt_of_lt_mul h
    simp only [carry]
    omega
  have hlt := carry_lt hle hB
  have heq : (carry B n + carry B n / B) % B = carry B (carry B n) := by
    rw [← Nat.mod_add_mod]
    exact Nat.mod_eq_of_lt hlt
  rw [heq]
  have hrep := represents_carry hlt
  exact ⟨hrep.lt, hrep.modEq.trans (carry_modEq hB n), hrep.zero.trans (carry_eq_zero)⟩

namespace Represents

theorem unique (hx : Represents B x n) (hy : Represents B y n) : x = y := by
  have hxB := hx.lt
  have hyB := hy.lt
  have hzero : x = 0 ↔ y = 0 := hx.zero.trans hy.zero.symm
  have hmod : x ≡ y [MOD B - 1] := hx.modEq.trans hy.modEq.symm
  by_cases h0 : x = 0
  · rw [h0, hzero.mp h0]
  · have h0' : y ≠ 0 := fun h => h0 (hzero.mpr h)
    have hpred : x - 1 ≡ y - 1 [MOD B - 1] := Nat.ModEq.add_right_cancel' 1 (by
      rwa [Nat.sub_add_cancel (Nat.pos_of_ne_zero h0), Nat.sub_add_cancel (Nat.pos_of_ne_zero h0')])
    have := hpred.eq_of_lt_of_lt (by omega) (by omega)
    omega

theorem congr (hx : Represents B x n) (hmod : n ≡ m [MOD B - 1]) (hzero : n = 0 ↔ m = 0) : Represents B x m :=
  ⟨hx.lt, hx.modEq.trans hmod, hx.zero.trans hzero⟩

theorem add (hx : Represents B x n) (hy : y < B) : Represents B (add B x y) (n + y) := by
  have hB : 0 < B := Nat.zero_lt_of_lt hy
  have hrep : Represents B (OnesComplement.add B x y) (x + y) :=
    represents_carry (carry_lt (by have := hx.lt; omega) hB)
  have hzero := hx.zero
  exact hrep.congr (hx.modEq.add_right y) (by omega)

theorem foldl {ws : List Nat} (hws : ∀ w ∈ ws, w < B) (hx : Represents B x n) :
    Represents B (ws.foldl (OnesComplement.add B) x) (n + ws.sum) := by
  induction ws generalizing x n with
  | nil => simpa using hx
  | cons w ws ih =>
      rw [List.sum_cons, ← Nat.add_assoc]
      exact ih (fun v hv => hws v (List.mem_cons_of_mem w hv)) (hx.add (hws w List.mem_cons_self))

/-- The word of ones stands for the multiples of `B - 1` except 0. -/
theorem ones_iff (hB : 1 < B) : Represents B (B - 1) n ↔ n ≠ 0 ∧ B - 1 ∣ n := by
  constructor
  · intro h
    have hne := h.zero
    refine ⟨by omega, ?_⟩
    exact (Nat.modEq_zero_iff_dvd.mp (h.modEq.symm.trans (Nat.modEq_zero_iff_dvd.mpr dvd_rfl)))
  · rintro ⟨hne, hdvd⟩
    refine ⟨by omega, ?_, by omega⟩
    exact (Nat.modEq_zero_iff_dvd.mpr dvd_rfl).trans (Nat.modEq_zero_iff_dvd.mpr hdvd).symm

theorem eq_ones_iff (hB : 1 < B) (hx : Represents B x n) : x = B - 1 ↔ n ≠ 0 ∧ B - 1 ∣ n := by
  rw [← ones_iff hB]
  exact ⟨fun h => h ▸ hx, fun h => hx.unique h⟩

/-- With its complement added, a sum gives the word of ones. -/
theorem add_compl (hB : 1 < B) (hx : Represents B x n) : Represents B (B - 1) (n + (B - 1 - x)) := by
  have hlt := hx.lt
  have hzero := hx.zero
  refine (ones_iff hB).mpr ⟨by omega, Nat.modEq_zero_iff_dvd.mp ?_⟩
  calc n + (B - 1 - x) ≡ x + (B - 1 - x) [MOD B - 1] := hx.modEq.symm.add_right _
    _ = B - 1 := by omega
    _ ≡ 0 [MOD B - 1] := Nat.modEq_zero_iff_dvd.mpr dvd_rfl

end Represents

theorem represents_sum {ws : List Nat} (hB : 0 < B) (hws : ∀ w ∈ ws, w < B) : Represents B (sum B ws) ws.sum := by
  have h0 : Represents B 0 0 := ⟨hB, .refl 0, Iff.rfl⟩
  simpa [sum] using h0.foldl hws

/-! ## The order of the halves of a word -/

/-- The word with its two digits in base `c` exchanged. -/
def swap (c x : Nat) : Nat := x / c + c * (x % c)

variable {c : Nat}

theorem swap_modEq (hc : 0 < c) (x : Nat) : swap c x ≡ c * x [MOD c * c - 1] := by
  have hone : 1 ≡ c * c [MOD c * c - 1] := (Nat.modEq_iff_dvd' (Nat.mul_pos hc hc)).mpr dvd_rfl
  calc swap c x = 1 * (x / c) + c * (x % c) := by rw [swap, Nat.one_mul]
    _ ≡ c * c * (x / c) + c * (x % c) [MOD c * c - 1] := (hone.mul_right _).add_right _
    _ = c * (x % c + c * (x / c)) := by ring
    _ = c * x := by rw [Nat.mod_add_div]

theorem Represents.swap (hc : 0 < c) (hx : Represents (c * c) x n) : Represents (c * c) (swap c x) (c * n) := by
  have hdiv := Nat.mod_add_div x c
  refine ⟨?_, (swap_modEq hc x).trans (hx.modEq.mul_left c), ?_⟩
  · have hq : x / c < c := Nat.div_lt_of_lt_mul hx.lt
    have hr : x % c + 1 ≤ c := Nat.mod_lt x hc
    calc OnesComplement.swap c x < c + c * (x % c) := Nat.add_lt_add_right hq _
      _ = c * (x % c + 1) := by ring
      _ ≤ c * c := Nat.mul_le_mul_left c hr
  · rw [Nat.mul_eq_zero, ← hx.zero, OnesComplement.swap, Nat.add_eq_zero_iff, Nat.mul_eq_zero]
    constructor
    · rintro ⟨hq, hr⟩
      have hr : x % c = 0 := hr.resolve_left hc.ne'
      right
      simpa [hq, hr] using hdiv.symm
    · rintro (h | rfl)
      · exact absurd h hc.ne'
      · simp

end Xv6Net.Lib.OnesComplement
