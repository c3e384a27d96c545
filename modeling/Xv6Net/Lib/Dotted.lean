import Mathlib.Data.List.Basic
import Mathlib.Data.Nat.Bitwise

/-!
# Decimal numbers and dotted quads

Text is a list of ASCII characters. A loop over text with separators goes from one separator to the next, so that what it
does is shown by induction on the fields.
-/

namespace Xv6Net.Lib

/-- A list is one field, or a field and a separator before the others. -/
theorem field_induction {α : Type} (a : α) {motive : List α → Prop} (last : ∀ f, a ∉ f → motive f)
    (cons : ∀ f s, a ∉ f → motive s → motive (f ++ a :: s)) (s : List α) : motive s := by
  induction hn : s.length using Nat.strong_induction_on generalizing s with
  | _ n ih =>
      by_cases ha : a ∈ s
      · obtain ⟨f, t, rfl, hf⟩ := List.eq_append_cons_of_mem ha
        apply cons f t hf
        apply ih t.length _ t rfl
        simp only [List.length_append, List.length_cons] at hn
        omega
      · exact last s ha

/-! ## Numbers -/

/-- One of the characters `0` to `9`. -/
def IsDigit (c : UInt8) : Prop := 48 ≤ c ∧ c ≤ 57

instance (c : UInt8) : Decidable (IsDigit c) := inferInstanceAs (Decidable (_ ∧ _))

-- over the list, where the search over all bytes is an instance too
instance (ds : List UInt8) : Decidable (∀ c ∈ ds, IsDigit c) := List.decidableBAll IsDigit ds

/-- The number that is read when digits follow the number `n`. -/
def decimalFrom (n : Nat) (ds : List UInt8) : Nat := ds.foldl (fun n c => n * 10 + (c.toNat - 48)) n

def decimal (ds : List UInt8) : Nat := decimalFrom 0 ds

@[simp] theorem decimalFrom_nil (n : Nat) : decimalFrom n [] = n := rfl

@[simp] theorem decimalFrom_cons (n : Nat) (c : UInt8) (ds : List UInt8) :
    decimalFrom n (c :: ds) = decimalFrom (n * 10 + (c.toNat - 48)) ds := by
  rw [decimalFrom, decimalFrom, List.foldl_cons]

theorem le_decimalFrom (n : Nat) (ds : List UInt8) : n ≤ decimalFrom n ds := by
  induction ds generalizing n with
  | nil => exact Nat.le_refl n
  | cons c ds ih =>
      have := ih (n * 10 + (c.toNat - 48))
      simp only [decimalFrom_cons]
      omega

/-- One more digit in the arithmetic of `int`. -/
theorem int32_digit (n : Nat) (c : UInt8) :
    Int32.ofNat n * 10 + .ofNat (c.toNat - 48) = .ofNat (n * 10 + (c.toNat - 48)) := by
  rw [Int32.ofNat_add, Int32.ofNat_mul]
  rfl

/-- The character of a separator. -/
def DOT : UInt8 := 46

theorem IsDigit.ne_dot {c : UInt8} (h : IsDigit c) : c ≠ DOT := by
  rintro rfl
  exact absurd h (by decide)

theorem dot_notMem_of_digits {ds : List UInt8} (h : ∀ c ∈ ds, IsDigit c) : DOT ∉ ds := fun hd => (h _ hd).ne_dot rfl

/-! ## Addresses -/

/-- A decimal number up to 255, with any number of zeros before it. -/
def IsOctet (ds : List UInt8) : Prop := ds ≠ [] ∧ (∀ c ∈ ds, IsDigit c) ∧ decimal ds ≤ 255

instance (ds : List UInt8) : Decidable (IsOctet ds) := inferInstanceAs (Decidable (_ ∧ _ ∧ _))

def quad (a b c d : Nat) : Nat := a * 2 ^ 24 + b * 2 ^ 16 + c * 2 ^ 8 + d

/-- The text is four numbers with single dots between them, and these are the bytes of `v`, the first one on top. -/
def DottedQuad (s : List UInt8) (v : Nat) : Prop :=
  ∃ a b c d, s = a ++ DOT :: (b ++ DOT :: (c ++ DOT :: d)) ∧ IsOctet a ∧ IsOctet b ∧ IsOctet c ∧ IsOctet d ∧
    v = quad (decimal a) (decimal b) (decimal c) (decimal d)

theorem quad_lt {a b c d : Nat} (ha : a ≤ 255) (hb : b ≤ 255) (hc : c ≤ 255) (hd : d ≤ 255) : quad a b c d < 2 ^ 32 := by
  unfold quad
  omega

theorem DottedQuad.lt {s : List UInt8} {v : Nat} (h : DottedQuad s v) : v < 2 ^ 32 := by
  obtain ⟨a, b, c, d, -, ha, hb, hc, hd, rfl⟩ := h
  exact quad_lt ha.2.2 hb.2.2 hc.2.2 hd.2.2

/-- The numbers of the fields as the digits of one number to base 256. -/
def fieldsValue (r : Nat) (fields : List (List UInt8)) : Nat := fields.foldl (fun r f => r * 256 + decimal f) r

/-- The four numbers are the fields of the text. -/
theorem dottedQuad_iff {s : List UInt8} {v : Nat} :
    DottedQuad s v ↔ (s.splitOn DOT).length = 4 ∧ (∀ f ∈ s.splitOn DOT, IsOctet f) ∧ v = fieldsValue 0 (s.splitOn DOT) := by
  have hdot {f : List UInt8} (hf : IsOctet f) : DOT ∉ f := dot_notMem_of_digits hf.2.1
  constructor
  · rintro ⟨a, b, c, d, rfl, ha, hb, hc, hd, rfl⟩
    rw [List.splitOn_append_cons_self_of_not_mem (hdot ha), List.splitOn_append_cons_self_of_not_mem (hdot hb),
      List.splitOn_append_cons_self_of_not_mem (hdot hc), List.splitOn_eq_singleton (hdot hd)]
    refine ⟨rfl, by simp [ha, hb, hc, hd], ?_⟩
    simp only [quad, fieldsValue, List.foldl_cons, List.foldl_nil]
    omega
  · rintro ⟨hlen, hoctet, rfl⟩
    have hs : s = [DOT].intercalate (s.splitOn DOT) := (List.intercalate_splitOn DOT).symm
    match hfields : s.splitOn DOT, hlen with
    | [a, b, c, d], _ =>
        rw [hfields] at hoctet hs
        refine ⟨a, b, c, d, ?_, hoctet a (by simp), hoctet b (by simp), hoctet c (by simp), hoctet d (by simp), ?_⟩
        · simpa [List.intercalate_cons_cons] using hs
        · simp only [quad, fieldsValue, List.foldl_cons, List.foldl_nil]
          omega

/-! ## Words from bytes -/

/-- A byte below a word that is shifted by eight bits. -/
theorem shiftLeft_or_byte {r b : Nat} (hb : b ≤ 255) : UInt32.ofNat r <<< 8 ||| UInt32.ofNat b = .ofNat (r * 256 + b) := by
  have h8 : (8 : UInt32) = .ofNat 8 := rfl
  rw [h8, ← UInt32.ofNat_shiftLeft r 8 (by decide), ← UInt32.ofNat_or,
    ← Nat.shiftLeft_add_eq_or_of_lt (show b < 2 ^ 8 by omega), Nat.shiftLeft_eq]

/-- Four bytes that are shifted to their places. -/
theorem or_shifted_bytes {a b c d : Nat} (hb : b ≤ 255) (hc : c ≤ 255) (hd : d ≤ 255) :
    UInt32.ofNat a <<< 24 ||| UInt32.ofNat b <<< 16 ||| UInt32.ofNat c <<< 8 ||| UInt32.ofNat d =
      .ofNat (quad a b c d) := by
  have h24 : (24 : UInt32) = .ofNat 24 := rfl
  have h16 : (16 : UInt32) = .ofNat 16 := rfl
  have h8 : (8 : UInt32) = .ofNat 8 := rfl
  rw [h24, h16, h8, ← UInt32.ofNat_shiftLeft a 24 (by decide), ← UInt32.ofNat_shiftLeft b 16 (by decide),
    ← UInt32.ofNat_shiftLeft c 8 (by decide), ← UInt32.ofNat_or, ← UInt32.ofNat_or, ← UInt32.ofNat_or]
  congr 1
  simp only [Nat.shiftLeft_eq, quad]
  have hab := Nat.two_pow_add_eq_or_of_lt (show b * 2 ^ 16 < 2 ^ 24 by omega) a
  have habc := Nat.two_pow_add_eq_or_of_lt (show c * 2 ^ 8 < 2 ^ 16 by omega) (a * 2 ^ 8 + b)
  have habcd := Nat.two_pow_add_eq_or_of_lt (show d < 2 ^ 8 by omega) (a * 2 ^ 16 + b * 2 ^ 8 + c)
  rw [Nat.mul_comm a, ← hab, show 2 ^ 24 * a + b * 2 ^ 16 = 2 ^ 16 * (a * 2 ^ 8 + b) by omega, ← habc,
    show 2 ^ 16 * (a * 2 ^ 8 + b) + c * 2 ^ 8 = 2 ^ 8 * (a * 2 ^ 16 + b * 2 ^ 8 + c) by omega, ← habcd]

end Xv6Net.Lib
