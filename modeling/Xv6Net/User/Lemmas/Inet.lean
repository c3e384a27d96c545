import Xv6Net.User.Inet

/-!
# What `inet_addr` reads

The loop reads a field as a whole, and it ends well with the fourth one.
-/

namespace Xv6Net.User

open Kernel Lib

variable {result : UInt32} {n d k r : Nat} {dots : Int32} {f s : List UInt8}

theorem toUInt32_ofNat (n : Nat) : (Int32.ofNat n).toUInt32 = .ofNat n := Int32.toUInt32_ofNat'

theorem lt_ofNat_iff (h : n < 2 ^ 31) : 255 < Int32.ofNat n ↔ 255 < n := by
  have h255 : (255 : Int32).toInt = 255 := by decide
  rw [Int32.lt_iff_toInt_lt, Int32.toInt_ofNat_of_lt h, h255]
  omega

theorem ofNat_eq_iff (h : n < 2 ^ 31) (h' : k < 2 ^ 31) : Int32.ofNat n = Int32.ofNat k ↔ n = k := by
  rw [← Int32.toInt_inj, Int32.toInt_ofNat_of_lt h, Int32.toInt_ofNat_of_lt h']
  omega

/-- The characters of a field up to a dot or the end. -/
theorem inetLoop_field (hdot : DOT ∉ f) (hn : n ≤ 255) :
    inetLoop result (.ofNat n) (.ofNat d) dots (f ++ s) =
      if (∀ c ∈ f, IsDigit c) ∧ decimalFrom n f ≤ 255 then
        inetLoop result (.ofNat (decimalFrom n f)) (.ofNat (d + f.length)) dots s
      else 0 := by
  induction f generalizing n d with
  | nil => simp [hn]
  | cons c f ih =>
      have hc : c ≠ DOT := fun h => hdot (h ▸ List.mem_cons_self)
      rw [List.cons_append, inetLoop]
      by_cases hdigit : IsDigit c
      · have hc57 : c.toNat ≤ 57 := UInt8.le_iff_toNat_le.mp hdigit.2
        have hdigits : Int32.ofNat d + 1 = .ofNat (d + 1) := by
          rw [Int32.ofNat_add]
          rfl
        simp only [if_pos hdigit, int32_digit, hdigits, lt_ofNat_iff (show n * 10 + (c.toNat - 48) < 2 ^ 31 by omega)]
        split
        · rename_i hbig
          have := le_decimalFrom (n * 10 + (c.toNat - 48)) f
          rw [if_neg]
          rintro ⟨-, hle⟩
          simp only [decimalFrom_cons] at hle
          omega
        · rename_i hsmall
          rw [ih (fun h => hdot (List.mem_cons_of_mem c h)) (by omega)]
          simp only [List.forall_mem_cons, hdigit, true_and, decimalFrom_cons, List.length_cons, Nat.add_assoc,
            Nat.add_comm 1]
      · rw [if_neg hdigit, if_neg hc, if_neg fun h => hdigit (h.1 c List.mem_cons_self)]

theorem inetLoop_octet (hf : IsOctet f) :
    inetLoop result 0 0 dots (f ++ s) = inetLoop result (.ofNat (decimal f)) (.ofNat f.length) dots s := by
  have hfield := @inetLoop_field result 0 0 dots f s (dot_notMem_of_digits hf.2.1) (Nat.zero_le _)
  rw [← decimal, if_pos hf.2, Nat.zero_add] at hfield
  exact hfield

/-- A field that is no number up to 255 is refused at one of its characters or behind it. -/
theorem inetLoop_eq_zero (hdot : DOT ∉ f) (hf : ¬ IsOctet f) (hs : s = [] ∨ ∃ t, s = DOT :: t) :
    inetLoop result 0 0 dots (f ++ s) = 0 := by
  cases f with
  | nil =>
      rcases hs with rfl | ⟨t, rfl⟩
      · simp [inetLoop]
      · simp [inetLoop, show ¬ IsDigit DOT by decide]
  | cons c f =>
      have hfield := @inetLoop_field result 0 0 dots (c :: f) s hdot (Nat.zero_le _)
      rw [← decimal, if_neg fun h => hf ⟨List.cons_ne_nil c f, h⟩] at hfield
      exact hfield

/-- From the start of a field on, with `k` dots to come. -/
theorem inetLoop_fields (hlen : s.length < 2 ^ 31) (hk : k ≤ 3) :
    inetLoop (.ofNat r) 0 0 (.ofNat (3 - k)) s =
      if (s.splitOn DOT).length = k + 1 ∧ ∀ f ∈ s.splitOn DOT, IsOctet f then .ofNat (fieldsValue r (s.splitOn DOT))
      else 0 := by
  have hdots {k : Nat} (hk : k ≤ 3) : Int32.ofNat (3 - k) = 3 ↔ k = 0 :=
    (ofNat_eq_iff (show 3 - k < 2 ^ 31 by omega) (show 3 < 2 ^ 31 by decide)).trans (by omega)
  have hdigits {f : List UInt8} (hf : IsOctet f) (hlen : f.length < 2 ^ 31) : Int32.ofNat f.length ≠ 0 := by
    rw [Ne, show (0 : Int32) = .ofNat 0 from rfl, ofNat_eq_iff hlen (by decide), List.length_eq_zero_iff]
    exact hf.1
  induction s using field_induction DOT generalizing r k with
  | last f hf =>
      rw [List.splitOn_eq_singleton hf]
      by_cases hoctet : IsOctet f
      · have hloop := @inetLoop_octet (.ofNat r) (.ofNat (3 - k)) f [] hoctet
        rw [List.append_nil] at hloop
        simp [hloop, inetLoop, hdots hk, hdigits hoctet hlen, shiftLeft_or_byte hoctet.2.2, hoctet, fieldsValue, eq_comm]
      · have hloop := @inetLoop_eq_zero (.ofNat r) (.ofNat (3 - k)) f [] hf hoctet (.inl rfl)
        rw [List.append_nil] at hloop
        simp [hloop, hoctet]
  | cons f s hf ih =>
      simp only [List.length_append, List.length_cons] at hlen
      rw [List.splitOn_append_cons_self_of_not_mem hf]
      by_cases hoctet : IsOctet f
      · have hnot : ¬ IsDigit DOT := by decide
        rw [inetLoop_octet hoctet, inetLoop, if_neg hnot, if_pos rfl, toUInt32_ofNat, shiftLeft_or_byte hoctet.2.2]
        cases k with
        | zero => simp
        | succ k =>
            have hnext : Int32.ofNat (3 - (k + 1)) + 1 = .ofNat (3 - k) := by
              rw [show 3 - k = 3 - (k + 1) + 1 by omega, Int32.ofNat_add]
              rfl
            have hmore : ¬ (Int32.ofNat f.length = 0 ∨ Int32.ofNat (3 - (k + 1)) = 3) := by
              rw [hdots hk]
              simp [hdigits hoctet (by omega)]
            rw [hnext, ih (by omega) (by omega), if_neg hmore]
            simp [hoctet, fieldsValue]
      · rw [inetLoop_eq_zero hf hoctet (.inr ⟨s, rfl⟩)]
        simp [hoctet]

theorem inetAddr_eq (s : CString) :
    inetAddr s =
      if (s.chars.splitOn DOT).length = 4 ∧ ∀ f ∈ s.chars.splitOn DOT, IsOctet f then
        .ofNat (fieldsValue 0 (s.chars.splitOn DOT))
      else 0 :=
  inetLoop_fields s.length_lt (Nat.le_refl 3)

theorem inetAddr_of_dottedQuad {s : CString} {v : Nat} (h : DottedQuad s.chars v) : inetAddr s = .ofNat v := by
  obtain ⟨hlen, hoctet, rfl⟩ := dottedQuad_iff.mp h
  rw [inetAddr_eq, if_pos ⟨hlen, hoctet⟩]

theorem inetAddr_of_not {s : CString} (h : ∀ v, ¬ DottedQuad s.chars v) : inetAddr s = 0 := by
  rw [inetAddr_eq, if_neg]
  rintro ⟨hlen, hoctet⟩
  exact h _ (dottedQuad_iff.mpr ⟨hlen, hoctet, rfl⟩)

end Xv6Net.User
