import Xv6Net.Net.Names

/-!
# What `ip_to_u32` reads
-/

namespace Xv6Net.Net

open Kernel Lib

variable {n m v : Nat} {parts qs : List Int32} {f s rest : List UInt8}

/-! ## Parts -/

theorem exists_digits (s : List UInt8) :
    ∃ f rest, s = f ++ rest ∧ (∀ c ∈ f, IsDigit c) ∧ ∀ c ∈ rest.head?, ¬ IsDigit c := by
  induction s with
  | nil => exact ⟨[], [], by simp⟩
  | cons c s ih =>
      by_cases hc : IsDigit c
      · obtain ⟨f, rest, rfl, hf, hrest⟩ := ih
        exact ⟨c :: f, rest, rfl, by simpa [hc] using hf, hrest⟩
      · exact ⟨[], c :: s, by simp [hc]⟩

theorem scanNum_digits (hf : ∀ c ∈ f, IsDigit c) (hrest : ∀ c ∈ rest.head?, ¬ IsDigit c) :
    scanNum (.ofNat n) (f ++ rest) = (.ofNat (decimalFrom n f), rest) := by
  induction f generalizing n with
  | nil =>
      cases rest with
      | nil => rfl
      | cons c rest => simp [scanNum, hrest c rfl]
  | cons c f ih =>
      rw [List.cons_append, scanNum, if_pos (hf c List.mem_cons_self), int32_digit,
        ih fun x hx => hf x (List.mem_cons_of_mem c hx), decimalFrom_cons]

/-- The test of a number is made on a signed number. -/
theorem out_of_range_iff (n : Nat) : Int32.ofNat n < 0 ∨ 255 < Int32.ofNat n ↔ 255 < n % 2 ^ 32 := by
  have h0 : (0 : Int32).toInt = 0 := by decide
  have h255 : (255 : Int32).toInt = 255 := by decide
  rw [Int32.lt_iff_toInt_lt, Int32.lt_iff_toInt_lt, Int32.toInt_ofNat', h0, h255, Int.bmod]
  simp only [Int32.size]
  split
  · omega
  · omega

/-- One turn of the outer loop. -/
theorem scanParts_succ (hf : ∀ c ∈ f, IsDigit c) (hrest : ∀ c ∈ rest.head?, ¬ IsDigit c) (hne : f ++ rest ≠ []) :
    scanParts parts (n + 1) (f ++ rest) =
      if 255 < decimal f % 2 ^ 32 then none
      else
        match rest with
        | [] => scanParts (parts ++ [.ofNat (decimal f)]) n []
        | c :: ip =>
            if c = DOT then scanParts (parts ++ [.ofNat (decimal f)]) n ip
            else if 0 < n then none
            else scanParts (parts ++ [.ofNat (decimal f)]) n (c :: ip) := by
  have hscan := scanNum_digits (n := 0) hf hrest
  cases hs : f ++ rest with
  | nil => exact absurd hs hne
  | cons c s =>
      rw [hs] at hscan
      have hscan : scanNum 0 (c :: s) = (.ofNat (decimal f), rest) := hscan
      cases rest with
      | nil => simp only [scanParts, hscan, out_of_range_iff]
      | cons => simp only [scanParts, hscan, out_of_range_iff]

theorem scanParts_dot (hf : IsPart f) :
    scanParts parts (n + 1) (f ++ DOT :: s) = scanParts (parts ++ [.ofNat (decimal f)]) n s := by
  rw [scanParts_succ hf.1 (by simp [IsDigit, DOT]) (by simp), if_neg (by have := hf.2; omega)]
  simp

theorem scanParts_last (hf : IsPart f) (hrest : ∀ c ∈ rest.head?, ¬ IsDigit c) (hne : f ++ rest ≠ []) :
    scanParts parts 1 (f ++ rest) = some (parts ++ [.ofNat (decimal f)]) := by
  rw [scanParts_succ hf.1 hrest hne, if_neg (by have := hf.2; omega)]
  cases rest with
  | nil => rfl
  | cons c rest => simp [scanParts]

/-- All parts were found, so that the text starts with one of them and has a dot behind it before another one. -/
theorem scanParts_full (h : scanParts parts (n + 1) s = some qs) (hlen : qs.length = parts.length + n + 1) :
    ∃ f rest, s = f ++ rest ∧ IsPart f ∧ (∀ c ∈ rest.head?, ¬ IsDigit c) ∧ f ++ rest ≠ [] ∧
      (0 < n → ∃ t, rest = DOT :: t ∧ scanParts (parts ++ [.ofNat (decimal f)]) n t = some qs) := by
  obtain ⟨f, rest, rfl, hf, hrest⟩ := exists_digits s
  have hne : f ++ rest ≠ [] := by
    intro hnil
    rw [hnil, scanParts] at h
    cases h
    omega
  rw [scanParts_succ hf hrest hne] at h
  split at h
  · cases h
  · rename_i hsmall
    refine ⟨f, rest, rfl, ⟨hf, by omega⟩, hrest, hne, fun hn => ?_⟩
    cases rest with
    | nil =>
        obtain ⟨n, rfl⟩ := Nat.exists_eq_succ_of_ne_zero hn.ne'
        simp only [scanParts, Option.some.injEq] at h
        simp only [← h, List.length_append, List.length_singleton] at hlen
        omega
    | cons c rest =>
        by_cases hc : c = DOT
        · simp only [if_pos hc] at h
          exact ⟨rest, by rw [hc], h⟩
        · simp only [if_neg hc, if_pos hn] at h
          cases h

/-! ## Addresses -/

theorem toUInt32_parts {a b c d : Nat} (hb : b % 2 ^ 32 ≤ 255) (hc : c % 2 ^ 32 ≤ 255) (hd : d % 2 ^ 32 ≤ 255) :
    (Int32.ofNat a <<< 24 ||| Int32.ofNat b <<< 16 ||| Int32.ofNat c <<< 8 ||| Int32.ofNat d).toUInt32 =
      .ofNat (quad (a % 2 ^ 32) (b % 2 ^ 32) (c % 2 ^ 32) (d % 2 ^ 32)) := by
  have hmod (n : Nat) : UInt32.ofNat n = .ofNat (n % 2 ^ 32) := by
    rw [← UInt32.toNat_inj]
    simp
  have h24 (x : Int32) : (x <<< 24).toUInt32 = x.toUInt32 <<< 24 := rfl
  have h16 (x : Int32) : (x <<< 16).toUInt32 = x.toUInt32 <<< 16 := rfl
  have h8 (x : Int32) : (x <<< 8).toUInt32 = x.toUInt32 <<< 8 := rfl
  simp only [Int32.toUInt32_or, h24, h16, h8, Int32.toUInt32_ofNat']
  rw [hmod a, hmod b, hmod c, hmod d]
  exact or_shifted_bytes hb hc hd

theorem ipToU32_of_looseQuad {ip : CString} (h : LooseQuad ip.chars v) : (ipToU32 ip).toUInt32 = .ofNat v := by
  obtain ⟨a, b, c, d, rest, hs, ha, hb, hc, hd, hrest, hne, rfl⟩ := h
  have hparts : scanParts [] 4 ip.chars =
      some [.ofNat (decimal a), .ofNat (decimal b), .ofNat (decimal c), .ofNat (decimal d)] := by
    rw [hs, scanParts_dot ha, scanParts_dot hb, scanParts_dot hc, scanParts_last hd hrest hne]
    rfl
  rw [ipToU32, hparts]
  exact toUInt32_parts hb.2 hc.2 hd.2

theorem ipToU32_of_not {ip : CString} (h : ∀ v, ¬ LooseQuad ip.chars v) : ipToU32 ip = -1 := by
  unfold ipToU32
  split
  · rename_i w x y z hparts
    obtain ⟨a, _, hs, ha, -, -, hmore⟩ := scanParts_full hparts rfl
    obtain ⟨t₁, rfl, h₁⟩ := hmore (by decide)
    obtain ⟨b, _, rfl, hb, -, -, hmore⟩ := scanParts_full h₁ rfl
    obtain ⟨t₂, rfl, h₂⟩ := hmore (by decide)
    obtain ⟨c, _, rfl, hc, -, -, hmore⟩ := scanParts_full h₂ rfl
    obtain ⟨t₃, rfl, h₃⟩ := hmore (by decide)
    obtain ⟨d, rest, rfl, hd, hrest, hne, -⟩ := scanParts_full h₃ rfl
    exact absurd ⟨a, b, c, d, rest, hs, ha, hb, hc, hd, hrest, hne, rfl⟩ (h _)
  · rfl

theorem LooseQuad.lt (h : LooseQuad s v) : v < 2 ^ 32 := by
  obtain ⟨a, b, c, d, -, -, ha, hb, hc, hd, -, -, rfl⟩ := h
  exact quad_lt ha.2 hb.2 hc.2 hd.2

theorem looseQuad_of_dottedQuad (h : DottedQuad s v) : LooseQuad s v := by
  obtain ⟨a, b, c, d, rfl, ha, hb, hc, hd, rfl⟩ := h
  have hmod {f : List UInt8} (hf : IsOctet f) : decimal f % 2 ^ 32 = decimal f := by
    have := hf.2.2
    omega
  have hpart {f : List UInt8} (hf : IsOctet f) : IsPart f := ⟨hf.2.1, by rw [hmod hf]; exact hf.2.2⟩
  refine ⟨a, b, c, d, [], by simp, hpart ha, hpart hb, hpart hc, hpart hd, by simp, by simpa using hd.1, ?_⟩
  rw [hmod ha, hmod hb, hmod hc, hmod hd]

end Xv6Net.Net
