import Mathlib.Data.Nat.Bitwise
import Xv6Net.Vm.Lemmas.Copy
import Xv6Net.Vm.UserCopy

/-!
# The copies on 64-bit addresses

A page that is mapped is far below the end of the address space, so no address of a copy wraps around and the loops are
those on natural numbers. `copyinstr` stops at the first NUL, at the limit or at a page that is not mapped.
-/

namespace Xv6Net.Vm

open Kernel Lib

variable {pt : PageTable} {mem mem' : Memory} {bs src : List UInt8} {max : Nat} {byte : Nat → Option UInt8}

/-! ## Words -/

theorem roundDown_toNat (a : UInt64) : (roundDown a).toNat = pgRoundDown a.toNat := by
  have ha := a.toNat_lt
  apply Nat.eq_of_testBit_eq
  intro i
  have hmask : (~~~4095 : UInt64).toNat = 2 ^ 64 - (4095 + 1) := rfl
  have hpage : pgRoundDown a.toNat = a.toNat / 2 ^ 12 * 2 ^ 12 := rfl
  rw [roundDown, UInt64.toNat_and, Nat.testBit_and, hmask, Nat.testBit_two_pow_sub_succ (by decide), hpage,
    Nat.testBit_mul_two_pow, Nat.testBit_div_two_pow, show 4095 = 2 ^ 12 - 1 from rfl, Nat.testBit_two_pow_sub_one]
  by_cases h12 : 12 ≤ i
  · by_cases h64 : i < 64
    · simp [h12, h64]
    · have : a.toNat.testBit i = false :=
        Nat.testBit_lt_two_pow (Nat.lt_of_lt_of_le ha (Nat.pow_le_pow_right (by decide) (by omega)))
      simp [this, h12]
  · simp [h12, Nat.lt_of_not_le h12]

theorem sub_roundDown_toNat (a : UInt64) : (a - roundDown a).toNat = a.toNat - pgRoundDown a.toNat := by
  have hle := pgRoundDown_le a.toNat
  rw [UInt64.toNat_sub_of_le _ _ (by rw [UInt64.le_iff_toNat_le, roundDown_toNat]; exact hle), roundDown_toNat]

theorem roundLen_toNat (va len : UInt64) :
    (roundLen va len).toNat = min len.toNat (PGSIZE - (va.toNat - pgRoundDown va.toNat)) := by
  have hlt := lt_pgRoundDown_add va.toNat
  have hsub := sub_roundDown_toNat va
  have hn : (4096 - (va - roundDown va)).toNat = PGSIZE - (va.toNat - pgRoundDown va.toNat) := by
    rw [UInt64.toNat_sub_of_le _ _ (by
      rw [UInt64.le_iff_toNat_le, hsub]; simp only [PGSIZE] at hlt; simp; omega), hsub]
    rfl
  simp only [roundLen]
  split
  · rename_i h
    rw [UInt64.lt_iff_toNat_lt, hn] at h
    omega
  · rename_i h
    rw [UInt64.lt_iff_toNat_lt, hn] at h
    rw [hn]
    omega

/-- The next page of a page that is mapped does not wrap around. -/
theorem next_toNat {va : UInt64} (h : walkaddr pt (roundDown va).toNat ≠ 0) :
    (roundDown va + 4096).toNat = pgRoundDown va.toNat + PGSIZE := by
  obtain ⟨hmax, -⟩ := walkaddr_leaf rfl h
  rw [roundDown_toNat] at hmax
  rw [UInt64.toNat_add, roundDown_toNat]
  simp only [MAXVA, PGSIZE] at *
  simp
  omega

theorem eq_zero_iff_toNat {len : UInt64} : len = 0 ↔ len.toNat = 0 := by
  rw [← UInt64.toNat_inj]; rfl

theorem sub_roundLen_toNat (va len : UInt64) : (len - roundLen va len).toNat = len.toNat - (roundLen va len).toNat := by
  refine UInt64.toNat_sub_of_le _ _ ?_
  rw [UInt64.le_iff_toNat_le, roundLen_toNat]
  omega

/-! ## The loops on natural numbers -/

theorem copyinRounds_eq (pt : PageTable) (mem : Memory) (fuel : Nat) (srcva len : UInt64) :
    copyinRounds pt mem fuel srcva len = copyinBytes pt mem fuel srcva.toNat len.toNat := by
  induction fuel generalizing srcva len with
  | zero => rfl
  | succ fuel ih =>
      simp only [copyinRounds, copyinBytes, eq_zero_iff_toNat, roundDown_toNat]
      split
      · rfl
      split
      · rfl
      · rename_i hpa
        rw [ih, next_toNat (by rw [roundDown_toNat]; exact hpa), sub_roundLen_toNat, roundLen_toNat,
          sub_roundDown_toNat]

theorem copyin_eq (pt : PageTable) (mem : Memory) (srcva len : UInt64) :
    copyin pt mem srcva len = copyinFrom pt mem srcva.toNat len.toNat := copyinRounds_eq pt mem _ srcva len

theorem copyoutRounds_eq (pt : PageTable) (fuel : Nat) (mem : Memory) (dstva : UInt64) (src : List UInt8)
    (hsrc : src.length < 2 ^ 64) :
    (copyoutRounds pt fuel mem dstva src).val = copyoutBytes pt fuel mem dstva.toNat src := by
  induction fuel generalizing mem dstva src with
  | zero => rfl
  | succ fuel ih =>
      simp only [copyoutRounds, copyoutBytes, roundDown_toNat]
      split
      · rfl
      split
      · rfl
      · rename_i hpa
        have hlen : (UInt64.ofNat src.length).toNat = src.length := UInt64.toNat_ofNat_of_lt hsrc
        rw [Logged.val_use_bind, ih _ _ _ (by rw [List.length_drop]; omega),
          next_toNat (by rw [roundDown_toNat]; exact hpa), roundLen_toNat, sub_roundDown_toNat, hlen]

theorem copyoutLogged_val (pt : PageTable) (mem : Memory) (dstva : UInt64)
    (hsrc : src.length < 2 ^ 64) : (copyoutLogged pt mem dstva src).val = copyoutTo pt mem dstva.toNat src :=
  copyoutRounds_eq pt _ mem dstva src hsrc

/-! ## Strings -/

/-- What a scan for a NUL over at most `max` bytes has stored. It stops at the NUL, at the limit, or at a byte that is
not there. -/
structure Scan (byte : Nat → Option UInt8) (max : Nat) (r : Bool × List UInt8) : Prop where
  le : r.2.length ≤ max
  bytes : ∀ i < r.2.length, r.2[i]? = byte i
  found : r.1 = true → ∃ s, r.2 = s ++ [0] ∧ 0 ∉ s
  missed : r.1 = false → 0 ∉ r.2 ∧ (r.2.length = max ∨ byte r.2.length = none)

theorem Scan.nil (h : max = 0 ∨ byte 0 = none) : Scan byte max (false, []) :=
  ⟨Nat.zero_le _, fun _ h => absurd h (Nat.not_lt_zero _), nofun, fun _ => ⟨nofun, h.imp_left Eq.symm⟩⟩

/-- A scan that goes on behind bytes without a NUL. -/
theorem Scan.append {rest : Bool × List UInt8} (h : Scan byte n (false, bs)) (hn : bs.length = n) (hle : n ≤ max)
    (hrest : Scan (fun i => byte (n + i)) (max - n) rest) : Scan byte max (rest.1, bs ++ rest.2) := by
  obtain ⟨hzero, -⟩ := h.missed rfl
  have hbelow := hrest.le
  constructor
  · simp only [List.length_append]
    omega
  · intro i hi
    by_cases hin : i < bs.length
    · rw [List.getElem?_append_left hin]
      exact h.bytes i hin
    · rw [List.length_append] at hi
      rw [List.getElem?_append_right (Nat.le_of_not_lt hin), hrest.bytes _ (by omega)]
      congr 1
      omega
  · intro hr
    obtain ⟨s, hs, hz⟩ := hrest.found hr
    refine ⟨bs ++ s, by rw [hs, List.append_assoc], ?_⟩
    simp only [List.mem_append, not_or]
    exact ⟨hzero, hz⟩
  · intro hr
    obtain ⟨hz, hend⟩ := hrest.missed hr
    refine ⟨by simp only [List.mem_append, not_or]; exact ⟨hzero, hz⟩, ?_⟩
    rw [List.length_append, hn]
    exact hend.imp_left (by omega)

/-- A limit, or a byte that is missing, that the scan has not come to does not matter. -/
theorem Scan.found_of_le {byte' : Nat → Option UInt8}
    (h : Scan byte n (true, bs)) (hle : n ≤ max) (heq : ∀ i < n, byte i = byte' i) : Scan byte' max (true, bs) := by
  have hbelow : bs.length ≤ n := h.le
  exact ⟨hbelow.trans hle, fun i hi => by rw [h.bytes i hi]; exact heq i (Nat.lt_of_lt_of_le hi hbelow), h.found, nofun⟩

theorem Scan.congr {byte' : Nat → Option UInt8} (h : Scan byte n (false, bs))
    (hn : bs.length = n) (heq : ∀ i < n, byte i = byte' i) : Scan byte' n (false, bs) :=
  ⟨h.le, fun i hi => by rw [h.bytes i hi]; exact heq i (hn ▸ hi), nofun, fun _ => ⟨(h.missed rfl).1, .inl hn⟩⟩

theorem scanPage_scan (mem : Memory) (p n : Nat) : Scan (fun i => some (mem (p + i))) n (scanPage mem p n) := by
  induction n generalizing p with
  | zero => exact .nil (.inl rfl)
  | succ n ih =>
      simp only [scanPage]
      split
      · rename_i hz
        refine ⟨by simp, fun i hi => ?_, fun _ => ⟨[], rfl, nofun⟩, nofun⟩
        obtain rfl : i = 0 := by simpa using hi
        simp [hz]
      · rename_i hz
        have hfirst : Scan (fun i => some (mem (p + i))) 1 (false, [mem p]) := by
          refine ⟨by simp, fun i hi => ?_, nofun, fun _ => ⟨by simpa using Ne.symm hz, .inl rfl⟩⟩
          obtain rfl : i = 0 := by simpa using hi
          rfl
        refine hfirst.append rfl (by omega) ?_
        have hrest := ih (p + 1)
        simpa only [Nat.add_assoc, Nat.add_sub_cancel] using hrest

theorem userByte_first {va : UInt64} {i : Nat} (hpa : walkaddr pt (roundDown va).toNat ≠ 0)
    (hi : i < PGSIZE - (va.toNat - pgRoundDown va.toNat)) :
    some (mem (walkaddr pt (roundDown va).toNat + (va - roundDown va).toNat + i)) = userByte pt mem (va.toNat + i) := by
  rw [roundDown_toNat] at hpa ⊢
  rw [userByte, userAddr_first rfl hpa hi, sub_roundDown_toNat]
  rfl

/-- `copyinstr` is the scan of the bytes of the user. -/
theorem copyinstrRounds_scan (pt : PageTable) (mem : Memory) (fuel : Nat) (srcva max : UInt64)
    (hfuel : max.toNat ≤ fuel) :
    Scan (fun i => userByte pt mem (srcva.toNat + i)) max.toNat (copyinstrRounds pt mem fuel srcva max) := by
  induction fuel generalizing srcva max with
  | zero => exact .nil (.inl (by omega))
  | succ fuel ih =>
      have hlen := roundLen_toNat srcva max
      have hlt := lt_pgRoundDown_add srcva.toNat
      have hle := pgRoundDown_le srcva.toNat
      simp only [copyinstrRounds]
      split
      · rename_i h0
        exact .nil (.inl (eq_zero_iff_toNat.mp h0))
      rename_i h0
      rw [eq_zero_iff_toNat] at h0
      split
      · rename_i hpa
        rw [roundDown_toNat] at hpa
        exact .nil (.inr (by rw [Nat.add_zero, userByte, userAddr, if_pos hpa]; rfl))
      · rename_i hpa
        have hscan := scanPage_scan mem (walkaddr pt (roundDown srcva).toNat + (srcva - roundDown srcva).toNat)
          (roundLen srcva max).toNat
        have heq : ∀ i < (roundLen srcva max).toNat, some (mem (walkaddr pt (roundDown srcva).toNat +
            (srcva - roundDown srcva).toNat + i)) = userByte pt mem (srcva.toNat + i) :=
          fun i hi => userByte_first hpa (by omega)
        rcases hs : scanPage mem (walkaddr pt (roundDown srcva).toNat + (srcva - roundDown srcva).toNat)
          (roundLen srcva max).toNat with ⟨_ | _, bs⟩
        · rw [hs] at hscan
          rw [if_neg (by simp)]
          have hn : bs.length = (roundLen srcva max).toNat := by simpa using (hscan.missed rfl).2
          refine (hscan.congr hn heq).append hn (by omega) ?_
          have hrest := ih (roundDown srcva + 4096) (max - roundLen srcva max) (by rw [sub_roundLen_toNat]; omega)
          rw [next_toNat hpa, sub_roundLen_toNat] at hrest
          -- the next page starts where this round ends, unless nothing is left
          by_cases hmore : (roundLen srcva max).toNat < max.toNat
          · have hnext : ∀ i, pgRoundDown srcva.toNat + PGSIZE + i = srcva.toNat + ((roundLen srcva max).toNat + i) := by
              intro i
              omega
            simpa only [hnext] using hrest
          · refine ⟨hrest.le, fun i hi => ?_, hrest.found, fun hr => ⟨(hrest.missed hr).1, .inl ?_⟩⟩
            · have := hrest.le
              omega
            · have := hrest.le
              omega
        · rw [hs] at hscan
          rw [if_pos rfl]
          exact hscan.found_of_le (by omega) heq

theorem copyinstr_scan (pt : PageTable) (mem : Memory) (srcva max : UInt64) :
    Scan (fun i => userByte pt mem (srcva.toNat + i)) max.toNat (copyinstr pt mem srcva max) :=
  copyinstrRounds_scan pt mem _ srcva max (Nat.le_refl _)

/-- A scan finds a NUL if there is one below the limit with every byte before it. -/
theorem Scan.found_iff {r : Bool × List UInt8} (h : Scan byte max r) :
    r.1 = true ↔ ∃ k < max, (∀ i ≤ k, (byte i).isSome) ∧ byte k = some 0 := by
  constructor
  · intro hr
    obtain ⟨s, hs, -⟩ := h.found hr
    have hlen : r.2.length = s.length + 1 := by rw [hs]; simp
    have hle := h.le
    refine ⟨s.length, by omega, fun i hi => ?_, ?_⟩
    · rw [← h.bytes i (by omega), List.getElem?_eq_getElem (by omega)]
      rfl
    · rw [← h.bytes _ (by omega), hs]
      simp
  · rintro ⟨k, hk, hsome, hzero⟩
    by_contra hr
    obtain ⟨hz, hend⟩ := h.missed (by simpa using hr)
    by_cases hin : k < r.2.length
    · -- the NUL would be among the bytes that were stored
      rw [← h.bytes k hin] at hzero
      exact hz (List.mem_of_getElem? hzero)
    · rcases hend with hend | hend
      · omega
      · have := hsome r.2.length (by omega)
        simp [hend] at this

/-! ## The pages of a range -/

theorem walkaddr_page (hpa : ∀ i pte, pt.leaves.lookup i = some pte → pte.pa ≠ 0) (va : Nat) :
    walkaddr pt (pgRoundDown va) ≠ 0 ↔ pt.UserPage (va / PGSIZE) := by
  have hdiv : pgRoundDown va / PGSIZE = va / PGSIZE := Nat.mul_div_cancel _ (by decide)
  constructor
  · intro h
    obtain ⟨hmax, pte, hpte, hu, -⟩ := walkaddr_leaf rfl h
    exact ⟨hmax, pte, hdiv ▸ hpte, hu⟩
  · rintro ⟨hmax, pte, hpte, hu⟩
    have hround : ¬ MAXVA ≤ pgRoundDown va := Nat.not_le.mpr hmax
    rw [walkaddr, if_neg hround, hdiv, hpte]
    simpa only [hu, if_true] using hpa _ _ hpte

theorem userAddr_isSome (va : Nat) : (userAddr pt va).isSome ↔ walkaddr pt (pgRoundDown va) ≠ 0 := by
  simp only [userAddr]
  split <;> simp [*]

theorem maps_iff_userRange (hpa : ∀ i pte, pt.leaves.lookup i = some pte → pte.pa ≠ 0) (va n : Nat) :
    pt.Maps va n ↔ pt.UserRange va n := by
  simp only [PageTable.Maps, PageTable.UserRange, userAddr_isSome, walkaddr_page hpa]

theorem userByte_all_isSome {va k : Nat} : (∀ i ≤ k, (userByte pt mem (va + i)).isSome) ↔ pt.Maps va (k + 1) := by
  simp only [userByte, Option.isSome_map, PageTable.Maps, Nat.lt_succ_iff]

theorem CopiedFrom.delivers {va len : Nat} {r : Bool × List UInt8} (h : CopiedFrom pt mem va len r) (hr : r.1 = true) :
    Delivers pt mem va len r.2 := by
  have hlen := h.done hr
  refine ⟨hlen, fun i hi => ?_⟩
  obtain ⟨a, ha, hbyte⟩ := h.bytes i (hlen ▸ hi)
  rw [List.getElem?_eq_getElem (hlen ▸ hi), hbyte, userByte, ha]
  rfl

/-- What was copied out is copied in again. -/
theorem Copied.copyin {dstva : Nat} (h : Copied pt mem mem' dstva src) :
    copyinFrom pt mem' dstva src.length = (true, src) := by
  have hcopied := copyinFrom_copied pt mem' dstva src.length
  have hmaps : pt.Maps dstva src.length := by
    intro i hi
    obtain ⟨a, ha, -⟩ := h.bytes i hi
    simp [ha]
  have hdone := hcopied.done_iff.mpr hmaps
  have hlen := hcopied.done hdone
  refine Prod.ext hdone (List.ext_getElem hlen fun i hi hi' => ?_)
  obtain ⟨a, ha, hbyte⟩ := hcopied.bytes i hi
  obtain ⟨a', ha', hbyte'⟩ := h.bytes i hi'
  obtain rfl : a = a' := Option.some.inj (ha.symm.trans ha')
  rw [hbyte, hbyte']

/-! ## Where `copyout` writes -/

section Rounds

variable {dstva len n : Nat}

/-- The bytes of the first round are mapped together. -/
theorem maps_round (hpa : walkaddr pt (pgRoundDown dstva) ≠ 0)
    (hn : n = min len (PGSIZE - (dstva - pgRoundDown dstva))) : pt.Maps dstva n := by
  intro i hi
  simp [userAddr_first rfl hpa (show i < PGSIZE - (dstva - pgRoundDown dstva) by omega)]

/-- Past the first round the range goes on with the next page. -/
theorem maps_next (hpa : walkaddr pt (pgRoundDown dstva) ≠ 0)
    (hn : n = min len (PGSIZE - (dstva - pgRoundDown dstva))) (hmore : n < len) (m : Nat) :
    pt.Maps dstva (n + m) ↔ pt.Maps (pgRoundDown dstva + PGSIZE) m := by
  have hlt := lt_pgRoundDown_add dstva
  have hle := pgRoundDown_le dstva
  have hnext : ∀ i, pgRoundDown dstva + PGSIZE + i = dstva + (n + i) := by
    intro i
    omega
  constructor
  · intro h i hi
    rw [hnext]
    exact h (n + i) (by omega)
  · intro h i hi
    by_cases hin : i < n
    · exact maps_round hpa hn i hin
    · have := h (i - n) (by omega)
      rwa [hnext, show n + (i - n) = i by omega] at this

end Rounds

/-- A byte that `copyout` changes stands for an address of the range, and every page up to it is mapped. -/
theorem copyoutBytes_changed {fuel dstva a : Nat} (hfuel : src.length ≤ fuel)
    (h : (copyoutBytes pt fuel mem dstva src).2 a ≠ mem a) :
    ∃ i < src.length, pt.Maps dstva (i + 1) ∧ userAddr pt (dstva + i) = some a := by
  induction fuel generalizing mem dstva src with
  | zero => exact absurd rfl h
  | succ fuel ih =>
      have hlt := lt_pgRoundDown_add dstva
      have hle := pgRoundDown_le dstva
      simp only [copyoutBytes] at h
      split at h
      · exact absurd rfl h
      rename_i hsrc
      have hpos := List.length_pos_iff.mpr hsrc
      split at h
      · exact absurd rfl h
      rename_i hpa
      generalize hn : min src.length (PGSIZE - (dstva - pgRoundDown dstva)) = n at h
      generalize hoff : walkaddr pt (pgRoundDown dstva) + (dstva - pgRoundDown dstva) = off at h
      by_cases hrest : (copyoutBytes pt fuel (write mem off (src.take n)) (pgRoundDown dstva + PGSIZE) (src.drop n)).2 a =
          write mem off (src.take n) a
      · -- it is this round that changes the byte
        rw [hrest] at h
        have hin : off ≤ a ∧ a < off + n := by
          by_contra hout
          refine h ?_
          rcases Nat.lt_or_ge a off with hbelow | habove
          · exact write_of_lt hbelow
          · exact write_of_le (by rw [List.length_take]; omega)
        refine ⟨a - off, by omega, (maps_round hpa hn.symm).mono (by omega), ?_⟩
        rw [userAddr_first rfl hpa (by omega), hoff]
        congr 1
        omega
      · obtain ⟨i, hi, hmaps, ha⟩ := ih (by rw [List.length_drop]; omega) hrest
        rw [List.length_drop] at hi
        have hmore : n < src.length := by omega
        refine ⟨n + i, by omega, (maps_next hpa hn.symm hmore (i + 1)).mpr hmaps, ?_⟩
        rw [← ha]
        congr 1
        omega

/-- The pages that `copyout` writes to are those of the range up to the first that is not mapped. -/
theorem mem_copyoutRounds_log {fuel : Nat} {dstva : UInt64} (hfuel : src.length ≤ fuel)
    (hsrc : src.length < 2 ^ 64) (page : Nat) :
    page ∈ (copyoutRounds pt fuel mem dstva src).log ↔
      ∃ i < src.length, pt.Maps dstva.toNat (i + 1) ∧ (dstva.toNat + i) / PGSIZE = page := by
  induction fuel generalizing mem dstva src with
  | zero =>
      obtain rfl : src = [] := List.length_eq_zero_iff.mp (by omega)
      simp [copyoutRounds]
  | succ fuel ih =>
      have hlt := lt_pgRoundDown_add dstva.toNat
      have hle := pgRoundDown_le dstva.toNat
      simp only [copyoutRounds]
      split
      · next hnil => simp [hnil]
      next hne =>
      have hpos := List.length_pos_iff.mpr hne
      split
      · next hpa =>
        rw [roundDown_toNat] at hpa
        simp only [Logged.log_pure, List.not_mem_nil, false_iff, not_exists, not_and]
        intro i _ hmaps
        have := hmaps 0 (by omega)
        simp [userAddr, hpa] at this
      · next hpa =>
        have hlen : (UInt64.ofNat src.length).toNat = src.length := UInt64.toNat_ofNat_of_lt hsrc
        have hround := roundLen_toNat dstva (.ofNat src.length)
        have hdiv : (roundDown dstva).toNat / PGSIZE = dstva.toNat / PGSIZE := by
          rw [roundDown_toNat]
          exact Nat.mul_div_cancel _ (by decide)
        have hnext := next_toNat hpa
        rw [roundDown_toNat] at hpa
        rw [hlen] at hround
        generalize (roundLen dstva (.ofNat src.length)).toNat = n at hround
        rw [Logged.log_bind, Logged.log_use, Logged.val_use, List.singleton_append, List.mem_cons, hdiv,
          ih (by rw [List.length_drop]; omega) (by rw [List.length_drop]; omega), hnext, List.length_drop]
        constructor
        · rintro (rfl | ⟨i, hi, hmaps, rfl⟩)
          · exact ⟨0, hpos, (maps_round hpa hround).mono (by omega), rfl⟩
          · refine ⟨n + i, by omega, (maps_next hpa hround (by omega) (i + 1)).mpr hmaps, ?_⟩
            rw [show dstva.toNat + (n + i) = pgRoundDown dstva.toNat + PGSIZE + i by omega]
        · rintro ⟨i, hi, hmaps, rfl⟩
          by_cases hin : i < n
          · left
            simp only [pgRoundDown, PGSIZE] at *
            omega
          · right
            obtain ⟨j, rfl⟩ := Nat.exists_eq_add_of_le (Nat.le_of_not_lt hin)
            refine ⟨j, by omega, (maps_next hpa hround (by omega) (j + 1)).mp hmaps, ?_⟩
            rw [show dstva.toNat + (n + j) = pgRoundDown dstva.toNat + PGSIZE + j by omega]

theorem mem_copyoutLogged_log (pt : PageTable) (mem : Memory) (dstva : UInt64)
    (hsrc : src.length < 2 ^ 64) (page : Nat) : page ∈ (copyoutLogged pt mem dstva src).log ↔
      ∃ i < src.length, pt.Maps dstva.toNat (i + 1) ∧ (dstva.toNat + i) / PGSIZE = page :=
  mem_copyoutRounds_log (Nat.le_refl _) hsrc page

end Xv6Net.Vm
