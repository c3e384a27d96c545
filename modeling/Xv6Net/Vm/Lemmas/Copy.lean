import Xv6Net.Vm.Copy

/-!
# What `copyout` writes and `copyin` reads

Bytes of memory that no address of the range stands for stay as they are. Where every page of the table has a physical
page of its own, the addresses of the range get the bytes in their order.
-/

namespace Xv6Net.Vm

open Kernel Lib

variable {pt : PageTable} {mem mem' : Memory} {va dstva fuel : Nat} {src : List UInt8} {bs : List UInt8}
  {a i off pa0 : Nat}

theorem pgRoundDown_le (va : Nat) : pgRoundDown va ≤ va := Nat.div_mul_le_self va PGSIZE

theorem lt_pgRoundDown_add (va : Nat) : va < pgRoundDown va + PGSIZE := by
  simp only [pgRoundDown, PGSIZE]; omega

/-- The bytes of a page have the same address rounded down. -/
theorem pgRoundDown_add (h : i < PGSIZE - (va - pgRoundDown va)) : pgRoundDown (va + i) = pgRoundDown va := by
  simp only [pgRoundDown, PGSIZE] at *; omega

theorem walkaddr_leaf {pa : Nat} (h : walkaddr pt va = pa) (hpa : pa ≠ 0) :
    va < MAXVA ∧ ∃ pte, pt.leaves.lookup (va / PGSIZE) = some pte ∧ pte.perm.u = true ∧ pte.pa = pa := by
  unfold walkaddr at h
  split at h
  · exact absurd h.symm hpa
  · rename_i hva
    split at h
    · exact absurd h.symm hpa
    · rename_i pte hpte
      split at h
      · rename_i hu
        exact ⟨Nat.lt_of_not_le hva, pte, hpte, hu, h⟩
      · exact absurd h.symm hpa

theorem userAddr_eq_some : userAddr pt va = some a ↔
    walkaddr pt (pgRoundDown va) ≠ 0 ∧ a = walkaddr pt (pgRoundDown va) + (va - pgRoundDown va) := by
  simp only [userAddr]
  split
  · simp [*]
  · rename_i hne
    simp only [Option.some.injEq, ne_eq, hne, not_false_eq_true, true_and]
    exact eq_comm

theorem userAddr_first (hpa : walkaddr pt (pgRoundDown va) = pa0) (hne : pa0 ≠ 0)
    (hi : i < PGSIZE - (va - pgRoundDown va)) : userAddr pt (va + i) = some (pa0 + (va - pgRoundDown va) + i) := by
  have hle := pgRoundDown_le va
  rw [userAddr_eq_some, pgRoundDown_add hi, hpa]
  exact ⟨hne, by omega⟩

theorem PageTable.Own.userOwn (h : pt.Own) : pt.UserOwn :=
  ⟨fun i pte hl _ => h.aligned i pte hl, fun i j p q hp hq _ _ => h.distinct i j p q hp hq⟩

theorem PageTable.UserOwn.userAddr_inj (h : pt.UserOwn) {va' : Nat} (hva : userAddr pt va = some a)
    (hva' : userAddr pt va' = some a) : va = va' := by
  obtain ⟨hne, rfl⟩ := userAddr_eq_some.mp hva
  obtain ⟨hne', heq⟩ := userAddr_eq_some.mp hva'
  obtain ⟨-, p, hp, hpu, hpa⟩ := walkaddr_leaf rfl hne
  obtain ⟨-, q, hq, hqu, hqa⟩ := walkaddr_leaf rfl hne'
  have halign := h.aligned _ _ hp hpu
  have halign' := h.aligned _ _ hq hqu
  have hle := pgRoundDown_le va
  have hlt := lt_pgRoundDown_add va
  have hle' := pgRoundDown_le va'
  have hlt' := lt_pgRoundDown_add va'
  -- both offsets are below a page, so the two pages are one
  have hpages : p.pa = q.pa := by simp only [PGSIZE] at *; omega
  have hidx := h.distinct _ _ _ _ hp hq hpu hqu hpages
  simp only [pgRoundDown, PGSIZE] at *
  omega

/-! ## One round -/

theorem write_of_lt (h : a < off) : write mem off bs a = mem a := by
  simp [write, Nat.not_le.mpr h]

theorem write_of_le (h : off + bs.length ≤ a) : write mem off bs a = mem a := by
  simp [write, show off ≤ a by omega, List.getElem?_eq_none (show bs.length ≤ a - off by omega)]

theorem write_add (h : i < bs.length) : write mem off bs (off + i) = bs[i] := by
  simp [write, h]

/-! ## The loop -/

theorem Copied.nil (pt : PageTable) (mem : Memory) (dstva : Nat) : Copied pt mem mem dstva [] :=
  ⟨fun _ h => absurd h (Nat.not_lt_zero _), fun _ _ => rfl⟩

/-- The first page of a copy, with what follows on the next one. -/
theorem Copied.page (hown : pt.UserOwn) (hpa : walkaddr pt (pgRoundDown dstva) = pa0) (hne : pa0 ≠ 0)
    (hn : n = min src.length (PGSIZE - (dstva - pgRoundDown dstva)))
    (h : Copied pt (write mem (pa0 + (dstva - pgRoundDown dstva)) (src.take n)) mem' (pgRoundDown dstva + PGSIZE)
      (src.drop n)) : Copied pt mem mem' dstva src := by
  have hlt := lt_pgRoundDown_add dstva
  have hle := pgRoundDown_le dstva
  have hfirst : ∀ i < n, userAddr pt (dstva + i) = some (pa0 + (dstva - pgRoundDown dstva) + i) := by
    intro i hi
    exact userAddr_first hpa hne (by omega)
  -- the rest of the bytes, if there are any, start with the next page
  have hnext : ∀ i < (src.drop n).length, pgRoundDown dstva + PGSIZE + i = dstva + (n + i) := by
    intro i hi
    rw [List.length_drop] at hi
    omega
  constructor
  · intro i hi
    by_cases hin : i < n
    · refine ⟨_, hfirst i hin, ?_⟩
      rw [h.rest, write_add (by rw [List.length_take]; omega), List.getElem_take]
      -- a later address is not this byte
      intro j hj heq
      have := hown.userAddr_inj heq (hfirst i hin)
      rw [hnext j hj] at this
      omega
    · obtain ⟨a, ha, hmem⟩ := h.bytes (i - n) (by rw [List.length_drop]; omega)
      refine ⟨a, ?_, ?_⟩
      · rw [hnext _ (by rw [List.length_drop]; omega)] at ha
        rwa [show n + (i - n) = i by omega] at ha
      · rw [hmem, List.getElem_drop]
        congr 1
        omega
  · intro a ha
    rw [h.rest a fun i hi heq => ha (n + i) ?_ (by rw [← hnext i hi]; exact heq)]
    · by_cases hbelow : a < pa0 + (dstva - pgRoundDown dstva)
      · exact write_of_lt hbelow
      · refine write_of_le ?_
        by_contra hin
        rw [List.length_take] at hin
        refine ha (a - (pa0 + (dstva - pgRoundDown dstva))) (by omega) ?_
        rw [hfirst _ (by omega)]
        congr 1
        omega
    · rw [List.length_drop] at hi
      omega

theorem copyoutBytes_copied (hown : pt.UserOwn) (hfuel : src.length ≤ fuel)
    (h : copyoutBytes pt fuel mem dstva src = (true, mem')) : Copied pt mem mem' dstva src := by
  induction fuel generalizing mem dstva src with
  | zero =>
      obtain rfl : src = [] := List.length_eq_zero_iff.mp (by omega)
      cases h
      exact .nil pt mem' dstva
  | succ fuel ih =>
      simp only [copyoutBytes] at h
      split at h
      · rename_i hnil
        subst hnil
        cases h
        exact .nil pt mem' dstva
      · rename_i hsrc
        split at h
        · cases h
        · rename_i hpa
          have hpos := List.length_pos_iff.mpr hsrc
          have hlt := lt_pgRoundDown_add dstva
          have hle := pgRoundDown_le dstva
          refine .page hown rfl hpa rfl (ih ?_ h)
          rw [List.length_drop]
          omega

theorem copyoutTo_copied (hown : pt.UserOwn) (h : copyoutTo pt mem dstva src = (true, mem')) :
    Copied pt mem mem' dstva src := copyoutBytes_copied hown (Nat.le_refl _) h

/-! ## Copying from the user -/

/-- The first page of a copy, with what is read from the next one on. -/
theorem CopiedFrom.page {len : Nat} {r : Bool × List UInt8} (hpa : walkaddr pt (pgRoundDown va) = pa0)
    (hne : pa0 ≠ 0) (hn : n = min len (PGSIZE - (va - pgRoundDown va)))
    (h : CopiedFrom pt mem (pgRoundDown va + PGSIZE) (len - n) r) :
    CopiedFrom pt mem va len (r.1, slice mem (pa0 + (va - pgRoundDown va)) n ++ r.2) := by
  have hlt := lt_pgRoundDown_add va
  have hle := pgRoundDown_le va
  have hlength : (slice mem (pa0 + (va - pgRoundDown va)) n ++ r.2).length = n + r.2.length := by simp
  -- nothing is left unless the page ends before the range does
  have hnext (hmore : n < len) (i : Nat) : pgRoundDown va + PGSIZE + i = va + (n + i) := by omega
  have hmore : 0 < r.2.length ∨ r.1 = false → n < len := by
    intro hr
    by_contra hend
    cases hb : r.1 with
    | true =>
        have hdone := h.done hb
        rw [hb] at hr
        simp at hr
        omega
    | false =>
        have := (h.stopped hb).1
        omega
  constructor
  · intro i hi
    by_cases hin : i < n
    · refine ⟨_, userAddr_first hpa hne (by omega), ?_⟩
      simp [List.getElem_append_left, slice, hin]
    · rw [hlength] at hi
      obtain ⟨a, ha, hmem⟩ := h.bytes (i - n) (by omega)
      rw [hnext (hmore (.inl (by omega))), show n + (i - n) = i by omega] at ha
      refine ⟨a, ha, ?_⟩
      rw [← hmem]
      simp [List.getElem_append_right, Nat.le_of_not_lt hin]
  · intro hb
    have := h.done hb
    rw [hlength]
    omega
  · intro hb
    obtain ⟨hstop, hnone⟩ := h.stopped hb
    rw [hnext (hmore (.inr hb))] at hnone
    rw [hlength]
    exact ⟨by omega, hnone⟩

theorem copyinBytes_copied {len : Nat} (hfuel : len ≤ fuel) :
    CopiedFrom pt mem va len (copyinBytes pt mem fuel va len) := by
  induction fuel generalizing va len with
  | zero =>
      obtain rfl : len = 0 := by omega
      exact ⟨fun _ h => absurd h (Nat.not_lt_zero _), fun _ => rfl, nofun⟩
  | succ fuel ih =>
      simp only [copyinBytes]
      split
      · next h0 => exact ⟨fun _ h => absurd h (Nat.not_lt_zero _), fun _ => h0.symm, nofun⟩
      split
      · next h0 hpa =>
        refine ⟨fun _ h => absurd h (Nat.not_lt_zero _), nofun, fun _ => ⟨Nat.pos_of_ne_zero h0, ?_⟩⟩
        simp [userAddr, hpa]
      · next h0 hpa =>
        have hlt := lt_pgRoundDown_add va
        have hle := pgRoundDown_le va
        exact .page rfl hpa rfl (ih (by omega))

theorem copyinFrom_copied (pt : PageTable) (mem : Memory) (srcva len : Nat) :
    CopiedFrom pt mem srcva len (copyinFrom pt mem srcva len) := copyinBytes_copied (Nat.le_refl len)

namespace CopiedFrom

variable {len n : Nat} {r : Bool × List UInt8}

/-- So many bytes are copied, if the range is that long, as are mapped one after another. -/
theorem le_length_iff (h : CopiedFrom pt mem va len r) (hn : n ≤ len) : n ≤ r.2.length ↔ pt.Maps va n := by
  constructor
  · intro hle i hi
    obtain ⟨a, ha, -⟩ := h.bytes i (by omega)
    simp [ha]
  · intro hmaps
    by_contra hlt
    cases hb : r.1 with
    | true =>
        have := h.done hb
        omega
    | false =>
        have hstop := hmaps r.2.length (by omega)
        simp [(h.stopped hb).2] at hstop

theorem done_iff (h : CopiedFrom pt mem va len r) : r.1 = true ↔ pt.Maps va len := by
  rw [← h.le_length_iff (Nat.le_refl len)]
  cases hb : r.1 with
  | true =>
      have := h.done hb
      simp [this]
  | false =>
      have := (h.stopped hb).1
      simp [this]

end CopiedFrom

/-- `copyout` goes through the pages that `copyin` goes through. -/
theorem copyoutBytes_fst (pt : PageTable) (mem mem' : Memory) (dstva : Nat) (src : List UInt8) (fuel : Nat) :
    (copyoutBytes pt fuel mem dstva src).1 = (copyinBytes pt mem' fuel dstva src.length).1 := by
  induction fuel generalizing mem dstva src with
  | zero => rfl
  | succ fuel ih =>
      simp only [copyoutBytes, copyinBytes, List.length_eq_zero_iff]
      split
      · rfl
      split
      · rfl
      · rw [ih, List.length_drop]

/-- A range can be copied to if it is mapped, as it can be copied from. -/
theorem copyoutTo_iff (mem : Memory) : (copyoutTo pt mem dstva src).1 = true ↔ pt.Maps dstva src.length := by
  rw [copyoutTo, copyoutBytes_fst pt mem mem]
  exact (copyinFrom_copied pt mem dstva _).done_iff

theorem copyoutTo_of_maps (mem : Memory) (hmaps : pt.Maps dstva src.length) :
    ∃ mem', copyoutTo pt mem dstva src = (true, mem') := ⟨_, Prod.ext ((copyoutTo_iff mem).mpr hmaps) rfl⟩

theorem userAddr_maxva (pt : PageTable) (hva : MAXVA ≤ va) : userAddr pt va = none := by
  have hround : MAXVA ≤ pgRoundDown va := by simp only [pgRoundDown, PGSIZE, MAXVA] at *; omega
  simp [userAddr, walkaddr, hround]

/-- No range that is longer than the address space is mapped. -/
theorem PageTable.Maps.le_maxva (h : pt.Maps va n) : n ≤ MAXVA := by
  by_contra hlt
  have := h MAXVA (by omega)
  simp [userAddr_maxva pt (Nat.le_add_left MAXVA va)] at this

theorem PageTable.Maps.mono {m : Nat} (h : pt.Maps va n) (hle : m ≤ n) : pt.Maps va m :=
  fun i hi => h i (by omega)

end Xv6Net.Vm
