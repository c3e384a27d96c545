import Xv6Net.Vm.Lemmas.Uvm

/-!
# Tables that map the pages below a size

`pt.Covers sz`: in user memory exactly the pages below `sz` are mapped. The functions on the memory of one process
lead from one such table to another, also where they fail.
-/

namespace Xv6Net.Vm

open Kernel Lib

variable {k k' : Kmem} {pt pt' : PageTable} {i n newsz oldsz sz : Nat}

theorem PageTable.mem_congr (h : pt'.leaves.lookup i = pt.leaves.lookup i) : i ∈ pt'.leaves ↔ i ∈ pt.leaves := by
  rw [← AList.lookup_isSome, ← AList.lookup_isSome, h]

/-! ## Growing and shrinking -/

theorem uvmdealloc_leaves (hsz : oldsz ≤ TRAPFRAME) :
    Ensures (uvmdealloc k pt oldsz newsz) fun (sz, _, pt') => sz = min oldsz newsz ∧
      ∀ j, pt'.leaves.lookup j = if newsz < oldsz ∧ pgRoundUp newsz / PGSIZE ≤ j ∧ j < pgRoundUp oldsz / PGSIZE
        then none else pt.leaves.lookup j := by
  unfold uvmdealloc
  split
  · exact .ok ⟨by omega, fun j => by rw [if_neg (by omega)]⟩
  · obtain ⟨ho, -, -, -⟩ := pgRoundUp_spec hsz
    obtain ⟨hn, -, -, -⟩ := pgRoundUp_spec (show newsz ≤ TRAPFRAME by omega)
    split
    · dsimp only [uvmunmap]
      rw [if_neg (not_not.mpr hn)]
      refine (unmapLoop_leaves hn).bind fun (k₁, pt₁) ⟨_, _, hl⟩ => .ok ⟨by dsimp only; omega, fun j => ?_⟩
      rw [hl j]
      have hend : pgRoundUp newsz / PGSIZE + (pgRoundUp oldsz - pgRoundUp newsz) / PGSIZE = pgRoundUp oldsz / PGSIZE := by
        simp only [PGSIZE] at ho hn ⊢; omega
      rw [hend]
      by_cases hj : pgRoundUp newsz / PGSIZE ≤ j ∧ j < pgRoundUp oldsz / PGSIZE
      · rw [if_pos hj, if_pos ⟨by omega, hj⟩]
      · rw [if_neg hj, if_neg fun h => hj h.2]
    · rename_i hge
      have hle : pgRoundUp oldsz / PGSIZE ≤ pgRoundUp newsz / PGSIZE := Nat.div_le_div_right (by omega)
      exact .ok ⟨by omega, fun j => by rw [if_neg (by omega)]⟩

/-- From a whole page to a whole page. -/
theorem uvmdealloc_pages {a : Nat} (ha : a % PGSIZE = 0) (ho : oldsz % PGSIZE = 0) (hle : a ≤ TRAPFRAME)
    (hoa : oldsz ≤ a) :
    Ensures (uvmdealloc k pt a oldsz) fun (_, _, pt') => ∀ j, pt'.leaves.lookup j =
      if oldsz / PGSIZE ≤ j ∧ j < a / PGSIZE then none else pt.leaves.lookup j := by
  have hup : ∀ {x}, x % PGSIZE = 0 → x ≤ TRAPFRAME → pgRoundUp x = x := by
    intro x hx hxl
    simp only [pgRoundUp, TRAPFRAME, TRAMPOLINE, MAXVA, PGSIZE] at *; omega
  refine (uvmdealloc_leaves hle).mono ?_
  rintro ⟨sz, k', pt'⟩ ⟨-, hl⟩ j
  rw [hl j, hup ho (by omega), hup ha hle]
  by_cases hj : oldsz / PGSIZE ≤ j ∧ j < a / PGSIZE
  · have hlt : oldsz < a := by
      by_contra hge
      have : a / PGSIZE ≤ oldsz / PGSIZE := Nat.div_le_div_right (by omega)
      omega
    rw [if_pos ⟨hlt, hj⟩, if_pos hj]
  · rw [if_neg fun h => hj h.2, if_neg hj]

/-- What the loop does to the table, `b` being whether it gets to its end: the `n` pages from `i` on are mapped, or those
from `o` up to `i` are taken back. -/
structure AllocLeaves (pt pt' : PageTable) (o i n : Nat) (b : Bool) : Prop where
  filled : b = true → ∀ j, i ≤ j → j < i + n → j ∉ pt.leaves ∧ j ∈ pt'.leaves
  same : b = true → ∀ j, j < i ∨ i + n ≤ j → pt'.leaves.lookup j = pt.leaves.lookup j
  undone : b = false → ∀ j, pt'.leaves.lookup j = if o ≤ j ∧ j < i then none else pt.leaves.lookup j

theorem AllocLeaves.refl (pt : PageTable) (o i : Nat) : AllocLeaves pt pt o i 0 true where
  filled _ j _ _ := by omega
  same _ _ _ := rfl
  undone hb := absurd hb.symm Bool.false_ne_true

theorem AllocLeaves.of_undone {o : Nat}
    (h : ∀ j, pt'.leaves.lookup j = if o ≤ j ∧ j < i then none else pt.leaves.lookup j) :
    AllocLeaves pt pt' o i n false where
  filled hb := absurd hb Bool.false_ne_true
  same hb := absurd hb Bool.false_ne_true
  undone _ := h

/-- Page `i` is mapped before the others. -/
theorem AllocLeaves.cons {pt₁ : PageTable} {o : Nat} {b : Bool} {pte : Pte} (hoi : o ≤ i) (hnot : i ∉ pt.leaves)
    (hleaves : pt₁.leaves = pt.leaves.insert i pte) (h : AllocLeaves pt₁ pt' o (i + 1) n b) :
    AllocLeaves pt pt' o i (n + 1) b := by
  refine ⟨fun hb j hj hjn => ?_, fun hb j hj => ?_, fun hb j => ?_⟩
  · by_cases hji : j = i
    · subst hji
      refine ⟨hnot, (PageTable.mem_congr (h.same hb _ (by omega))).mpr ?_⟩
      rw [hleaves]
      exact (AList.mem_insert _).mpr (.inl rfl)
    · obtain ⟨hn, hmem⟩ := h.filled hb j (by omega) (by omega)
      rw [hleaves] at hn
      exact ⟨fun hj => hn ((AList.mem_insert _).mpr (.inr hj)), hmem⟩
  · rw [h.same hb j (by omega), hleaves, AList.lookup_insert_ne (by omega)]
  · rw [h.undone hb j, hleaves]
    by_cases hji : j = i
    · subst hji
      rw [if_pos (by omega), if_neg (by omega)]
      exact (AList.lookup_eq_none.mpr hnot).symm
    · rw [AList.lookup_insert_ne hji]
      by_cases hj : o ≤ j ∧ j < i
      · rw [if_pos (by omega), if_pos hj]
      · rw [if_neg (by omega), if_neg hj]

theorem allocLoop_leaves {store : Store} {mem : Memory} {a : Nat} {perm : Perm} (ha : a % PGSIZE = 0) (ho : oldsz % PGSIZE = 0)
    (hle : a ≤ TRAPFRAME) (hoa : oldsz ≤ a) (htrap : USER_PAGES ∈ pt.leaves) :
    Ensures (allocLoop store mem k pt a oldsz perm n) fun (r, _, pt') =>
      AllocLeaves pt pt' (oldsz / PGSIZE) (a / PGSIZE) n r.isSome := by
  induction n generalizing mem k pt a with
  | zero => exact .ok (.refl ..)
  | succ n ih =>
      have hundo : ∀ {k : Kmem} {pt₁ : PageTable}, pt₁.leaves = pt.leaves →
          Ensures (uvmdealloc k pt₁ a oldsz >>= fun r => .ok ((none : Option Memory), r.2.1, r.2.2)) fun r =>
            AllocLeaves pt r.2.2 (oldsz / PGSIZE) (a / PGSIZE) (n + 1) r.1.isSome := by
        intro k pt₁ hpt₁
        refine (uvmdealloc_pages ha ho hle hoa).bind fun r hr => .ok (.of_undone fun j => ?_)
        rw [← hpt₁]
        exact hr j
      unfold allocLoop
      split
      · exact hundo rfl
      · refine (mappages_maps ha).bind ?_
        rintro ⟨b, k₂, pt₂⟩ hm
        cases b with
        | false => exact Ensures.bind_any fun k₃ => hundo (hm.failed rfl)
        | true =>
            obtain ⟨hnot, hleaves⟩ := hm.stored rfl
            have hne : a / PGSIZE ≠ USER_PAGES := fun h => hnot (h ▸ htrap)
            have hlt : a + PGSIZE ≤ TRAPFRAME := by
              simp only [USER_PAGES, TRAPFRAME, TRAMPOLINE, MAXVA, PGSIZE] at *; omega
            have hnext : (a + PGSIZE) / PGSIZE = a / PGSIZE + 1 := by simp only [PGSIZE]; omega
            refine (ih (by simp only [PGSIZE] at ha ⊢; omega) hlt (by omega)
              (by rw [hleaves]; exact (AList.mem_insert _).mpr (.inr htrap))).mono fun r hr => ?_
            rw [hnext] at hr
            exact hr.cons (Nat.div_le_div_right hoa) hnot hleaves

theorem uvmdealloc_covers (hsz : oldsz ≤ TRAPFRAME) (hc : pt.Covers oldsz) :
    Ensures (uvmdealloc k pt oldsz newsz) fun (sz, _, pt') => pt'.Covers sz := by
  refine (uvmdealloc_leaves hsz).mono fun (sz, k', pt') ⟨hmin, hl⟩ i hi => ?_
  obtain ⟨ho, hole, holt, -⟩ := pgRoundUp_spec hsz
  have hold := hc i hi
  rw [← AList.lookup_isSome, hl i, show sz = min oldsz newsz from hmin]
  split
  · rename_i hin
    obtain ⟨hn, hnle, -, -⟩ := pgRoundUp_spec (show newsz ≤ TRAPFRAME by omega)
    simp only [Option.isSome_none, Bool.false_eq_true, false_iff]
    simp only [PGSIZE] at *; omega
  · rename_i hout
    rw [AList.lookup_isSome, hold]
    by_cases hlt : newsz < oldsz
    · obtain ⟨hn, hnle, hnlt, -⟩ := pgRoundUp_spec (show newsz ≤ TRAPFRAME by omega)
      simp only [PGSIZE] at *; omega
    · rw [Nat.min_eq_left (by omega)]

/-- A failed call leaves the size as it was. -/
theorem uvmalloc_covers {w x : Bool} (hsz : oldsz ≤ TRAPFRAME) (htrap : USER_PAGES ∈ pt.leaves)
    (hc : pt.Covers oldsz) : Ensures (uvmalloc k pt oldsz newsz w x) fun (sz, _, pt') =>
      pt'.Covers (if sz = 0 then oldsz else sz) := by
  unfold uvmalloc uvmallocTo
  refine Ensures.bind (P := fun r => r.2.2.2.Covers (if r.1 = 0 then oldsz else r.1)) ?_ fun _ h => .ok h
  split
  · exact .ok (by dsimp only; rw [ite_self]; exact hc)
  · obtain ⟨ho, hole, holt, hup⟩ := pgRoundUp_spec hsz
    refine (allocLoop_leaves ho ho hup (Nat.le_refl _) htrap).bind ?_
    rintro ⟨r, k₁, pt₁⟩ hl
    refine .ok ?_
    cases r with
    | none =>
        show pt₁.Covers oldsz
        intro i hi
        rw [PageTable.mem_congr ((hl.undone rfl i).trans (if_neg (by omega)))]
        exact hc i hi
    | some mem =>
        show pt₁.Covers (if newsz = 0 then oldsz else newsz)
        intro i hi
        have hold := hc i hi
        have hnew : (i * PGSIZE < if newsz = 0 then oldsz else newsz) ↔ i * PGSIZE < newsz := by
          split
          · rename_i h0; rw [h0]; omega
          · rfl
        rw [hnew]
        by_cases hin : pgRoundUp oldsz / PGSIZE ≤ i ∧ i < pgRoundUp oldsz / PGSIZE + pagesBelow (pgRoundUp oldsz) newsz
        · refine ⟨fun _ => ?_, fun _ => (hl.filled rfl i hin.1 hin.2).2⟩
          simp only [pagesBelow, PGSIZE] at *; omega
        · rw [PageTable.mem_congr (hl.same rfl i (by omega)), hold]
          simp only [pagesBelow, PGSIZE] at *; omega

theorem uvmfirst_mem : Ensures (uvmfirst k pt sz) fun (_, pt') => ∀ i, i ∈ pt'.leaves → i = 0 ∨ i ∈ pt.leaves := by
  unfold uvmfirst
  split
  · exact .error
  · split
    · exact .error
    · refine (mappages_maps (by decide)).bind fun (b, k₂, pt₂) hm => .ok fun i hi => ?_
      cases b with
      | false => exact .inr (hm.failed rfl ▸ hi)
      | true =>
          rw [(hm.stored rfl).2] at hi
          exact (AList.mem_insert _).mp hi

/-- The last page is only partly used. -/
theorem PageTable.Covers.pgRoundUp (hsz : sz ≤ TRAPFRAME) (hc : pt.Covers sz) : pt.Covers (Kernel.pgRoundUp sz) := by
  intro i hi
  obtain ⟨hup, hle, hlt, -⟩ := pgRoundUp_spec hsz
  rw [hc i hi]
  simp only [PGSIZE] at *
  omega

theorem uvmclear_mem {va : Nat} : Ensures (uvmclear k pt va) fun pt' => ∀ i, i ∈ pt'.leaves ↔ i ∈ pt.leaves := by
  unfold uvmclear
  refine walk_false.bind fun (r, k₁, pt₁) ⟨_, _, hr⟩ => ?_
  cases r with
  | none => exact .error
  | some j =>
      obtain rfl := hr j rfl
      dsimp only
      split
      · exact .ok fun _ => Iff.rfl
      · rename_i pte hpte
        have hmem : va / PGSIZE ∈ pt.leaves := AList.lookup_isSome.mp (by rw [hpte]; rfl)
        refine .ok fun i => ?_
        rw [PageTable.storeLeaf_leaves (pt.leaves_tab _ hmem), AList.mem_insert]
        exact ⟨fun h => h.elim (fun h => h ▸ hmem) id, .inr⟩

/-! ## Copying -/

theorem copyLoop_mem {old : PageTable} :
    Ensures (copyLoop k old pt i n) fun (b, _, _, pt') => b = true →
      ∀ j, j ∈ pt'.leaves ↔ i ≤ j ∧ j < i + n ∨ j ∈ pt.leaves := by
  induction n generalizing k pt i with
  | zero => exact .ok fun _ j => ⟨.inr, fun h => h.resolve_left (by omega)⟩
  | succ n ih =>
      unfold copyLoop
      refine Ensures.bind_any fun pte => ?_
      split
      · exact .ok nofun
      · refine (mappages_maps (Nat.mul_mod_left ..)).bind fun (b, k₂, pt₂) hm => ?_
        rw [Nat.mul_div_cancel _ (by decide)] at hm
        cases b with
        | false => exact Ensures.bind_any fun _ => .ok nofun
        | true =>
            obtain ⟨-, hl₂⟩ := hm.stored rfl
            refine ih.mono fun (b, _, _, pt') hb ht j => ?_
            rw [hb ht, hl₂, AList.mem_insert]
            constructor
            · rintro (h | rfl | h)
              · exact .inl (by omega)
              · exact .inl (by omega)
              · exact .inr h
            · rintro (h | h)
              · by_cases hj : j = i
                · exact .inr (.inl hj)
                · exact .inl (by omega)
              · exact .inr (.inr h)

theorem uvmcopy_covers {old : PageTable} (hnew : ∀ i, i < USER_PAGES → i ∉ pt.leaves) :
    Ensures (uvmcopy k old pt sz) fun (b, _, pt') => b = true → pt'.Covers sz := by
  unfold uvmcopy
  refine copyLoop_mem.bind fun (b, j, k₁, pt₁) h₁ => ?_
  cases b with
  | false => exact Ensures.bind_any fun _ => .ok nofun
  | true =>
      refine .ok fun _ i hi => ?_
      have hnot := hnew i hi
      rw [h₁ rfl i]
      simp only [hnot, or_false, pagesBelow, PGSIZE]
      omega

end Xv6Net.Vm
