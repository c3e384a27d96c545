import Xv6Net.Vm.Lemmas.Uvm

/-!
# How many free pages a mapping needs

`mappages` fails only where the free pages run out while tables are added, so whether `uvmshare` succeeds is decided
by the number of free pages before it.
-/

namespace Xv6Net.Vm

open Kernel Lib

variable {k k' : Kmem} {pt pt' : PageTable} {i : Nat}

theorem PageTable.missing_eq_zero (h : i / 512 ∈ pt.tabs) : pt.missing i = 0 := by
  rw [missing, if_pos (pt.tabs_dir _ h), if_pos h]

theorem PageTable.missing_eq_two (h : i / 512 / 512 ∉ pt.dirs) : pt.missing i = 2 := by
  rw [missing, if_neg h, if_neg fun ht => h (pt.tabs_dir _ ht)]

/-- What `walk` and `mappages` do with the free pages and with the tables, `b` being whether they get to page `i`. -/
structure Takes (k : Kmem) (pt : PageTable) (k' : Kmem) (pt' : PageTable) (i : Nat) (b : Bool) : Prop where
  short : b = false → k.freelist.length < pt.missing i
  free : b = true → k'.freelist.length + pt.missing i = k.freelist.length
  dirs : b = true → ∀ j, j ∈ pt'.dirs ↔ j = i / 512 / 512 ∨ j ∈ pt.dirs
  tabs : b = true → ∀ j, j ∈ pt'.tabs ↔ j = i / 512 ∨ j ∈ pt.tabs

theorem Takes.of_short (h : k.freelist.length < pt.missing i) : Takes k pt k' pt' i false where
  short _ := h
  free hb := absurd hb (by decide)
  dirs hb := absurd hb (by decide)
  tabs hb := absurd hb (by decide)

theorem Takes.of_free (hfree : k'.freelist.length + pt.missing i = k.freelist.length)
    (hdirs : ∀ j, j ∈ pt'.dirs ↔ j = i / 512 / 512 ∨ j ∈ pt.dirs) (htabs : ∀ j, j ∈ pt'.tabs ↔ j = i / 512 ∨ j ∈ pt.tabs) :
    Takes k pt k' pt' i true where
  short hb := absurd hb (by decide)
  free _ := hfree
  dirs _ := hdirs
  tabs _ := htabs

theorem walkLevel_takes {r : Option PageTable} {valid : Bool} {store : Nat → PageTable}
    (h : walkLevel k pt valid true store = (r, k')) :
    (valid = true ∧ r = some pt ∧ k' = k) ∨ (valid = false ∧ r = none ∧ k.freelist.length = 0) ∨
      valid = false ∧ ∃ p, r = some (store p) ∧ k'.freelist.length + 1 = k.freelist.length := by
  unfold walkLevel at h
  split at h
  · cases h; exact .inl ⟨‹_›, rfl, rfl⟩
  · rename_i hv
    have hv : valid = false := by simpa using hv
    rw [if_pos rfl] at h
    split at h
    · rename_i k₁ hk
      cases h
      refine .inr (.inl ⟨hv, rfl, ?_⟩)
      cases hf : k.freelist with
      | nil => rfl
      | cons q rest => have := (kalloc_cons hf).1; rw [hk] at this; cases this
    · rename_i p k₁ hk
      cases h
      refine .inr (.inr ⟨hv, p, rfl, ?_⟩)
      rw [(kalloc_eq_some hk).1, List.length_cons]

theorem walk_takes {va : Nat} :
    Ensures (walk k pt va true) fun (r, k', pt') => Takes k pt k' pt' (va / PGSIZE) r.isSome := by
  unfold walk
  split
  · exact .error
  · rename_i hva
    have hdir : va / PGSIZE / 512 / 512 < 512 := by simp only [MAXVA, PGSIZE] at *; omega
    dsimp only
    split
    · rename_i k₁ h₁
      rcases walkLevel_takes h₁ with ⟨-, hr, -⟩ | ⟨hv, -, hfree⟩ | ⟨-, p, hr, -⟩
      · cases hr
      · have hnot : va / PGSIZE / 512 / 512 ∉ pt.dirs := by simpa using hv
        exact .ok (.of_short (by rw [PageTable.missing_eq_two hnot, hfree]; omega))
      · cases hr
    · rename_i pt₁ k₁ h₁
      obtain ⟨htabs, hdirs, hfree⟩ : pt₁.tabs = pt.tabs ∧
          (∀ j, j ∈ pt₁.dirs ↔ j = va / PGSIZE / 512 / 512 ∨ j ∈ pt.dirs) ∧
          k₁.freelist.length + (if va / PGSIZE / 512 / 512 ∈ pt.dirs then 0 else 1) = k.freelist.length := by
        rcases walkLevel_takes h₁ with ⟨hv, hr, rfl⟩ | ⟨-, hr, -⟩ | ⟨hv, p, hr, hf⟩
        · have hmem : va / PGSIZE / 512 / 512 ∈ pt.dirs := by simpa using hv
          obtain rfl := Option.some.inj hr
          refine ⟨rfl, fun j => ⟨.inr, ?_⟩, by rw [if_pos hmem, Nat.add_zero]⟩
          rintro (rfl | hj)
          · exact hmem
          · exact hj
        · cases hr
        · have hnot : va / PGSIZE / 512 / 512 ∉ pt.dirs := by simpa using hv
          obtain rfl := Option.some.inj hr
          refine ⟨by simp only [PageTable.storeDir, dif_pos hdir], fun j => ?_, by rw [if_neg hnot]; exact hf⟩
          simp only [PageTable.storeDir, dif_pos hdir, AList.mem_insert]
      have hmem : va / PGSIZE / 512 / 512 ∈ pt₁.dirs := (hdirs _).mpr (.inl rfl)
      have hmissing : pt.missing (va / PGSIZE) + k₁.freelist.length =
          k.freelist.length + if va / PGSIZE / 512 ∈ pt.tabs then 0 else 1 := by
        rw [PageTable.missing]; omega
      split
      · rename_i k₂ h₂
        rcases walkLevel_takes h₂ with ⟨-, hr, -⟩ | ⟨hv, -, hf⟩ | ⟨-, p, hr, -⟩
        · cases hr
        · have hnot : va / PGSIZE / 512 ∉ pt.tabs := by rw [← htabs]; simpa using hv
          rw [if_neg hnot] at hmissing
          exact .ok (.of_short (by omega))
        · cases hr
      · rename_i pt₂ k₂ h₂
        rcases walkLevel_takes h₂ with ⟨hv, hr, rfl⟩ | ⟨-, hr, -⟩ | ⟨hv, p, hr, hf⟩
        · have hin : va / PGSIZE / 512 ∈ pt.tabs := by rw [← htabs]; simpa using hv
          obtain rfl := Option.some.inj hr
          rw [if_pos hin] at hmissing
          refine .ok (.of_free (by dsimp only; omega) hdirs fun j => ?_)
          rw [htabs]
          refine ⟨.inr, ?_⟩
          rintro (rfl | hj)
          · exact hin
          · exact hj
        · cases hr
        · have hnot : va / PGSIZE / 512 ∉ pt.tabs := by rw [← htabs]; simpa using hv
          obtain rfl := Option.some.inj hr
          rw [if_neg hnot] at hmissing
          refine .ok (.of_free (by dsimp only; omega) (fun j => ?_) fun j => ?_)
          · simp only [PageTable.storeTab, dif_pos hmem]; exact hdirs j
          · simp only [PageTable.storeTab, dif_pos hmem, AList.mem_insert, htabs]

theorem mappages_takes {a pa : Nat} {perm : Perm} (ha : a % PGSIZE = 0) :
    Ensures (mappages k pt a PGSIZE pa perm) fun (b, k', pt') => Takes k pt k' pt' (a / PGSIZE) b := by
  rw [mappages_one ha, mapLoop]
  refine walk_takes.bind ?_
  rintro ⟨r, k₁, pt₁⟩ ht
  cases r with
  | none => exact .ok ht
  | some i =>
      dsimp only
      split
      · exact .error
      · refine .ok (.of_free (ht.free rfl) ?_ ?_)
        · unfold PageTable.storeLeaf; split <;> exact ht.dirs rfl
        · unfold PageTable.storeLeaf; split <;> exact ht.tabs rfl

/-! ## Sharing -/

/-- What page `i` costs, if the tables of the pages before it are there. -/
theorem PageTable.missing_le (hi : ∀ j, j < i → j / 512 ∈ pt.tabs) :
    pt.missing i + tablesBelow i ≤ tablesBelow (i + 1) := by
  by_cases h₁ : i % 512 = 0
  · by_cases h₂ : i % 262144 = 0
    · have : pt.missing i ≤ 2 := by unfold PageTable.missing; split <;> split <;> omega
      simp only [tablesBelow]; omega
    · have hd : i / 512 / 512 ∈ pt.dirs := by
        have := pt.tabs_dir _ (hi (i - 1) (by omega))
        rwa [show (i - 1) / 512 / 512 = i / 512 / 512 by omega] at this
      have : pt.missing i ≤ 1 := by rw [PageTable.missing, if_pos hd]; split <;> omega
      simp only [tablesBelow]; omega
  · have ht : i / 512 ∈ pt.tabs := by
      have := hi (i - 1) (by omega)
      rwa [show (i - 1) / 512 = i / 512 by omega] at this
    rw [PageTable.missing_eq_zero ht]
    simp only [tablesBelow]; omega

theorem tablesBelow_mono {j : Nat} (h : i ≤ j) : tablesBelow i ≤ tablesBelow j := by
  simp only [tablesBelow]; omega

theorem Takes.tabs_upto (ht : Takes k pt k' pt' i true) (hi : ∀ j, j < i → j / 512 ∈ pt.tabs) :
    ∀ j, j < i + 1 → j / 512 ∈ pt'.tabs := by
  intro j hj
  rw [ht.tabs rfl]
  by_cases h : j = i
  · exact .inl (by rw [h])
  · exact .inr (hi j (by omega))

theorem shareLoop_room {old : PageTable} {n : Nat} (hi : ∀ j, j < i → j / 512 ∈ pt.tabs)
    (hfree : tablesBelow (i + n) ≤ k.freelist.length + tablesBelow i) :
    Ensures (shareLoop k old pt i n) fun (b, _, k', _) =>
      b = true ∧ k.freelist.length + tablesBelow i ≤ k'.freelist.length + tablesBelow (i + n) := by
  induction n generalizing k pt i with
  | zero => exact .ok ⟨rfl, Nat.le_refl _⟩
  | succ n ih =>
      have hcost := PageTable.missing_le hi
      have hmono : tablesBelow (i + 1) ≤ tablesBelow (i + (n + 1)) := tablesBelow_mono (by omega)
      unfold shareLoop
      refine Ensures.bind_any fun pte => ?_
      refine (mappages_takes (Nat.mul_mod_left ..)).bind ?_
      rintro ⟨b, k₂, pt₂⟩ ht
      rw [Nat.mul_div_cancel _ (by decide)] at ht
      cases b with
      | false =>
          have := ht.short rfl
          omega
      | true =>
          have hf := ht.free rfl
          have hlen : (if pte.pa ≠ 0 then addPageReference k₂ pte.pa else k₂).freelist.length = k₂.freelist.length := by
            split <;> rfl
          rw [show i + (n + 1) = i + 1 + n by omega] at hfree hmono ⊢
          refine (ih (ht.tabs_upto hi) (by rw [hlen]; omega)).mono ?_
          rintro ⟨b, -, k₃, -⟩ ⟨hb, hle⟩
          refine ⟨hb, ?_⟩
          rw [hlen] at hle
          omega

/-- With fewer than two free pages not even the first page of an empty address space is shared. -/
theorem shareLoop_short {old : PageTable} {n : Nat} (hdir : 0 ∉ pt.dirs) (hfree : k.freelist.length < 2) :
    Ensures (shareLoop k old pt 0 n) fun (b, j, _, _) => b = false → j = 0 := by
  cases n with
  | zero => exact .ok fun hb => absurd hb (by decide)
  | succ n =>
      unfold shareLoop
      refine Ensures.bind_any fun pte => ?_
      refine (mappages_takes (Nat.mul_mod_left ..)).bind ?_
      rintro ⟨b, k₂, pt₂⟩ ht
      cases b with
      | false => exact .ok fun _ => rfl
      | true =>
          have := ht.free rfl
          rw [Nat.mul_div_cancel _ (by decide), PageTable.missing_eq_two (by simpa using hdir)] at this
          omega

/-! ## The page table of a process -/

/-- A new table takes three pages and has room for none of the first gigabyte. -/
theorem procPagetable_takes {trampoline trapframe : Nat} :
    Ensures (procPagetable k trampoline trapframe) fun (r, k') => ∀ pt, r = some pt →
      k'.freelist.length + 3 = k.freelist.length ∧ 0 ∉ pt.dirs := by
  unfold procPagetable
  split
  · exact .ok fun _ hr => nomatch hr
  · rename_i pt k₁ hc
    obtain ⟨hfree, hdirs⟩ : k₁.freelist.length + 1 = k.freelist.length ∧ pt.dirs = ∅ := by
      unfold uvmcreate at hc
      split at hc
      · cases hc
      · rename_i hk
        cases hc
        exact ⟨by rw [(kalloc_eq_some hk).1, List.length_cons], rfl⟩
    refine (mappages_takes (by decide)).bind fun (b, k₂, pt₂) ht₂ => ?_
    cases b with
    | false => exact Ensures.bind_any fun _ => .ok fun _ hr => nomatch hr
    | true =>
        have hf₂ := ht₂.free rfl
        rw [PageTable.missing_eq_two (by rw [hdirs]; exact AList.notMem_empty _)] at hf₂
        refine (mappages_takes (by decide)).bind fun (b, k₃, pt₃) ht₃ => ?_
        cases b with
        | false =>
            refine Ensures.bind_any fun _ => ?_
            exact Ensures.bind_any fun _ => .ok fun _ hr => nomatch hr
        | true =>
            -- the trapframe is below the trampoline in the same table
            have hf₃ := ht₃.free rfl
            rw [PageTable.missing_eq_zero ((ht₂.tabs rfl _).mpr (.inl (by decide)))] at hf₃
            refine .ok fun pt' hr => ?_
            obtain rfl := Option.some.inj hr
            refine ⟨by omega, fun hm => ?_⟩
            rcases (ht₃.dirs rfl _).mp hm with h | h
            · exact absurd h (by decide)
            · rcases (ht₂.dirs rfl _).mp h with h | h
              · exact absurd h (by decide)
              · rw [hdirs] at h; exact AList.notMem_empty _ h

end Xv6Net.Vm
