import Xv6Net.Kernel.Lemmas.Pages
import Xv6Net.Vm.Lemmas.Covers
import Xv6Net.Vm.Lemmas.Room

/-!
# Mappings that succeed

With enough free pages, a page that is not mapped yet can be mapped, the memory of a process can be shared with a new
table, and a new table can be made: none of the panics of these functions is reached.
-/

namespace Xv6Net.Vm

open Kernel Lib

variable {k : Kmem} {pt : PageTable}

/-! ## One page -/

theorem walk_returns {va : Nat} {alloc : Bool} (hva : va < MAXVA) : Returns (walk k pt va alloc) fun _ => True := by
  unfold walk
  rw [if_neg (Nat.not_le.mpr hva)]
  dsimp only
  split
  · exact .ok trivial
  · split <;> exact .ok trivial

theorem lt_maxva {i : Nat} (hi : i < USER_PAGES) : i * PGSIZE < MAXVA := by
  simp only [USER_PAGES, TRAPFRAME, TRAMPOLINE, MAXVA, PGSIZE] at *; omega

/-- `walk` gets to a page that is mapped. -/
theorem walk_present {i : Nat} (hi : i < USER_PAGES) (hmem : i ∈ pt.leaves) :
    walk k pt (i * PGSIZE) false = .ok (some i, k, pt) := by
  have hva := Nat.not_le.mpr (lt_maxva hi)
  have htab := pt.leaves_tab i hmem
  have hdir := pt.tabs_dir _ htab
  simp [walk, walkLevel, hva, Nat.mul_div_cancel i (show 0 < PGSIZE by decide), htab, hdir]

theorem presentPte_returns {i : Nat} {name : String} (hi : i < USER_PAGES) (hmem : i ∈ pt.leaves) :
    Returns (presentPte k pt (i * PGSIZE) name) fun _ => True := by
  obtain ⟨pte, hpte⟩ := Option.isSome_iff_exists.mp (AList.lookup_isSome.mpr hmem)
  refine ⟨pte, ?_, trivial⟩
  simp [presentPte, walk_present hi hmem, hpte, bind, Except.bind]

/-- A page that is not mapped yet does not make `mappages` panic. -/
theorem mappages_ok {a : Nat} (pa : Nat) (perm : Perm) (ha : a % PGSIZE = 0) (hva : a < MAXVA)
    (hfresh : a / PGSIZE ∉ pt.leaves) : Returns (mappages k pt a PGSIZE pa perm) fun _ => True := by
  rw [mappages_one ha, mapLoop]
  refine ((walk_returns hva).and walk_true).bind ?_
  rintro ⟨r, k₁, pt₁⟩ ⟨_, hgrow, hr⟩
  cases r with
  | none => exact .ok trivial
  | some i =>
      obtain ⟨rfl, -⟩ := hr i rfl
      rw [← hgrow.leaves] at hfresh
      simp only [if_neg hfresh]
      exact .ok trivial

theorem mappages_returns {a pa : Nat} {perm : Perm} (ha : a % PGSIZE = 0) (hva : a < MAXVA)
    (hfresh : a / PGSIZE ∉ pt.leaves) (hfree : pt.missing (a / PGSIZE) ≤ k.freelist.length) :
    Returns (mappages k pt a PGSIZE pa perm) fun (b, k', pt') =>
      b = true ∧ Takes k pt k' pt' (a / PGSIZE) true ∧ pt'.leaves = pt.leaves.insert (a / PGSIZE) ⟨pa, perm⟩ := by
  refine (((mappages_ok pa perm ha hva hfresh).and (mappages_takes ha)).and (mappages_maps ha)).mono
    fun (b, k', pt') ⟨⟨_, ht⟩, hm⟩ => ?_
  cases b with
  | false => exact absurd (ht.short rfl) (Nat.not_lt.mpr hfree)
  | true => exact ⟨rfl, ht, (hm.stored rfl).2⟩

/-! ## Sharing -/

theorem shareLoop_returns {old : PageTable} {i n : Nat} (hn : i + n ≤ USER_PAGES)
    (hold : ∀ j, j < i + n → j ∈ old.leaves) (hnew : ∀ j, i ≤ j → j < USER_PAGES → j ∉ pt.leaves)
    (hi : ∀ j, j < i → j / 512 ∈ pt.tabs) (hfree : tablesBelow (i + n) ≤ k.freelist.length + tablesBelow i) :
    Returns (shareLoop k old pt i n) fun _ => True := by
  induction n generalizing k pt i with
  | zero => exact .ok trivial
  | succ n ih =>
      have hcost := PageTable.missing_le hi
      have hmono : tablesBelow (i + 1) ≤ tablesBelow (i + (n + 1)) := tablesBelow_mono (by omega)
      have hdiv : i * PGSIZE / PGSIZE = i := Nat.mul_div_cancel i (by decide)
      have hlt : i < USER_PAGES := by omega
      unfold shareLoop
      refine (presentPte_returns hlt (hold i (by omega))).bind fun pte _ => ?_
      refine (mappages_returns (Nat.mul_mod_left ..) (lt_maxva hlt) (by rw [hdiv]; exact hnew i (Nat.le_refl i) hlt)
        (by rw [hdiv]; omega)).bind ?_
      rintro ⟨b, k₂, pt₂⟩ ⟨hb, ht, hleaves⟩
      rw [hdiv] at ht hleaves
      subst hb
      have hf := ht.free rfl
      refine ih (by omega) (fun j hj => hold j (by omega)) (fun j hle hj => ?_) (ht.tabs_upto hi) ?_
      · rw [hleaves, AList.mem_insert, not_or]
        exact ⟨by omega, hnew j (by omega) hj⟩
      · rw [show i + 1 + n = i + (n + 1) by omega]
        split
        · show _ ≤ k₂.freelist.length + _
          omega
        · omega

/-- The whole memory of a process can be shared with a table that has none. -/
theorem uvmshare_returns {old : PageTable} {sz : Nat} (hsz : sz ≤ TRAPFRAME) (hold : old.Covers sz)
    (hnew : ∀ i, i < USER_PAGES → i ∉ pt.leaves) (hfree : tablesBelow (pagesBelow 0 sz) ≤ k.freelist.length) :
    Returns (uvmshare k old pt sz) fun (b, k', _) =>
      b = true ∧ k.freelist.length ≤ k'.freelist.length + tablesBelow (pagesBelow 0 sz) := by
  have hn := pagesBelow_le hsz
  have hfree₀ : tablesBelow (0 + pagesBelow 0 sz) ≤ k.freelist.length + tablesBelow 0 := by
    rw [Nat.zero_add]; omega
  have hmapped : ∀ j, j < 0 + pagesBelow 0 sz → j ∈ old.leaves := by
    intro j hj
    refine (hold j (by omega)).mpr ?_
    simp only [pagesBelow, PGSIZE] at *; omega
  have hnone : ∀ j, j < 0 → j / 512 ∈ pt.tabs := fun j hj => absurd hj (Nat.not_lt_zero j)
  unfold uvmshare
  refine ((shareLoop_returns (by omega) hmapped (fun j _ => hnew j) hnone hfree₀).and (shareLoop_room hnone hfree₀)).bind ?_
  rintro ⟨b, i, k₁, pt₁⟩ ⟨_, hb, hle⟩
  subst hb
  rw [Nat.zero_add] at hle
  exact .ok ⟨rfl, hle⟩

/-! ## The page table of a process -/

/-- The trapframe is below the trampoline in the same table, so three pages are enough. -/
theorem procPagetable_returns {trampoline trapframe : Nat} (hfree : 3 ≤ k.freelist.length) :
    Returns (procPagetable k trampoline trapframe) fun (r, _) => r.isSome = true := by
  obtain ⟨p, k₁, hk₁⟩ := kalloc_isSome (show 0 < k.freelist.length by omega)
  have hfree₁ : k₁.freelist.length + 1 = k.freelist.length := by rw [(kalloc_eq_some hk₁).1, List.length_cons]
  have hcreate : uvmcreate k = (some (.empty p), k₁) := by simp only [uvmcreate, hk₁]
  have hmissing : (PageTable.empty p).missing (TRAMPOLINE / PGSIZE) = 2 :=
    PageTable.missing_eq_two (AList.notMem_empty _)
  unfold procPagetable
  rw [hcreate]
  refine (mappages_returns (by decide) (by decide) (AList.notMem_empty _) (by rw [hmissing]; omega)).bind
    fun (b, k₂, pt₂) ⟨hb, ht, hleaves⟩ => ?_
  subst hb
  have htab : TRAPFRAME / PGSIZE / 512 ∈ pt₂.tabs := (ht.tabs rfl _).mpr (.inl (by decide))
  have hfresh : TRAPFRAME / PGSIZE ∉ pt₂.leaves := by
    rw [hleaves, AList.mem_insert, not_or]
    exact ⟨by decide, AList.notMem_empty _⟩
  refine (mappages_returns (by decide) (by decide) hfresh (by rw [PageTable.missing_eq_zero htab]; omega)).bind
    fun (b, k₃, pt₃) ⟨hb, _⟩ => ?_
  subst hb
  exact .ok rfl

end Xv6Net.Vm
