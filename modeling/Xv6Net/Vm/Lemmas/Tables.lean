import Xv6Net.Kernel.Lemmas.Ledger
import Xv6Net.Lib.Ensures
import Xv6Net.Vm.Spec

/-!
# Page tables and the ledger of pages

`walk` moves pages to `pages` and leaves the mappings alone, `mappages` adds one mapping, `uvmunmap` takes mappings away.
-/

namespace Xv6Net.Vm

open Kernel Lib

variable {k : Kmem}

namespace PageTable

variable {pt pt' : PageTable} {i p : Nat} {pte : Pte}

theorem storeDir_pages (hi : i < 512) (h : i ∉ pt.dirs) : (pt.storeDir i p).pages = p ::ₘ pt.pages := by
  simp only [storeDir, dif_pos hi, pages, gather_insert h, Multiset.singleton_add, Multiset.cons_add]
  exact Multiset.cons_swap ..

theorem storeTab_pages (hi : i / 512 ∈ pt.dirs) (h : i ∉ pt.tabs) : (pt.storeTab i p).pages = p ::ₘ pt.pages := by
  simp only [storeTab, dif_pos hi, pages, gather_insert h, Multiset.singleton_add, Multiset.add_cons]
  exact Multiset.cons_swap ..

theorem storeDir_leaves : (pt.storeDir i p).leaves = pt.leaves := by unfold storeDir; split <;> rfl

theorem storeTab_leaves : (pt.storeTab i p).leaves = pt.leaves := by unfold storeTab; split <;> rfl

theorem storeLeaf_pages : (pt.storeLeaf i pte).pages = pt.pages := by unfold storeLeaf; split <;> rfl

theorem storeLeaf_leaves (h : i / 512 ∈ pt.tabs) : (pt.storeLeaf i pte).leaves = pt.leaves.insert i pte := by
  simp only [storeLeaf, dif_pos h]

theorem user_congr (h : pt'.leaves = pt.leaves) : pt'.user = pt.user := by rw [user, user, h]

theorem user_insert (hi : i ∉ pt.leaves) (h : pt'.leaves = pt.leaves.insert i pte) :
    pt'.user = (if i < USER_PAGES then {pte.pa} else 0) + pt.user := by
  rw [user, h, gather_insert hi]; rfl

theorem user_erase (hi : pt.leaves.lookup i = some pte) :
    pt.user = (if i < USER_PAGES then {pte.pa} else 0) + (pt.clearLeaf i).user := gather_erase hi

theorem mem_user (h : pt.leaves.lookup i = some pte) (hi : i < USER_PAGES) : pte.pa ∈ pt.user := by
  rw [user_erase h, if_pos hi]
  exact Multiset.mem_add.mpr (.inl (Multiset.mem_singleton_self _))

theorem user_eq_zero (h : pt.leaves.keys = []) : pt.user = 0 := by
  have : pt.leaves.entries = [] := List.map_eq_nil_iff.mp h
  rw [user, gather, this]; rfl

/-- `freewalk` frees every page of the table once. -/
theorem coe_walkPages (pt : PageTable) : (pt.walkPages : Multiset Nat) = pt.pages := by
  have hdir : ∀ i, (pt.dirPages i : Multiset Nat) = part (fun _ c => {c}) i (pt.dirs.lookup i) +
      ∑ j ∈ Finset.range 512, part (fun _ c => {c}) (512 * i + j) (pt.tabs.lookup (512 * i + j)) := by
    intro i
    unfold dirPages
    cases hd : pt.dirs.lookup i with
    | none =>
        -- without the page of the second level there are none below it
        have hnone : ∀ j ∈ Finset.range 512,
            part (fun _ c => {c}) (512 * i + j) (pt.tabs.lookup (512 * i + j)) = (0 : Multiset Nat) := by
          intro j hj
          have hj := Finset.mem_range.mp hj
          have hm : 512 * i + j ∉ pt.tabs := fun hm => by
            have := pt.tabs_dir _ hm
            rw [show (512 * i + j) / 512 = i by omega] at this
            exact AList.lookup_eq_none.mp hd this
          rw [AList.lookup_eq_none.mpr hm]; rfl
        rw [Finset.sum_eq_zero hnone]; rfl
    | some dir =>
        simp only [← Multiset.coe_add, coe_filterMap_range, part, Multiset.coe_singleton]
        exact add_comm _ _
  have htabs : ∀ i ∈ pt.tabs, i < 512 * 512 := by
    intro i hi
    have := pt.dirs_lt _ (pt.tabs_dir i hi)
    omega
  rw [walkPages, ← Multiset.coe_add, coe_flatMap_range, Finset.sum_congr rfl (fun i _ => hdir i),
    Finset.sum_add_distrib, ← sum_range_mul (fun k => part (fun _ c => {c}) k (pt.tabs.lookup k)),
    ← gather_eq_sum pt.dirs_lt, ← gather_eq_sum htabs, Multiset.coe_singleton, add_comm]
  rfl

end PageTable

/-! ## Walking -/

/-- Pages were added to the table, and the mappings are the same. -/
structure TablesGrow (k : Kmem) (pt : PageTable) (k' : Kmem) (pt' : PageTable) : Prop where
  leaves : pt'.leaves = pt.leaves
  ledger : ∀ {held : Nat → Prop} {u c : Multiset Nat},
    Ledger held k u (pt.pages + c) → Ledger held k' u (pt'.pages + c)

theorem TablesGrow.refl (k : Kmem) (pt : PageTable) : TablesGrow k pt k pt := ⟨rfl, id⟩

theorem TablesGrow.trans {k' k'' : Kmem} {pt' pt'' : PageTable} (h₁ : TablesGrow k pt k' pt')
    (h₂ : TablesGrow k' pt' k'' pt'') : TablesGrow k pt k'' pt'' :=
  ⟨h₂.leaves.trans h₁.leaves, fun hl => h₂.ledger (h₁.ledger hl)⟩

theorem walkLevel_true {k' : Kmem} {r : Option PageTable} {valid : Bool}
    {store : Nat → PageTable} (hl : ∀ p, (store p).leaves = pt.leaves)
    (hs : valid = false → ∀ p, (store p).pages = p ::ₘ pt.pages)
    (h : walkLevel k pt valid true store = (r, k')) :
    TablesGrow k pt k' (r.getD pt) ∧ ∀ pt', r = some pt' → pt' = pt ∧ valid = true ∨ ∃ p, pt' = store p := by
  unfold walkLevel at h
  split at h
  · cases h
    exact ⟨.refl .., fun pt' hr => .inl ⟨(Option.some.inj hr).symm, ‹_›⟩⟩
  · rename_i hv
    rw [if_pos rfl] at h
    split at h
    · rename_i k₁ hk
      cases h
      exact ⟨⟨rfl, fun hl => hl.kalloc_none hk⟩, fun _ hr => nomatch hr⟩
    · rename_i page k₁ hk
      cases h
      refine ⟨⟨hl page, fun hl => ?_⟩, fun pt' hr => .inr ⟨page, (Option.some.inj hr).symm⟩⟩
      rw [Option.getD_some, hs (by simpa using hv), Multiset.cons_add]
      exact hl.kalloc hk

theorem walk_true {va : Nat} :
    Ensures (walk k pt va true) fun (r, k', pt') => TablesGrow k pt k' pt' ∧
      ∀ i, r = some i → i = va / PGSIZE ∧ i / 512 ∈ pt'.tabs := by
  unfold walk
  split
  · exact .error
  · rename_i hva
    have hdir : va / PGSIZE / 512 / 512 < 512 := by simp only [MAXVA, PGSIZE] at *; omega
    dsimp only
    split
    · rename_i k₁ h₁
      obtain ⟨hg, -⟩ := walkLevel_true (fun p => PageTable.storeDir_leaves)
        (fun hv p => PageTable.storeDir_pages hdir (by simpa using hv)) h₁
      exact .ok ⟨hg, fun i hi => nomatch hi⟩
    · rename_i pt₁ k₁ h₁
      obtain ⟨hg₁, hr₁⟩ := walkLevel_true (fun p => PageTable.storeDir_leaves)
        (fun hv p => PageTable.storeDir_pages hdir (by simpa using hv)) h₁
      -- the page of the second level is there now
      have hmem : va / PGSIZE / 512 / 512 ∈ pt₁.dirs := by
        rcases hr₁ pt₁ rfl with ⟨rfl, hv⟩ | ⟨p, rfl⟩
        · simpa using hv
        · simp [PageTable.storeDir, dif_pos hdir]
      split
      · rename_i k₂ h₂
        obtain ⟨hg₂, -⟩ := walkLevel_true (fun p => PageTable.storeTab_leaves)
          (fun hv p => PageTable.storeTab_pages hmem (by simpa using hv)) h₂
        exact .ok ⟨hg₁.trans hg₂, fun i hi => nomatch hi⟩
      · rename_i pt₂ k₂ h₂
        obtain ⟨hg₂, hr₂⟩ := walkLevel_true (fun p => PageTable.storeTab_leaves)
          (fun hv p => PageTable.storeTab_pages hmem (by simpa using hv)) h₂
        refine .ok ⟨hg₁.trans hg₂, fun i hi => ?_⟩
        obtain rfl := Option.some.inj hi
        refine ⟨rfl, ?_⟩
        rcases hr₂ pt₂ rfl with ⟨rfl, hv⟩ | ⟨p, rfl⟩
        · simpa using hv
        · simp [PageTable.storeTab, dif_pos hmem]

theorem walk_false {va : Nat} :
    Ensures (walk k pt va false) fun (r, k', pt') => k' = k ∧ pt' = pt ∧ ∀ i, r = some i → i = va / PGSIZE := by
  have hlevel : ∀ {pt : PageTable} {valid : Bool} {store : Nat → PageTable} {r : Option PageTable} {k' : Kmem},
      walkLevel k pt valid false store = (r, k') → k' = k ∧ ∀ pt', r = some pt' → pt' = pt := by
    intro pt valid store r k' h
    unfold walkLevel at h
    split at h
    · cases h; exact ⟨rfl, fun pt' hr => (Option.some.inj hr).symm⟩
    · cases h; exact ⟨rfl, fun _ hr => nomatch hr⟩
  unfold walk
  split
  · exact .error
  · dsimp only
    split
    · rename_i h₁
      obtain ⟨rfl, -⟩ := hlevel h₁
      exact .ok ⟨rfl, rfl, fun i hi => nomatch hi⟩
    · rename_i h₁
      obtain ⟨rfl, hr₁⟩ := hlevel h₁
      obtain rfl := hr₁ _ rfl
      split
      · rename_i h₂
        obtain ⟨rfl, -⟩ := hlevel h₂
        exact .ok ⟨rfl, rfl, fun i hi => nomatch hi⟩
      · rename_i h₂
        obtain ⟨rfl, hr₂⟩ := hlevel h₂
        obtain rfl := hr₂ _ rfl
        exact .ok ⟨rfl, rfl, fun i hi => (Option.some.inj hi).symm⟩

end Xv6Net.Vm
