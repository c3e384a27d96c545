import Mathlib.Data.Finset.Card
import Mathlib.Order.Interval.Finset.Nat
import Xv6Net.Vm.Lemmas.Progress

/-!
# What a mapping takes

A page that is not mapped yet can be mapped exactly if there are free pages for the tables that it lacks. The pages that
are taken from the free list become pages of the table, and nothing else changes in the allocator.
-/

namespace Xv6Net.Vm

open Kernel Lib

variable {k k' : Kmem} {pt pt' : PageTable} {i m pa : Nat} {perm : Perm}

/-! ## One page -/

theorem walkLevel_took {r : Option PageTable} {valid : Bool} {store : Nat → PageTable}
    (hs : valid = false → ∀ p, (store p).pages = p ::ₘ pt.pages) (h : walkLevel k pt valid true store = (r, k')) :
    (∃ taken : List Nat, Took k k' taken ∧ (r.getD pt).pages = taken + pt.pages) ∧ (r = none → k'.freelist = []) := by
  unfold walkLevel at h
  split at h
  · cases h
    exact ⟨⟨[], .refl k, (zero_add _).symm⟩, nofun⟩
  · rename_i hv
    rw [if_pos rfl] at h
    split at h
    · rename_i k₁ hk
      cases h
      refine ⟨⟨[], .kalloc_none hk, (zero_add _).symm⟩, fun _ => ?_⟩
      rw [(kalloc_eq_none hk).1, freelist_eq_nil hk]
    · rename_i page k₁ hk
      cases h
      refine ⟨⟨[page], .kalloc hk, ?_⟩, nofun⟩
      rw [Option.getD_some, hs (by simpa using hv)]
      rfl

theorem walk_took {va : Nat} : Ensures (walk k pt va true) fun (r, k', pt') =>
    (∃ taken : List Nat, Took k k' taken ∧ pt'.pages = taken + pt.pages) ∧ (r = none → k'.freelist = []) := by
  unfold walk
  split
  · exact .error
  · rename_i hva
    have hdir : va / PGSIZE / 512 / 512 < 512 := by simp only [MAXVA, PGSIZE] at *; omega
    dsimp only
    split
    · rename_i k₁ h₁
      obtain ⟨htook, hnone⟩ := walkLevel_took (fun hv p => PageTable.storeDir_pages hdir (by simpa using hv)) h₁
      exact .ok ⟨htook, fun _ => hnone rfl⟩
    · rename_i pt₁ k₁ h₁
      obtain ⟨⟨taken, htook, hpages⟩, -⟩ :=
        walkLevel_took (fun hv p => PageTable.storeDir_pages hdir (by simpa using hv)) h₁
      -- the page of the second level is there now
      have hmem : va / PGSIZE / 512 / 512 ∈ pt₁.dirs := by
        rcases (walkLevel_true (fun p => PageTable.storeDir_leaves)
          (fun hv p => PageTable.storeDir_pages hdir (by simpa using hv)) h₁).2 pt₁ rfl with ⟨rfl, hv⟩ | ⟨p, rfl⟩
        · simpa using hv
        · simp [PageTable.storeDir, dif_pos hdir]
      have hboth : ∀ {r k₂}, walkLevel k₁ pt₁ (va / PGSIZE / 512 ∈ pt₁.tabs) true (pt₁.storeTab (va / PGSIZE / 512)) =
          (r, k₂) → (∃ taken : List Nat, Took k k₂ taken ∧ (r.getD pt₁).pages = taken + pt.pages) ∧
            (r = none → k₂.freelist = []) := by
        intro r k₂ h₂
        obtain ⟨⟨taken', htook', hpages'⟩, hnone⟩ :=
          walkLevel_took (fun hv p => PageTable.storeTab_pages hmem (by simpa using hv)) h₂
        refine ⟨⟨taken ++ taken', htook.trans htook', ?_⟩, hnone⟩
        rw [hpages', show pt₁.pages = taken + pt.pages from hpages, ← Multiset.coe_add, ← add_assoc]
        congr 1
        exact add_comm _ _
      split
      · rename_i k₂ h₂
        exact .ok ⟨(hboth h₂).1, fun _ => (hboth h₂).2 rfl⟩
      · rename_i pt₂ k₂ h₂
        exact .ok ⟨(hboth h₂).1, fun hr => absurd hr (Option.some_ne_none _)⟩

theorem mappages_took {a : Nat} (ha : a % PGSIZE = 0) :
    Ensures (mappages k pt a PGSIZE pa perm) fun (b, k', pt') =>
      (∃ taken : List Nat, Took k k' taken ∧ pt'.pages = taken + pt.pages) ∧ (b = false → k'.freelist = []) := by
  rw [mappages_one ha, mapLoop]
  refine walk_took.bind ?_
  rintro ⟨r, k₁, pt₁⟩ ⟨htook, hnone⟩
  cases r with
  | none => exact .ok ⟨htook, fun _ => hnone rfl⟩
  | some i =>
      dsimp only
      split
      · exact .error
      · refine .ok ⟨?_, fun hb => absurd hb.symm Bool.false_ne_true⟩
        rw [PageTable.storeLeaf_pages]
        exact htook

/-- What `mappages` does for page `i`, which is not mapped yet, `b` being whether it returns 0. -/
structure MapsExactly (k : Kmem) (pt : PageTable) (k' : Kmem) (pt' : PageTable) (i : Nat) (pte : Pte) (b : Bool) :
    Prop where
  enough : b = true ↔ pt.missing i ≤ k.freelist.length
  takes : Takes k pt k' pt' i b
  failed : b = false → pt'.leaves = pt.leaves
  stored : b = true → pt'.leaves = pt.leaves.insert i pte
  took : ∃ taken : List Nat, Took k k' taken ∧ pt'.pages = taken + pt.pages
  drained : b = false → k'.freelist = []

theorem mappages_exactly (hi : i < USER_PAGES) (hfresh : i ∉ pt.leaves) :
    Returns (mappages k pt (i * PGSIZE) PGSIZE pa perm) fun (b, k', pt') =>
      MapsExactly k pt k' pt' i ⟨pa, perm⟩ b := by
  have ha : i * PGSIZE % PGSIZE = 0 := Nat.mul_mod_left ..
  have hdiv : i * PGSIZE / PGSIZE = i := Nat.mul_div_cancel i (by decide)
  have hok : Returns (mappages k pt (i * PGSIZE) PGSIZE pa perm) fun _ => True :=
    mappages_ok pa perm ha (lt_maxva hi) (by rw [hdiv]; exact hfresh)
  refine (((hok.and (mappages_takes ha)).and (mappages_maps ha)).and (mappages_took ha)).mono
    fun (b, k', pt') ⟨⟨⟨_, ht⟩, hm⟩, htook, hdrained⟩ => ?_
  rw [hdiv] at ht hm
  refine ⟨⟨fun hb => ?_, fun hle => ?_⟩, ht, hm.failed, fun hb => (hm.stored hb).2, htook, hdrained⟩
  · have := ht.free hb
    omega
  · by_contra hb
    have := ht.short (by simpa using hb)
    omega

/-- Before it, the page may be mapped already; then `mappages` does not return. -/
theorem mappages_ensures (hi : i < USER_PAGES) :
    Ensures (mappages k pt (i * PGSIZE) PGSIZE pa perm) fun (b, k', pt') =>
      i ∉ pt.leaves → MapsExactly k pt k' pt' i ⟨pa, perm⟩ b :=
  .of_imp fun hfresh => (mappages_exactly hi hfresh).ensures

/-! ## The tables of a range of pages -/

theorem PageTable.lacks_zero (i : Nat) : pt.lacks i 0 = 0 := by simp [lacks]

theorem PageTable.lacks_one (i : Nat) : pt.lacks i 1 = pt.missing i := by
  simp only [lacks, missing, Nat.Ico_succ_singleton, Finset.image_singleton, Finset.filter_singleton]
  split_ifs <;> rfl

theorem PageTable.lacks_mono (h : m ≤ n) : pt.lacks i m ≤ pt.lacks i n := by
  have hsub : Finset.Ico i (i + m) ⊆ Finset.Ico i (i + n) := Finset.Ico_subset_Ico_right (by omega)
  exact Nat.add_le_add (Finset.card_le_card (Finset.filter_subset_filter _ (Finset.image_subset_image hsub)))
    (Finset.card_le_card (Finset.filter_subset_filter _ (Finset.image_subset_image hsub)))

/-- One entry is added for the first page of a range, if it is not there. -/
theorem card_lacking {p q : Nat → Prop} [DecidablePred p] [DecidablePred q] (f : Nat → Nat) (i n : Nat)
    (h : ∀ j, q j ↔ j = f i ∨ p j) :
    (((Finset.Ico i (i + (n + 1))).image f).filter (¬ p ·)).card =
      (if p (f i) then 0 else 1) + (((Finset.Ico (i + 1) (i + 1 + n)).image f).filter (¬ q ·)).card := by
  have hico : Finset.Ico i (i + (n + 1)) = insert i (Finset.Ico (i + 1) (i + 1 + n)) := by
    ext j
    simp only [Finset.mem_Ico, Finset.mem_insert]
    omega
  rw [hico, Finset.image_insert, Finset.filter_insert]
  by_cases hp : p (f i)
  · have hq : ∀ j, q j ↔ p j := fun j => (h j).trans ⟨fun hj => hj.elim (fun he => he ▸ hp) id, .inr⟩
    simp only [hp, not_true_eq_false, if_false, if_true, hq, Nat.zero_add]
  · have hset : insert (f i) (((Finset.Ico (i + 1) (i + 1 + n)).image f).filter (¬ p ·)) =
        insert (f i) (((Finset.Ico (i + 1) (i + 1 + n)).image f).filter (¬ q ·)) := by
      ext j
      simp only [Finset.mem_insert, Finset.mem_filter, h]
      tauto
    rw [if_pos hp, if_neg hp, hset, Finset.card_insert_of_notMem, Nat.add_comm]
    simp [h]

theorem Takes.lacks (h : Takes k pt k' pt' i true) (n : Nat) :
    pt.lacks i (n + 1) = pt.missing i + pt'.lacks (i + 1) n := by
  rw [PageTable.lacks, card_lacking (· / 512 / 512) i n (h.dirs rfl), card_lacking (· / 512) i n (h.tabs rfl),
    PageTable.missing, PageTable.lacks]
  omega

/-! ## Pages are unmapped -/

theorem kfree_returns {p : Nat} (h : k.Ram p) : Returns (kfree k p) fun k' => k'.kend = k.kend := by
  have hcheck : ¬ (p % PGSIZE ≠ 0 ∨ p < k.kend ∨ PHYSTOP ≤ p) := by
    unfold Kmem.Ram at h
    omega
  unfold kfree
  rw [dif_neg hcheck]
  split <;> exact .ok rfl

/-- Pages that are mapped can be unmapped, and freed if they are pages of memory. -/
theorem unmapLoop_returns {doFree : Bool} (hn : i + n ≤ USER_PAGES)
    (h : ∀ j, i ≤ j → j < i + n → ∃ pte, pt.leaves.lookup j = some pte ∧ (doFree = true → k.Ram pte.pa)) :
    Returns (unmapLoop k pt (i * PGSIZE) doFree n) fun _ => True := by
  induction n generalizing k pt i with
  | zero => exact .ok trivial
  | succ n ih =>
      obtain ⟨pte, hpte, hram⟩ := h i (Nat.le_refl i) (by omega)
      have hmem : i ∈ pt.leaves := AList.lookup_isSome.mp (by rw [hpte]; rfl)
      have hdrop : Returns (dropPage k pte.pa doFree) fun k' => k'.kend = k.kend := by
        cases doFree with
        | false => exact .ok rfl
        | true => exact kfree_returns (hram rfl)
      simp only [unmapLoop, walk_present (show i < USER_PAGES by omega) hmem, hpte, bind, Except.bind]
      refine hdrop.bind fun k₁ hk₁ => ?_
      rw [show i * PGSIZE + PGSIZE = (i + 1) * PGSIZE by rw [Nat.succ_mul]]
      refine ih (by omega) fun j hj hjn => ?_
      obtain ⟨pte', hpte', hram'⟩ := h j (by omega) (by omega)
      refine ⟨pte', ?_, fun hf => ?_⟩
      · rw [← hpte']
        exact AList.lookup_erase_ne (by omega)
      · have := hram' hf
        unfold Kmem.Ram at this ⊢
        rwa [hk₁]

/-! ## Sharing -/

/-- What a call of `shareLoop` from page `i` on leaves behind that fails at page `j`. -/
structure SharesUpTo (k : Kmem) (old pt : PageTable) (k' : Kmem) (pt' : PageTable) (i j : Nat) : Prop where
  le : i ≤ j
  present : ∀ l, i ≤ l → l ≤ j → l ∈ old.leaves
  short : k.freelist.length < pt.lacks i (j - i + 1)
  leaves : ∀ l, pt'.leaves.lookup l = if i ≤ l ∧ l < j then old.leaves.lookup l else pt.leaves.lookup l
  first : j = i → k.freelist.length < pt.missing i ∧ ∃ taken, Took k k' taken ∧ k'.freelist = []
  later : i < j → pt.missing i ≤ k.freelist.length ∧
    ∀ pte, old.leaves.lookup i = some pte → k.refCounter (pageNum pte.pa) < k'.refCounter (pageNum pte.pa)
  mono : ∀ p, k.Ram p → p ∉ k.freelist → k.refCounter (pageNum p) ≤ k'.refCounter (pageNum p)

theorem addPageReference_le (k : Kmem) (q n : Nat) : k.refCounter n ≤ (addPageReference k q).refCounter n := by
  simp only [addPageReference, Function.update_apply]
  split
  · next h => rw [h]; exact Nat.le_succ _
  · exact Nat.le_refl _

/-- The round that maps page `i`, followed by rounds that fail at page `j`. -/
theorem SharesUpTo.cons {k₂ k' : Kmem} {pt₂ pt' : PageTable} {j : Nat} {pte : Pte}
    (hpte : old.leaves.lookup i = some pte) (hram : k.Ram pte.pa) (hused : pte.pa ∉ k.freelist)
    (hm : MapsExactly k pt k₂ pt₂ i pte true)
    (h : SharesUpTo (addPageReference k₂ pte.pa) old pt₂ k' pt' (i + 1) j) : SharesUpTo k old pt k' pt' i j := by
  have hle := h.le
  have hfree := hm.takes.free rfl
  obtain ⟨taken, htook, -⟩ := hm.took
  have hsame : ∀ p, k.Ram p → p ∉ k.freelist → k₂.refCounter (pageNum p) = k.refCounter (pageNum p) := by
    intro p hp hnot
    refine htook.same p hp fun hmem => hnot ?_
    rw [htook.free]
    exact List.mem_append_left _ hmem
  have hmono : ∀ p, k.Ram p → p ∉ k.freelist →
      (addPageReference k₂ pte.pa).refCounter (pageNum p) ≤ k'.refCounter (pageNum p) := by
    intro p hp hnot
    refine h.mono p (htook.ram ▸ hp) fun hmem => hnot ?_
    rw [htook.free]
    exact List.mem_append_right _ hmem
  constructor
  · omega
  · intro l hl hlj
    by_cases hli : l = i
    · rw [hli]
      exact AList.lookup_isSome.mp (by rw [hpte]; rfl)
    · exact h.present l (by omega) hlj
  · have hlacks := hm.takes.lacks (j - i)
    have hshort := h.short
    rw [show j - (i + 1) + 1 = j - i by omega] at hshort
    have hlen : (addPageReference k₂ pte.pa).freelist.length = k₂.freelist.length := rfl
    omega
  · intro l
    rw [h.leaves l, hm.stored rfl]
    by_cases hl : l = i
    · subst hl
      rw [if_neg (by omega), if_pos (by omega), AList.lookup_insert, hpte]
    · rw [AList.lookup_insert_ne hl]
      by_cases hin : i + 1 ≤ l ∧ l < j
      · rw [if_pos hin, if_pos (by omega)]
      · rw [if_neg hin, if_neg (by omega)]
  · intro hj
    omega
  · intro _
    refine ⟨hm.enough.mp rfl, fun pte' hpte' => ?_⟩
    obtain rfl : pte = pte' := Option.some.inj (hpte.symm.trans hpte')
    refine Nat.lt_of_lt_of_le ?_ (hmono _ hram hused)
    simp only [addPageReference, Function.update_self, hsame _ hram hused]
    exact Nat.lt_succ_self _
  · intro p hp hnot
    rw [← hsame p hp hnot]
    exact (addPageReference_le k₂ _ _).trans (hmono p hp hnot)

theorem shareLoop_fails (hn : i + n ≤ USER_PAGES)
    (hold : ∀ j pte, i ≤ j → j < i + n → old.leaves.lookup j = some pte → k.Ram pte.pa ∧ pte.pa ∉ k.freelist)
    (hnew : ∀ j, i ≤ j → j < USER_PAGES → j ∉ pt.leaves) :
    Ensures (shareLoop k old pt i n) fun (b, j, k', pt') => b = false → SharesUpTo k old pt k' pt' i j ∧ j < i + n := by
  induction n generalizing k pt i with
  | zero => exact .ok fun hb => absurd hb (by decide)
  | succ n ih =>
      have hi : i < USER_PAGES := by omega
      have hfresh := hnew i (Nat.le_refl i) hi
      unfold shareLoop
      refine presentPte_lookup.bind fun pte hpte => ?_
      refine (mappages_ensures hi).bind ?_
      rintro ⟨b, k₂, pt₂⟩ hm
      have hm := hm hfresh
      obtain ⟨taken, htook, -⟩ := hm.took
      cases b with
      | false =>
          have hshort := hm.takes.short rfl
          refine .ok fun _ => ⟨?_, by omega⟩
          constructor
          · exact Nat.le_refl i
          · intro l hl hli
            rw [show l = i by omega]
            exact AList.lookup_isSome.mp (by rw [hpte]; rfl)
          · rw [Nat.sub_self, PageTable.lacks_one]
            exact hshort
          · intro l
            rw [if_neg (by omega), hm.failed rfl]
          · exact fun _ => ⟨hshort, taken, htook, hm.drained rfl⟩
          · intro hlt
            omega
          · intro p hp hnot
            refine Nat.le_of_eq (htook.same p hp fun hmem => hnot ?_).symm
            rw [htook.free]
            exact List.mem_append_left _ hmem
      | true =>
          obtain ⟨hram, hused⟩ := hold i pte (Nat.le_refl i) (by omega) hpte
          have hne : pte.pa ≠ 0 := by
            have := k.kernbase_le
            simp only [Kmem.Ram, KERNBASE] at *
            omega
          dsimp only
          rw [if_pos hne]
          refine (ih (by omega) (fun j pte' hj hjn hpte' => ?_) fun j hj hju => ?_).mono fun r h hb =>
            ⟨.cons hpte hram hused hm (h hb).1, by rw [← Nat.succ_add_eq_add_succ]; exact (h hb).2⟩
          · obtain ⟨hram', hused'⟩ := hold j pte' (by omega) (by omega) hpte'
            rw [htook.free] at hused'
            exact ⟨htook.ram ▸ hram', fun hmem => hused' (List.mem_append_right _ hmem)⟩
          · rw [hm.stored rfl, AList.mem_insert, not_or]
            exact ⟨by omega, hnew j (by omega) hju⟩

/-- Without free pages for the tables of `m` pages that are there, the loop fails among them. -/
theorem shareLoop_short_returns (hmn : m ≤ n) (hn : i + n ≤ USER_PAGES)
    (hold : ∀ j, i ≤ j → j < i + m → j ∈ old.leaves) (hnew : ∀ j, i ≤ j → j < USER_PAGES → j ∉ pt.leaves)
    (hshort : k.freelist.length < pt.lacks i m) :
    Returns (shareLoop k old pt i n) fun (b, _, _, _) => b = false := by
  induction n generalizing k pt i m with
  | zero =>
      obtain rfl : m = 0 := by omega
      rw [PageTable.lacks_zero] at hshort
      omega
  | succ n ih =>
      have hi : i < USER_PAGES := by omega
      cases m with
      | zero =>
          rw [PageTable.lacks_zero] at hshort
          omega
      | succ m =>
          unfold shareLoop
          refine (presentPte_returns hi (hold i (Nat.le_refl i) (by omega))).bind fun pte _ => ?_
          refine (mappages_exactly hi (hnew i (Nat.le_refl i) hi)).bind ?_
          rintro ⟨b, k₂, pt₂⟩ hm
          cases b with
          | false => exact .ok rfl
          | true =>
              have hfree := hm.takes.free rfl
              have hlacks := hm.takes.lacks m
              dsimp only
              have hlen : (if pte.pa ≠ 0 then addPageReference k₂ pte.pa else k₂).freelist.length =
                  k₂.freelist.length := by
                split <;> rfl
              refine ih (Nat.le_of_succ_le_succ hmn) (by omega) (fun j hj hjm => hold j (by omega) (by omega))
                (fun j hj hju => ?_) (by rw [hlen]; omega)
              rw [hm.stored rfl, AList.mem_insert, not_or]
              exact ⟨by omega, hnew j (by omega) hju⟩

/-- After a failed call nothing is mapped, and the counts are as the loop has left them. -/
theorem uvmshare_fails {sz : Nat} (hsz : sz ≤ TRAPFRAME)
    (hold : ∀ i pte, i < pagesBelow 0 sz → old.leaves.lookup i = some pte → k.Ram pte.pa ∧ pte.pa ∉ k.freelist)
    (hnew : ∀ i, i < USER_PAGES → i ∉ pt.leaves) :
    Ensures (uvmshare k old pt sz) fun (ok, k', pt') => ok = false →
      (∀ i, i < USER_PAGES → i ∉ pt'.leaves) ∧ ∃ j pt₁, SharesUpTo k old pt k' pt₁ 0 j ∧ j < pagesBelow 0 sz := by
  have hn := pagesBelow_le hsz
  unfold uvmshare
  refine (shareLoop_fails (by omega) (fun j pte _ hj hpte => hold j pte (by omega) hpte) fun j _ hj => hnew j hj).bind
    fun (b, j, k₁, pt₁) h => ?_
  cases b with
  | true => exact .ok nofun
  | false =>
      obtain ⟨hshares, hj⟩ := h rfl
      rw [Nat.zero_add] at hj
      dsimp only [uvmunmap]
      rw [if_neg (by decide)]
      refine (unmapLoop_leaves (by decide)).bind fun (k₂, pt₂) ⟨hk, _, hl⟩ => .ok fun _ => ⟨fun i hi hmem => ?_, ?_⟩
      · rw [← AList.lookup_isSome, hl i, Nat.zero_div, Nat.zero_add, hshares.leaves i] at hmem
        by_cases hij : i < j
        · rw [if_pos ⟨Nat.zero_le i, hij⟩] at hmem
          exact absurd hmem (by simp)
        · rw [if_neg (by omega), if_neg (by omega), AList.lookup_isSome] at hmem
          exact hnew i hi hmem
      · obtain rfl := hk rfl
        exact ⟨j, pt₁, hshares, hj⟩

theorem uvmshare_short_returns {sz : Nat} (hsz : sz ≤ TRAPFRAME) (hm : m ≤ pagesBelow 0 sz)
    (hold : ∀ i pte, i < pagesBelow 0 sz → old.leaves.lookup i = some pte → k.Ram pte.pa ∧ pte.pa ∉ k.freelist)
    (hmapped : ∀ i, i < m → i ∈ old.leaves) (hnew : ∀ i, i < USER_PAGES → i ∉ pt.leaves)
    (hshort : k.freelist.length < pt.lacks 0 m) : Returns (uvmshare k old pt sz) fun (ok, _, _) => ok = false := by
  have hn := pagesBelow_le hsz
  have hloop := shareLoop_short_returns hm (by omega) (fun j _ hj => hmapped j (by omega)) (fun j _ hj => hnew j hj) hshort
  have hfails := shareLoop_fails (i := 0) (n := pagesBelow 0 sz) (by omega)
    (fun j pte _ hj hpte => hold j pte (by omega) hpte) fun j _ hj => hnew j hj
  unfold uvmshare
  refine (hloop.and hfails).bind fun (b, j, k₁, pt₁) ⟨hb, h⟩ => ?_
  obtain rfl : b = false := hb
  obtain ⟨hshares, hj⟩ := h rfl
  dsimp only [uvmunmap]
  rw [if_neg (by decide), show (0 : Nat) = 0 * PGSIZE from (Nat.zero_mul _).symm]
  refine Returns.bind (unmapLoop_returns (by omega) fun i _ hij => ?_) fun _ _ => .ok rfl
  have hmem := hshares.present i (Nat.zero_le i) (by omega)
  obtain ⟨pte, hpte⟩ := Option.isSome_iff_exists.mp (AList.lookup_isSome.mpr hmem)
  exact ⟨pte, by rw [hshares.leaves i, if_pos (by omega), hpte], nofun⟩

section SharedPages

variable {old pt₁ : PageTable} {sz n j : Nat}

section

variable (h : SharesUpTo k old pt k' pt₁ 0 j)
include h

/-- A call that fails stops at one of the pages that are mapped, for lack of free pages. -/
theorem SharesUpTo.not_enough (hold : SharedPages k old sz n)
    (hj : j < pagesBelow 0 sz) : ¬ pt.lacks 0 n ≤ k.freelist.length := by
  intro hle
  have hjn : j < n := by
    by_contra hge
    rcases hold.stops with heq | hnot
    · omega
    · exact hnot (h.present n (Nat.zero_le n) (by omega))
  have hlt := h.short
  have hmono : pt.lacks 0 (j - 0 + 1) ≤ pt.lacks 0 n := PageTable.lacks_mono (by omega)
  omega

theorem SharesUpTo.eq_first (hmissing : k.freelist.length < pt.missing 0) :
    j = 0 := by
  by_contra hj
  have := (h.later (Nat.pos_of_ne_zero hj)).1
  omega

/-- The first page that was shared keeps a reference more. -/
theorem SharesUpTo.more (hold : SharedPages k old sz n) (hj : 0 < j) (hjn : j < pagesBelow 0 sz) :
    ∃ p, k.Ram p ∧ p ∉ k.freelist ∧ k.refCounter (pageNum p) < k'.refCounter (pageNum p) := by
  obtain ⟨pte, hpte⟩ := Option.isSome_iff_exists.mp (AList.lookup_isSome.mpr (h.present 0 (Nat.le_refl 0) (by omega)))
  obtain ⟨hram, hused⟩ := hold.used 0 pte (by omega) hpte
  exact ⟨pte.pa, hram, hused, (h.later hj).2 pte hpte⟩

end

theorem uvmshare_short (hsz : sz ≤ TRAPFRAME) (hold : SharedPages k old sz n)
    (hnew : ∀ i, i < USER_PAGES → i ∉ pt.leaves) (hshort : k.freelist.length < pt.lacks 0 n) :
    Returns (uvmshare k old pt sz) fun (ok, k', _) => ok = false ∧
      ∃ j pt₁, SharesUpTo k old pt k' pt₁ 0 j ∧ j < pagesBelow 0 sz := by
  refine ((uvmshare_short_returns hsz hold.le hold.used hold.mapped hnew hshort).and
    (uvmshare_fails hsz hold.used hnew)).mono fun (ok, k', pt') ⟨hok, h⟩ => ⟨hok, (h hok).2⟩

end SharedPages

end Xv6Net.Vm
