import Xv6Net.Vm.Lemmas.Map

/-!
# User memory and the ledger of pages

Every function on the memory of one process keeps the ledger, whether it succeeds or not. The one that does not is
`uvmshare`, if it fails after it has shared a page.
-/

namespace Xv6Net.Vm

open Kernel Lib

variable {held : Nat → Prop} {k k' : Kmem} {pt pt' : PageTable} {u c : Multiset Nat} {i n sz : Nat} {old : PageTable}

/-! ## Freeing a table -/

theorem freewalk_ledger : Ensures (freewalk k pt) fun k' => pt.leaves.keys = [] ∧
    (Ledger held k u (pt.pages + c) → Ledger held k' u c) := by
  unfold freewalk
  split
  · exact .error
  · rename_i hk
    refine Ensures.mono (P := fun k' => Ledger held k u (pt.pages + c) → Ledger held k' u c)
      (Ensures.of_imp fun hl => ?_) fun k' h => ⟨not_not.mp hk, h⟩
    rw [← PageTable.coe_walkPages] at hl
    refine (Ensures.foldlM (fun ps k => Ledger held k u ((ps : Multiset Nat) + c)) ?_ hl).mono fun k' h => ?_
    · intro k p ps hp k' hk'
      rw [← Multiset.cons_coe, Multiset.cons_add] at hp
      exact hp.kfree_kern hk'
    · rwa [Multiset.coe_nil, zero_add] at h

theorem uvmfree_ledger (hsz : sz ≤ TRAPFRAME) (hl : Ledger held k (pt.user + u) (pt.pages + c)) :
    Ensures (uvmfree k pt sz) fun k' => Ledger held k' u c := by
  have hfree : ∀ {k : Kmem} {pt : PageTable}, Ledger held k (pt.user + u) (pt.pages + c) →
      Ensures (freewalk k pt) fun k' => Ledger held k' u c := by
    intro k pt hl
    refine (@freewalk_ledger held k pt u c).mono fun k' ⟨hk, h⟩ => h ?_
    rwa [PageTable.user_eq_zero hk, zero_add] at hl
  unfold uvmfree
  split
  · obtain ⟨hr, -, -, hle⟩ := pgRoundUp_spec hsz
    have hn : pgRoundUp sz / PGSIZE ≤ USER_PAGES := Nat.div_le_div_right hle
    unfold uvmunmap
    rw [if_neg (by decide)]
    have hz : 0 / PGSIZE + pgRoundUp sz / PGSIZE ≤ USER_PAGES := by rw [Nat.zero_div, Nat.zero_add]; exact hn
    refine ((unmapLoop_ledger (by decide) hz hl).and (unmapLoop_leaves (by decide))).bind
      fun (k₁, pt₁) ⟨h₁, _, hp, _⟩ => hfree (hp.symm ▸ h₁)
  · exact hfree hl

theorem procFreepagetable_ledger (hsz : sz ≤ TRAPFRAME) (hl : Ledger held k (pt.user + u) (pt.pages + c)) :
    Ensures (procFreepagetable k pt sz) fun k' => Ledger held k' u c := by
  unfold procFreepagetable
  refine (uvmunmap_high (by decide)).bind fun (k₁, pt₁) ⟨hk₁, hp₁, hu₁⟩ => ?_
  refine (uvmunmap_high (by decide)).bind fun (k₂, pt₂) ⟨hk₂, hp₂, hu₂⟩ => ?_
  subst hk₁ hk₂
  exact uvmfree_ledger hsz (by rw [hu₂, hu₁, hp₂, hp₁]; exact hl)

/-! ## Growing a table -/

theorem allocLoop_accounted {store : Store} {mem : Memory} {a oldsz : Nat} {perm : Perm} (ha : a % PGSIZE = 0) (ho : oldsz ≤ a)
    (hle : a ≤ TRAPFRAME) (hacc : Accounted held k pt u c) :
    Ensures (allocLoop store mem k pt a oldsz perm n) fun (r, k', pt') => Accounted held k' pt' u c ∧
      (r.isSome = true → a + n * PGSIZE ≤ TRAPFRAME) := by
  induction n generalizing mem k pt a with
  | zero => exact .ok ⟨hacc, fun _ => by omega⟩
  | succ n ih =>
      have hundo : ∀ {k : Kmem} {pt : PageTable}, Accounted held k pt u c →
          Ensures (uvmdealloc k pt a oldsz >>= fun r => .ok ((none : Option Memory), r.2.1, r.2.2)) fun r =>
            Accounted held r.2.1 r.2.2 u c ∧ (r.1.isSome = true → a + (n + 1) * PGSIZE ≤ TRAPFRAME) :=
        fun h => (uvmdealloc_accounted hle h).bind fun _ h₁ => .ok ⟨h₁.1, fun hb => absurd hb Bool.false_ne_true⟩
      have hi : a / PGSIZE ≤ USER_PAGES := Nat.div_le_div_right hle
      unfold allocLoop
      split
      · rename_i k₁ hk
        exact hundo ⟨hacc.ledger.kalloc_none hk, hacc.trap⟩
      · rename_i p k₁ hk
        have hacc₁ : Accounted held k₁ pt u (p ::ₘ c) :=
          ⟨by rw [Multiset.add_cons]; exact hacc.ledger.kalloc hk, hacc.trap⟩
        refine (mappages_maps ha).bind ?_
        rintro ⟨b, k₂, pt₂⟩ hm
        cases b with
        | true =>
            obtain ⟨hlt, hacc₂⟩ := hm.fresh hacc₁ hi
            have hnext : a + PGSIZE ≤ TRAPFRAME := by simp only [USER_PAGES, PGSIZE] at *; omega
            refine (ih (by simp only [PGSIZE] at *; omega) (by omega) hnext hacc₂).mono fun r h => ⟨h.1, fun ht => ?_⟩
            have := h.2 ht
            rw [Nat.succ_mul]; omega
        | false =>
            have hl := (hm.unchanged hacc₁).ledger
            rw [Multiset.add_cons] at hl
            refine Ensures.bind (fun k₃ hk₃ => hl.kfree_kern hk₃) fun k₃ h₃ => ?_
            exact hundo ⟨h₃, (hm.unchanged hacc₁).trap⟩

theorem uvmalloc_accounted {oldsz newsz : Nat} {w x : Bool} (hsz : oldsz ≤ TRAPFRAME) (hacc : Accounted held k pt u c) :
    Ensures (uvmalloc k pt oldsz newsz w x) fun (sz, k', pt') => Accounted held k' pt' u c ∧ sz ≤ TRAPFRAME := by
  unfold uvmalloc uvmallocTo
  refine Ensures.bind (P := fun r => Accounted held r.2.2.1 r.2.2.2 u c ∧ r.1 ≤ TRAPFRAME) ?_ fun _ h => .ok h
  split
  · exact .ok ⟨hacc, hsz⟩
  · obtain ⟨hr, -, -, hle⟩ := pgRoundUp_spec hsz
    refine (allocLoop_accounted hr (Nat.le_refl _) hle hacc).bind fun (r, k₁, pt₁) ⟨h₁, hb⟩ => ?_
    refine .ok ⟨h₁, ?_⟩
    cases r with
    | none => exact Nat.zero_le _
    | some mem =>
        have := hb rfl
        show newsz ≤ TRAPFRAME
        simp only [pagesBelow, PGSIZE] at *; omega

/-! ## Copying and sharing -/

theorem presentPte_lookup {name : String} :
    Ensures (presentPte k old (i * PGSIZE) name) fun pte => old.leaves.lookup i = some pte := by
  unfold presentPte
  refine walk_false.bind fun (r, k₁, pt₁) ⟨_, _, hr⟩ => ?_
  cases r with
  | none => exact .error
  | some j =>
      obtain rfl := hr j rfl
      dsimp only
      split
      · exact .error
      · rename_i pte hpte
        rw [Nat.mul_div_cancel _ (by decide)] at hpte
        exact .ok hpte

theorem copyLoop_accounted (hn : i + n ≤ USER_PAGES) (hacc : Accounted held k pt u c) :
    Ensures (copyLoop k old pt i n) fun (_, j, k', pt') => Accounted held k' pt' u c ∧ j ≤ USER_PAGES := by
  induction n generalizing k pt i with
  | zero => exact .ok ⟨hacc, hn⟩
  | succ n ih =>
      unfold copyLoop
      refine presentPte_lookup.bind fun pte _ => ?_
      split
      · rename_i k₁ hk
        exact .ok ⟨⟨hacc.ledger.kalloc_none hk, hacc.trap⟩, by omega⟩
      · rename_i mem k₁ hk
        have hacc₁ : Accounted held k₁ pt u (mem ::ₘ c) :=
          ⟨by rw [Multiset.add_cons]; exact hacc.ledger.kalloc hk, hacc.trap⟩
        refine (mappages_maps (Nat.mul_mod_left ..)).bind fun (b, k₂, pt₂) hm => ?_
        rw [Nat.mul_div_cancel _ (by decide)] at hm
        cases b with
        | true => exact ih (by omega) (hm.fresh hacc₁ (by omega)).2
        | false =>
            have hl := (hm.unchanged hacc₁).ledger
            rw [Multiset.add_cons] at hl
            refine Ensures.bind (fun k₃ hk₃ => hl.kfree_kern hk₃) fun k₃ h₃ => ?_
            exact .ok ⟨⟨h₃, (hm.unchanged hacc₁).trap⟩, by omega⟩

theorem pagesBelow_le (hsz : sz ≤ TRAPFRAME) : pagesBelow 0 sz ≤ USER_PAGES := by
  simp only [pagesBelow, USER_PAGES, TRAPFRAME, TRAMPOLINE, MAXVA, PGSIZE] at *; omega

theorem uvmcopy_accounted (hsz : sz ≤ TRAPFRAME) (hacc : Accounted held k pt u c) :
    Ensures (uvmcopy k old pt sz) fun (_, k', pt') => Accounted held k' pt' u c := by
  have hn : 0 + pagesBelow 0 sz ≤ USER_PAGES := by rw [Nat.zero_add]; exact pagesBelow_le hsz
  unfold uvmcopy
  refine (copyLoop_accounted hn hacc).bind
    fun (b, j, k₁, pt₁) ⟨h₁, hj⟩ => ?_
  cases b with
  | true => exact .ok h₁
  | false => exact (uvmunmap_free (by simpa using hj) h₁).bind fun (k₂, pt₂) h₂ => .ok h₂

/-- Sharing the pages of `old`, all of which are in the ledger already. -/
theorem shareLoop_accounted (hn : i + n ≤ USER_PAGES)
    (hold : ∀ j pte, old.leaves.lookup j = some pte → j < USER_PAGES → pte.pa ∈ u)
    (hacc : Accounted held k pt u c) :
    Ensures (shareLoop k old pt i n) fun (_, _, k', pt') => Accounted held k' pt' u c := by
  induction n generalizing k pt i with
  | zero => exact .ok hacc
  | succ n ih =>
      unfold shareLoop
      refine presentPte_lookup.bind fun pte hpte => ?_
      refine (mappages_maps (Nat.mul_mod_left ..)).bind fun (b, k₂, pt₂) hm => ?_
      rw [Nat.mul_div_cancel _ (by decide)] at hm
      cases b with
      | false => exact .ok (hm.unchanged hacc)
      | true =>
          have hp : pte.pa ∈ u := hold i pte hpte (by omega)
          -- a page of memory is not page 0
          have hne : pte.pa ≠ 0 := by
            have hram := hacc.ledger.owned.ram pte.pa
              (Multiset.mem_add.mpr (.inl (Multiset.mem_add.mpr (.inr hp))))
            have := k.kernbase_le
            simp only [Kmem.Ram, KERNBASE] at *; omega
          dsimp only
          rw [if_pos hne]
          exact ih (by omega) (hm.shared hacc (by omega) hp)

theorem uvmshare_accounted (hsz : sz ≤ TRAPFRAME)
    (hold : ∀ j pte, old.leaves.lookup j = some pte → j < USER_PAGES → pte.pa ∈ u)
    (hfail : ∀ j k₁ pt₁, shareLoop k old pt 0 (pagesBelow 0 sz) = .ok (false, j, k₁, pt₁) → j = 0)
    (hacc : Accounted held k pt u c) :
    Ensures (uvmshare k old pt sz) fun (_, k', pt') => Accounted held k' pt' u c := by
  have hn : 0 + pagesBelow 0 sz ≤ USER_PAGES := by rw [Nat.zero_add]; exact pagesBelow_le hsz
  have hloop := shareLoop_accounted hn hold hacc
  unfold uvmshare
  refine (hloop.and fun r hr => hr).bind fun (b, j, k₁, pt₁) ⟨h₁, hr⟩ => ?_
  cases b with
  | true => exact .ok h₁
  | false =>
      obtain rfl := hfail j k₁ pt₁ hr
      exact .ok h₁

/-- The pages that were shared are entered as they are in the old table. -/
theorem shareLoop_leaves :
    Ensures (shareLoop k old pt i n) fun (b, _, _, pt') => b = true →
      ∀ j, pt'.leaves.lookup j = if i ≤ j ∧ j < i + n then old.leaves.lookup j else pt.leaves.lookup j := by
  induction n generalizing k pt i with
  | zero => exact .ok fun _ j => by rw [if_neg (by omega)]
  | succ n ih =>
      unfold shareLoop
      refine presentPte_lookup.bind fun pte hpte => ?_
      refine (mappages_maps (Nat.mul_mod_left ..)).bind fun (b, k₂, pt₂) hm => ?_
      rw [Nat.mul_div_cancel _ (by decide)] at hm
      cases b with
      | false => exact .ok (nomatch ·)
      | true =>
          obtain ⟨-, hl₂⟩ := hm.stored rfl
          refine ih.mono fun (b, _, _, pt') hb ht j => ?_
          rw [hb ht j, hl₂]
          by_cases hj : j = i
          · subst hj
            rw [if_neg (by omega), if_pos (by omega), AList.lookup_insert, hpte]
          · rw [AList.lookup_insert_ne hj]
            by_cases hin : i + 1 ≤ j ∧ j < i + 1 + n
            · rw [if_pos hin, if_pos (by omega)]
            · rw [if_neg hin, if_neg (by omega)]

theorem uvmshare_leaves :
    Ensures (uvmshare k old pt sz) fun (b, _, pt') => b = true →
      ∀ j, pt'.leaves.lookup j = if j < pagesBelow 0 sz then old.leaves.lookup j else pt.leaves.lookup j := by
  unfold uvmshare
  refine shareLoop_leaves.bind fun (b, i, k₁, pt₁) h₁ => ?_
  cases b with
  | true => exact .ok fun _ j => by simpa using h₁ rfl j
  | false => exact Ensures.bind_any fun _ => .ok (nomatch ·)

theorem uvmclear_accounted {va : Nat} (hacc : Accounted held k pt u c) :
    Ensures (uvmclear k pt va) fun pt' => Accounted held k pt' u c := by
  unfold uvmclear
  refine walk_false.bind fun (r, k₁, pt₁) ⟨_, _, hr⟩ => ?_
  cases r with
  | none => exact .error
  | some i =>
      obtain rfl := hr i rfl
      dsimp only
      split
      · exact .ok hacc
      · rename_i pte hpte
        refine .ok ?_
        have htab : va / PGSIZE / 512 ∈ pt.tabs :=
          pt.leaves_tab _ (AList.lookup_isSome.mp (by rw [hpte]; rfl))
        set pte' : Pte := { pte with perm := { pte.perm with u := false } } with hpte'
        have hleaves := @PageTable.storeLeaf_leaves pt _ pte' htab
        have hlook : (pt.storeLeaf (va / PGSIZE) pte').leaves.lookup (va / PGSIZE) = some pte' := by
          rw [hleaves, AList.lookup_insert]
        -- the page of the entry is the same
        have huser : (pt.storeLeaf (va / PGSIZE) pte').user = pt.user := by
          have herase : ((pt.storeLeaf (va / PGSIZE) pte').clearLeaf (va / PGSIZE)).user =
              (pt.clearLeaf (va / PGSIZE)).user := by
            refine PageTable.user_congr ?_
            simp only [PageTable.clearLeaf, hleaves]
            exact AList.ext (List.kerase_cons_eq rfl)
          rw [PageTable.user_erase hlook, PageTable.user_erase hpte, herase]
        exact ⟨by rw [huser, PageTable.storeLeaf_pages]; exact hacc.ledger,
          by rw [hleaves]; exact (AList.mem_insert _).mpr (.inr hacc.trap)⟩

/-! ## The page table of a process -/

/-- A new table maps the trampoline and the trapframe and nothing else. -/
theorem procPagetable_leaves {trampoline trapframe : Nat} :
    Ensures (procPagetable k trampoline trapframe) fun (r, _) => ∀ pt, r = some pt →
      USER_PAGES ∈ pt.leaves ∧ ∀ i, i < USER_PAGES → i ∉ pt.leaves := by
  have hTp : TRAMPOLINE / PGSIZE = USER_PAGES + 1 := by decide
  unfold procPagetable
  split
  · exact .ok fun _ hr => nomatch hr
  · rename_i pt k₁ hc
    have hempty : pt.leaves = ∅ := by
      unfold uvmcreate at hc
      split at hc
      · cases hc
      · cases hc; rfl
    refine (mappages_maps (by decide)).bind fun (b, k₂, pt₂) hm₂ => ?_
    cases b with
    | false => exact Ensures.bind_any fun _ => .ok fun _ hr => nomatch hr
    | true =>
        obtain ⟨-, hv₂⟩ := hm₂.stored rfl
        refine (mappages_maps (by decide)).bind fun (b, k₃, pt₃) hm₃ => ?_
        cases b with
        | false =>
            refine Ensures.bind_any fun _ => ?_
            exact Ensures.bind_any fun _ => .ok fun _ hr => nomatch hr
        | true =>
            obtain ⟨-, hv₃⟩ := hm₃.stored rfl
            refine .ok fun pt' hr => ?_
            obtain rfl := Option.some.inj hr
            refine ⟨by rw [hv₃]; exact (AList.mem_insert _).mpr (.inl rfl), fun i hi hm => ?_⟩
            rw [hv₃, AList.mem_insert, hv₂, AList.mem_insert, hempty] at hm
            rcases hm with hm | hm | hm
            · exact Nat.ne_of_lt hi hm
            · omega
            · exact AList.notMem_empty _ hm

theorem PageTable.user_eq_zero_of_high (h : ∀ i, i < USER_PAGES → i ∉ pt.leaves) : pt.user = 0 := by
  rw [user, gather, List.sum_eq_zero]
  intro x hx
  obtain ⟨e, he, rfl⟩ := List.mem_map.mp hx
  rw [if_neg]
  exact fun hlt => h e.1 hlt (List.mem_map_of_mem he)

theorem procPagetable_ledger {trampoline trapframe : Nat} (hl : Ledger held k u c) :
    Ensures (procPagetable k trampoline trapframe) fun (r, k') =>
      Ledger held k' u (r.elim 0 PageTable.pages + c) := by
  -- where the call fails, the table is freed before it maps user memory
  have hnone : ∀ {k : Kmem} {pt : PageTable}, pt.user = 0 → Ledger held k u (pt.pages + c) →
      Ensures (uvmfree k pt 0 >>= fun k => .ok ((none : Option PageTable), k)) fun r =>
        Ledger held r.2 u (r.1.elim 0 PageTable.pages + c) := by
    intro k pt hu h
    refine (uvmfree_ledger (Nat.zero_le _) (by rw [hu, zero_add]; exact h)).bind fun k' h' => .ok ?_
    show Ledger held k' u (0 + c)
    rwa [zero_add]
  unfold procPagetable
  split
  · rename_i k₁ hc
    unfold uvmcreate at hc
    split at hc
    · rename_i hk
      cases hc
      refine .ok ?_
      show Ledger held k₁ u (0 + c)
      rw [zero_add]
      exact hl.kalloc_none hk
    · cases hc
  · rename_i pt k₁ hc
    obtain ⟨hu, hl₁⟩ : pt.user = 0 ∧ Ledger held k₁ u (pt.pages + c) := by
      unfold uvmcreate at hc
      split at hc
      · cases hc
      · rename_i page k₁ hk
        cases hc
        refine ⟨rfl, ?_⟩
        have hempty : (PageTable.empty page).pages + c = page ::ₘ c := by simp [PageTable.pages, PageTable.empty]
        rw [hempty]; exact hl.kalloc hk
    refine (mappages_maps (by decide)).bind ?_
    rintro ⟨b, k₂, pt₂⟩ hm₂
    have hl₂ := hm₂.ledger hl₁
    cases b with
    | false => exact hnone ((PageTable.user_congr (hm₂.failed rfl)).trans hu) hl₂
    | true =>
        obtain ⟨hn₂, hv₂⟩ := hm₂.stored rfl
        refine (mappages_maps (by decide)).bind ?_
        rintro ⟨b, k₃, pt₃⟩ hm₃
        have hl₃ := hm₃.ledger hl₂
        cases b with
        | false =>
            have hu₃ : pt₃.user = 0 := by
              rw [PageTable.user_congr (hm₃.failed rfl), PageTable.user_insert hn₂ hv₂, if_neg (by decide), zero_add]
              exact hu
            refine (uvmunmap_high (by decide)).bind ?_
            rintro ⟨k₄, pt₄⟩ ⟨hk₄, hp₄, hu₄⟩
            subst hk₄
            exact hnone (hu₄.trans hu₃) (hp₄ ▸ hl₃)
        | true => exact .ok hl₃

end Xv6Net.Vm
