import Xv6Net.Kernel.Lemmas.Sections

/-!
# Properties of the physical page allocator
-/

namespace Xv6Net.Kernel

open Lib

/-- Sharing of pages among any number of CPUs, from `kinit` on and for every interleaving of the locked sections.
The free list holds no page twice and exactly the pages that are neither allocated nor between the two sections of a
`kfree`; `kalloc` returns no allocated page; a page goes back exactly when as many `kfree` calls were made on it
since its `kalloc` as `add_page_reference` calls and one more; and no CPU panics. -/
theorem allocator_shares {kend : Nat} {hkend : KERNBASE ≤ kend} {k : Kmem} {as : List AllocAct} {s : AllocSys}
    (hk : kinit kend hkend = .ok k) (hs : run allocStep (.boot k) as = some s) :
    s.kmem.freelist.Nodup ∧
      (∀ p, p ∈ s.kmem.freelist ↔
        (p % PGSIZE = 0 ∧ kend ≤ p ∧ p < PHYSTOP) ∧ ¬ s.Allocated p ∧ ¬ s.Linking p) ∧
      (∀ p k', kalloc s.kmem = (some p, k') → ¬ s.Allocated p) ∧
      (∀ p l, s.loans p = some l →
        l.frees ≤ 1 + l.adds ∧ (p ∈ s.kmem.freelist ∨ s.Linking p ↔ l.frees = 1 + l.adds)) ∧
      (∀ c p t, allocStep s (.kfree c p) = some t →
        (t.pc c = .linking p ↔ ∃ l, t.loans p = some l ∧ l.frees = 1 + l.adds)) ∧
      (∀ c p, s.pc c = .linking p → ∃ t, allocStep s (.link c) = some t ∧ t.kmem.freelist = p :: s.kmem.freelist) ∧
      (∀ a t, allocStep s a = some t → ∀ p ∈ t.kmem.freelist, p ∉ s.kmem.freelist →
        ∃ c, a = .link c ∧ s.pc c = .linking p) ∧
      ∀ c e, s.pc c ≠ .panicked e := by
  have h : AllocInv s := run_keeps' (fun _ _ _ h ht => h.step ht) (AllocInv.boot hk) hs
  have hend : s.kmem.kend = kend := by
    rw [← (kinit_result hk).1]
    exact run_keeps' (I := fun u => AllocInv u ∧ u.kmem.kend = k.kend)
      (fun _ _ _ hu ht => ⟨hu.1.step ht, (hu.1.grows ht).1.trans hu.2⟩) ⟨AllocInv.boot hk, rfl⟩ hs |>.2
  refine ⟨List.nodup_iff_count_le_one.mpr fun p => (h.pages p).once, fun p => ?_, fun p k' hp => ?_, fun p l hl => ?_,
    fun c p t ht => ?_, fun c p hc => ?_, fun a t ht p hp hnp => ?_, h.running⟩
  · subst hend
    exact ⟨fun hp => ⟨s.kmem.valid p hp, ((h.pages p).free hp).symm⟩, fun ⟨hram, hna, hnl⟩ =>
      ((h.pages p).cover hram).resolve_right (not_or.mpr ⟨hnl, hna⟩)⟩
  · have hfree : p ∈ s.kmem.freelist := by rw [(kalloc_eq_some hp).1]; exact List.mem_cons_self
    exact ((h.pages p).free hfree).2
  · obtain ⟨hram, hle⟩ := (h.pages p).loan l hl
    refine ⟨hle, fun hplace => ?_, fun hclosed => ?_⟩
    · have hna : ¬ s.Allocated p := hplace.elim (fun hf => ((h.pages p).free hf).2) fun hk => ((h.pages p).linking hk).2
      rw [allocated_iff hl, Loan.Open] at hna
      omega
    · have hna : ¬ s.Allocated p := by rw [allocated_iff hl, Loan.Open]; omega
      rcases (h.pages p).cover hram with hf | hk | ha
      · exact .inl hf
      · exact .inr hk
      · exact absurd ha hna
  · obtain ⟨l, k', hc, hl, hopen, -, -, -, ⟨hlt, -, rfl⟩ | ⟨hlast, rfl⟩⟩ := h.kfree_cases ht
    · simp [hc]; omega
    · simp [hlast, Nat.add_comm]
  · obtain ⟨hram, -⟩ := (h.pages p).linking ⟨c, hc⟩
    exact ⟨{ s with kmem := linkPage s.kmem p, pc := Function.update s.pc c .idle }, by simp only [allocStep, hc],
      (linkPage_ram hram).1⟩
  · exact (h.grows ht).2 p hp hnp

/-- The second of two pages is shared by two CPUs; CPU 1 has freed it last and not yet linked it. -/
theorem allocator_shares_two :
    ∃ k s, kinit (PHYSTOP - 2 * PGSIZE) (by decide) = .ok k ∧
      run allocStep (.boot k) [.kalloc 0, .addPageReference 1 (PHYSTOP - 7), .kfree 0 (PHYSTOP - PGSIZE),
        .kfree 1 (PHYSTOP - PGSIZE)] = some s ∧
      s.Linking (PHYSTOP - PGSIZE) ∧ ∀ p, p ∈ s.kmem.freelist ↔
        (p % PGSIZE = 0 ∧ PHYSTOP - 2 * PGSIZE ≤ p ∧ p < PHYSTOP) ∧ ¬ s.Allocated p ∧ ¬ s.Linking p := by
  refine ⟨_, _, rfl, rfl, ⟨1, rfl⟩, ?_⟩
  exact (@allocator_shares (PHYSTOP - 2 * PGSIZE) (by decide) _ [.kalloc 0, .addPageReference 1 (PHYSTOP - 7),
    .kfree 0 (PHYSTOP - PGSIZE), .kfree 1 (PHYSTOP - PGSIZE)] _ rfl rfl).2.1

end Xv6Net.Kernel
