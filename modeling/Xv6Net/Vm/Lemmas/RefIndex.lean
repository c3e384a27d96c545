import Xv6Net.Vm.Lemmas.Exact
import Xv6Net.Vm.RefIndex

namespace Xv6Net.Vm

open Kernel Lib

variable {k k' : Kmem} {old new : PageTable} {i n pa index : Nat}

/-! ## What `uvmshare` gives to `add_page_reference` -/

theorem mem_shareGives (h : pa ∈ shareGives k old new i n) :
    ∃ j pte, j < i + n ∧ old.leaves.lookup j = some pte ∧ pte.pa = pa := by
  induction n generalizing k new i with
  | zero => cases h
  | succ n ih =>
      rw [shareGives] at h
      split at h
      · cases h
      · rename_i pte hpte
        have hself : ∃ j pte', j < i + (n + 1) ∧ old.leaves.lookup j = some pte' ∧ pte'.pa = pte.pa :=
          ⟨i, pte, by omega, presentPte_lookup pte hpte, rfl⟩
        split at h
        · split at h
          · rcases List.mem_cons.mp h with rfl | h
            · exact hself
            · obtain ⟨j, pte', hj, hlookup⟩ := ih h
              exact ⟨j, pte', by omega, hlookup⟩
          · obtain ⟨j, pte', hj, hlookup⟩ := ih h
            exact ⟨j, pte', by omega, hlookup⟩
        · cases h

/-- The counts of the pages in use go up by as many as they are given. -/
theorem shareLoop_counts (hold : ∀ j pte, j < i + n → old.leaves.lookup j = some pte → k.Ram pte.pa) {b : Bool} {j : Nat}
    {new' : PageTable} (h : shareLoop k old new i n = .ok (b, j, k', new')) {p : Nat} (hp : k.Ram p)
    (hnot : p ∉ k.freelist) :
    k'.refCounter (pageNum p) = k.refCounter (pageNum p) + (shareGives k old new i n).count p := by
  induction n generalizing k new i with
  | zero =>
      cases h
      rfl
  | succ n ih =>
      cases hpte : presentPte k old (i * PGSIZE) "uvmshare" with
      | error e => simp [shareLoop, hpte, bind, Except.bind] at h
      | ok pte =>
          have hram := hold i pte (by omega) (presentPte_lookup pte hpte)
          have hne : pte.pa ≠ 0 := fun h0 => hram.pageNum_ne_zero (congrArg pageNum h0)
          cases hmap : mappages k new (i * PGSIZE) PGSIZE pte.pa pte.perm with
          | error e => simp [shareLoop, hpte, hmap, bind, Except.bind] at h
          | ok r =>
              obtain ⟨mapped, k₁, new₁⟩ := r
              obtain ⟨⟨taken, htook, -⟩, -⟩ := mappages_took (Nat.mul_mod_left ..) _ hmap
              have hsame : k₁.refCounter (pageNum p) = k.refCounter (pageNum p) := by
                apply htook.same p hp
                intro hmem
                apply hnot
                rw [htook.free]
                exact List.mem_append_left _ hmem
              cases mapped with
              | false =>
                  simp only [shareLoop, hpte, hmap, bind, Except.bind, Except.ok.injEq, Prod.mk.injEq] at h
                  simp [shareGives, hpte, hmap, ← h.2.2.1, hsame]
              | true =>
                  simp only [shareLoop, hpte, hmap, bind, Except.bind, if_pos hne] at h
                  have hram₁ : (addPageReference k₁ pte.pa).Ram = k.Ram := htook.ram
                  have hnot₁ : p ∉ (addPageReference k₁ pte.pa).freelist := by
                    intro hmem
                    apply hnot
                    rw [htook.free]
                    exact List.mem_append_right _ hmem
                  have hold₁ (j : Nat) (pte' : Pte) (hj : j < i + 1 + n) (hlookup : old.leaves.lookup j = some pte') :
                      (addPageReference k₁ pte.pa).Ram pte'.pa := by
                    rw [hram₁]
                    exact hold j pte' (by omega) hlookup
                  rw [ih hold₁ h (hram₁ ▸ hp) hnot₁]
                  simp only [shareGives, hpte, hmap, if_pos hne, List.count_cons, addPageReference]
                  by_cases hpa : pte.pa = p
                  · subst hpa
                    rw [Function.update_self, hsame, beq_self_eq_true, if_pos rfl]
                    omega
                  · rw [Function.update_of_ne (hp.pageNum_ne hram (Ne.symm hpa)), hsame]
                    simp [hpa]

/-! ## Indices -/

theorem RefUse.page (h : RefUse k pa index) : k.Ram pa ∨ pa = 0 := by
  cases h with
  | kfree accepted =>
      obtain ⟨-, haligned, hend, htop, -⟩ := kfree_eq_ok accepted
      exact .inl ⟨haligned, hend, htop⟩
  | kalloc =>
      cases hk : Kernel.kalloc k with
      | mk r k' =>
          cases r with
          | none => exact .inr rfl
          | some p =>
              have hmem : p ∈ k.freelist := by
                rw [(kalloc_eq_some hk).1]
                exact List.mem_cons_self
              exact .inl (k.valid p hmem)
  | uvmshare user given =>
      obtain ⟨j, pte, hj, hlookup, rfl⟩ := mem_shareGives given
      exact .inl (user j pte (by omega) hlookup)

/-! The entries that change are among those that are used; for `uvmshare` `shareLoop_counts` says so. -/

theorem refUse_of_kfree {k' : Kmem} (h : kfree k pa = .ok k') (hne : k'.refCounter index ≠ k.refCounter index) :
    RefUse k pa index := by
  by_cases hi : index = pageNum pa
  · exact hi ▸ .kfree h
  · obtain ⟨-, -, -, -, ⟨-, -, hr⟩ | ⟨-, -, hr⟩⟩ := kfree_eq_ok h <;> simp [hr, hi] at hne

theorem refUse_of_kalloc (hne : (kalloc k).2.refCounter index ≠ k.refCounter index) :
    RefUse k ((kalloc k).1.getD 0) index := by
  by_cases hi : index = pageNum ((kalloc k).1.getD 0)
  · exact hi ▸ .kalloc
  · cases hk : kalloc k with
    | mk r k' =>
        cases r with
        | none => simp_all [(kalloc_eq_none hk).2.1]
        | some p => simp_all [(kalloc_eq_some hk).2.1]

theorem pageNum32_eq (h : k.Ram pa) : pageNum32 pa = pageNum pa := by
  have hlt : pa < 0x88000000 := h.2.2
  simp only [pageNum32, pageNum, pgRoundDown, PGSIZE]
  omega

theorem RefUse.index_eq (h : RefUse k pa index) : index = pageNum pa := by
  cases h with
  | kfree => rfl
  | kalloc => rfl
  | uvmshare user given =>
      obtain ⟨j, pte, hj, hlookup, rfl⟩ := mem_shareGives given
      exact pageNum32_eq (user j pte (by omega) hlookup)

theorem pageNum_lt_iff (pa : Nat) : pageNum pa < MAX_USER_PAGE_COUNT ↔ pa < PHYSTOP - KERNBASE := by
  have hcount : MAX_USER_PAGE_COUNT = 32768 := by decide
  have hsize : PHYSTOP - KERNBASE = 32768 * 4096 := by decide
  rw [hcount, hsize]
  simp only [pageNum, pgRoundDown, PGSIZE]
  omega

end Xv6Net.Vm
