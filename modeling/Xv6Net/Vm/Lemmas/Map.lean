import Xv6Net.Vm.Lemmas.Tables

/-!
# Mapping and unmapping pages
-/

namespace Xv6Net.Vm

open Kernel Lib

variable {held : Nat → Prop} {k k' : Kmem} {pt pt' : PageTable} {u c : Multiset Nat} {a i n pa : Nat} {perm : Perm}

theorem pgRoundUp_spec {sz : Nat} (h : sz ≤ TRAPFRAME) :
    pgRoundUp sz % PGSIZE = 0 ∧ sz ≤ pgRoundUp sz ∧ pgRoundUp sz < sz + PGSIZE ∧ pgRoundUp sz ≤ TRAPFRAME := by
  simp only [pgRoundUp, TRAPFRAME, TRAMPOLINE, MAXVA, PGSIZE] at *; omega

theorem pgRoundUp_mul (h : i ≤ USER_PAGES) : pgRoundUp (i * PGSIZE) = i * PGSIZE := by
  simp only [pgRoundUp, USER_PAGES, TRAPFRAME, TRAMPOLINE, MAXVA, PGSIZE] at *; omega

/-! ## One page is mapped -/

/-- What a call of `mappages` for page `i` does, `b` being whether it returns 0. -/
structure Maps (k : Kmem) (pt : PageTable) (k' : Kmem) (pt' : PageTable) (i : Nat) (pte : Pte) (b : Bool) : Prop where
  ledger : ∀ {held : Nat → Prop} {u c : Multiset Nat},
    Ledger held k u (pt.pages + c) → Ledger held k' u (pt'.pages + c)
  failed : b = false → pt'.leaves = pt.leaves
  stored : b = true → i ∉ pt.leaves ∧ pt'.leaves = pt.leaves.insert i pte

theorem mappages_one (ha : a % PGSIZE = 0) : mappages k pt a PGSIZE pa perm = mapLoop k pt a pa perm 1 := by
  have hl : pgRoundDown (a + PGSIZE - 1) = a := by simp only [pgRoundDown, PGSIZE] at ha ⊢; omega
  have hd : pgRoundDown a = a := by simp only [pgRoundDown, PGSIZE] at ha ⊢; omega
  have hpg : PGSIZE ≠ 0 := by decide
  simp only [mappages, if_neg hpg, hd, hl, Nat.sub_self, Nat.zero_div]

theorem mappages_maps (ha : a % PGSIZE = 0) :
    Ensures (mappages k pt a PGSIZE pa perm) fun (b, k', pt') => Maps k pt k' pt' (a / PGSIZE) ⟨pa, perm⟩ b := by
  rw [mappages_one ha, mapLoop]
  refine walk_true.bind fun (r, k₁, pt₁) ⟨hg, hr⟩ => ?_
  cases r with
  | none => exact .ok ⟨hg.ledger, fun _ => hg.leaves, (nomatch ·)⟩
  | some i =>
      obtain ⟨rfl, htab⟩ := hr i rfl
      dsimp only
      split
      · exact .error
      · rename_i hi
        refine .ok ⟨fun hl => ?_, (nomatch ·), fun _ => ⟨hg.leaves ▸ hi, ?_⟩⟩
        · rw [PageTable.storeLeaf_pages]; exact hg.ledger hl
        · rw [PageTable.storeLeaf_leaves htab, hg.leaves]

/-- The ledger of a table of a process, which maps the trapframe. The pages of all other tables are in `u` and `c`. -/
structure Accounted (held : Nat → Prop) (k : Kmem) (pt : PageTable) (u c : Multiset Nat) : Prop where
  ledger : Ledger held k (pt.user + u) (pt.pages + c)
  trap : USER_PAGES ∈ pt.leaves

theorem Maps.fresh {mem : Nat} (hm : Maps k pt k' pt' i ⟨mem, perm⟩ true)
    (ha : Accounted held k pt u (mem ::ₘ c)) (hi : i ≤ USER_PAGES) :
    i < USER_PAGES ∧ Accounted held k' pt' u c := by
  obtain ⟨hnot, hleaves⟩ := hm.stored rfl
  have hne : i ≠ USER_PAGES := by rintro rfl; exact hnot ha.trap
  have hlt : i < USER_PAGES := by omega
  refine ⟨hlt, ?_, by rw [hleaves]; exact (AList.mem_insert _).mpr (.inr ha.trap)⟩
  have hl := hm.ledger ha.ledger
  rw [Multiset.add_cons] at hl
  rw [PageTable.user_insert hnot hleaves, if_pos hlt, Multiset.singleton_add, Multiset.cons_add]
  exact hl.map

/-- A page that is mapped elsewhere is mapped, and gets another reference. -/
theorem Maps.shared (hm : Maps k pt k' pt' i ⟨pa, perm⟩ true)
    (ha : Accounted held k pt u c) (hi : i ≤ USER_PAGES) (hp : pa ∈ u) :
    Accounted held (addPageReference k' pa) pt' u c := by
  obtain ⟨hnot, hleaves⟩ := hm.stored rfl
  have hne : i ≠ USER_PAGES := by rintro rfl; exact hnot ha.trap
  have hlt : i < USER_PAGES := by omega
  refine ⟨?_, by rw [hleaves]; exact (AList.mem_insert _).mpr (.inr ha.trap)⟩
  rw [PageTable.user_insert hnot hleaves, if_pos hlt, Multiset.singleton_add, Multiset.cons_add]
  exact (hm.ledger ha.ledger).share (Multiset.mem_add.mpr (.inr hp))

theorem Maps.unchanged {pte : Pte} (hm : Maps k pt k' pt' i pte false) (ha : Accounted held k pt u c) :
    Accounted held k' pt' u c := by
  have hleaves := hm.failed rfl
  exact ⟨by rw [PageTable.user_congr hleaves]; exact hm.ledger ha.ledger, hleaves ▸ ha.trap⟩

/-! ## Pages are unmapped -/

theorem dropPage_false {doFree : Bool} : Ensures (dropPage k pa doFree) fun k' => doFree = false → k' = k := by
  cases doFree with
  | false => exact .ok fun _ => rfl
  | true => exact fun _ _ hf => nomatch hf

theorem unmapLoop_leaves {doFree : Bool} (ha : a % PGSIZE = 0) :
    Ensures (unmapLoop k pt a doFree n) fun (k', pt') => (doFree = false → k' = k) ∧ pt'.pages = pt.pages ∧
      ∀ i, pt'.leaves.lookup i = if a / PGSIZE ≤ i ∧ i < a / PGSIZE + n then none else pt.leaves.lookup i := by
  induction n generalizing k pt a with
  | zero => exact .ok ⟨fun _ => rfl, rfl, fun i => by rw [if_neg (by omega)]⟩
  | succ n ih =>
      unfold unmapLoop
      refine walk_false.bind fun (r, k₁, pt₁) ⟨hk, hpt, hr⟩ => ?_
      subst hk hpt
      cases r with
      | none => exact .error
      | some i =>
          obtain rfl := hr i rfl
          dsimp only
          split
          · exact .error
          · rename_i pte hpte
            refine dropPage_false.bind fun k₂ hk₂ => ?_
            have hnext : (a + PGSIZE) / PGSIZE = a / PGSIZE + 1 := by simp only [PGSIZE]; omega
            refine (ih (show (a + PGSIZE) % PGSIZE = 0 by simp only [PGSIZE] at *; omega)).mono
              fun (k₃, pt₃) ⟨hk, hp, hl⟩ => ⟨fun hf => (hk hf).trans (hk₂ hf), hp, fun j => ?_⟩
            rw [hl j, hnext]
            by_cases hj : j = a / PGSIZE
            · rw [if_neg (by omega), if_pos (by omega), hj]
              exact AList.lookup_erase _ _
            · have hne : (pt₁.clearLeaf (a / PGSIZE)).leaves.lookup j = pt₁.leaves.lookup j :=
                AList.lookup_erase_ne hj
              rw [hne]
              by_cases hin : a / PGSIZE + 1 ≤ j ∧ j < a / PGSIZE + 1 + n
              · rw [if_pos hin, if_pos (by omega)]
              · rw [if_neg hin, if_neg (by omega)]

theorem unmapLoop_ledger (ha : a % PGSIZE = 0) (hn : a / PGSIZE + n ≤ USER_PAGES) (hl : Ledger held k (pt.user + u) c) :
    Ensures (unmapLoop k pt a true n) fun (k', pt') => Ledger held k' (pt'.user + u) c := by
  induction n generalizing k pt a with
  | zero => exact .ok hl
  | succ n ih =>
      unfold unmapLoop
      refine walk_false.bind fun (r, k₁, pt₁) ⟨hk, hpt, hr⟩ => ?_
      subst hk hpt
      cases r with
      | none => exact .error
      | some i =>
          obtain rfl := hr i rfl
          dsimp only
          split
          · exact .error
          · rename_i pte hpte
            have hnext : (a + PGSIZE) / PGSIZE = a / PGSIZE + 1 := by simp only [PGSIZE]; omega
            rw [PageTable.user_erase hpte, if_pos (by omega), Multiset.singleton_add, Multiset.cons_add] at hl
            refine Ensures.bind (fun k₂ hk₂ => hl.kfree_user hk₂) fun k₂ h₂ => ?_
            exact ih (by simp only [PGSIZE] at *; omega) (by omega) h₂

theorem uvmunmap_free {va : Nat} (hn : va / PGSIZE + n ≤ USER_PAGES) (hacc : Accounted held k pt u c) :
    Ensures (uvmunmap k pt va n true) fun (k', pt') => Accounted held k' pt' u c := by
  unfold uvmunmap
  split
  · exact .error
  · rename_i ha
    have ha : va % PGSIZE = 0 := by omega
    refine ((unmapLoop_ledger ha hn hacc.ledger).and (unmapLoop_leaves ha)).mono
      fun (k', pt') ⟨hl, _, hp, hv⟩ => ⟨hp.symm ▸ hl, ?_⟩
    rw [← AList.lookup_isSome, hv, if_neg (by omega)]
    exact AList.lookup_isSome.mpr hacc.trap

theorem uvmunmap_high {va : Nat} (hva : USER_PAGES ≤ va / PGSIZE) :
    Ensures (uvmunmap k pt va 1 false) fun (k', pt') => k' = k ∧ pt'.pages = pt.pages ∧ pt'.user = pt.user := by
  unfold uvmunmap
  split
  · exact .error
  · unfold unmapLoop
    refine walk_false.bind fun (r, k₁, pt₁) ⟨hk, hpt, hr⟩ => ?_
    subst hk hpt
    cases r with
    | none => exact .error
    | some i =>
        obtain rfl := hr i rfl
        dsimp only
        split
        · exact .error
        · rename_i pte hpte
          refine .ok ⟨rfl, rfl, ?_⟩
          rw [PageTable.user_erase hpte, if_neg (by omega), zero_add]

theorem uvmdealloc_accounted {oldsz newsz : Nat} (hsz : oldsz ≤ TRAPFRAME) (hacc : Accounted held k pt u c) :
    Ensures (uvmdealloc k pt oldsz newsz) fun (sz, k', pt') => Accounted held k' pt' u c ∧ sz ≤ oldsz := by
  unfold uvmdealloc
  split
  · exact .ok ⟨hacc, Nat.le_refl _⟩
  · split
    · obtain ⟨ho, -, -, hle⟩ := pgRoundUp_spec hsz
      obtain ⟨hn, -, -, -⟩ := pgRoundUp_spec (show newsz ≤ TRAPFRAME by omega)
      refine (uvmunmap_free ?_ hacc).bind fun (k₁, pt₁) h₁ => .ok ⟨h₁, by omega⟩
      simp only [USER_PAGES, PGSIZE] at *; omega
    · exact .ok ⟨hacc, by omega⟩

end Xv6Net.Vm
