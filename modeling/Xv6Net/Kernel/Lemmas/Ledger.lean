import Mathlib.Algebra.Order.Group.Multiset
import Xv6Net.Kernel.Kalloc

/-!
# A ledger of references to pages

The reference count of a page is the number of its owners. `user` are the pages mapped for user programs, once for
every mapping, and `kern` the pages that the kernel uses, each of which has one owner. Pages that were handed out
before the ledger starts are in `held`.
-/

namespace Xv6Net.Kernel

/-- Every page of `own` has as many references as it has owners, and every page is free, owned or held. -/
structure Owned (held : Nat → Prop) (k : Kmem) (own : Multiset Nat) : Prop where
  free_nodup : k.freelist.Nodup
  ram : ∀ p ∈ own, k.Ram p
  ref : ∀ p ∈ own, k.refCounter (pageNum p) = own.count p
  not_free : ∀ p ∈ own, p ∉ k.freelist
  cover : ∀ p, k.Ram p → p ∈ k.freelist ∨ p ∈ own ∨ held p

namespace Owned

variable {held : Nat → Prop} {k k' : Kmem} {own : Multiset Nat} {p : Nat}

theorem kalloc (ho : Owned held k own) (h : kalloc k = (some p, k')) : Owned held k' (p ::ₘ own) ∧ p ∉ own := by
  obtain ⟨hf, hr, he⟩ := kalloc_eq_some h
  have hfree : p ∈ k.freelist := by rw [hf]; exact List.mem_cons_self
  have hram : k.Ram p := k.valid p hfree
  have hp : p ∉ own := fun hm => ho.not_free p hm hfree
  have hnd := ho.free_nodup
  rw [hf, List.nodup_cons] at hnd
  have hself : k'.refCounter (pageNum p) = 1 := by rw [hr, Function.update_self]
  have hother : ∀ q ∈ own, k'.refCounter (pageNum q) = k.refCounter (pageNum q) := fun q hq => by
    rw [hr, Function.update_of_ne ((ho.ram q hq).pageNum_ne hram (by rintro rfl; exact hp hq))]
  refine ⟨⟨hnd.2, ?_, ?_, ?_, ?_⟩, hp⟩
  · intro q hq
    unfold Kmem.Ram
    rw [he]
    rcases Multiset.mem_cons.mp hq with rfl | hq
    · exact hram
    · exact ho.ram q hq
  · intro q hq
    rcases Multiset.mem_cons.mp hq with rfl | hq
    · rw [hself, Multiset.count_cons_self, Multiset.count_eq_zero_of_notMem hp]
    · have hqp : q ≠ p := fun he => hp (he ▸ hq)
      rw [hother q hq, ho.ref q hq, Multiset.count_cons_of_ne hqp]
  · intro q hq
    rcases Multiset.mem_cons.mp hq with rfl | hq
    · exact hnd.1
    · exact fun hm => ho.not_free q hq (by rw [hf]; exact List.mem_cons_of_mem _ hm)
  · intro q hq
    unfold Kmem.Ram at hq
    rw [he] at hq
    rcases ho.cover q hq with hm | hm | hm
    · rw [hf] at hm
      rcases List.mem_cons.mp hm with rfl | hm
      · exact .inr (.inl (Multiset.mem_cons_self _ _))
      · exact .inl hm
    · exact .inr (.inl (Multiset.mem_cons_of_mem hm))
    · exact .inr (.inr hm)

/-- A failed `kalloc` sets the count of page 0, which is no page of memory. -/
theorem kalloc_none (ho : Owned held k own) (h : Kernel.kalloc k = (none, k')) : Owned held k' own := by
  obtain ⟨hf, hr, he⟩ := kalloc_eq_none h
  have hram : k'.Ram = k.Ram := by funext p; simp only [Kmem.Ram, he]
  refine ⟨hf ▸ ho.free_nodup, hram ▸ ho.ram, fun q hq => ?_, hf ▸ ho.not_free, ?_⟩
  · rw [hr, Function.update_of_ne (ho.ram q hq).pageNum_ne_zero]
    exact ho.ref q hq
  · rw [hram, hf]; exact ho.cover

theorem kfree (ho : Owned held k (p ::ₘ own)) (h : kfree k p = .ok k') : Owned held k' own := by
  obtain ⟨he, -, -, -, hc⟩ := kfree_eq_ok h
  have hram : k'.Ram = k.Ram := by funext q; simp only [Kmem.Ram, he]
  have hp : p ∈ p ::ₘ own := Multiset.mem_cons_self _ _
  have hpref := ho.ref p hp
  rw [Multiset.count_cons_self] at hpref
  have hmem : ∀ {q}, q ∈ own → q ∈ p ::ₘ own := fun hq => Multiset.mem_cons_of_mem hq
  have hne : ∀ q ∈ own, q ≠ p → pageNum q ≠ pageNum p := fun q hq hqp =>
    (ho.ram q (hmem hq)).pageNum_ne (ho.ram p hp) hqp
  rcases hc with ⟨hlt, hf, hr⟩ | ⟨hle, hf, hr⟩
  · -- another owner is left
    have hin : p ∈ own := Multiset.count_pos.mp (by omega)
    refine ⟨hf ▸ ho.free_nodup, fun q hq => hram ▸ ho.ram q (hmem hq), fun q hq => ?_,
      fun q hq => hf ▸ ho.not_free q (hmem hq), fun q hq => ?_⟩
    · by_cases hqp : q = p
      · subst hqp; rw [hr, Function.update_self]; omega
      · rw [hr, Function.update_of_ne (hne q hq hqp), ho.ref q (hmem hq), Multiset.count_cons_of_ne hqp]
    · rw [hf]
      rcases ho.cover q (hram ▸ hq) with hm | hm | hm
      · exact .inl hm
      · rcases Multiset.mem_cons.mp hm with rfl | hm
        · exact .inr (.inl hin)
        · exact .inr (.inl hm)
      · exact .inr (.inr hm)
  · -- the page goes back to the free list
    have hout : p ∉ own := fun hm => by have := Multiset.count_pos.mpr hm; omega
    refine ⟨?_, fun q hq => hram ▸ ho.ram q (hmem hq), fun q hq => ?_, fun q hq => ?_, fun q hq => ?_⟩
    · rw [hf, List.nodup_cons]; exact ⟨ho.not_free p hp, ho.free_nodup⟩
    · have hqp : q ≠ p := by rintro rfl; exact hout hq
      rw [hr, Function.update_of_ne (hne q hq hqp), ho.ref q (hmem hq), Multiset.count_cons_of_ne hqp]
    · rw [hf, List.mem_cons, not_or]
      exact ⟨by rintro rfl; exact hout hq, ho.not_free q (hmem hq)⟩
    · rw [hf, List.mem_cons]
      rcases ho.cover q (hram ▸ hq) with hm | hm | hm
      · exact .inl (.inr hm)
      · rcases Multiset.mem_cons.mp hm with rfl | hm
        · exact .inl (.inl rfl)
        · exact .inr (.inl hm)
      · exact .inr (.inr hm)

theorem share (ho : Owned held k own) (hp : p ∈ own) : Owned held (addPageReference k p) (p ::ₘ own) := by
  have hmem : ∀ {q}, q ∈ p ::ₘ own → q ∈ own := fun hq =>
    (Multiset.mem_cons.mp hq).elim (fun h => h ▸ hp) id
  refine ⟨ho.free_nodup, fun q hq => ho.ram q (hmem hq), fun q hq => ?_, fun q hq => ho.not_free q (hmem hq),
    fun q hq => (ho.cover q hq).imp_right (.imp_left Multiset.mem_cons_of_mem)⟩
  by_cases hqp : q = p
  · subst hqp
    simp only [addPageReference, Function.update_self, Multiset.count_cons_self, ho.ref q hp]
  · simp only [addPageReference]
    rw [Function.update_of_ne ((ho.ram q (hmem hq)).pageNum_ne (ho.ram p hp) hqp), ho.ref q (hmem hq),
      Multiset.count_cons_of_ne hqp]

end Owned

/-- The pages of user programs and of the kernel; a page of the kernel has no other owner. -/
structure Ledger (held : Nat → Prop) (k : Kmem) (user kern : Multiset Nat) : Prop where
  owned : Owned held k (user + kern)
  once : ∀ p ∈ kern, (user + kern).count p = 1

namespace Ledger

variable {held : Nat → Prop} {k k' : Kmem} {user kern : Multiset Nat} {p : Nat}

theorem kalloc (hl : Ledger held k user kern) (h : kalloc k = (some p, k')) : Ledger held k' user (p ::ₘ kern) := by
  obtain ⟨ho, hp⟩ := hl.owned.kalloc h
  refine ⟨by rw [Multiset.add_cons]; exact ho, fun q hq => ?_⟩
  rw [Multiset.add_cons]
  rcases Multiset.mem_cons.mp hq with rfl | hq
  · rw [Multiset.count_cons_self, Multiset.count_eq_zero_of_notMem hp]
  · have hqp : q ≠ p := fun he => hp (Multiset.mem_add.mpr (.inr (he ▸ hq)))
    rw [Multiset.count_cons_of_ne hqp, hl.once q hq]

theorem kalloc_none (hl : Ledger held k user kern) (h : Kernel.kalloc k = (none, k')) : Ledger held k' user kern :=
  ⟨hl.owned.kalloc_none h, hl.once⟩

theorem kfree_kern (hl : Ledger held k user (p ::ₘ kern)) (h : kfree k p = .ok k') : Ledger held k' user kern := by
  have ho := hl.owned
  have honce := hl.once
  rw [Multiset.add_cons] at ho honce
  refine ⟨ho.kfree h, fun q hq => ?_⟩
  have hp := honce p (Multiset.mem_cons_self _ _)
  have hq' := honce q (Multiset.mem_cons_of_mem hq)
  have hqp : q ≠ p := by
    rintro rfl
    have := Multiset.count_pos.mpr (Multiset.mem_add.mpr (.inr hq) : q ∈ user + kern)
    rw [Multiset.count_cons_self] at hp
    omega
  rwa [Multiset.count_cons_of_ne hqp] at hq'

theorem kfree_user (hl : Ledger held k (p ::ₘ user) kern) (h : kfree k p = .ok k') : Ledger held k' user kern := by
  have ho := hl.owned
  have honce := hl.once
  rw [Multiset.cons_add] at ho honce
  refine ⟨ho.kfree h, fun q hq => ?_⟩
  have hq' := honce q hq
  have hpos := Multiset.count_pos.mpr (Multiset.mem_add.mpr (.inr hq) : q ∈ user + kern)
  rw [Multiset.count_cons] at hq'
  split at hq' <;> omega

theorem map (hl : Ledger held k user (p ::ₘ kern)) : Ledger held k (p ::ₘ user) kern := by
  have he : p ::ₘ user + kern = user + p ::ₘ kern := by rw [Multiset.add_cons, Multiset.cons_add]
  exact ⟨he ▸ hl.owned, fun q hq => he ▸ hl.once q (Multiset.mem_cons_of_mem hq)⟩

theorem share (hl : Ledger held k user kern) (hp : p ∈ user) :
    Ledger held (addPageReference k p) (p ::ₘ user) kern := by
  refine ⟨by rw [Multiset.cons_add]; exact hl.owned.share (Multiset.mem_add.mpr (.inl hp)), fun q hq => ?_⟩
  have hq' := hl.once q hq
  have hqp : q ≠ p := by
    rintro rfl
    have := Multiset.count_pos.mpr hp
    have := Multiset.count_pos.mpr hq
    rw [Multiset.count_add] at hq'
    omega
  rw [Multiset.cons_add, Multiset.count_cons_of_ne hqp]
  exact hq'

theorem user_ref (hl : Ledger held k user kern) (hp : p ∈ user) : k.refCounter (pageNum p) = user.count p := by
  have hm : p ∈ user + kern := Multiset.mem_add.mpr (.inl hp)
  rw [hl.owned.ref p hm, Multiset.count_add]
  have hk : p ∉ kern := fun hk => by
    have h1 := hl.once p hk
    have := Multiset.count_pos.mpr hp
    have := Multiset.count_pos.mpr hk
    rw [Multiset.count_add] at h1
    omega
  rw [Multiset.count_eq_zero_of_notMem hk, Nat.add_zero]

end Ledger

end Xv6Net.Kernel
