import Xv6Net.Kernel.Kalloc

/-!
# Pages that callers hold, and pages that are lost

A function that allocates pages for its own use frees them again before it returns. What it does not free is lost
to the free list.
-/

namespace Xv6Net.Kernel

theorem kalloc_isSome (h : 0 < k.freelist.length) : ∃ p k', kalloc k = (some p, k') := by
  obtain ⟨p, rest, hp⟩ := List.exists_cons_of_length_pos h
  exact ⟨p, (kalloc k).2, Prod.ext (kalloc_cons hp).1 rfl⟩

theorem kalloc_held {k' : Kmem} (hk : k.freelist.Nodup) (h : kalloc k = (some p, k')) :
    Held k' p ∧ k'.freelist.Nodup ∧ k.freelist = p :: k'.freelist := by
  obtain ⟨hf, hr, he⟩ := kalloc_eq_some h
  have hv := k.valid p (by rw [hf]; exact List.mem_cons_self)
  rw [hf] at hk
  refine ⟨⟨by rw [he]; exact hv, by rw [hr, Function.update_self], (List.nodup_cons.mp hk).1⟩,
    (List.nodup_cons.mp hk).2, hf⟩

/-- What a caller holds it still holds after another `kalloc`. -/
theorem Held.kalloc {k' : Kmem} {q : Nat} (hq : Held k q) (h : kalloc k = (some p, k')) : Held k' q := by
  obtain ⟨hf, hr, he⟩ := kalloc_eq_some h
  have hp : p ∈ k.freelist := by rw [hf]; exact List.mem_cons_self
  have hne : pageNum q ≠ pageNum p := by
    intro hn
    exact hq.not_free (pageNum_inj hq.valid.1 (k.valid p hp).1 hn ▸ hp)
  refine ⟨by rw [he]; exact hq.valid, by rw [hr, Function.update_of_ne hne]; exact hq.ref, fun hm => ?_⟩
  exact hq.not_free (by rw [hf]; exact List.mem_cons_of_mem _ hm)

theorem Held.kfree (hp : Held k p) (hk : k.freelist.Nodup) :
    ∃ k', kfree k p = .ok k' ∧ k'.freelist = p :: k.freelist ∧ k'.freelist.Nodup ∧
      ∀ q, q ≠ p → Held k q → Held k' q := by
  obtain ⟨k', h, hf, hr, he⟩ := kfree_last hp.valid (Nat.le_of_eq hp.ref)
  refine ⟨k', h, hf, by rw [hf]; exact List.nodup_cons.mpr ⟨hp.not_free, hk⟩, fun q hne hq => ?_⟩
  have hn : pageNum q ≠ pageNum p := fun hn => hne (pageNum_inj hq.valid.1 hp.valid.1 hn)
  refine ⟨by rw [he]; exact hq.valid, by rw [hr, Function.update_of_ne hn]; exact hq.ref, ?_⟩
  rw [hf, List.mem_cons, not_or]
  exact ⟨hne, hq.not_free⟩

/-- Between the two states, `n` pages left the free list, and no caller lost a page it held. -/
structure Lost (n : Nat) (k k' : Kmem) : Prop where
  held : ∀ q, Held k q → Held k' q
  sub : ∀ q ∈ k'.freelist, q ∈ k.freelist
  nodup : k'.freelist.Nodup
  count : k'.freelist.length + n = k.freelist.length

namespace Lost

variable {m n : Nat} {k k' k'' : Kmem} {p : Nat}

theorem refl (hk : k.freelist.Nodup) : Lost 0 k k := ⟨fun _ h => h, fun _ h => h, hk, rfl⟩

theorem trans (h₁ : Lost m k k') (h₂ : Lost n k' k'') : Lost (m + n) k k'' :=
  ⟨fun q hq => h₂.held q (h₁.held q hq), fun q hq => h₁.sub q (h₂.sub q hq), h₂.nodup, by have := h₁.count; have := h₂.count; omega⟩

theorem kalloc (hk : k.freelist.Nodup) (h : kalloc k = (some p, k')) : Lost 1 k k' := by
  obtain ⟨-, hnd, hf⟩ := kalloc_held hk h
  exact ⟨fun q hq => hq.kalloc h, fun q hq => by rw [hf]; exact List.mem_cons_of_mem _ hq, hnd, by rw [hf]; rfl⟩

/-- A failed `kalloc` loses nothing. -/
theorem kalloc_none (hk : k.freelist.Nodup) (h : Kernel.kalloc k = (none, k')) : Lost 0 k k' := by
  obtain ⟨hf, hr, he⟩ := kalloc_eq_none h
  refine ⟨fun q hq => ?_, fun q hq => by rw [← hf]; exact hq, by rw [hf]; exact hk, by rw [hf]; rfl⟩
  have hne : pageNum q ≠ pageNum 0 := Kmem.Ram.pageNum_ne_zero (k := k) hq.valid
  exact ⟨by rw [he]; exact hq.valid, by rw [hr, Function.update_of_ne hne]; exact hq.ref, by rw [hf]; exact hq.not_free⟩

/-- Freeing a page that was free at the start and is held now. -/
theorem kfree (h : Lost (n + 1) k k') (hp : Held k' p) (hfree : p ∈ k.freelist) :
    ∃ k'', kfree k' p = .ok k'' ∧ Lost n k k'' ∧ ∀ q, q ≠ p → Held k' q → Held k'' q := by
  obtain ⟨k'', he, hf, hnd, hh⟩ := hp.kfree h.nodup
  refine ⟨k'', he, ⟨fun q hq => hh q ?_ (h.held q hq), fun q hq => ?_, hnd, ?_⟩, hh⟩
  · rintro rfl; exact hq.not_free hfree
  · rw [hf, List.mem_cons] at hq
    exact hq.elim (fun he => he ▸ hfree) (h.sub q)
  · have := h.count
    rw [hf, List.length_cons]; omega

end Lost

/-- Between the two states, the pages `taken` left the free list for good, and the counts of all others are the same. -/
structure Took (k k' : Kmem) (taken : List Nat) : Prop where
  free : k.freelist = taken ++ k'.freelist
  kend : k'.kend = k.kend
  same : ∀ p, k.Ram p → p ∉ taken → k'.refCounter (pageNum p) = k.refCounter (pageNum p)
  one : taken.Nodup → ∀ p ∈ taken, k'.refCounter (pageNum p) = 1

namespace Took

variable {k k' k'' : Kmem} {p : Nat} {taken taken' : List Nat}

theorem refl (k : Kmem) : Took k k [] := ⟨rfl, rfl, fun _ _ _ => rfl, nofun⟩

theorem ram (h : Took k k' taken) : k'.Ram = k.Ram := by funext p; simp only [Kmem.Ram, h.kend]

theorem mem_ram (h : Took k k' taken) (hp : p ∈ taken) : k.Ram p :=
  k.valid p (by rw [h.free]; exact List.mem_append_left _ hp)

theorem trans (h₁ : Took k k' taken) (h₂ : Took k' k'' taken') : Took k k'' (taken ++ taken') where
  free := by rw [h₁.free, h₂.free, List.append_assoc]
  kend := h₂.kend.trans h₁.kend
  same p hp hnot := by
    rw [List.mem_append, not_or] at hnot
    rw [h₂.same p (h₁.ram ▸ hp) hnot.2, h₁.same p hp hnot.1]
  one hnd p hp := by
    obtain ⟨hnd₁, hnd₂, hdisj⟩ := List.nodup_append.mp hnd
    rcases List.mem_append.mp hp with hp | hp
    · rw [h₂.same p (h₁.ram ▸ h₁.mem_ram hp) fun hp' => hdisj p hp p hp' rfl]
      exact h₁.one hnd₁ p hp
    · exact h₂.one hnd₂ p hp

theorem kalloc (h : kalloc k = (some p, k')) : Took k k' [p] := by
  obtain ⟨hf, hr, he⟩ := kalloc_eq_some h
  have hram : k.Ram p := k.valid p (by rw [hf]; exact List.mem_cons_self)
  refine ⟨hf, he, fun q hq hnot => ?_, fun _ q hq => ?_⟩
  · rw [hr, Function.update_of_ne (hq.pageNum_ne hram (by simpa using hnot))]
  · obtain rfl := List.mem_singleton.mp hq
    rw [hr, Function.update_self]

/-- A failed `kalloc` sets the count of page 0, which is no page of memory. -/
theorem kalloc_none (h : Kernel.kalloc k = (none, k')) : Took k k' [] := by
  obtain ⟨hf, hr, he⟩ := kalloc_eq_none h
  exact ⟨hf.symm, he, fun q hq _ => by rw [hr, Function.update_of_ne hq.pageNum_ne_zero], nofun⟩

theorem held (h : Took k k' taken) (hp : Held k p) : Held k' p := by
  have hnot := hp.not_free
  rw [h.free, List.mem_append, not_or] at hnot
  exact ⟨by rw [h.kend]; exact hp.valid, by rw [h.same p hp.valid hnot.1]; exact hp.ref, hnot.2⟩

theorem nodup (h : Took k k' taken) (hk : k.freelist.Nodup) : k'.freelist.Nodup := by
  rw [h.free] at hk
  exact (List.nodup_append.mp hk).2.1

end Took

end Xv6Net.Kernel
