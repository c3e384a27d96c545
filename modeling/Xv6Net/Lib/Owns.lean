import Mathlib.Logic.Function.Basic

/-!
# Exclusive ownership

Slots hold things of type `α` or `null`. The things that are in use are exactly those that slots hold, each of them in
one slot.
-/

namespace Xv6Net.Lib

variable {ι α : Type} {null a : α} {ref : ι → α} {used used' : α → Prop} {i j : ι}

structure Owns (null : α) (ref : ι → α) (used : α → Prop) : Prop where
  /-- What a slot holds is in use. -/
  inUse : ∀ i, ref i ≠ null → used (ref i)
  /-- Nothing is shared. -/
  inj : ∀ i j, ref i ≠ null → ref i = ref j → i = j
  /-- Nothing is leaked. -/
  held : ∀ a, a ≠ null → used a → ∃ i, ref i = a

namespace Owns

/-- What is held in another slot is something else. -/
theorem ne_of_ne (h : Owns null ref used) (hi : ref i ≠ null) (hij : i ≠ j) : ref j ≠ ref i :=
  fun heq => hij (h.inj i j hi heq.symm)

theorem ne_of_not_used (h : Owns null ref used) (hi : ref i ≠ null) (ha : ¬ used a) : ref i ≠ a :=
  fun heq => ha (heq ▸ h.inUse i hi)

variable [DecidableEq ι]

/-- Something that was not in use is put in an empty slot. -/
theorem take (h : Owns null ref used) (hi : ref i = null) (ha : ¬ used a)
    (hused : ∀ b, used' b ↔ b = a ∨ used b) : Owns null (Function.update ref i a) used' where
  inUse := by
    intro j hj
    by_cases hji : j = i
    · subst hji; simp [hused]
    · rw [Function.update_of_ne hji] at hj ⊢
      exact (hused _).mpr (.inr (h.inUse j hj))
  inj := by
    intro j k hj hjk
    by_cases hji : j = i <;> by_cases hki : k = i
    · rw [hji, hki]
    · subst hji
      rw [Function.update_self, Function.update_of_ne hki] at hjk
      rw [Function.update_self] at hj
      exact absurd hjk.symm (h.ne_of_not_used (hjk ▸ hj) ha)
    · subst hki
      rw [Function.update_self, Function.update_of_ne hji] at hjk
      rw [Function.update_of_ne hji] at hj
      exact absurd hjk (h.ne_of_not_used hj ha)
    · rw [Function.update_of_ne hji] at hj hjk
      rw [Function.update_of_ne hki] at hjk
      exact h.inj j k hj hjk
  held := by
    intro b hb hu
    rcases (hused b).mp hu with rfl | hu
    · exact ⟨i, Function.update_self ..⟩
    · obtain ⟨j, rfl⟩ := h.held b hb hu
      have hji : j ≠ i := by rintro rfl; exact hb hi
      exact ⟨j, Function.update_of_ne hji ..⟩

/-- What a slot holds is given back. -/
theorem drop (h : Owns null ref used) (i : ι) (hused : ∀ b, used' b ↔ b ≠ ref i ∧ used b) :
    Owns null (Function.update ref i null) used' where
  inUse := by
    intro j hj
    have hji : j ≠ i := by rintro rfl; simp at hj
    rw [Function.update_of_ne hji] at hj ⊢
    exact (hused _).mpr ⟨(h.ne_of_ne hj hji).symm, h.inUse j hj⟩
  inj := by
    intro j k hj hjk
    have hji : j ≠ i := by rintro rfl; simp at hj
    have hki : k ≠ i := by rintro rfl; rw [Function.update_self] at hjk; exact hj hjk
    rw [Function.update_of_ne hji] at hj hjk
    rw [Function.update_of_ne hki] at hjk
    exact h.inj j k hj hjk
  held := by
    intro b hb hu
    obtain ⟨hne, hu⟩ := (hused b).mp hu
    obtain ⟨j, rfl⟩ := h.held b hb hu
    have hji : j ≠ i := by rintro rfl; exact hne rfl
    exact ⟨j, Function.update_of_ne hji ..⟩

end Owns

end Xv6Net.Lib
