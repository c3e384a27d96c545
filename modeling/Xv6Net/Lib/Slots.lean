import Mathlib.Data.List.Basic

/-!
# Maps kept in slots

A table of slots, each of which is empty or has a key with its value, is a map if no key is in two of them. A key is
added by a store to an empty slot or to one behind the end, and removed by emptying its slot.
-/

namespace Xv6Net.Lib.Slots

variable {κ α : Type} {t t' : List (Option (κ × α))} {e : Option (κ × α)} {i j : Nat} {k k' : κ} {a b : α}

/-- Slot `i` has the key `k` with the value `a`. -/
def Holds (t : List (Option (κ × α))) (i : Nat) (k : κ) (a : α) : Prop := t[i]? = some (some (k, a))

/-- No key is in two slots. -/
def Unique (t : List (Option (κ × α))) : Prop := ∀ i j k a b, Holds t i k a → Holds t j k b → i = j

/-- Slot `i` gets the contents `e`. -/
def Stores (t : List (Option (κ × α))) (i : Nat) (e : Option (κ × α)) (t' : List (Option (κ × α))) : Prop :=
  ∀ j, t'[j]? = if j = i then some e else t[j]?

theorem Stores.holds_self (h : Stores t i e t') : Holds t' i k a ↔ e = some (k, a) := by
  rw [Holds, h, if_pos rfl, Option.some.injEq]

theorem Stores.holds_of_ne (h : Stores t i e t') (hj : j ≠ i) : Holds t' j k a ↔ Holds t j k a := by
  rw [Holds, h, if_neg hj, Holds]

theorem Holds.eq (h : Holds t i k a) (h' : Holds t i k' b) : k = k' ∧ a = b := by
  rw [Holds, h, Option.some.injEq, Option.some.injEq, Prod.mk.injEq] at h'
  exact h'

section Lookup

variable [DecidableEq κ]

def lookup (t : List (Option (κ × α))) (k : κ) : Option α :=
  t.findSome? fun e => e.bind fun p => if p.1 = k then some p.2 else none

theorem exists_of_lookup (h : lookup t k = some a) : ∃ i, Holds t i k a := by
  obtain ⟨e, he, hk⟩ := List.exists_of_findSome?_eq_some h
  obtain ⟨i, hi, rfl⟩ := List.getElem_of_mem he
  obtain ⟨p, hp, hk⟩ := Option.bind_eq_some_iff.mp hk
  split at hk
  · rename_i hkey
    refine ⟨i, ?_⟩
    rw [Holds, List.getElem?_eq_getElem hi, hp, ← hkey, ← Option.some.inj hk]
  · cases hk

theorem lookup_ne_none (h : Holds t i k a) : lookup t k ≠ none := by
  intro hnone
  have := List.findSome?_eq_none_iff.mp hnone _ (List.mem_of_getElem? h)
  simp at this

theorem Unique.lookup_eq_some_iff (h : Unique t) : lookup t k = some a ↔ ∃ i, Holds t i k a := by
  refine ⟨exists_of_lookup, fun ⟨i, hi⟩ => ?_⟩
  obtain ⟨b, hb⟩ := Option.ne_none_iff_exists'.mp (lookup_ne_none hi)
  obtain ⟨j, hj⟩ := exists_of_lookup hb
  obtain rfl := h i j k a b hi hj
  rw [hb, (hi.eq hj).2]

theorem Unique.lookup_congr (h : Unique t) (h' : Unique t')
    (hk : ∀ a, (∃ i, Holds t' i k a) ↔ ∃ i, Holds t i k a) : lookup t' k = lookup t k := by
  apply Option.ext
  intro a
  rw [h.lookup_eq_some_iff, h'.lookup_eq_some_iff]
  exact hk a

theorem lookup_eq_none_iff : lookup t k = none ↔ ∀ i a, ¬ Holds t i k a := by
  constructor
  · exact fun h i a hi => lookup_ne_none hi h
  · intro h
    by_contra hne
    obtain ⟨a, ha⟩ := Option.ne_none_iff_exists'.mp hne
    obtain ⟨i, hi⟩ := exists_of_lookup ha
    exact h i a hi

/-- A key that is not there is stored in a slot that has none. -/
theorem Unique.insert (h : Unique t) (hs : Stores t i (some (k, a)) t') (hempty : ∀ k a, ¬ Holds t i k a)
    (hk : lookup t k = none) : Unique t' ∧ ∀ k', lookup t' k' = if k' = k then some a else lookup t k' := by
  have habsent := lookup_eq_none_iff.mp hk
  have hself {k' : κ} {b : α} (hb : Holds t' i k' b) : k' = k ∧ b = a := by
    have := hs.holds_self.mp hb
    simp only [Option.some.injEq, Prod.mk.injEq] at this
    exact ⟨this.1.symm, this.2.symm⟩
  have hunique : Unique t' := by
    intro j l k' b c hj hl
    by_cases hji : j = i <;> by_cases hli : l = i
    · rw [hji, hli]
    · subst hji
      rw [(hself hj).1] at hl
      exact absurd ((hs.holds_of_ne hli).mp hl) (habsent l c)
    · subst hli
      rw [(hself hl).1] at hj
      exact absurd ((hs.holds_of_ne hji).mp hj) (habsent j b)
    · exact h j l k' b c ((hs.holds_of_ne hji).mp hj) ((hs.holds_of_ne hli).mp hl)
  refine ⟨hunique, fun k' => ?_⟩
  split
  · rename_i heq
    rw [heq, hunique.lookup_eq_some_iff]
    exact ⟨i, hs.holds_self.mpr rfl⟩
  · rename_i hne
    refine h.lookup_congr hunique fun b => ⟨?_, ?_⟩
    · rintro ⟨j, hj⟩
      have hji : j ≠ i := by
        rintro rfl
        exact hne (hself hj).1
      exact ⟨j, (hs.holds_of_ne hji).mp hj⟩
    · rintro ⟨j, hj⟩
      have hji : j ≠ i := by
        rintro rfl
        exact hempty _ _ hj
      exact ⟨j, (hs.holds_of_ne hji).mpr hj⟩

/-- The slot of a key is emptied. -/
theorem Unique.erase (h : Unique t) (hs : Stores t i none t') (hi : Holds t i k a) :
    Unique t' ∧ ∀ k', lookup t' k' = if k' = k then none else lookup t k' := by
  have hne_slot {j : Nat} {k' : κ} {b : α} (hj : Holds t' j k' b) : j ≠ i := by
    rintro rfl
    exact nomatch hs.holds_self.mp hj
  have hback {j : Nat} {k' : κ} {b : α} (hj : Holds t' j k' b) : Holds t j k' b :=
    (hs.holds_of_ne (hne_slot hj)).mp hj
  have hunique : Unique t' := fun j l k' b c hj hl => h j l k' b c (hback hj) (hback hl)
  refine ⟨hunique, fun k' => ?_⟩
  split
  · rename_i heq
    rw [heq, lookup_eq_none_iff]
    exact fun j b hj => hne_slot hj (h j i k b a (hback hj) hi)
  · rename_i hne
    refine h.lookup_congr hunique fun b => ⟨fun ⟨j, hj⟩ => ⟨j, hback hj⟩, ?_⟩
    · rintro ⟨j, hj⟩
      have hji : j ≠ i := by
        rintro rfl
        exact hne (hj.eq hi).1
      exact ⟨j, (hs.holds_of_ne hji).mpr hj⟩

end Lookup

end Xv6Net.Lib.Slots
