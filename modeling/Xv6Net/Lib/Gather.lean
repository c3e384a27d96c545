import Mathlib.Algebra.BigOperators.Group.Finset.Basic
import Mathlib.Algebra.Order.Group.Multiset
import Mathlib.Data.List.AList

/-!
# What the entries of a finite map contribute to a multiset

`gather f s` adds up what `f` makes of the entries of the map `s`. A new entry adds its part and an erased one takes
it away. Over a range of keys the same multiset is found by looking up one key after the other.
-/

namespace Xv6Net.Lib

variable {β γ : Type}

def gather (f : Nat → β → Multiset γ) (s : AList fun _ : Nat => β) : Multiset γ :=
  (s.entries.map fun e => f e.1 e.2).sum

variable {f : Nat → β → Multiset γ} {s : AList fun _ : Nat => β} {a : Nat} {b : β}

@[simp] theorem gather_empty : gather f ∅ = 0 := rfl

theorem gather_insert (h : a ∉ s) : gather f (s.insert a b) = f a b + gather f s := by
  simp only [gather, AList.entries_insert_of_notMem h, List.map_cons, List.sum_cons]

theorem gather_erase (h : s.lookup a = some b) : gather f s = f a b + gather f (s.erase a) := by
  have hm : a ∈ s.entries.keys := AList.lookup_isSome.mp (by rw [h]; rfl)
  obtain ⟨b', l₁, l₂, -, he, hk⟩ := List.exists_of_kerase hm
  have hb : b' = b := by
    have : ⟨a, b'⟩ ∈ s.entries := by rw [he]; simp
    have := AList.mem_lookup_iff.mpr this
    rw [h] at this
    exact (Option.some.inj this).symm
  subst hb
  have hk : (s.erase a).entries = l₁ ++ l₂ := hk
  simp only [gather, hk, he, List.map_append, List.map_cons, List.sum_append, List.sum_cons]
  exact add_left_comm _ _ _

/-- The part of a key that may be absent. -/
def part (f : Nat → β → Multiset γ) (i : Nat) : Option β → Multiset γ
  | none => 0
  | some b => f i b

theorem gather_eq_sum {n : Nat} (h : ∀ i ∈ s, i < n) :
    gather f s = ∑ i ∈ Finset.range n, part f i (s.lookup i) := by
  induction s using AList.insertRec with
  | H0 => exact (Finset.sum_eq_zero fun i _ => by rw [AList.lookup_empty]; rfl).symm
  | IH a b s ha ih =>
      have han : a ∈ Finset.range n := Finset.mem_range.mpr (h a (by simp))
      rw [gather_insert ha, ih fun i hi => h i (by simp [hi]), ← Finset.add_sum_erase _ _ han,
        ← Finset.add_sum_erase _ _ han, AList.lookup_insert, AList.lookup_eq_none.mpr ha]
      have hrest : ∀ i ∈ (Finset.range n).erase a, part f i ((s.insert a b).lookup i) = part f i (s.lookup i) :=
        fun i hi => by rw [AList.lookup_insert_ne (Finset.ne_of_mem_erase hi)]
      rw [Finset.sum_congr rfl hrest]
      simp only [part, zero_add]

/-- The values found by looking up the keys of a range in turn. -/
theorem coe_filterMap_range (g : Nat → Option γ) (n : Nat) :
    (((List.range n).filterMap g : List γ) : Multiset γ) =
      ∑ i ∈ Finset.range n, part (fun _ c => {c}) i (g i) := by
  induction n with
  | zero => rfl
  | succ n ih =>
      rw [List.range_succ, List.filterMap_append, ← Multiset.coe_add, ih, Finset.sum_range_succ]
      cases h : g n with
      | none => simp [part, h]
      | some c => simp [part, h]

theorem coe_flatMap_range (g : Nat → List γ) (n : Nat) :
    (((List.range n).flatMap g : List γ) : Multiset γ) = ∑ i ∈ Finset.range n, (g i : Multiset γ) := by
  induction n with
  | zero => rfl
  | succ n ih =>
      rw [List.range_succ, List.flatMap_append, ← Multiset.coe_add, ih, Finset.sum_range_succ]
      simp

theorem sum_range_mul {M : Type} [AddCommMonoid M] (g : Nat → M) (n m : Nat) :
    ∑ i ∈ Finset.range (m * n), g i = ∑ i ∈ Finset.range n, ∑ j ∈ Finset.range m, g (m * i + j) := by
  induction n with
  | zero => simp
  | succ n ih => rw [Nat.mul_succ, Finset.sum_range_add, ih, Finset.sum_range_succ]

end Xv6Net.Lib
