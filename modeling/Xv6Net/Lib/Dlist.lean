import Mathlib.Data.List.Nodup
import Mathlib.Logic.Function.Basic

/-!
# Circular lists with two links

Nodes are linked in both directions through a head, which is `none` here. What the links stand for is the list of the
nodes from the head on.
-/

namespace Xv6Net.Lib

variable {ι : Type}

/-- Following `f` from `x` visits the nodes `l` and then comes to `y`. -/
def Path (f : Option ι → Option ι) : (x : Option ι) → (l : List ι) → (y : Option ι) → Prop
  | x, [], y => f x = y
  | x, b :: l, y => f x = some b ∧ Path f (some b) l y

theorem Path.snoc {f : Option ι → Option ι} {x y : Option ι} {l : List ι} {b : ι} (h : Path f x l (some b))
    (hb : f (some b) = y) : Path f x (l ++ [b]) y := by
  induction l generalizing x with
  | nil => exact ⟨h, hb⟩
  | cons c l ih => exact ⟨h.1, ih h.2⟩

/-- A loop over the list, which looks at `n - 1` nodes at most. -/
def search (f : Option ι → Option ι) (p : ι → Bool) : (n : Nat) → Option ι → Option ι
  | 0, _ => none
  | _ + 1, none => none
  | n + 1, some b => if p b then some b else search f p n (f (some b))

theorem Path.search_eq {f : Option ι → Option ι} (p : ι → Bool) {x : Option ι} {l : List ι} {n : Nat}
    (h : Path f x l none) (hn : l.length < n) : search f p n (f x) = l.find? p := by
  induction l generalizing x n with
  | nil =>
      rw [show f x = none from h]
      cases n <;> rfl
  | cons b l ih =>
      obtain ⟨n, rfl⟩ : ∃ m, n = m + 1 := Nat.exists_eq_add_one.mpr (by omega)
      rw [h.1, search, List.find?_cons]
      split
      · rename_i hp
        simp [hp]
      · rename_i hp
        simp only [Bool.not_eq_true] at hp
        rw [hp]
        exact ih h.2 (by simpa using hn)

structure Links (ι : Type) where
  next : Option ι → Option ι
  prev : Option ι → Option ι

namespace Links

/-- The head alone. -/
def empty : Links ι := ⟨fun _ => none, fun _ => none⟩

/-- From `a` through the nodes `l` to the head, with the links back. -/
def Chain (L : Links ι) : (a : Option ι) → (l : List ι) → Prop
  | a, [] => L.next a = none ∧ L.prev none = a
  | a, b :: l => L.next a = some b ∧ L.prev (some b) = a ∧ L.Chain (some b) l

variable {L M : Links ι} {a : Option ι} {b : ι} {l l₁ l₂ : List ι}

theorem Chain.path_next (h : L.Chain a l) : Path L.next a l none := by
  induction l generalizing a with
  | nil => exact h.1
  | cons b l ih => exact ⟨h.1, ih h.2.2⟩

theorem Chain.path_prev (h : L.Chain a l) : Path L.prev none l.reverse a := by
  induction l generalizing a with
  | nil => exact h.2
  | cons b l ih =>
      rw [List.reverse_cons]
      exact (ih h.2.2).snoc h.2.1

theorem Chain.congr (h : L.Chain a l) (hnext : ∀ x ∈ a :: l.map some, M.next x = L.next x)
    (hprev : ∀ x ∈ none :: l.map some, M.prev x = L.prev x) : M.Chain a l := by
  induction l generalizing a with
  | nil => exact ⟨(hnext a List.mem_cons_self).trans h.1, (hprev none List.mem_cons_self).trans h.2⟩
  | cons b l ih =>
      refine ⟨(hnext a List.mem_cons_self).trans h.1, (hprev (some b) (by simp)).trans h.2.1, ih h.2.2 ?_ ?_⟩
      · intro x hx
        exact hnext x (List.mem_cons_of_mem a hx)
      · intro x hx
        exact hprev x (by simp only [List.map_cons, List.mem_cons] at hx ⊢; tauto)

theorem Chain.prev_mem (h : L.Chain a (l₁ ++ b :: l₂)) : L.prev (some b) ∈ a :: l₁.map some := by
  induction l₁ generalizing a with
  | nil => rw [h.2.1]; exact List.mem_cons_self
  | cons c l₁ ih => exact List.mem_cons_of_mem a (ih h.2.2)

theorem Chain.next_mem (h : L.Chain a (l₁ ++ b :: l₂)) : L.next (some b) ∈ none :: l₂.map some := by
  induction l₁ generalizing a with
  | nil =>
      cases l₂ with
      | nil => rw [h.2.2.1]; exact List.mem_cons_self
      | cons c l₂ => rw [h.2.2.1]; simp
  | cons c l₁ ih => exact ih h.2.2

/-- The nodes of the list, from the head on. -/
structure IsList (L : Links ι) (l : List ι) : Prop where
  chain : L.Chain none l
  nodup : l.Nodup

theorem isList_empty : (empty : Links ι).IsList [] := ⟨⟨rfl, rfl⟩, List.nodup_nil⟩

variable [DecidableEq ι]

/-- The neighbours of `b` are linked to each other. -/
def unlink (L : Links ι) (b : ι) : Links ι where
  next := Function.update L.next (L.prev (some b)) (L.next (some b))
  prev := Function.update L.prev (L.next (some b)) (L.prev (some b))

/-- `b` is linked in behind the head. -/
def pushFront (L : Links ι) (b : ι) : Links ι where
  next := Function.update (Function.update L.next (some b) (L.next none)) none (some b)
  prev := Function.update (Function.update L.prev (some b) none) (L.next none) (some b)

theorem Chain.unlink (h : L.Chain a (l₁ ++ b :: l₂)) (hnodup : (a :: (l₁ ++ b :: l₂).map some).Nodup) :
    (L.unlink b).Chain a (l₁ ++ l₂) := by
  induction l₁ generalizing a with
  | nil =>
      obtain ⟨hnext, hprev, hrest⟩ := h
      simp only [List.nil_append, List.map_cons, List.nodup_cons, List.mem_cons, not_or] at hnodup
      cases l₂ with
      | nil =>
          obtain ⟨hn, -⟩ := hrest
          simp [Chain, Links.unlink, hprev, hn]
      | cons c l₂ =>
          obtain ⟨hn, -, hc⟩ := hrest
          simp only [List.map_cons, List.nodup_cons, List.mem_cons, not_or] at hnodup
          refine ⟨by simp [Links.unlink, hprev, hn], by simp [Links.unlink, hprev, hn], hc.congr ?_ ?_⟩
          · intro x hx
            have : x ≠ a := by rintro rfl; simp_all
            simp [Links.unlink, hprev, this]
          · intro x hx
            have : x ≠ some c := by
              rcases List.mem_cons.mp hx with rfl | hx
              · simp
              · rintro rfl; exact hnodup.2.2.1 hx
            simp [Links.unlink, hn, this]
  | cons c l₁ ih =>
      obtain ⟨hnext, hprev, hrest⟩ := h
      have hnodup' := List.nodup_cons.mp hnodup
      refine ⟨?_, ?_, ih hrest hnodup'.2⟩
      · have hmem : L.prev (some b) ∈ (c :: l₁ ++ b :: l₂).map some := by
          rw [List.map_append]; exact List.mem_append_left _ hrest.prev_mem
        have : a ≠ L.prev (some b) := fun he => hnodup'.1 (he ▸ hmem)
        simp [Links.unlink, this, hnext]
      · have hmem := hrest.next_mem
        have : some c ≠ L.next (some b) := by
          intro he
          rw [← he] at hmem
          simp at hmem hnodup'
          tauto
        simp [Links.unlink, this, hprev]

theorem Chain.pushFront (h : L.Chain none l) (hnodup : (b :: l).Nodup) : (L.pushFront b).Chain none (b :: l) := by
  cases l with
  | nil =>
      obtain ⟨hn, -⟩ := h
      simp [Chain, Links.pushFront, hn]
  | cons c l =>
      obtain ⟨hn, -, hc⟩ := h
      simp only [List.nodup_cons, List.mem_cons, not_or] at hnodup
      obtain ⟨⟨hbc, hbl⟩, hcl, -⟩ := hnodup
      refine ⟨by simp [Links.pushFront], by simp [Links.pushFront, hn, hbc], ?_⟩
      refine ⟨by simp [Links.pushFront, hn], by simp [Links.pushFront, hn], hc.congr ?_ ?_⟩
      · intro x hx
        have hx' : x ≠ none ∧ x ≠ some b := by
          rcases List.mem_cons.mp hx with rfl | hx
          · exact ⟨Option.some_ne_none c, fun h => hbc (Option.some.inj h).symm⟩
          · obtain ⟨d, hd, rfl⟩ := List.mem_map.mp hx
            exact ⟨Option.some_ne_none d, fun h => hbl (Option.some.inj h ▸ hd)⟩
        simp [Links.pushFront, hx']
      · intro x hx
        have hx' : x ≠ some c ∧ x ≠ some b := by
          rcases List.mem_cons.mp hx with rfl | hx
          · exact ⟨(Option.some_ne_none c).symm, (Option.some_ne_none b).symm⟩
          · obtain ⟨d, hd, rfl⟩ := List.mem_map.mp hx
            exact ⟨fun h => hcl (Option.some.inj h ▸ hd), fun h => hbl (Option.some.inj h ▸ hd)⟩
        simp [Links.pushFront, hn, hx']

theorem IsList.pushFront (h : L.IsList l) (hb : b ∉ l) : (L.pushFront b).IsList (b :: l) :=
  have hnodup := List.nodup_cons.mpr ⟨hb, h.nodup⟩
  ⟨h.chain.pushFront hnodup, hnodup⟩

theorem IsList.pushFronts {m : List ι} (h : L.IsList m) (hnodup : (l ++ m).Nodup) :
    (l.foldl Links.pushFront L).IsList (l.reverse ++ m) := by
  induction l generalizing L m with
  | nil => exact h
  | cons b l ih =>
      have hb : b ∉ l ++ m := (List.nodup_cons.mp hnodup).1
      rw [List.foldl_cons, List.reverse_cons, List.append_assoc]
      apply ih (h.pushFront fun hm => hb (List.mem_append_right l hm))
      exact List.nodup_middle.mpr hnodup

/-- A node of the list is moved to its front. -/
theorem IsList.toFront (h : L.IsList l) (hb : b ∈ l) : ((L.unlink b).pushFront b).IsList (b :: l.erase b) := by
  obtain ⟨l₁, l₂, hb₁, rfl, herase⟩ := List.exists_erase_eq hb
  rw [herase]
  have hnodup : (none :: (l₁ ++ b :: l₂).map some).Nodup :=
    List.nodup_cons.mpr ⟨by simp, h.nodup.map fun _ _ => Option.some.inj⟩
  apply IsList.pushFront
  · exact ⟨h.chain.unlink hnodup, h.nodup.sublist (by simp)⟩
  · have := h.nodup.not_mem_erase (a := b)
    rwa [herase] at this

end Links

end Xv6Net.Lib
