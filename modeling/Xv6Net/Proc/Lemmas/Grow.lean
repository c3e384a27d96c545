import Xv6Net.Proc.Grow
import Xv6Net.Vm.Lemmas.Grow

/-!
# Growing and shrinking a process

The memory of the machine bounds the size of a process, so that a request of `growproc` never reaches the trapframe.
-/

namespace Xv6Net.Procs

open Kernel Vm Lib

variable {m : Machine} {s : Slot} {pt : PageTable} {n : Int}

theorem onTable_returns {α : Type} (f : Kmem → PageTable → Except Stop (α × Kmem × PageTable))
    {Q : α × Kmem × PageTable → Prop} (hpt : (m.proc s).pagetable = some pt) (h : Returns (f m.kmem pt) Q) :
    Returns (m.onTable s f) fun (a, m') => ∃ k pt', Q (a, k, pt') ∧
      m' = { m with kmem := k }.setProc s { m.proc s with pagetable := some pt' } := by
  simp only [Machine.onTable, hpt]
  exact h.bind fun (a, k, pt') hq => .ok ⟨k, pt', hq, rfl⟩

/-- The table of `s` and its size were replaced. -/
theorem Alone.stored {k : Kmem} {sz : Nat} (h : (m.proc s).isThread = false) (hsole : Sole k pt sz) :
    Alone (({ m with kmem := k }.setProc s { m.proc s with pagetable := some pt }).setSz s sz) s := by
  simp only [Machine.setSz, Machine.setProc, Function.update_self]
  exact ⟨by simpa using h, pt, by simp, by simpa using hsole⟩

theorem grownSize_of_nonneg {sz : Nat} (h : 0 ≤ sz + n) (hlt : sz + n < 2 ^ 64) : (grownSize sz n : Int) = sz + n := by
  rw [grownSize, Int.emod_eq_of_lt h hlt, Int.toNat_of_nonneg h]

theorem uvmalloc_sole {k : Kmem} {oldsz newsz : Nat} (h : Sole k pt oldsz) (hle : oldsz ≤ newsz) (hlt : newsz < TRAPFRAME) :
    Returns (uvmalloc k pt oldsz newsz true false) fun (sz, k', pt') =>
      pt.need oldsz newsz ≤ k.freelist.length ∧ sz = newsz ∧ Sole k' pt' newsz ∨
        k.freelist.length < pt.need oldsz newsz ∧ sz = 0 ∧ Sole k' pt' oldsz := by
  obtain ⟨hround, -⟩ := pgRoundUp_spec (show oldsz ≤ TRAPFRAME by omega)
  have hi : pgRoundUp oldsz = pgRoundUp oldsz / PGSIZE * PGSIZE :=
    (Nat.div_mul_cancel (Nat.dvd_of_mod_eq_zero hround)).symm
  obtain ⟨⟨sz, r, k', pt'⟩, hr, hgrow⟩ := @uvmallocTo_growing k pt _ (fun _ => 0) (fun _ mem => mem) oldsz newsz true false
    (fun _ _ _ _ => rfl) h.toSound h.covers hle hlt hi
  rw [uvmalloc, hr]
  refine .ok (hgrow.imp ?_ ?_)
  · rintro ⟨henough, mem', ps, -, hsz, hlen, hg⟩
    exact ⟨henough, hsz, h.grown hg hle hlt hi hlen⟩
  · rintro ⟨hshort, hsz, hhand, hl⟩
    exact ⟨hshort, hsz, h.restored hhand hl⟩

theorem Machine.canGrow_iff (newsz : Nat) (hpt : (m.proc s).pagetable = some pt) :
    m.CanGrow s newsz ↔ pt.need (m.proc s).sz newsz ≤ m.kmem.freelist.length := by simp [CanGrow, hpt]

/-- Nothing is needed to shrink. -/
theorem Alone.canGrow {newsz : Nat} (h : Alone m s) (hle : newsz ≤ (m.proc s).sz) : m.CanGrow s newsz := by
  intro pt _
  obtain ⟨-, _, -, hsole⟩ := h
  obtain ⟨-, hup, -⟩ := pgRoundUp_spec (hsole.size_le.trans (by decide))
  have hzero : pagesBelow (pgRoundUp (m.proc s).sz) newsz = 0 := by
    simp only [pagesBelow, PGSIZE]
    omega
  simp only [PageTable.need, hzero, pt.lacks_zero]
  exact Nat.zero_le _

theorem growproc_grows (h : Alone m s) (hpos : 0 < n) (hn : n < 2 ^ 31) :
    Returns (growproc m s n) fun (r, m') => Asked m s n r m' := by
  obtain ⟨hthread, pt, hpt, hsole⟩ := h
  have hsize : (m.proc s).sz ≤ 2 ^ 27 := hsole.size_le
  have hnew : (grownSize (m.proc s).sz n : Int) = (m.proc s).sz + n := grownSize_of_nonneg (by omega) (by omega)
  have hasked : askedSize (m.proc s).sz n = grownSize (m.proc s).sz n := by
    rw [askedSize, if_neg (by omega), ← hnew, Int.toNat_natCast]
  have hmax : grownSize (m.proc s).sz n < TRAPFRAME := by
    have : TRAPFRAME = 2 ^ 38 - 8192 := rfl
    omega
  have halloc := onTable_returns (fun k pt => uvmalloc k pt (m.proc s).sz (grownSize (m.proc s).sz n) true false) hpt
    (uvmalloc_sole hsole (by omega) hmax)
  simp only [growproc, if_pos hpos, growAlloc, hthread, Bool.false_eq_true, if_false]
  refine halloc.bind fun (sz, m₁) ⟨k, pt', hsz, hm₁⟩ => ?_
  subst hm₁
  have hcan := Machine.canGrow_iff (askedSize (m.proc s).sz n) hpt
  rcases hsz with ⟨henough, hsz, hsole'⟩ | ⟨hshort, hsz, hsole'⟩
  · obtain rfl : sz = grownSize (m.proc s).sz n := hsz
    rw [← hasked] at henough
    dsimp only
    rw [if_neg (by omega)]
    exact .ok ⟨.stored hthread hsole', .inl ⟨rfl, hcan.mpr henough, by simp [Machine.setSz, Machine.setProc, hasked]⟩⟩
  · obtain rfl : sz = 0 := hsz
    rw [← hasked, ← Nat.not_le, ← hcan] at hshort
    dsimp only
    rw [if_pos rfl]
    refine .ok ⟨⟨?_, pt', ?_, ?_⟩, .inr ⟨rfl, hshort, hpos, ?_⟩⟩ <;> simp [Machine.setProc, hthread, hsole']

theorem growproc_shrinks (h : Alone m s) (hneg : n < 0) (hn : -2 ^ 31 ≤ n) :
    Returns (growproc m s n) fun (r, m') => Asked m s n r m' := by
  have hless : askedSize (m.proc s).sz n ≤ (m.proc s).sz := by
    unfold askedSize
    split <;> omega
  have hcan := h.canGrow hless
  obtain ⟨hthread, pt, hpt, hsole⟩ := h
  have hsize : (m.proc s).sz ≤ 2 ^ 27 := hsole.size_le
  have hdealloc : Returns (uvmdealloc m.kmem pt (m.proc s).sz (grownSize (m.proc s).sz n)) fun (sz, k', pt') =>
      sz = askedSize (m.proc s).sz n ∧ Sole k' pt' sz := by
    by_cases hless : (m.proc s).sz + n < 0
    · -- the new size has wrapped around and is larger than the old one
      have hwrap : (m.proc s).sz ≤ grownSize (m.proc s).sz n := by
        have : ((m.proc s).sz + n) % 2 ^ 64 = (m.proc s).sz + n + 2 ^ 64 := by
          rw [← Int.add_emod_right, Int.emod_eq_of_lt (by omega) (by omega)]
        rw [grownSize, this]
        omega
      unfold uvmdealloc
      rw [if_pos hwrap, askedSize, if_pos hless]
      exact .ok ⟨rfl, hsole⟩
    · have hnew : (grownSize (m.proc s).sz n : Int) = (m.proc s).sz + n := grownSize_of_nonneg (by omega) (by omega)
      have hasked : askedSize (m.proc s).sz n = grownSize (m.proc s).sz n := by
        rw [askedSize, if_neg hless, ← hnew, Int.toNat_natCast]
      have hmax : (m.proc s).sz ≤ TRAPFRAME := hsize.trans (by decide)
      refine (hsole.shrink (by omega) hmax).mono fun (sz, k', pt') ⟨hsz, _, hsole'⟩ => ?_
      obtain rfl : sz = grownSize (m.proc s).sz n := hsz
      exact ⟨hasked.symm, hsole'⟩
  have hneg' : ¬ 0 < n := by omega
  simp only [growproc, if_neg hneg', if_pos hneg, growDealloc, hthread, Bool.false_eq_true, if_false]
  refine (onTable_returns (fun k pt => uvmdealloc k pt (m.proc s).sz (grownSize (m.proc s).sz n)) hpt hdealloc).bind
    fun (sz, m₁) ⟨k, pt', ⟨hsz, hsole'⟩, hm₁⟩ => ?_
  subst hm₁
  obtain rfl : sz = askedSize (m.proc s).sz n := hsz
  exact .ok ⟨.stored hthread hsole', .inl ⟨rfl, hcan, by simp [Machine.setSz, Machine.setProc]⟩⟩

/-- Any request of `growproc` returns and keeps size and memory together. -/
theorem growproc_alone (h : Alone m s) (hlow : -2 ^ 31 ≤ n) (hhigh : n < 2 ^ 31) :
    Returns (growproc m s n) fun (r, m') => Asked m s n r m' := by
  rcases lt_trichotomy n 0 with hneg | rfl | hpos
  · exact growproc_shrinks h hneg hlow
  · have hsame : askedSize (m.proc s).sz 0 = (m.proc s).sz := by
      rw [askedSize, if_neg (by omega), Int.add_zero, Int.toNat_natCast]
    exact .ok ⟨h, .inl ⟨rfl, h.canGrow hsame.le, hsame.symm⟩⟩
  · exact growproc_grows h hpos hhigh

end Xv6Net.Procs
