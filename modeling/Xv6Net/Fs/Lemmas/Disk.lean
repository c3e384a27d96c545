import Mathlib.Tactic.Common
import Xv6Net.Fs.Disk

/-! What stores leave in a block, and what writes leave in the cache and on the disk. -/

namespace Xv6Net.Fs

open Lib

variable {b : Block} {bs : List UInt8} {off i j : Nat}

theorem Block.bytes_store (b : Block) (off : Nat) (bs : List UInt8) (i : Nat) :
    (b.store off bs).bytes i = if i < BSIZE then write b.bytes off bs i else 0 := by
  simp [Block.bytes, Block.store]

theorem Block.bytes_store_of_lt (hi : i < BSIZE) : (b.store off bs).bytes i = write b.bytes off bs i := by
  rw [Block.bytes_store, if_pos hi]

theorem Block.bytes_store_of_notMem (h : i < off ∨ off + bs.length ≤ i) : (b.store off bs).bytes i = b.bytes i := by
  rw [Block.bytes_store]
  split
  · unfold write
    split
    · rw [List.getElem?_eq_none (by omega)]; rfl
    · rfl
  · rename_i hi
    simp [Block.bytes, hi]

theorem Block.slice_store_self {n : Nat} (hn : bs.length = n) (h : off + n ≤ BSIZE) :
    slice (b.store off bs).bytes off n = bs := by
  have : slice (b.store off bs).bytes off n = slice (write b.bytes off bs) off n := by
    apply List.map_congr_left
    intro i hi
    exact Block.bytes_store_of_lt (by have := List.mem_range.mp hi; omega)
  rw [this, slice_write_self' hn]

theorem Block.slice_store_of_disjoint {n o : Nat} (h : off + n ≤ o ∨ o + bs.length ≤ off) :
    slice (b.store o bs).bytes off n = slice b.bytes off n := by
  apply List.map_congr_left
  intro i hi
  exact Block.bytes_store_of_notMem (by have := List.mem_range.mp hi; omega)

theorem Block.word_setWord_self {x : UInt32} (h : i < BSIZE / 4) : (b.setWord i x).word i = x := by
  have : slice (b.setWord i x).bytes (4 * i) 4 = bytes32 x :=
    Block.slice_store_self (length_bytes32 x) (by simp only [BSIZE] at h ⊢; omega)
  rw [Block.word, this]
  simpa using load32_append_bytes32 [] x []

theorem Block.word_setWord_of_ne {x : UInt32} (h : j ≠ i) : (b.setWord i x).word j = b.word j := by
  have : slice (b.setWord i x).bytes (4 * j) 4 = slice b.bytes (4 * j) 4 :=
    Block.slice_store_of_disjoint (by simp; omega)
  rw [Block.word, this, Block.word]

namespace Dev

variable {d : Dev} {a : UInt32} {x : Block} {ws : List (UInt32 × Block)}

theorem disk_bwrite : (d.bwrite a x).disk = Function.update d.disk a x := by
  simp [disk, bwrite, applyWrites_append]

/-- A write is seen by every later read. -/
theorem bread_bwrite : (d.bwrite a x).bread = Function.update d.bread a x := by
  funext c
  by_cases hc : c = a
  · subst hc; simp [bread, bwrite]
  · rw [bread, disk_bwrite]; simp [bread, bwrite, hc]

/-- Several writes, the first one first. -/
def bwrites (d : Dev) : List (UInt32 × Block) → Dev
  | [] => d
  | w :: ws => (d.bwrite w.1 w.2).bwrites ws

theorem bwrites_append {vs : List (UInt32 × Block)} : d.bwrites (ws ++ vs) = (d.bwrites ws).bwrites vs := by
  induction ws generalizing d with
  | nil => rfl
  | cons w ws ih => exact ih

@[simp] theorem bwrites_base : (d.bwrites ws).base = d.base := by
  induction ws generalizing d with
  | nil => rfl
  | cons w ws ih => exact ih

@[simp] theorem bwrites_writes : (d.bwrites ws).writes = d.writes ++ ws := by
  induction ws generalizing d with
  | nil => simp [bwrites]
  | cons w ws ih => simp [bwrites, ih, bwrite]

theorem disk_bwrites : (d.bwrites ws).disk = applyWrites d.disk ws := by
  simp [disk, applyWrites_append]

theorem bread_bwrites : (d.bwrites ws).bread = applyWrites d.bread ws := by
  induction ws generalizing d with
  | nil => rfl
  | cons w ws ih => rw [bwrites, ih, bread_bwrite]; rfl

@[simp] theorem boot_base (disk : Disk) : (boot disk).base = disk := rfl

@[simp] theorem boot_writes (disk : Disk) : (boot disk).writes = [] := rfl

@[simp] theorem bread_boot (disk : Disk) : (boot disk).bread = disk := rfl

end Dev

end Xv6Net.Fs
