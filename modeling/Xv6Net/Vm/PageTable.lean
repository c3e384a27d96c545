import Mathlib.Data.List.AList
import Xv6Net.Kernel.Kalloc

/-!
# User page tables (`walk`, `mappages`, `uvmunmap` and `freewalk` of `kernel/vm.c`)

A user page table has three levels. Its entries are named by the part of the virtual address that selects them:
an entry of the root by the bits from 30 on, one of the second level by the bits from 21 on, and a leaf by the page
number. An entry that is not valid is absent.
-/

namespace Xv6Net.Vm

open Kernel

def MAXVA : Nat := 2 ^ 38
def TRAMPOLINE : Nat := MAXVA - PGSIZE
def TRAPFRAME : Nat := TRAMPOLINE - PGSIZE

/-- The permission bits of a leaf; `PTE_V` and `PTE_R` are set in every leaf that the kernel stores. -/
structure Perm where
  w : Bool
  x : Bool
  u : Bool
deriving DecidableEq, Repr

structure Pte where
  pa : Nat
  perm : Perm
deriving DecidableEq, Repr

abbrev Entries (β : Type) := AList fun _ : Nat => β

/-- A page table: the page of the root, the pages of the second and of the third level, and the leaves. -/
structure PageTable where
  page : Nat
  dirs : Entries Nat
  tabs : Entries Nat
  leaves : Entries Pte
  dirs_lt : ∀ i ∈ dirs, i < 512
  tabs_dir : ∀ i ∈ tabs, i / 512 ∈ dirs
  leaves_tab : ∀ i ∈ leaves, i / 512 ∈ tabs

namespace PageTable

/-- A root page with all entries 0. -/
def empty (page : Nat) : PageTable where
  page := page
  dirs := ∅
  tabs := ∅
  leaves := ∅
  dirs_lt := by simp
  tabs_dir := by simp
  leaves_tab := by simp

/-- A cleared page of the second level is entered in the root. -/
def storeDir (pt : PageTable) (i page : Nat) : PageTable :=
  if h : i < 512 then
    { pt with
      dirs := pt.dirs.insert i page
      dirs_lt := by
        intro j hj
        rcases (AList.mem_insert _).mp hj with rfl | hj
        · exact h
        · exact pt.dirs_lt j hj
      tabs_dir := fun j hj => (AList.mem_insert _).mpr (.inr (pt.tabs_dir j hj)) }
  else pt

/-- A cleared page of the third level is entered in the second. -/
def storeTab (pt : PageTable) (i page : Nat) : PageTable :=
  if h : i / 512 ∈ pt.dirs then
    { pt with
      tabs := pt.tabs.insert i page
      tabs_dir := by
        intro j hj
        rcases (AList.mem_insert _).mp hj with rfl | hj
        · exact h
        · exact pt.tabs_dir j hj
      leaves_tab := fun j hj => (AList.mem_insert _).mpr (.inr (pt.leaves_tab j hj)) }
  else pt

/-- The store of a leaf, through the pointer that `walk` returned. -/
def storeLeaf (pt : PageTable) (i : Nat) (pte : Pte) : PageTable :=
  if h : i / 512 ∈ pt.tabs then
    { pt with
      leaves := pt.leaves.insert i pte
      leaves_tab := by
        intro j hj
        rcases (AList.mem_insert _).mp hj with rfl | hj
        · exact h
        · exact pt.leaves_tab j hj }
  else pt

/-- The store of 0 to a leaf. -/
def clearLeaf (pt : PageTable) (i : Nat) : PageTable :=
  { pt with
    leaves := pt.leaves.erase i
    leaves_tab := fun j hj => pt.leaves_tab j (AList.mem_erase.mp hj).2 }

/-- The pages below entry `i` of the root, in the order in which `freewalk` frees them. -/
def dirPages (pt : PageTable) (i : Nat) : List Nat :=
  match pt.dirs.lookup i with
  | none => []
  | some dir => (List.range 512).filterMap (fun j => pt.tabs.lookup (512 * i + j)) ++ [dir]

def walkPages (pt : PageTable) : List Nat := (List.range 512).flatMap pt.dirPages ++ [pt.page]

end PageTable

/-- One level of `walk`: the next page is there, or it is allocated and entered. -/
def walkLevel (k : Kmem) (pt : PageTable) (valid alloc : Bool) (store : Nat → PageTable) : Option PageTable × Kmem :=
  if valid then (some pt, k)
  else if alloc then
    match kalloc k with
    | (none, k) => (none, k)
    | (some page, k) => (some (store page), k)
  else (none, k)

/-- `walk`. The pointer to a leaf is its index, and `none` is the null pointer. -/
def walk (k : Kmem) (pt : PageTable) (va : Nat) (alloc : Bool) : Except Stop (Option Nat × Kmem × PageTable) :=
  if MAXVA ≤ va then .error (.panic "walk")
  else
    let dir := va / PGSIZE / 512 / 512
    let tab := va / PGSIZE / 512
    match walkLevel k pt (dir ∈ pt.dirs) alloc (pt.storeDir dir) with
    | (none, k) => .ok (none, k, pt)
    | (some pt, k) =>
        match walkLevel k pt (tab ∈ pt.tabs) alloc (pt.storeTab tab) with
        | (none, k) => .ok (none, k, pt)
        | (some pt, k) => .ok (some (va / PGSIZE), k, pt)

/-- The loop of `mappages`; `false` stands for -1. -/
def mapLoop (k : Kmem) (pt : PageTable) (a pa : Nat) (perm : Perm) : Nat → Except Stop (Bool × Kmem × PageTable)
  | 0 => .ok (true, k, pt)
  | n + 1 => do
      match ← walk k pt a true with
      | (none, k, pt) => .ok (false, k, pt)
      | (some i, k, pt) =>
          if i ∈ pt.leaves then .error (.panic "mappages: remap")
          else mapLoop k (pt.storeLeaf i ⟨pa, perm⟩) (a + PGSIZE) (pa + PGSIZE) perm n

def mappages (k : Kmem) (pt : PageTable) (va size pa : Nat) (perm : Perm) :
    Except Stop (Bool × Kmem × PageTable) :=
  if size = 0 then .error (.panic "mappages: size")
  else
    let a := pgRoundDown va
    let last := pgRoundDown (va + size - 1)
    mapLoop k pt a pa perm ((last - a) / PGSIZE + 1)

/-- What `uvmunmap` does with the page of an entry. -/
def dropPage (k : Kmem) (pa : Nat) (doFree : Bool) : Except Stop Kmem := if doFree then kfree k pa else .ok k

/-- The loop of `uvmunmap`. Every leaf has `PTE_R`, so the test for an entry that is not a leaf never holds. -/
def unmapLoop (k : Kmem) (pt : PageTable) (a : Nat) (doFree : Bool) : Nat → Except Stop (Kmem × PageTable)
  | 0 => .ok (k, pt)
  | n + 1 => do
      match ← walk k pt a false with
      | (none, _, _) => .error (.panic "uvmunmap: walk")
      | (some i, k, pt) =>
          match pt.leaves.lookup i with
          | none => .error (.panic "uvmunmap: not mapped")
          | some pte =>
              let k ← dropPage k pte.pa doFree
              unmapLoop k (pt.clearLeaf i) (a + PGSIZE) doFree n

def uvmunmap (k : Kmem) (pt : PageTable) (va npages : Nat) (doFree : Bool) : Except Stop (Kmem × PageTable) :=
  if va % PGSIZE ≠ 0 then .error (.panic "uvmunmap: not aligned") else unmapLoop k pt va doFree npages

def freewalk (k : Kmem) (pt : PageTable) : Except Stop Kmem :=
  if pt.leaves.keys ≠ [] then .error (.panic "freewalk: leaf") else pt.walkPages.foldlM kfree k

end Xv6Net.Vm
