import Xv6Net.Lib.Bytes
import Xv6Net.Vm.PageTable

/-!
# User memory (`uvm…` of `kernel/vm.c`, `proc_pagetable` and `proc_freepagetable` of `kernel/proc.c`)

Sizes are `uint64` values below 2^43, so a number of pages fits an `int`. A loop over the pages of a range runs on
their number.
-/

namespace Xv6Net.Vm

open Kernel Lib

/-- How often a loop from `a` in steps of a page runs below `bound`. -/
def pagesBelow (a bound : Nat) : Nat := (bound - a + PGSIZE - 1) / PGSIZE

def uvmcreate (k : Kmem) : Option PageTable × Kmem :=
  match kalloc k with
  | (none, k) => (none, k)
  | (some page, k) => (some (.empty page), k)

/-- `uvmfirst`; the result of `mappages` is not looked at. -/
def uvmfirst (k : Kmem) (pt : PageTable) (sz : Nat) : Except Stop (Kmem × PageTable) :=
  if PGSIZE ≤ sz then .error (.panic "uvmfirst: more than a page")
  else
    match kalloc k with
    | (none, _) => .error .fault
    | (some mem, k) => do
        let (_, k, pt) ← mappages k pt 0 PGSIZE mem ⟨true, true, true⟩
        .ok (k, pt)

def uvmdealloc (k : Kmem) (pt : PageTable) (oldsz newsz : Nat) : Except Stop (Nat × Kmem × PageTable) :=
  if oldsz ≤ newsz then .ok (oldsz, k, pt)
  else if pgRoundUp newsz < pgRoundUp oldsz then do
    let npages := (pgRoundUp oldsz - pgRoundUp newsz) / PGSIZE
    let (k, pt) ← uvmunmap k pt (pgRoundUp newsz) npages true
    .ok (newsz, k, pt)
  else .ok (newsz, k, pt)

/-- Memory is a map from physical addresses to bytes. -/
abbrev Memory := Nat → UInt8

/-- `memset` of a page. -/
def fillPage (mem : Memory) (p : Nat) (b : UInt8) : Memory := fun a => if p ≤ a ∧ a < p + PGSIZE then b else mem a

/-- The memory after entries of a table were stored. -/
abbrev Store := PageTable → Memory → Memory

/-- The loop of `uvmalloc` from `a` on, with the memory; without one the call has failed, and what is in the pages that were freed is
not followed. -/
def allocLoop (store : Store) (mem : Memory) (k : Kmem) (pt : PageTable) (a oldsz : Nat) (perm : Perm) :
    Nat → Except Stop (Option Memory × Kmem × PageTable)
  | 0 => .ok (some mem, k, pt)
  | n + 1 =>
      match kalloc k with
      | (none, k) => do
          let (_, k, pt) ← uvmdealloc k pt a oldsz
          .ok (none, k, pt)
      | (some p, k) => do
          -- `kalloc` fills the page with 5 and `uvmalloc` with 0
          let mem := fillPage (fillPage mem p 5) p 0
          match ← mappages k pt a PGSIZE p perm with
          | (true, k, pt) => allocLoop store (store pt mem) k pt (a + PGSIZE) oldsz perm n
          | (false, k, pt) =>
              let k ← kfree k p
              let (_, k, pt) ← uvmdealloc k pt a oldsz
              .ok (none, k, pt)

/-- `uvmalloc` with the memory, and with `PTE_W` and `PTE_X` of its last argument. -/
def uvmallocTo (store : Store) (mem : Memory) (k : Kmem) (pt : PageTable) (oldsz newsz : Nat) (w x : Bool) :
    Except Stop (Nat × Option Memory × Kmem × PageTable) :=
  if newsz < oldsz then .ok (oldsz, some mem, k, pt)
  else do
    let a := pgRoundUp oldsz
    let (mem, k, pt) ← allocLoop store mem k pt a a ⟨w, x, true⟩ (pagesBelow a newsz)
    .ok (if mem.isSome then newsz else 0, mem, k, pt)

/-- `uvmalloc` without the memory. -/
def uvmalloc (k : Kmem) (pt : PageTable) (oldsz newsz : Nat) (w x : Bool) : Except Stop (Nat × Kmem × PageTable) := do
  let (sz, _, k, pt) ← uvmallocTo (fun _ mem => mem) (fun _ => 0) k pt oldsz newsz w x
  .ok (sz, k, pt)

def uvmfree (k : Kmem) (pt : PageTable) (sz : Nat) : Except Stop Kmem :=
  if 0 < sz then do
    let (k, pt) ← uvmunmap k pt 0 (pgRoundUp sz / PGSIZE) true
    freewalk k pt
  else freewalk k pt

/-- The entry that `uvmcopy` and `uvmshare` read in the old table; both panic where there is none. -/
def presentPte (k : Kmem) (old : PageTable) (va : Nat) (name : String) : Except Stop Pte := do
  match ← walk k old va false with
  | (none, _, _) => .error (.panic (name ++ ": pte should exist"))
  | (some i, _, _) =>
      match old.leaves.lookup i with
      | none => .error (.panic (name ++ ": page not present"))
      | some pte => .ok pte

/-- The loop of `uvmcopy` from page `i` on, with the page at which it failed. -/
def copyLoop (k : Kmem) (old new : PageTable) (i : Nat) : Nat → Except Stop (Bool × Nat × Kmem × PageTable)
  | 0 => .ok (true, i, k, new)
  | n + 1 => do
      let pte ← presentPte k old (i * PGSIZE) "uvmcopy"
      match kalloc k with
      | (none, k) => .ok (false, i, k, new)
      | (some mem, k) =>
          match ← mappages k new (i * PGSIZE) PGSIZE mem pte.perm with
          | (true, k, new) => copyLoop k old new (i + 1) n
          | (false, k, new) => do
              let k ← kfree k mem
              .ok (false, i, k, new)

/-- `uvmcopy`; `false` stands for -1. -/
def uvmcopy (k : Kmem) (old new : PageTable) (sz : Nat) : Except Stop (Bool × Kmem × PageTable) := do
  match ← copyLoop k old new 0 (pagesBelow 0 sz) with
  | (true, _, k, new) => .ok (true, k, new)
  | (false, i, k, new) =>
      let (k, new) ← uvmunmap k new 0 i true
      .ok (false, k, new)

/-- The loop of `uvmshare` from page `i` on, with the page at which it failed. -/
def shareLoop (k : Kmem) (old new : PageTable) (i : Nat) : Nat → Except Stop (Bool × Nat × Kmem × PageTable)
  | 0 => .ok (true, i, k, new)
  | n + 1 => do
      let pte ← presentPte k old (i * PGSIZE) "uvmshare"
      match ← mappages k new (i * PGSIZE) PGSIZE pte.pa pte.perm with
      | (false, k, new) => .ok (false, i, k, new)
      | (true, k, new) =>
          let k := if pte.pa ≠ 0 then addPageReference k pte.pa else k
          shareLoop k old new (i + 1) n

/-- `uvmshare`; `false` stands for -1. The references that were added are not taken back. -/
def uvmshare (k : Kmem) (old new : PageTable) (sz : Nat) : Except Stop (Bool × Kmem × PageTable) := do
  match ← shareLoop k old new 0 (pagesBelow 0 sz) with
  | (true, _, k, new) => .ok (true, k, new)
  | (false, i, k, new) =>
      let (k, new) ← uvmunmap k new 0 i false
      .ok (false, k, new)

def uvmclear (k : Kmem) (pt : PageTable) (va : Nat) : Except Stop PageTable := do
  match ← walk k pt va false with
  | (none, _, _) => .error (.panic "uvmclear")
  | (some i, _, _) =>
      match pt.leaves.lookup i with
      | none => .ok pt
      | some pte => .ok (pt.storeLeaf i { pte with perm := { pte.perm with u := false } })

/-- `walkaddr`: a physical address, or 0. -/
def walkaddr (pt : PageTable) (va : Nat) : Nat :=
  if MAXVA ≤ va then 0
  else
    match pt.leaves.lookup (va / PGSIZE) with
    | none => 0
    | some pte => if pte.perm.u then pte.pa else 0

/-- The loop of `copyout` on the bytes that are left to copy; `fuel` bounds the number of rounds. -/
def copyoutBytes (pt : PageTable) : (fuel : Nat) → Memory → (dstva : Nat) → (src : List UInt8) → Bool × Memory
  | 0, mem, _, _ => (true, mem)
  | fuel + 1, mem, dstva, src =>
      if src = [] then (true, mem)
      else
        let va0 := pgRoundDown dstva
        let pa0 := walkaddr pt va0
        if pa0 = 0 then (false, mem)
        else
          let n := min src.length (PGSIZE - (dstva - va0))
          copyoutBytes pt fuel (write mem (pa0 + (dstva - va0)) (src.take n)) (va0 + PGSIZE) (src.drop n)

/-- `copyout` with the memory after it. Every round copies at least one byte. -/
def copyoutTo (pt : PageTable) (mem : Memory) (dstva : Nat) (src : List UInt8) : Bool × Memory :=
  copyoutBytes pt src.length mem dstva src

/-- `copyout` of `len` bytes, without the memory. -/
def copyout (pt : PageTable) (dstva len : Nat) : Bool := (copyoutTo pt (fun _ => 0) dstva (.replicate len 0)).1

/-! ## The page table of a process -/

/-- `proc_pagetable` for a process with this trapframe. -/
def procPagetable (k : Kmem) (trampoline trapframe : Nat) : Except Stop (Option PageTable × Kmem) :=
  match uvmcreate k with
  | (none, k) => .ok (none, k)
  | (some pt, k) => do
      match ← mappages k pt TRAMPOLINE PGSIZE trampoline ⟨false, true, false⟩ with
      | (false, k, pt) =>
          let k ← uvmfree k pt 0
          .ok (none, k)
      | (true, k, pt) =>
          match ← mappages k pt TRAPFRAME PGSIZE trapframe ⟨true, false, false⟩ with
          | (false, k, pt) =>
              let (k, pt) ← uvmunmap k pt TRAMPOLINE 1 false
              let k ← uvmfree k pt 0
              .ok (none, k)
          | (true, k, pt) => .ok (some pt, k)

def procFreepagetable (k : Kmem) (pt : PageTable) (sz : Nat) : Except Stop Kmem := do
  let (k, pt) ← uvmunmap k pt TRAMPOLINE 1 false
  let (k, pt) ← uvmunmap k pt TRAPFRAME 1 false
  uvmfree k pt sz

end Xv6Net.Vm
