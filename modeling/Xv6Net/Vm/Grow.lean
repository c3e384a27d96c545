import Xv6Net.Vm.Copy
import Xv6Net.Vm.Spec

/-!
# What growing and shrinking are for (`uvmalloc` and `uvmdealloc` of `kernel/vm.c`)

`kalloc` and `uvmalloc` fill a new page. What `walk` and `mappages` leave in the pages of the table is a parameter: the
entries are those of `PageTable`.
-/

namespace Xv6Net.Vm

open Kernel Lib

/-- Only the pages of the table are written. -/
def Store.Local (store : Store) : Prop :=
  ∀ pt mem a, (∀ p ∈ pt.pages, ¬ (p ≤ a ∧ a < p + PGSIZE)) → store pt mem a = mem a

/-- The pages of the table are pages that are not free, and no page is free twice. -/
structure Sound (k : Kmem) (pt : PageTable) : Prop where
  nodup : k.freelist.Nodup
  aligned : ∀ p ∈ pt.pages, p % PGSIZE = 0
  tables : ∀ p ∈ pt.pages, p ∉ k.freelist

/-- The free pages that growing from `oldsz` to `newsz` takes: the new pages, and the tables that are missing for them. -/
def PageTable.need (pt : PageTable) (oldsz newsz : Nat) : Nat :=
  let n := pagesBelow (pgRoundUp oldsz) newsz
  n + pt.lacks (pgRoundUp oldsz / PGSIZE) n

/-- The memory was grown: the old mappings are the same, and each new page was free before, has no other place in the
table and holds zeros. -/
structure Grown (k : Kmem) (pt pt' : PageTable) (mem' : Memory) (oldsz newsz : Nat) (perm : Perm) : Prop where
  covers : pt'.Covers newsz
  old : ∀ i, i * PGSIZE < pgRoundUp oldsz ∨ USER_PAGES ≤ i → pt'.leaves.lookup i = pt.leaves.lookup i
  fresh : ∀ i pte, pgRoundUp oldsz ≤ i * PGSIZE → i < USER_PAGES → pt'.leaves.lookup i = some pte →
    pte.pa ∈ k.freelist ∧ pte.perm = perm
  zero : ∀ i pte, pgRoundUp oldsz ≤ i * PGSIZE → i < USER_PAGES → pt'.leaves.lookup i = some pte →
    ∀ b < PGSIZE, mem' (pte.pa + b) = 0
  distinct : ∀ i j p q, pgRoundUp oldsz ≤ i * PGSIZE → i < USER_PAGES → pgRoundUp oldsz ≤ j * PGSIZE → j < USER_PAGES →
    pt'.leaves.lookup i = some p → pt'.leaves.lookup j = some q → p.pa = q.pa → i = j

/-- Nothing is mapped that was not mapped before, and every page that was free is free once or a page of the table. -/
structure Restored (k : Kmem) (pt : PageTable) (k' : Kmem) (pt' : PageTable) : Prop where
  mappings : ∀ i, pt'.leaves.lookup i = pt.leaves.lookup i
  nodup : k'.freelist.Nodup
  freed : ∀ p ∈ k.freelist, p ∈ k'.freelist ∨ p ∈ pt'.pages

/-- The memory of a process that shares none of it: the pages below `sz` are mapped, each has one reference and one place
in the table. -/
structure Sole (k : Kmem) (pt : PageTable) (sz : Nat) : Prop extends Sound k pt where
  covers : pt.Covers sz
  held : ∀ i pte, i < USER_PAGES → pt.leaves.lookup i = some pte → Held k pte.pa
  apart : ∀ i pte, i < USER_PAGES → pt.leaves.lookup i = some pte → pte.pa ∉ pt.pages
  distinct : ∀ i j p q, i < USER_PAGES → j < USER_PAGES → pt.leaves.lookup i = some p → pt.leaves.lookup j = some q →
    p.pa = q.pa → i = j

/-- The memory was cut down to `newsz`: the pages above it are free now, each once. -/
structure Shrunk (k : Kmem) (pt : PageTable) (k' : Kmem) (pt' : PageTable) (oldsz newsz : Nat) : Prop where
  covers : pt'.Covers newsz
  old : ∀ i, i * PGSIZE < pgRoundUp newsz ∨ USER_PAGES ≤ i → pt'.leaves.lookup i = pt.leaves.lookup i
  nodup : k'.freelist.Nodup
  freed : ∀ p, p ∈ k'.freelist ↔ p ∈ k.freelist ∨ ∃ i pte, pgRoundUp newsz ≤ i * PGSIZE ∧ i * PGSIZE < pgRoundUp oldsz ∧
    pt.leaves.lookup i = some pte ∧ pte.pa = p

/-- The trapframe and the trampoline are mapped. -/
def PageTable.Topped (pt : PageTable) : Prop := USER_PAGES ∈ pt.leaves ∧ USER_PAGES + 1 ∈ pt.leaves

end Xv6Net.Vm
