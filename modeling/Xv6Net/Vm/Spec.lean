import Mathlib.Data.Finset.Card
import Mathlib.Order.Interval.Finset.Nat
import Xv6Net.Lib.Gather
import Xv6Net.Vm.Uvm

/-!
# The pages of a page table

`pages` are the pages a table consists of and `user` the pages it maps below the trapframe. `missing` and `lacks` are the
tables that still have to be added for mappings.
-/

namespace Xv6Net.Vm

open Kernel Lib

/-- The number of the page of the trapframe; user memory is below. -/
def USER_PAGES : Nat := TRAPFRAME / PGSIZE

/-- The pages of the second and the third level that the first `n` pages of an address space need. -/
def tablesBelow (n : Nat) : Nat := (n + 511) / 512 + (n + 262143) / 262144

namespace PageTable

def pages (pt : PageTable) : Multiset Nat :=
  pt.page ::ₘ (gather (fun _ p => {p}) pt.dirs + gather (fun _ p => {p}) pt.tabs)

def user (pt : PageTable) : Multiset Nat :=
  gather (fun i pte => if i < USER_PAGES then {pte.pa} else 0) pt.leaves

/-- In user memory exactly the pages below `sz` are mapped. -/
def Covers (pt : PageTable) (sz : Nat) : Prop := ∀ i, i < USER_PAGES → (i ∈ pt.leaves ↔ i * PGSIZE < sz)

/-- The pages that `walk` adds to the table to get to page `i`. -/
def missing (pt : PageTable) (i : Nat) : Nat :=
  (if i / 512 / 512 ∈ pt.dirs then 0 else 1) + if i / 512 ∈ pt.tabs then 0 else 1

/-- The pages that the tables lack for the pages `i` to `i + n - 1`. -/
def lacks (pt : PageTable) (i n : Nat) : Nat :=
  (((Finset.Ico i (i + n)).image (· / 512 / 512)).filter (· ∉ pt.dirs)).card +
    (((Finset.Ico i (i + n)).image (· / 512)).filter (· ∉ pt.tabs)).card

end PageTable

/-- The pages of `old` are in memory and in use, and the first `n` pages of the range are all there are before one that
is not mapped. -/
structure SharedPages (k : Kmem) (old : PageTable) (sz n : Nat) : Prop where
  used : ∀ i pte, i < pagesBelow 0 sz → old.leaves.lookup i = some pte → k.Ram pte.pa ∧ pte.pa ∉ k.freelist
  le : n ≤ pagesBelow 0 sz
  mapped : ∀ i, i < n → i ∈ old.leaves
  stops : n = pagesBelow 0 sz ∨ n ∉ old.leaves

end Xv6Net.Vm
