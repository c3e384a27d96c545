import Xv6Net.Vm.Uvm

/-!
# Indices of `ref_counter` (`kernel/kalloc.c`)

The array has an entry for each page from `KERNBASE` to `PHYSTOP`. The index of a page is its number in physical memory.
-/

namespace Xv6Net.Vm

open Kernel

def MAX_USER_PAGE_COUNT : Nat := (PHYSTOP - KERNBASE) / PGSIZE

/-- `page_num` of `add_page_reference`, which is a `uint`. -/
def pageNum32 (pointerInPage : Nat) : Nat := pageNum pointerInPage % 2 ^ 32

/-- The pages that the loop of `uvmshare` from page `i` on gives to `add_page_reference`, in turn. -/
def shareGives (k : Kmem) (old new : PageTable) (i : Nat) : Nat → List Nat
  | 0 => []
  | n + 1 =>
      match presentPte k old (i * PGSIZE) "uvmshare" with
      | .error _ => []
      | .ok pte =>
          match mappages k new (i * PGSIZE) PGSIZE pte.pa pte.perm with
          | .ok (true, k, new) =>
              if pte.pa ≠ 0 then pte.pa :: shareGives (addPageReference k pte.pa) old new (i + 1) n
              else shareGives k old new (i + 1) n
          | _ => []

/-- The entry of `ref_counter` that a call uses for an address. The pages that a process has below its size are pages that
the allocator manages. -/
inductive RefUse (k : Kmem) : (pa index : Nat) → Prop where
  | kfree {pa : Nat} {k' : Kmem} (accepted : kfree k pa = .ok k') : RefUse k pa (pageNum pa)
  /-- The address is 0 if no page is free. -/
  | kalloc : RefUse k ((kalloc k).1.getD 0) (pageNum ((kalloc k).1.getD 0))
  | uvmshare {old new : PageTable} {sz pa : Nat}
      (user : ∀ i pte, i < pagesBelow 0 sz → old.leaves.lookup i = some pte → k.Ram pte.pa)
      (given : pa ∈ shareGives k old new 0 (pagesBelow 0 sz)) : RefUse k pa (pageNum32 pa)

end Xv6Net.Vm
