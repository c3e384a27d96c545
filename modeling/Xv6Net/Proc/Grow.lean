import Xv6Net.Proc.Sharing
import Xv6Net.Vm.Grow

/-!
# What growing and shrinking a process is for (`growproc` of `kernel/proc.c`, `uvmthreaded_alloc` of `kernel/vm.c`)
-/

namespace Xv6Net.Procs

open Kernel Vm

/-- A process without threads: its size and its page table agree, and its memory is its own. -/
structure Alone (m : Machine) (s : Slot) : Prop where
  isThread : (m.proc s).isThread = false
  memory : ∃ pt, (m.proc s).pagetable = some pt ∧ Sole m.kmem pt (m.proc s).sz

/-- The size that a request of `n` bytes leads to. One to give back more than there is changes nothing. -/
def askedSize (sz : Nat) (n : Int) : Nat := if sz + n < 0 then sz else (sz + n).toNat

/-- There are free pages enough for the memory of `s` to get this size. -/
def Machine.CanGrow (m : Machine) (s : Slot) (newsz : Nat) : Prop :=
  ∀ pt, (m.proc s).pagetable = some pt → pt.need (m.proc s).sz newsz ≤ m.kmem.freelist.length

/-- What a request of `n` bytes leads to. -/
def Asked (m : Machine) (s : Slot) (n : Int) (r : Int) (m' : Machine) : Prop :=
  let newsz := askedSize (m.proc s).sz n
  Alone m' s ∧ (r = 0 ∧ m.CanGrow s newsz ∧ (m'.proc s).sz = newsz ∨
    r = -1 ∧ ¬ m.CanGrow s newsz ∧ 0 < n ∧ (m'.proc s).sz = (m.proc s).sz)

/-! ## Threads -/

/-- The threads of `leader` and `leader`, in the order in which `uvmthreaded_alloc` goes through them. -/
def Machine.members (m : Machine) (leader : Slot) : List Slot := m.infants leader ++ [leader]

/-- A thread in the table of its leader. The only pages that a member maps from `oldsz` on are those of its trapframe and
its trampoline, and no page that is mapped is free. -/
structure ThreadGroup (m : Machine) (thread leader : Slot) (oldsz : Nat) : Prop where
  parent : (m.proc thread).parent = some leader
  listed : thread ∈ m.infants leader
  nodup : (m.members leader).Nodup
  tables : ∀ s ∈ m.members leader, ∃ pt, (m.proc s).pagetable = some pt ∧ pt.Topped ∧
    ∀ i, pgRoundUp oldsz ≤ i * PGSIZE → i < USER_PAGES → i ∉ pt.leaves
  free : m.kmem.freelist.Nodup
  mapped : ∀ s i pte, i < USER_PAGES → (m.proc s).leaf i = some pte → pte.pa ∉ m.kmem.freelist

/-- What a failed `uvmthreaded_alloc` should leave behind: sizes and mappings as they were, no page both mapped and free,
and every page that was free free once, unless it has become part of a page table. -/
structure GrowthUndone (m m' : Machine) (leader : Slot) : Prop where
  sizes : ∀ s ∈ m.members leader, (m'.proc s).sz = (m.proc s).sz
  leaves : ∀ s ∈ m.members leader, ∀ i, i < USER_PAGES → (m'.proc s).leaf i = (m.proc s).leaf i
  mapped : ∀ s i pte, i < USER_PAGES → (m'.proc s).leaf i = some pte → pte.pa ∉ m'.kmem.freelist
  nodup : m'.kmem.freelist.Nodup
  freed : ∀ p ∈ m.kmem.freelist, p ∈ m'.kmem.freelist ∨
    ∃ s ∈ m.members leader, ∃ pt, (m'.proc s).pagetable = some pt ∧ p ∈ pt.pages

/-- The pages that the tables of the process lack for page `i`. -/
def Machine.missing (m : Machine) (i : Nat) (s : Slot) : Nat := (m.proc s).pagetable.elim 0 (·.missing i)

/-- The same for the pages `i` to `i + n - 1`. -/
def Machine.lacks (m : Machine) (i n : Nat) (s : Slot) : Nat := (m.proc s).pagetable.elim 0 (·.lacks i n)

/-- What the first member lacks for page `i`. -/
def Machine.firstMissing (m : Machine) (leader : Slot) (i : Nat) : Nat :=
  (m.members leader).head?.elim 0 (m.missing i)

/-- The free pages that the pages `i` to `i + n - 1` take, mapped in the tables of all members. -/
def Machine.need (m : Machine) (leader : Slot) (i n : Nat) : Nat :=
  n + ((m.members leader).map (m.lacks i n)).sum

/-- The pages that are asked for. Growing gets no further than to the page of the trapframe. -/
def growth (oldsz newsz : Nat) : Nat :=
  if newsz < oldsz then 0
  else min (pagesBelow (pgRoundUp oldsz) newsz) (USER_PAGES + 1 - pgRoundUp oldsz / PGSIZE)

end Xv6Net.Procs
