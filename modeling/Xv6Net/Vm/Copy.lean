import Xv6Net.Vm.Uvm

/-!
# Copying to and from user memory (`copyout` and `copyin` of `kernel/vm.c`)

A user address stands for the byte that the page table leads to.
-/

namespace Xv6Net.Vm

open Kernel Lib

/-- The physical address of a user address, if it is mapped. -/
def userAddr (pt : PageTable) (va : Nat) : Option Nat :=
  let va0 := pgRoundDown va
  if walkaddr pt va0 = 0 then none else some (walkaddr pt va0 + (va - va0))

/-- Every page of the table has a physical page of its own. -/
structure PageTable.Own (pt : PageTable) : Prop where
  aligned : ∀ i pte, pt.leaves.lookup i = some pte → pte.pa % PGSIZE = 0
  distinct : ∀ i j p q, pt.leaves.lookup i = some p → pt.leaves.lookup j = some q → p.pa = q.pa → i = j

/-- Distinct pages of the user have distinct physical pages. -/
structure PageTable.UserOwn (pt : PageTable) : Prop where
  aligned : ∀ i pte, pt.leaves.lookup i = some pte → pte.perm.u = true → pte.pa % PGSIZE = 0
  distinct : ∀ i j p q, pt.leaves.lookup i = some p → pt.leaves.lookup j = some q → p.perm.u = true →
    q.perm.u = true → p.pa = q.pa → i = j

/-- The `n` bytes from `buf` on are mapped for the user. -/
def PageTable.Maps (pt : PageTable) (buf n : Nat) : Prop := ∀ i < n, (userAddr pt (buf + i)).isSome

/-- One page of user memory, at the address 0. -/
def onePage : PageTable :=
  (((PageTable.empty 1).storeDir 0 2).storeTab 0 3).storeLeaf 0 ⟨PHYSTOP - 2 * PGSIZE, true, false, true⟩

/-- What a copy has left in memory: the range holds the bytes, and everything else is as it was. -/
structure Copied (pt : PageTable) (mem mem' : Memory) (dstva : Nat) (src : List UInt8) : Prop where
  bytes : ∀ i (h : i < src.length), ∃ a, userAddr pt (dstva + i) = some a ∧ mem' a = src[i]
  rest : ∀ a, (∀ i < src.length, userAddr pt (dstva + i) ≠ some a) → mem' a = mem a

/-- The loop of `copyin` with the bytes that it copies, also where it fails in the end. -/
def copyinBytes (pt : PageTable) (mem : Memory) : (fuel : Nat) → (srcva len : Nat) → Bool × List UInt8
  | 0, _, _ => (true, [])
  | fuel + 1, srcva, len =>
      if len = 0 then (true, [])
      else
        let va0 := pgRoundDown srcva
        let pa0 := walkaddr pt va0
        if pa0 = 0 then (false, [])
        else
          let n := min len (PGSIZE - (srcva - va0))
          let rest := copyinBytes pt mem fuel (va0 + PGSIZE) (len - n)
          (rest.1, slice mem (pa0 + (srcva - va0)) n ++ rest.2)

/-- `copyin`; every round copies at least one byte. -/
def copyinFrom (pt : PageTable) (mem : Memory) (srcva len : Nat) : Bool × List UInt8 :=
  copyinBytes pt mem len srcva len

/-- What `copyin` has copied: the bytes of the range, all of them or those before the first page that is not mapped. -/
structure CopiedFrom (pt : PageTable) (mem : Memory) (srcva len : Nat) (r : Bool × List UInt8) : Prop where
  bytes : ∀ i (h : i < r.2.length), ∃ a, userAddr pt (srcva + i) = some a ∧ r.2[i] = mem a
  done : r.1 = true → r.2.length = len
  stopped : r.1 = false → r.2.length < len ∧ userAddr pt (srcva + r.2.length) = none

end Xv6Net.Vm
