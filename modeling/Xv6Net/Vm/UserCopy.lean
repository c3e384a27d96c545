import Xv6Net.Lib.Logged
import Xv6Net.Vm.Copy

/-!
# `copyout`, `copyin` and `copyinstr` on 64-bit addresses (`kernel/vm.c`)

The loops as the source has them, in the arithmetic of `uint64`. A length or an address of the user may be any word,
so the address of the next page can wrap around.
-/

namespace Xv6Net.Vm

open Kernel Lib

/-- `PGROUNDDOWN`. -/
def roundDown (a : UInt64) : UInt64 := a &&& ~~~4095

/-- What a round copies: `n = PGSIZE - (va - va0)`, or all that is left if that is less. -/
def roundLen (va len : UInt64) : UInt64 :=
  let n := 4096 - (va - roundDown va)
  if len < n then len else n

/-- The loop of `copyout`. Each round logs the number of the user page that `memmove` writes to. -/
def copyoutRounds (pt : PageTable) : (fuel : Nat) → Memory → (dstva : UInt64) → (src : List UInt8) →
    Logged Nat (Bool × Memory)
  | 0, mem, _, _ => pure (true, mem)
  | fuel + 1, mem, dstva, src =>
      if src = [] then pure (true, mem)
      else
        let va0 := roundDown dstva
        let pa0 := walkaddr pt va0.toNat
        if pa0 = 0 then pure (false, mem)
        else do
          let n := (roundLen dstva (.ofNat src.length)).toNat
          let mem ← .use (va0.toNat / PGSIZE) (write mem (pa0 + (dstva - va0).toNat) (src.take n))
          copyoutRounds pt fuel mem (va0 + 4096) (src.drop n)

/-- `copyout` of the bytes `src`, with the memory after it. -/
def copyoutLogged (pt : PageTable) (mem : Memory) (dstva : UInt64) (src : List UInt8) : Logged Nat (Bool × Memory) :=
  copyoutRounds pt src.length mem dstva src

/-- The loop of `copyin`, with what it has copied. -/
def copyinRounds (pt : PageTable) (mem : Memory) : (fuel : Nat) → (srcva len : UInt64) → Bool × List UInt8
  | 0, _, _ => (true, [])
  | fuel + 1, srcva, len =>
      if len = 0 then (true, [])
      else
        let va0 := roundDown srcva
        let pa0 := walkaddr pt va0.toNat
        if pa0 = 0 then (false, [])
        else
          let n := roundLen srcva len
          let rest := copyinRounds pt mem fuel (va0 + 4096) (len - n)
          (rest.1, slice mem (pa0 + (srcva - va0).toNat) n.toNat ++ rest.2)

def copyin (pt : PageTable) (mem : Memory) (srcva len : UInt64) : Bool × List UInt8 :=
  copyinRounds pt mem len.toNat srcva len

/-- The inner loop of `copyinstr` over `n` bytes of a page: whether it met a NUL, and what it has copied. -/
def scanPage (mem : Memory) (p : Nat) : (n : Nat) → Bool × List UInt8
  | 0 => (false, [])
  | n + 1 =>
      if mem p = 0 then (true, [0])
      else
        let rest := scanPage mem (p + 1) n
        (rest.1, mem p :: rest.2)

/-- The outer loop of `copyinstr`, with the bytes it has stored at `dst`. -/
def copyinstrRounds (pt : PageTable) (mem : Memory) : (fuel : Nat) → (srcva max : UInt64) → Bool × List UInt8
  | 0, _, _ => (false, [])
  | fuel + 1, srcva, max =>
      if max = 0 then (false, [])
      else
        let va0 := roundDown srcva
        let pa0 := walkaddr pt va0.toNat
        if pa0 = 0 then (false, [])
        else
          let n := roundLen srcva max
          let page := scanPage mem (pa0 + (srcva - va0).toNat) n.toNat
          if page.1 then page
          else
            let rest := copyinstrRounds pt mem fuel (va0 + 4096) (max - n)
            (rest.1, page.2 ++ rest.2)

def copyinstr (pt : PageTable) (mem : Memory) (srcva max : UInt64) : Bool × List UInt8 :=
  copyinstrRounds pt mem max.toNat srcva max

/-! ## What a range of user memory is -/

/-- A page below `MAXVA` that is valid and open to the user. -/
def PageTable.UserPage (pt : PageTable) (i : Nat) : Prop :=
  i * PGSIZE < MAXVA ∧ ∃ pte, pt.leaves.lookup i = some pte ∧ pte.perm.u = true

/-- Every page that meets `[va, va + n)` is a page of the user; the addresses do not wrap. -/
def PageTable.UserRange (pt : PageTable) (va n : Nat) : Prop := ∀ i < n, pt.UserPage ((va + i) / PGSIZE)

/-- The byte of a user address. -/
def userByte (pt : PageTable) (mem : Memory) (va : Nat) : Option UInt8 := (userAddr pt va).map mem

/-- `bs` are the `n` bytes from `va` on. -/
def Delivers (pt : PageTable) (mem : Memory) (va n : Nat) (bs : List UInt8) : Prop :=
  bs.length = n ∧ ∀ i < n, bs[i]? = userByte pt mem (va + i)

/-- `PTE_U` and `PTE_W` of the page are set. -/
def PageTable.Writable (pt : PageTable) (i : Nat) : Prop :=
  ∃ pte, pt.leaves.lookup i = some pte ∧ pte.perm.u = true ∧ pte.perm.w = true

/-- The page is mapped without `PTE_W`. -/
def PageTable.ReadOnly (pt : PageTable) (i : Nat) : Prop :=
  ∃ pte, pt.leaves.lookup i = some pte ∧ pte.perm.w = false

/-- `copyout` to `[dstva, dstva + len)` keeps to the protection of the pages: it writes to writable pages only, and a
page without `PTE_W` makes it fail and is left alone. -/
def RespectsProtection (pt : PageTable) (dstva len : UInt64) : Prop :=
  ∀ (mem : Memory) (src : List UInt8), src.length = len.toNat →
    let r := copyoutLogged pt mem dstva src
    (∀ page ∈ r.log, pt.Writable page) ∧
      (∀ a, r.val.2 a ≠ mem a → ∃ i < len.toNat, userAddr pt (dstva.toNat + i) = some a ∧
        (dstva.toNat + i) / PGSIZE ∈ r.log) ∧
      ∀ i < len.toNat, pt.ReadOnly ((dstva.toNat + i) / PGSIZE) →
        r.val.1 = false ∧ (dstva.toNat + i) / PGSIZE ∉ r.log

end Xv6Net.Vm
