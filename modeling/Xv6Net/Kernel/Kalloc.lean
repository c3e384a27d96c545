import Mathlib.Algebra.Order.Ring.Nat
import Mathlib.Data.List.Basic
import Mathlib.Logic.Function.Basic

/-!
# The physical page allocator (`kernel/kalloc.c`)

Addresses are natural numbers and a page is named by its first address. `refCounter` is a total map from page
numbers to counts: the array bound is a matter of its own.
-/

namespace Xv6Net.Kernel

def PGSIZE : Nat := 4096
def KERNBASE : Nat := 0x80000000
def PHYSTOP : Nat := KERNBASE + 128 * 1024 * 1024

/-- `PGROUNDUP` on 64-bit values. -/
def pgRoundUp (sz : Nat) : Nat := (sz + PGSIZE - 1) % 2 ^ 64 / PGSIZE * PGSIZE

def pgRoundDown (a : Nat) : Nat := a / PGSIZE * PGSIZE

/-- How kernel code ends before it returns: a call of `panic`, an access through a null pointer, which the kernel
page table does not map, or a copy past the end of a page, after which nothing is known. -/
inductive Stop where
  | panic (msg : String)
  | fault
  | overrun
deriving DecidableEq, Repr

/-- `kmem` and `ref_counter`. The pages on the free list are the ones `kfree` let through its check. -/
structure Kmem where
  /-- `end`, the first address after the kernel image. -/
  kend : Nat
  freelist : List Nat
  refCounter : Nat → Nat
  kernbase_le : KERNBASE ≤ kend
  valid : ∀ p ∈ freelist, p % PGSIZE = 0 ∧ kend ≤ p ∧ p < PHYSTOP

/-- A page that the allocator manages. -/
def Kmem.Ram (k : Kmem) (p : Nat) : Prop := p % PGSIZE = 0 ∧ k.kend ≤ p ∧ p < PHYSTOP

/-- The index of a page in `ref_counter`. -/
def pageNum (pa : Nat) : Nat := pgRoundDown pa / PGSIZE

def addPageReference (k : Kmem) (pa : Nat) : Kmem :=
  { k with refCounter := Function.update k.refCounter (pageNum pa) (k.refCounter (pageNum pa) + 1) }

/-- `kfree`. A page with more than one reference only loses one. -/
def kfree (k : Kmem) (pa : Nat) : Except Stop Kmem :=
  if h : pa % PGSIZE ≠ 0 ∨ pa < k.kend ∨ PHYSTOP ≤ pa then .error (.panic "kfree")
  else if 1 < k.refCounter (pageNum pa) then
    .ok { k with refCounter := Function.update k.refCounter (pageNum pa) (k.refCounter (pageNum pa) - 1) }
  else
    .ok { k with
      freelist := pa :: k.freelist
      refCounter := Function.update k.refCounter (pageNum pa) 0
      valid := by
        intro p hp
        simp only [not_or, not_not, Nat.not_lt, Nat.not_le] at h
        rcases List.mem_cons.mp hp with rfl | hp
        · exact h
        · exact k.valid p hp }

/-- `kalloc`. With an empty list the result is the null pointer, and the count of page 0 is set all the same. -/
def kalloc (k : Kmem) : Option Nat × Kmem :=
  match hk : k.freelist with
  | [] => (none, { k with refCounter := Function.update k.refCounter (pageNum 0) 1 })
  | r :: rest =>
      (some r, { k with
        freelist := rest
        refCounter := Function.update k.refCounter (pageNum r) 1
        valid := fun p hp => k.valid p (by rw [hk]; exact List.mem_cons_of_mem _ hp) })

/-- `freerange`, the loop from `p` on; the count is the number of whole pages left below `PHYSTOP`. -/
def freerange (k : Kmem) (p : Nat) : Nat → Except Stop Kmem
  | 0 => .ok k
  | n + 1 => do freerange (← kfree k p) (p + PGSIZE) n

/-- `kinit`: every whole page of `[end, PHYSTOP)` is freed, from an empty list and zero counts. -/
def kinit (kend : Nat) (h : KERNBASE ≤ kend) : Except Stop Kmem :=
  freerange ⟨kend, [], fun _ => 0, h, by simp⟩ (pgRoundUp kend) ((PHYSTOP - pgRoundUp kend) / PGSIZE)

/-- A machine with sixteen free pages, for concrete runs. -/
def Kmem.sample : Kmem where
  kend := PHYSTOP - 16 * PGSIZE
  freelist := (List.range 16).map fun i => PHYSTOP - (i + 1) * PGSIZE
  refCounter := fun _ => 0
  kernbase_le := by decide
  valid := by decide

/-! ## What one call does -/

theorem pageNum_inj {p q : Nat} (hp : p % PGSIZE = 0) (hq : q % PGSIZE = 0) (h : pageNum p = pageNum q) :
    p = q := by
  simp only [pageNum, pgRoundDown, PGSIZE] at *; omega

theorem Kmem.Ram.pageNum_ne_zero {k : Kmem} {p : Nat} (h : k.Ram p) : pageNum p ≠ pageNum 0 := by
  have hk := k.kernbase_le
  simp only [Kmem.Ram, PGSIZE, KERNBASE] at h hk
  simp only [pageNum, pgRoundDown, PGSIZE]
  omega

theorem Kmem.Ram.pageNum_ne {k : Kmem} {p q : Nat} (hp : k.Ram p) (hq : k.Ram q) (h : p ≠ q) :
    pageNum p ≠ pageNum q := fun hn => h (Kernel.pageNum_inj hp.1 hq.1 hn)

theorem kalloc_nil {k : Kmem} (h : k.freelist = []) : (kalloc k).1 = none := by
  unfold kalloc; split
  · rfl
  · simp_all

theorem kalloc_cons {k : Kmem} {r : Nat} {rest : List Nat} (h : k.freelist = r :: rest) :
    (kalloc k).1 = some r ∧ (kalloc k).2.freelist = rest ∧
      (kalloc k).2.refCounter = Function.update k.refCounter (pageNum r) 1 ∧ (kalloc k).2.kend = k.kend := by
  unfold kalloc; split
  · simp_all
  · simp_all

theorem kalloc_freelist (k : Kmem) : (kalloc k).2.freelist = k.freelist.tail := by
  unfold kalloc; split <;> simp_all

/-- A successful `kalloc` takes the first page of the free list. -/
theorem kalloc_eq_some {k k' : Kmem} {r : Nat} (h : kalloc k = (some r, k')) :
    k.freelist = r :: k'.freelist ∧ k'.refCounter = Function.update k.refCounter (pageNum r) 1 ∧
      k'.kend = k.kend := by
  cases hf : k.freelist with
  | nil => have := kalloc_nil hf; simp [h] at this
  | cons q rest =>
      obtain ⟨h1, h2, h3, h4⟩ := kalloc_cons hf
      rw [h] at h1 h2 h3 h4
      simp only [Option.some.injEq] at h1 h2 h3 h4
      subst h1; exact ⟨by rw [h2], h3, h4⟩

theorem kalloc_eq_none {k k' : Kmem} (h : kalloc k = (none, k')) :
    k'.freelist = k.freelist ∧ k'.refCounter = Function.update k.refCounter (pageNum 0) 1 ∧ k'.kend = k.kend := by
  unfold kalloc at h
  split at h
  · cases h; exact ⟨by simp_all, rfl, rfl⟩
  · cases h

theorem freelist_eq_nil {k k' : Kmem} (h : kalloc k = (none, k')) : k.freelist = [] := by
  cases hf : k.freelist with
  | nil => rfl
  | cons q rest => have := (kalloc_cons hf).1; rw [h] at this; cases this

/-- `kfree` of a page with at most one reference puts it on the free list. -/
theorem kfree_last {k : Kmem} {p : Nat} (hv : p % PGSIZE = 0 ∧ k.kend ≤ p ∧ p < PHYSTOP)
    (hr : k.refCounter (pageNum p) ≤ 1) :
    ∃ k', kfree k p = .ok k' ∧ k'.freelist = p :: k.freelist ∧
      k'.refCounter = Function.update k.refCounter (pageNum p) 0 ∧ k'.kend = k.kend := by
  have h1 : ¬(p % PGSIZE ≠ 0 ∨ p < k.kend ∨ PHYSTOP ≤ p) := by omega
  have h2 : ¬(1 < k.refCounter (pageNum p)) := by omega
  simp only [kfree, h1, h2, ↓reduceDIte, ↓reduceIte]
  exact ⟨_, rfl, rfl, rfl, rfl⟩

theorem kfree_eq_ok {k k' : Kmem} {p : Nat} (h : kfree k p = .ok k') :
    k'.kend = k.kend ∧ p % PGSIZE = 0 ∧ k.kend ≤ p ∧ p < PHYSTOP ∧
    ((1 < k.refCounter (pageNum p) ∧ k'.freelist = k.freelist ∧
        k'.refCounter = Function.update k.refCounter (pageNum p) (k.refCounter (pageNum p) - 1)) ∨
      (k.refCounter (pageNum p) ≤ 1 ∧ k'.freelist = p :: k.freelist ∧
        k'.refCounter = Function.update k.refCounter (pageNum p) 0)) := by
  unfold kfree at h
  split at h
  · cases h
  · rename_i hv
    have hv' : p % PGSIZE = 0 ∧ k.kend ≤ p ∧ p < PHYSTOP := by omega
    split at h
    · cases h; exact ⟨rfl, hv'.1, hv'.2.1, hv'.2.2, Or.inl ⟨‹_›, rfl, rfl⟩⟩
    · cases h; exact ⟨rfl, hv'.1, hv'.2.1, hv'.2.2, Or.inr ⟨by omega, rfl, rfl⟩⟩

/-- The page was handed out by `kalloc`, is referenced once and is not on the free list. -/
structure Held (k : Kmem) (p : Nat) : Prop where
  valid : p % PGSIZE = 0 ∧ k.kend ≤ p ∧ p < PHYSTOP
  ref : k.refCounter (pageNum p) = 1
  not_free : p ∉ k.freelist

end Xv6Net.Kernel
