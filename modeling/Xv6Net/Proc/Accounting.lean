import Mathlib.Data.Fintype.Basic
import Xv6Net.Lib.Run
import Xv6Net.Proc.Exec
import Xv6Net.Vm.Spec

/-!
# System calls on processes, and the pages they use

The state is the process table with the memory; a label is a system call of one process, which runs to its end.
-/

namespace Xv6Net.Procs

open Kernel Vm Lib

inductive ProcAct where
  | fork (s : Slot)
  | createThread (s : Slot)
  | growproc (s : Slot) (n : Int)
  | exec (s : Slot) (file : Option Elf) (argv : List Nat)
  | exit (s : Slot) (status : Int)
  | threadExit (s : Slot) (status : Int)
  | wait (s : Slot) (addr : Nat)

def ProcAct.caller : ProcAct → Slot
  | fork s | createThread s | growproc s _ | exec s _ _ | exit s _ | threadExit s _ | wait s _ => s

def procCall (m : Machine) : ProcAct → Except Stop Machine
  | .fork s => do .ok (← fork m s).2
  | .createThread s => do .ok (← createThread m s).2
  | .growproc s n => do .ok (← growproc m s n).2
  | .exec s file argv => do .ok (← exec m s file argv).2
  | .exit s status => exit m s status
  | .threadExit s status => threadExit m s status
  | .wait s addr => do .ok (← wait m s addr).2

/-- A process that can run makes a system call. A kernel that stops makes no further step. -/
def procStep (m : Machine) (a : ProcAct) : Option Machine :=
  if (m.proc a.caller).state = .runnable then (procCall m a).toOption else none

theorem procStep_eq_some {m m' : Machine} {a : ProcAct} :
    procStep m a = some m' ↔ (m.proc a.caller).state = .runnable ∧ procCall m a = .ok m' := by
  unfold procStep
  cases h : procCall m a <;> split <;> simp_all [Except.toOption]

/-- Every call but `create_thread`. -/
def MakesNoThread (_ : Machine) : ProcAct → Prop
  | .createThread _ => False
  | _ => True

/-- The machine before `userinit`, with the pages that the kernel has taken for itself off the free list. -/
def Machine.boot (k : Kmem) (trampoline : Nat) : Machine where
  kmem := k
  proc := fun _ => .zero
  nextpid := 1
  initproc := ⟨0, by decide⟩
  trampoline := trampoline

/-- `userinit` has made the first process, and its only page is mapped. -/
structure Machine.FirstProcess (k : Kmem) (m : Machine) : Prop where
  made : ∃ trampoline initcode, userinit (.boot k trampoline) initcode = .ok m
  mapped : ∃ pt, (m.proc m.initproc).pagetable = some pt ∧ 0 ∈ pt.leaves

/-! ## Pages -/

/-- The pages a process maps in user memory, once for every entry. -/
def Proc.user (p : Proc) : Multiset Nat := p.pagetable.elim 0 PageTable.user

/-- The pages that the kernel uses for a process: the trapframe and the pages of the page table. -/
def Proc.kern (p : Proc) : Multiset Nat := p.trapframe.elim 0 ({·}) + p.pagetable.elim 0 PageTable.pages

def Machine.userPages (m : Machine) : Multiset Nat := ∑ s, (m.proc s).user

def Machine.kernPages (m : Machine) : Multiset Nat := ∑ s, (m.proc s).kern

/-- The number of entries, over all processes and threads, that map the page in user memory. -/
def Machine.mappings (m : Machine) (p : Nat) : Nat := m.userPages.count p

/-- References are mappings: a mapped page has as many references as mappings and is not free, and a page that is
neither mapped nor used by the kernel is free. -/
structure Machine.PagesExact (held : Nat → Prop) (m : Machine) : Prop where
  ref : ∀ p, 0 < m.mappings p → m.kmem.refCounter (pageNum p) = m.mappings p
  not_free : ∀ p, 0 < m.mappings p → p ∉ m.kmem.freelist
  freed : ∀ p, m.kmem.Ram p → m.mappings p = 0 → p ∈ m.kmem.freelist ∨ p ∈ m.kernPages ∨ held p

/-! ## Calls that keep references and mappings equal -/

/-- Growing by `n` bytes adds and removes no page. -/
def keepsPages (sz : Nat) (n : Int) : Bool :=
  if 0 < n then grownSize sz n ≤ pgRoundUp sz
  else sz ≤ grownSize sz n ∨ pgRoundUp (grownSize sz n) = pgRoundUp sz

/-- The free pages run out before `create_thread` shares a page, or they last until it has shared all: four are for
the new process, the others for the tables of the shared pages, and the first shared page takes two. -/
def sharesWhole (m : Machine) (s : Slot) : Bool :=
  m.kmem.freelist.length < 6 ∨ 4 + tablesBelow (pagesBelow 0 (m.proc s).sz) ≤ m.kmem.freelist.length

/-- No thread adds or removes a page, and no `create_thread` runs out of pages halfway. -/
def PagesCalm (m : Machine) : ProcAct → Prop
  | .growproc s n => (m.proc s).isThread = true → keepsPages (m.proc s).sz n = true
  | .createThread s => sharesWhole m s = true
  | _ => True

instance decidablePagesCalm (m : Machine) : ∀ a, Decidable (PagesCalm m a)
  | .growproc s n => inferInstanceAs (Decidable ((m.proc s).isThread = true → keepsPages (m.proc s).sz n = true))
  | .createThread s => inferInstanceAs (Decidable (sharesWhole m s = true))
  | .fork _ | .exec .. | .exit .. | .threadExit .. | .wait .. => isTrue trivial

end Xv6Net.Procs
