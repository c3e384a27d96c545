import Mathlib.Data.List.FinRange
import Xv6Net.Vm.Uvm

/-!
# Processes and threads (`kernel/proc.c`, `uvmthreaded_…` of `kernel/vm.c`)

Processes are named by their place in the table, and a null pointer to one is `none`. System calls run one after
another: each takes the slot of its caller and returns its value with the machine. Of the open files nothing is kept:
no function here reads them back, and the pages of pipes and sockets belong to the kernel. Of the current directory it
is kept whether the pointer is null, since `iput` and `idup` dereference it.
-/

namespace Xv6Net.Procs

open Kernel Vm

def NPROC : Nat := 64
def MAX_THREADS : Nat := 64

instance : NeZero NPROC := ⟨by decide⟩

abbrev Slot := Fin NPROC

inductive ProcState where
  | unused
  | used
  | sleeping
  | runnable
  | running
  | zombie
deriving DecidableEq, Repr

structure Proc where
  state : ProcState
  killed : Bool
  xstate : Int
  pid : Nat
  parent : Option Slot
  sz : Nat
  pagetable : Option PageTable
  trapframe : Option Nat
  cwd : Bool
  isThread : Bool
  infantThreads : Fin MAX_THREADS → Option Slot

def Proc.zero : Proc where
  state := .unused
  killed := false
  xstate := 0
  pid := 0
  parent := none
  sz := 0
  pagetable := none
  trapframe := none
  cwd := false
  isThread := false
  infantThreads := fun _ => none

structure Machine where
  kmem : Kmem
  proc : Slot → Proc
  nextpid : Nat
  initproc : Slot
  trampoline : Nat

namespace Machine

def setProc (m : Machine) (s : Slot) (p : Proc) : Machine := { m with proc := Function.update m.proc s p }

def setSz (m : Machine) (s : Slot) (sz : Nat) : Machine := m.setProc s { m.proc s with sz := sz }

/-- A function on the page table of `s`, which is stored back. -/
def onTable {α : Type} (m : Machine) (s : Slot) (f : Kmem → PageTable → Except Stop (α × Kmem × PageTable)) :
    Except Stop (α × Machine) :=
  match (m.proc s).pagetable with
  | none => .error .fault
  | some pt => do
      let (r, k, pt) ← f m.kmem pt
      .ok (r, { m with kmem := k }.setProc s { m.proc s with pagetable := some pt })

/-- The entries of `infant_threads` that are not null, in order. -/
def infants (m : Machine) (s : Slot) : List Slot := (List.finRange MAX_THREADS).filterMap (m.proc s).infantThreads

end Machine

/-! ## Slots -/

/-- The two frees of `freeproc`. -/
def freeMemory (k : Kmem) (p : Proc) : Except Stop Kmem := do
  let k ← p.trapframe.elim (.ok k) (kfree k)
  p.pagetable.elim (.ok k) (procFreepagetable k · p.sz)

/-- The fields that `freeproc` resets; the others stay. -/
def Proc.freed (p : Proc) : Proc :=
  { p with
    trapframe := none, pagetable := none, sz := 0, pid := 0, parent := none, killed := false, xstate := 0
    state := .unused }

def freeproc (m : Machine) (s : Slot) : Except Stop Machine := do
  let k ← freeMemory m.kmem (m.proc s)
  .ok ({ m with kmem := k }.setProc s (m.proc s).freed)

/-- The slot that `allocproc` finds. -/
def unusedSlot (m : Machine) : Option Slot := (List.finRange NPROC).find? fun s => (m.proc s).state = .unused

/-- `memset(p->infant_threads, 0, MAX_THREADS)` clears 64 bytes, which are 8 pointers. -/
def clearInfants (infants : Fin MAX_THREADS → Option Slot) : Fin MAX_THREADS → Option Slot :=
  fun i => if i.val < 8 then none else infants i

/-- `allocproc`; `none` stands for 0. -/
def allocproc (m : Machine) : Except Stop (Option Slot × Machine) :=
  match unusedSlot m with
  | none => .ok (none, m)
  | some s =>
      let p := { m.proc s with pid := m.nextpid, state := .used }
      let m := { m with nextpid := m.nextpid + 1 }
      match kalloc m.kmem with
      | (none, k) => do .ok (none, ← freeproc ({ m with kmem := k }.setProc s { p with trapframe := none }) s)
      | (some tf, k) => do
          match ← procPagetable k m.trampoline tf with
          | (none, k) =>
              .ok (none, ← freeproc ({ m with kmem := k }.setProc s
                { p with trapframe := some tf, pagetable := none }) s)
          | (some pt, k) =>
              .ok (some s, { m with kmem := k }.setProc s { p with
                trapframe := some tf
                pagetable := some pt
                infantThreads := clearInfants p.infantThreads })

def userinit (m : Machine) (initcode : Nat) : Except Stop Machine := do
  match ← allocproc m with
  | (none, _) => .error .fault
  | (some s, m) =>
      match (m.proc s).pagetable with
      | none => .error .fault
      | some pt =>
          let (k, pt) ← uvmfirst m.kmem pt initcode
          .ok ({ m with kmem := k, initproc := s }.setProc s { m.proc s with
            pagetable := some pt, sz := PGSIZE, cwd := true, state := .runnable })

/-! ## Growing -/

/-- One page is mapped in the tables of the given processes in turn. Where a table cannot take it, the page is freed
and that table loses what the call has added to it; `false` stands for the return of 0. -/
def mapThreads (m : Machine) (mem a oldsz newsz : Nat) (perm : Perm) : List Slot → Except Stop (Bool × Machine)
  | [] => .ok (true, m)
  | s :: rest => do
      match ← m.onTable s fun k pt => mappages k pt a PGSIZE mem perm with
      | (true, m) => mapThreads (m.setSz s newsz) mem a oldsz newsz perm rest
      | (false, m) =>
          let k ← kfree m.kmem mem
          let (_, m) ← { m with kmem := k }.onTable s fun k pt => uvmdealloc k pt a oldsz
          .ok (false, m)

/-- The loop of `uvmthreaded_alloc` over the pages from `a` on: the threads come first, then their parent. -/
def threadedLoop (m : Machine) (thread : Slot) (p : Option Slot) (a oldsz newsz : Nat) (perm : Perm) :
    Nat → Except Stop (Bool × Machine)
  | 0 => .ok (true, m)
  | n + 1 =>
      match kalloc m.kmem with
      | (none, k) => do
          let (_, m) ← { m with kmem := k }.onTable thread fun k pt => uvmdealloc k pt a oldsz
          .ok (false, m)
      | (some mem, k) =>
          match p with
          | none => .error .fault
          | some parent => do
              let m := { m with kmem := k }
              match ← mapThreads m mem a oldsz newsz perm (m.infants parent ++ [parent]) with
              | (true, m) => threadedLoop m thread p (a + PGSIZE) oldsz newsz perm n
              | (false, m) => .ok (false, m)

/-- `uvmthreaded_alloc`, which is called with `PTE_W`. -/
def uvmthreadedAlloc (m : Machine) (thread : Slot) (oldsz newsz : Nat) : Except Stop (Nat × Machine) :=
  if newsz < oldsz then .ok (oldsz, m)
  else do
    let a := pgRoundUp oldsz
    let (ok, m) ← threadedLoop m thread (m.proc thread).parent a a newsz ⟨true, false, true⟩ (pagesBelow a newsz)
    .ok (if ok then newsz else 0, m)

/-- `uvmunmap` on the table of `s`; a null table is not read if no page is to be unmapped. -/
def unmapThread (m : Machine) (s : Slot) (va npages : Nat) (doFree : Bool) : Except Stop Machine :=
  if npages = 0 then .ok m
  else do
    let (_, m) ← m.onTable s fun k pt => do
      let (k, pt) ← uvmunmap k pt va npages doFree
      .ok ((), k, pt)
    .ok m

/-- The loop of `uvmthreaded_dealloc` over the threads. -/
def unmapThreads (m : Machine) (newsz npages : Nat) : List Slot → Except Stop Machine
  | [] => .ok m
  | s :: rest => do
      let m ← unmapThread m s (pgRoundUp newsz) npages false
      unmapThreads (m.setSz s newsz) newsz npages rest

def uvmthreadedDealloc (m : Machine) (thread : Slot) (oldsz newsz : Nat) : Except Stop (Nat × Machine) :=
  if oldsz ≤ newsz then .ok (oldsz, m)
  else
    match (m.proc thread).parent with
    | none => .error .fault
    | some parent => do
        let npages := (pgRoundUp oldsz - pgRoundUp newsz) / PGSIZE
        let m ← unmapThreads m newsz npages (m.infants parent)
        let m ← unmapThread m parent (pgRoundUp newsz) npages true
        .ok (newsz, m.setSz parent newsz)

/-- The size that `growproc` computes, as a `uint64`. -/
def grownSize (sz : Nat) (n : Int) : Nat := ((sz + n) % 2 ^ 64).toNat

/-- The call that `growproc` makes to grow. -/
def growAlloc (m : Machine) (s : Slot) (newsz : Nat) : Except Stop (Nat × Machine) :=
  let sz := (m.proc s).sz
  if (m.proc s).isThread then uvmthreadedAlloc m s sz newsz
  else m.onTable s fun k pt => uvmalloc k pt sz newsz true false

def growDealloc (m : Machine) (s : Slot) (newsz : Nat) : Except Stop (Nat × Machine) :=
  let sz := (m.proc s).sz
  if (m.proc s).isThread then uvmthreadedDealloc m s sz newsz
  else m.onTable s fun k pt => uvmdealloc k pt sz newsz

def growproc (m : Machine) (s : Slot) (n : Int) : Except Stop (Int × Machine) :=
  let newsz := grownSize (m.proc s).sz n
  if 0 < n then do
    let (sz, m) ← growAlloc m s newsz
    if sz = 0 then .ok (-1, m) else .ok (0, m.setSz s sz)
  else if n < 0 then do
    let (sz, m) ← growDealloc m s newsz
    .ok (0, m.setSz s sz)
  else .ok (0, m)

/-! ## Creating -/

def fork (m : Machine) (s : Slot) : Except Stop (Int × Machine) := do
  match ← allocproc m with
  | (none, m) => .ok (-1, m)
  | (some np, m) =>
      match (m.proc s).pagetable with
      | none => .error .fault
      | some old =>
          match ← m.onTable np fun k new => uvmcopy k old new (m.proc s).sz with
          | (false, m) => .ok (-1, ← freeproc m np)
          | (true, m) =>
              if (m.proc s).cwd then
                .ok ((m.proc np).pid, m.setProc np { m.proc np with
                  sz := (m.proc s).sz, cwd := true, parent := some s, state := .runnable, isThread := false })
              else .error .fault

/-- The first free entry of `infant_threads`, or the first entry if none is free. -/
def threadIdx (infants : Fin MAX_THREADS → Option Slot) : Fin MAX_THREADS :=
  ((List.finRange MAX_THREADS).find? fun i => infants i = none).getD ⟨0, by decide⟩

def setInfant (m : Machine) (p : Slot) (i : Fin MAX_THREADS) (np : Slot) : Machine :=
  m.setProc p { m.proc p with infantThreads := Function.update (m.proc p).infantThreads i (some np) }

/-- The process whose thread `create_thread` makes: for a thread the parent of its parent. -/
def threadParent (m : Machine) (s : Slot) : Except Stop (Option Slot) :=
  if (m.proc s).isThread then
    match (m.proc s).parent with
    | none => .error .fault
    | some q => .ok (m.proc q).parent
  else .ok (some s)

/-- `create_thread` called by `s`, with its return value. The index is the first free one of the caller. -/
def createThread (m : Machine) (s : Slot) : Except Stop (Int × Machine) := do
  let idx := threadIdx (m.proc s).infantThreads
  match ← allocproc m with
  | (none, m) => .ok (-1, m)
  | (some np, m) =>
      match (m.proc s).pagetable with
      | none => .error .fault
      | some old =>
          match ← m.onTable np fun k new => uvmshare k old new (m.proc s).sz with
          | (false, m) => .ok (-1, ← freeproc m np)
          | (true, m) =>
              if (m.proc s).cwd then
                match ← threadParent m s with
                | none => .error .fault
                | some p =>
                    let m := m.setProc np { m.proc np with
                      sz := (m.proc s).sz, cwd := true, parent := some p, isThread := true, state := .runnable }
                    .ok ((m.proc np).pid, setInfant m p idx np)
              else .error .fault

/-! ## Ending -/

def iputCwd (m : Machine) (s : Slot) : Except Stop Machine :=
  if (m.proc s).cwd then .ok (m.setProc s { m.proc s with cwd := false }) else .error .fault

def reparent (m : Machine) (p : Slot) : Machine :=
  { m with proc := fun s =>
      if (m.proc s).parent = some p then { m.proc s with parent := some m.initproc } else m.proc s }

def threadExit (m : Machine) (s : Slot) (status : Int) : Except Stop Machine :=
  if s = m.initproc then .error (.panic "init exiting")
  else do
    let m ← iputCwd m s
    let m := reparent m s
    .ok (m.setProc s { m.proc s with xstate := status, state := .zombie })

/-- What `exit` of a thread does with each thread of its parent. -/
def exitInfants (m : Machine) (status : Int) : List Slot → Except Stop Machine
  | [] => .ok m
  | s :: rest => do
      let m ← iputCwd m s
      exitInfants (m.setProc s { m.proc s with xstate := status, state := .zombie }) status rest

/-- `exit` called by `s`: for a thread the threads of its parent end first. The rest is the same as in
`thread_exit`. -/
def exit (m : Machine) (s : Slot) (status : Int) : Except Stop Machine :=
  if (m.proc s).isThread then
    match (m.proc s).parent with
    | none => .error .fault
    | some p => do threadExit (← exitInfants m status (m.infants p)) s status
  else threadExit m s status

/-- `wait` called by `s`, with its return value; `none` while it sleeps. -/
def wait (m : Machine) (s : Slot) (addr : Nat) : Except Stop (Option Int × Machine) :=
  match (List.finRange NPROC).find? fun c => (m.proc c).parent = some s ∧ (m.proc c).state = .zombie with
  | some c =>
      match (m.proc s).pagetable with
      | none => .error .fault
      | some pt =>
          if addr ≠ 0 ∧ copyout pt addr 4 = false then .ok (some (-1), m)
          else do
            let m' ← freeproc m c
            .ok (some (m.proc c).pid, m')
  | none =>
      if (∀ c, (m.proc c).parent ≠ some s) ∨ (m.proc s).killed then .ok (some (-1), m) else .ok (none, m)

end Xv6Net.Procs
