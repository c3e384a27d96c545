import Xv6Net.Proc.Proc

/-!
# Replacing the program of a process (`kernel/exec.c`)

Of the file it is kept what `exec` decides on: which reads succeed, and the fields of the program headers. Of an
argument string it is kept how long it is.
-/

namespace Xv6Net.Procs

open Kernel Vm

def MAXARG : Nat := 32

/-- `struct proghdr`, with whether it could be read, and how many pages of the segment can be. -/
structure ProgHdr where
  readOk : Bool
  load : Bool
  flags : Nat
  vaddr : Nat
  filesz : Nat
  memsz : Nat
  readable : Nat

/-- A file: whether it starts with an ELF header, and the program headers. -/
structure Elf where
  headerOk : Bool
  phdrs : List ProgHdr

/-- The loop of `loadseg` from page `i` on; `false` stands for -1. -/
def loadsegLoop (pt : PageTable) (va readable i : Nat) : Nat → Except Stop Bool
  | 0 => .ok true
  | n + 1 =>
      if walkaddr pt (va + i * PGSIZE) = 0 then .error (.panic "loadseg: address should exist")
      else if readable ≤ i then .ok false
      else loadsegLoop pt va readable (i + 1) n

def loadseg (pt : PageTable) (va readable sz : Nat) : Except Stop Bool :=
  loadsegLoop pt va readable 0 (pagesBelow 0 (sz % 2 ^ 32))

/-- The loop of `exec` over the program headers, with the size reached; `false` stands for the jumps to `bad`. -/
def loadProgram (k : Kmem) (pt : PageTable) (sz : Nat) : List ProgHdr → Except Stop (Bool × Nat × Kmem × PageTable)
  | [] => .ok (true, sz, k, pt)
  | ph :: rest =>
      if ph.readOk = false then .ok (false, sz, k, pt)
      else if ph.load = false then loadProgram k pt sz rest
      else if ph.memsz < ph.filesz then .ok (false, sz, k, pt)
      else if (ph.vaddr + ph.memsz) % 2 ^ 64 < ph.vaddr then .ok (false, sz, k, pt)
      else if ph.vaddr % PGSIZE ≠ 0 then .ok (false, sz, k, pt)
      else do
        let (sz1, k, pt) ← uvmalloc k pt sz ((ph.vaddr + ph.memsz) % 2 ^ 64) (ph.flags.testBit 1) (ph.flags.testBit 0)
        if sz1 = 0 then .ok (false, sz, k, pt)
        else if ← loadseg pt ph.vaddr ph.readable ph.filesz then loadProgram k pt sz1 rest
        else .ok (false, sz1, k, pt)

/-- The loop that pushes the argument strings, with the stack pointer reached; `none` stands for the jumps to
`bad`. -/
def pushArgs (pt : PageTable) (stackbase : Nat) (sp argc : Nat) : List Nat → Option Nat
  | [] => some sp
  | len :: rest =>
      let sp := sp - (len + 1)
      let sp := sp - sp % 16
      if MAXARG ≤ argc ∨ sp < stackbase ∨ copyout pt sp (len + 1) = false then none
      else pushArgs pt stackbase sp (argc + 1) rest

/-- The stack of the new program: the strings, then the pointers to them. -/
def pushStack (pt : PageTable) (sz : Nat) (argv : List Nat) : Bool :=
  match pushArgs pt (sz - PGSIZE) sz 0 argv with
  | none => false
  | some sp =>
      let sp := sp - (argv.length + 1) * 8
      let sp := sp - sp % 16
      sz - PGSIZE ≤ sp ∧ copyout pt sp ((argv.length + 1) * 8)

/-- The new image of a process: its table and its size, and whether `exec` got there without a jump to `bad`. -/
def buildImage (k : Kmem) (pt : PageTable) (phdrs : List ProgHdr) (argv : List Nat) :
    Except Stop (Bool × Nat × Kmem × PageTable) := do
  match ← loadProgram k pt 0 phdrs with
  | (false, sz, k, pt) => .ok (false, sz, k, pt)
  | (true, sz, k, pt) =>
      let sz := pgRoundUp sz
      match ← uvmalloc k pt sz (sz + 2 * PGSIZE) true false with
      | (0, k, pt) => .ok (false, sz, k, pt)
      | (sz, k, pt) =>
          let pt ← uvmclear k pt (sz - 2 * PGSIZE)
          .ok (pushStack pt sz argv, sz, k, pt)

def exec (m : Machine) (s : Slot) (file : Option Elf) (argv : List Nat) : Except Stop (Int × Machine) :=
  match file with
  | none => .ok (-1, m)
  | some elf =>
      if elf.headerOk = false then .ok (-1, m)
      else
        match (m.proc s).trapframe, (m.proc s).pagetable with
        | some tf, some old => do
            match ← procPagetable m.kmem m.trampoline tf with
            | (none, k) => .ok (-1, { m with kmem := k })
            | (some pt, k) =>
                match ← buildImage k pt elf.phdrs argv with
                | (false, sz, k, pt) =>
                    let k ← procFreepagetable k pt sz
                    .ok (-1, { m with kmem := k })
                | (true, sz, k, pt) =>
                    let k ← procFreepagetable k old (m.proc s).sz
                    .ok (argv.length, { m with kmem := k }.setProc s { m.proc s with
                      pagetable := some pt, sz := sz })
        | _, _ => .error .fault

end Xv6Net.Procs
