import Mathlib.Logic.Function.Basic
import Xv6Net.Lib.Run
import Xv6Net.Proc.Proc

/-!
# Threads of a user program (`user/ithreads.c`)

Blocks of memory are numbered in the order in which `malloc` hands them out, from 1 on, and 0 is the null pointer. `malloc`
succeeds. The system calls are `create_thread`, whose result is given, and `join_thread`, which returns -1 unless its
argument is a thread of the process that was not joined yet.
-/

namespace Xv6Net.User

open Lib
open Kernel (PGSIZE)
open Procs (MAX_THREADS)

def INIT_MAX_STACKS : Nat := 8

/-- `sizeof(char*)`. -/
def PTR_SIZE : Nat := 8

/-- What is done to threads and to memory. -/
inductive Event where
  | created (threadId : Int) (stack : Nat)
  | joined (threadId : Int)
  | free (block : Nat)
  /-- A write to entry `index` of an array of `size` bytes. -/
  | store (index size : Nat)
  deriving DecidableEq, Repr

/-- The thread that an event makes. -/
def Event.createdId : Event → Option Int
  | .created threadId _ => some threadId
  | .joined _ | .free _ | .store _ _ => none

/-- The globals of the library, the memory that it uses, the threads of the process, and what was done so far, the latest
event first. -/
structure Ithreads where
  threadsDone : Nat
  numThreads : Nat
  maxStacks : Nat
  /-- `stacks`. -/
  stackArray : Nat
  entries : Nat → Nat → Nat
  size : Nat → Nat
  next : Nat
  threads : List Int
  log : List Event

namespace Ithreads

def start : Ithreads where
  threadsDone := 0
  numThreads := 0
  maxStacks := INIT_MAX_STACKS
  stackArray := 0
  entries := fun _ _ => 0
  size := fun _ => 0
  next := 1
  threads := []
  log := []

def record (g : Ithreads) (e : Event) : Ithreads := { g with log := e :: g.log }

def malloc (g : Ithreads) (size : Nat) : Nat × Ithreads :=
  (g.next, { g with size := Function.update g.size g.next size, next := g.next + 1 })

/-- `stacks[i] = p`. -/
def storeStack (g : Ithreads) (i p : Nat) : Ithreads :=
  { g with entries := Function.update g.entries g.stackArray (Function.update (g.entries g.stackArray) i p) }.record
    (.store i (g.size g.stackArray))

/-- The loop of `free_stacks`. -/
def freeEach (g : Ithreads) : List Nat → Ithreads
  | [] => g
  | i :: rest => (g.record (.free (g.entries g.stackArray i))).freeEach rest

def freeStacks (g : Ithreads) : Ithreads :=
  let g := g.freeEach (List.range g.numThreads)
  { g.record (.free g.stackArray) with stackArray := 0, numThreads := 0, maxStacks := INIT_MAX_STACKS, threadsDone := 0 }

def expandNumThreads (g : Ithreads) : Ithreads :=
  let g := { g with maxStacks := g.maxStacks * 2 }
  let (newStacks, g) := g.malloc (g.maxStacks * PTR_SIZE)
  let moved := fun i => if i < g.numThreads then g.entries g.stackArray i else g.entries newStacks i
  let g := { g with entries := Function.update g.entries newStacks moved }
  { g.record (.free g.stackArray) with stackArray := newStacks }

/-- The first statement of `ithread_create`. -/
def ensureStacks (g : Ithreads) : Ithreads :=
  if g.stackArray = 0 then
    let (stackArray, g) := g.malloc (g.maxStacks * PTR_SIZE)
    { g with stackArray := stackArray }
  else g

/-- The rest of `ithread_create` from the `malloc` of the stack on. -/
def startThread (g : Ithreads) (res : Int) : Ithreads :=
  let (stackPtr, g) := g.malloc PGSIZE
  let g := g.storeStack g.numThreads stackPtr
  if res ≠ -1 then
    { g.record (.created res stackPtr) with numThreads := g.numThreads + 1, threads := res :: g.threads }
  else (g.record (.free stackPtr)).storeStack g.numThreads 0

/-- `ithread_create`; `res` is what `create_thread` returns. -/
def ithreadCreate (g : Ithreads) (res : Int) : Int × Ithreads :=
  let g := g.ensureStacks
  if g.numThreads = g.maxStacks then
    if g.maxStacks = MAX_THREADS then (-1, g) else (res, g.expandNumThreads.startThread res)
  else (res, g.startThread res)

/-- `join_thread`. -/
def joinThread (g : Ithreads) (threadId : Int) : Int × Ithreads :=
  if threadId ∈ g.threads then
    (threadId, { g.record (.joined threadId) with threads := g.threads.erase threadId })
  else (-1, g)

/-- `ithread_join`, which does not look at the result of `join_thread`. -/
def ithreadJoin (g : Ithreads) (threadId : Int) : Ithreads :=
  let (_, g) := g.joinThread threadId
  let g := { g with threadsDone := g.threadsDone + 1 }
  if g.threadsDone = g.numThreads then g.freeStacks else g

end Ithreads

/-- A call of the program. -/
inductive ThreadCall where
  | create (res : Int)
  | join (threadId : Int)
  deriving DecidableEq, Repr

/-- One call after the other. The kernel gives every thread an id of its own. -/
def threadStep (g : Ithreads) : ThreadCall → Option Ithreads
  | .create res => if res = -1 ∨ ∀ e ∈ g.log, e.createdId ≠ some res then some (g.ithreadCreate res).2 else none
  | .join threadId => some (g.ithreadJoin threadId)

/-! ## What is asked of the library -/

/-- A stack is freed after its thread was joined. -/
def StacksOutlive (log : List Event) : Prop :=
  ∀ block before threadId, .free block :: before <:+ log → .created threadId block ∈ log → .joined threadId ∈ before

/-- No block is freed twice. -/
def FreesOnce (log : List Event) : Prop := ∀ block, log.count (.free block) ≤ 1

/-- There is room for the entry that is written. -/
def StoresFit (log : List Event) : Prop := ∀ index size, .store index size ∈ log → (index + 1) * PTR_SIZE ≤ size

/-- A thread that is joined is one of the process, and was not joined before. -/
def JoinsOwn (g : Ithreads) : ThreadCall → Prop
  | .create _ => True
  | .join threadId => threadId ∈ g.threads

instance (g : Ithreads) : ∀ c, Decidable (JoinsOwn g c)
  | .create _ => isTrue trivial
  | .join threadId => inferInstanceAs (Decidable (threadId ∈ g.threads))

end Xv6Net.User
