import Xv6Net.Proc.Family
import Xv6Net.Sys.Socket

/-!
# Files and processes together

The calls that make, copy or drop descriptors, with the process table and the one allocator that both sides use. Calls
run one after another. An error says whether it comes from the code for files or from the code for processes and their
memory.
-/

namespace Xv6Net.Sys

open Kernel Net Procs Lib

structure World where
  sys : State
  proc : Slot → Proc
  nextpid : Nat
  initproc : Slot
  trampoline : Nat

inductive Halt where
  | file (e : Stop)
  | proc (e : Stop)

namespace World

def machine (w : World) : Machine := ⟨w.sys.host.kmem, w.proc, w.nextpid, w.initproc, w.trampoline⟩

def put (w : World) (m : Machine) : World := ⟨w.sys.setKmem m.kmem, m.proc, m.nextpid, m.initproc, m.trampoline⟩

/-- A call of the code for files. -/
def onFiles (w : World) (x : Except Stop (Option Int × State)) : Except Halt (Option Int × World) := do
  let (r, s) ← x.mapError .file
  .ok (r, { w with sys := s })

/-- `fork` and `create_thread`: the process is made first, then it gets the descriptors of its maker. -/
def spawn (w : World) (p : Slot) (make : Machine → Slot → Except Stop (Int × Machine)) :
    Except Halt (Option Int × World) := do
  let np := unusedSlot w.machine
  let (r, m) ← (make w.machine p).mapError .proc
  let w := w.put m
  match np with
  | none => .ok (some r, w)
  | some np =>
      if r = -1 then .ok (some r, w)
      else do
        let s ← (dupFiles w.sys p np).mapError .file
        .ok (some r, { w with sys := s })

/-- `exit` and `thread_exit`, which do not return: the files are closed first. -/
def leave (w : World) (p : Slot) (finish : Machine → Slot → Except Stop Machine) : Except Halt (Option Int × World) := do
  let s ← (closeFiles w.sys p).mapError .file
  let w := { w with sys := s }
  let m ← (finish w.machine p).mapError .proc
  .ok (none, w.put m)

end World

inductive WorldCall where
  | openFile (lookup : Option Inode) (omode : UInt32)
  | dup (fd : Int)
  | close (fd : Int)
  | pipe (mapped : Bool)
  | socket (family type protocol : Int)
  | fork
  | createThread
  | threadExit (status : Int)
  | exit (status : Int)
  | wait (addr : Nat)

def worldCall (w : World) (p : Slot) : WorldCall → Except Halt (Option Int × World)
  | .openFile lookup omode => w.onFiles (sysOpen w.sys p lookup omode)
  | .dup fd => w.onFiles (sysDup w.sys p fd)
  | .close fd => w.onFiles (sysClose w.sys p fd)
  | .pipe mapped => w.onFiles (sysPipe w.sys p mapped)
  | .socket family type protocol => w.onFiles (sysSocket w.sys p family type protocol)
  | .fork => w.spawn p Procs.fork
  | .createThread => w.spawn p Procs.createThread
  | .threadExit status => w.leave p fun m p => Procs.threadExit m p status
  | .exit status => w.leave p fun m p => Procs.exit m p status
  | .wait addr => do
      let (r, m) ← (Procs.wait w.machine p addr).mapError .proc
      .ok (r, w.put m)

/-- A process makes the call, and `exit` is not called by a thread. -/
def World.MayCall (w : World) (p : Slot) (c : WorldCall) : Prop :=
  (w.proc p).state.Live ∧ ∀ status, c = .exit status → (w.proc p).isThread = false

instance (w : World) (p : Slot) : ∀ c, Decidable (w.MayCall p c)
  | .exit status => decidable_of_iff ((w.proc p).state.Live ∧ (w.proc p).isThread = false) (by simp [World.MayCall])
  | .openFile .. | .dup _ | .close _ | .pipe _ | .socket .. | .fork | .createThread | .threadExit _ | .wait _ =>
      decidable_of_iff (w.proc p).state.Live (by simp [World.MayCall])

def worldStep (w : World) (a : Slot × WorldCall) : Option World :=
  if w.MayCall a.1 a.2 then (worldCall w a.1 a.2).toOption.map (·.2) else none

/-- No file is open. -/
def World.Fresh (w : World) : Prop := (∀ f, w.sys.ftable f = .zero) ∧ ∀ p i, w.sys.ofile p i = none

end Xv6Net.Sys
