import Xv6Net.Lib.Logged
import Xv6Net.Sys.File

/-!
# `exit` with a log of what it gives up

The calls of `fileclose` and `iput` that `exit` and `thread_exit` make are logged. What `fileclose` does with the file is
left out here; `iput` of a null pointer stops the kernel.
-/

namespace Xv6Net.Sys

open Kernel Procs Lib

inductive Release where
  | fileclose (p : Slot) (fd : Fin NOFILE) (f : Fin NFILE)
  -- `false` stands for a null pointer
  | iput (p : Slot) (cwd : Bool)
deriving DecidableEq

/-- The process table with the descriptors. -/
structure Tasks where
  machine : Machine
  ofile : Slot → Fin NOFILE → Option (Fin NFILE)

def Tasks.setFd (t : Tasks) (p : Slot) (fd : Fin NOFILE) (f : Option (Fin NFILE)) : Tasks :=
  { t with ofile := Function.update t.ofile p (Function.update (t.ofile p) fd f) }

def Tasks.setZombie (t : Tasks) (p : Slot) (status : Int) : Tasks :=
  { t with machine := t.machine.setProc p { t.machine.proc p with xstate := status, state := .zombie } }

def closeFd (p : Slot) (t : Tasks) (fd : Fin NOFILE) : Logged Release Tasks :=
  match t.ofile p fd with
  | none => pure t
  | some f => .use (.fileclose p fd f) (t.setFd p fd none)

/-- The files of `p` are closed, and its directory is put. -/
def giveUp (t : Tasks) (p : Slot) : Logged Release (Except Stop Tasks) := do
  let t ← (List.finRange NOFILE).foldlM (closeFd p) t
  .use (.iput p (t.machine.proc p).cwd) (do .ok { t with machine := ← iputCwd t.machine p })

/-- The loop of `exit` over the threads of the parent. -/
def exitInfantsLogged (t : Tasks) (status : Int) : List Slot → Logged Release (Except Stop Tasks)
  | [] => pure (.ok t)
  | p :: rest => (giveUp t p).andThen fun t => exitInfantsLogged (t.setZombie p status) status rest

/-- `thread_exit`, and `exit` behind that loop. -/
def threadExitLogged (t : Tasks) (p : Slot) (status : Int) : Logged Release (Except Stop Tasks) :=
  if p = t.machine.initproc then pure (.error (.panic "init exiting"))
  else (giveUp t p).andThen fun t => pure (.ok ({ t with machine := reparent t.machine p }.setZombie p status))

def exitLogged (t : Tasks) (p : Slot) (status : Int) : Logged Release (Except Stop Tasks) :=
  if (t.machine.proc p).isThread then
    match (t.machine.proc p).parent with
    | none => pure (.error .fault)
    | some q =>
        (exitInfantsLogged t status (t.machine.infants q)).andThen fun t => threadExitLogged t p status
  else threadExitLogged t p status

/-! ## Releasing once -/

/-- The threads in the table of `q`, and `p`. -/
def Tasks.group (t : Tasks) (q p : Slot) : List Slot := t.machine.infants q ++ [p]

/-- Every member of the group has put the directory that it had and closed its open files once, and has ended. -/
structure ReleasedOnce (t : Tasks) (group : List Slot) (status : Int) (x : Logged Release (Except Stop Tasks)) : Prop where
  directories : ∀ p ∈ group, (t.machine.proc p).cwd = true → x.log.count (.iput p true) = 1
  not_null : ∀ p, .iput p false ∉ x.log
  files : ∀ p ∈ group, ∀ fd, ∀ f ∈ t.ofile p fd, x.log.count (.fileclose p fd f) = 1
  ended : ∃ t', x.val = .ok t' ∧
    ∀ p ∈ group, (t'.machine.proc p).state = .zombie ∧ (t'.machine.proc p).xstate = status

end Xv6Net.Sys
