import Xv6Net.Lib.Ring
import Xv6Net.Lib.Run
import Xv6Net.Sys.File

/-!
# One pipe and the calls on it

Calls of `pipewrite` and `piperead` hold the lock of the pipe, and others come in where they sleep or return. A call
that sleeps may wake up at any time. The logs say which bytes writers have stored and which ones readers have taken.
-/

namespace Xv6Net.Sys

open Lib

/-- The bytes that wait in the pipe, the oldest one first. -/
def Pipe.buffered (pi : Pipe) : List UInt8 := window pi.data PIPESIZE pi.nread.toNat (pi.nwrite - pi.nread).toNat

/-- `pi->data[pi->nwrite++ % PIPESIZE] = ch`. -/
def Pipe.store (pi : Pipe) (ch : UInt8) : Pipe :=
  { pi with data := Function.update pi.data (pi.nwrite.toNat % PIPESIZE) ch, nwrite := pi.nwrite + 1 }

/-- The bytes that the loop of `pipewrite` stores from byte `i` on. -/
def pipewritten (killed : Nat → Bool) (copyin : Nat → Option UInt8) (i : Nat) : (left : Nat) → Pipe → List UInt8
  | 0, _ => []
  | left + 1, pi =>
      if pi.readopen = false ∨ killed i then []
      else if pi.nwrite = pi.nread + .ofNat PIPESIZE then []
      else
        match copyin i with
        | none => []
        | some ch => ch :: pipewritten killed copyin (i + 1) left (pi.store ch)

/-- A call that sleeps: a writer with what it has done and what is left, and a reader, which has done nothing yet. -/
inductive PipeCall where
  | write (i left : Nat)
  | read (n : Int)

structure PipeSys where
  pipe : Pipe
  put : List UInt8
  taken : List UInt8
  asleep : Nat → Option PipeCall

/-- A new pipe, in a page with any bytes. -/
def PipeSys.start (data : Nat → UInt8) : PipeSys := ⟨⟨data, 0, 0, true, true⟩, [], [], fun _ => none⟩

/-- Call `c` is in the loop of `pipewrite`, up to where it sleeps or returns. -/
def PipeSys.runWrite (s : PipeSys) (c i left : Nat) (killed : Nat → Bool) (copyin : Nat → Option UInt8) : PipeSys :=
  match pipewriteFrom killed copyin i left s.pipe with
  | (r, pi) => {
      pipe := pi
      put := s.put ++ pipewritten killed copyin i left s.pipe
      taken := s.taken
      asleep := Function.update s.asleep c (match r with
        | .returns _ => none
        | .sleeps j => some (.write j (i + left - j))) }

/-- Call `c` is in `piperead`, up to where it sleeps or returns. -/
def PipeSys.runRead (s : PipeSys) (c : Nat) (n : Int) (killed : Bool) (copyout : Nat → Bool) : PipeSys :=
  match piperead s.pipe n killed copyout with
  | none => { s with asleep := Function.update s.asleep c (some (.read n)) }
  | some r =>
      { s with
        pipe := r.pipe
        taken := s.taken ++ r.taken
        asleep := Function.update s.asleep c none }

/-- What a call meets outside of the pipe, until it sleeps or returns. -/
structure PipeEnv where
  killed : Nat → Bool
  copyin : Nat → Option UInt8
  copyout : Nat → Bool

inductive PipeAct where
  | write (c : Nat) (n : Int) (env : PipeEnv)
  | read (c : Nat) (n : Int) (env : PipeEnv)
  | wake (c : Nat) (env : PipeEnv)
  | close (writable : Bool)

/-- One call up to where it sleeps or returns, or one end of the pipe is closed. Nothing follows once both ends are
closed, since the page of the pipe is free then. -/
def pipeStep (s : PipeSys) (a : PipeAct) : Option PipeSys :=
  if s.pipe.readopen = false ∧ s.pipe.writeopen = false then none
  else
    match a with
    | .write c n env =>
        if (s.asleep c).isSome then none else some (s.runWrite c 0 n.toNat env.killed env.copyin)
    | .read c n env => if (s.asleep c).isSome then none else some (s.runRead c n (env.killed 0) env.copyout)
    | .wake c env =>
        match s.asleep c with
        | none => none
        | some (.write i left) => some (s.runWrite c i left env.killed env.copyin)
        | some (.read n) => some (s.runRead c n (env.killed 0) env.copyout)
    | .close writable => some { s with pipe := s.pipe.endClosed writable }

/-- A read of at least one byte to a valid buffer returns 0 only from an empty pipe with no writer. -/
def ZeroIsEnd (pi : Pipe) : Prop :=
  ∀ n killed copyout r, piperead pi n killed copyout = some r → 0 < n → (∀ i, copyout i = true) → r.ret = 0 →
    pi.buffered = [] ∧ pi.writeopen = false

end Xv6Net.Sys
