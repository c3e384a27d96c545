import Xv6Net.Net.Stack
import Xv6Net.Proc.Proc

/-!
# Open files (`kernel/file.c`, `kernel/pipe.c` and the calls of `kernel/sysfile.c` on descriptors)

An entry of the file table is named by its place and a null pointer to one is `none`; pipes and sockets are named by
their addresses. Of the file system there is the outcome of each use of it, as an argument. A call that sleeps
returns `none` in the place of its value.
-/

namespace Xv6Net.Sys

open Kernel Net Procs

def NOFILE : Nat := 16
def NFILE : Nat := 100
def NDEV : Nat := 10
def PIPESIZE : Nat := 512

def O_RDONLY : UInt32 := 0x000
def O_WRONLY : UInt32 := 0x001
def O_RDWR : UInt32 := 0x002
def O_CREATE : UInt32 := 0x200

inductive FileType where
  | none
  | pipe
  | inode
  | device
  | socket
deriving DecidableEq, Repr

structure File where
  type : FileType
  ref : Nat
  readable : Bool
  writable : Bool
  pipe : Nat
  ip : Nat
  sock : Nat
  off : UInt32
  major : Int
deriving DecidableEq

def File.zero : File := ⟨.none, 0, false, false, 0, 0, 0, 0, 0⟩

structure Pipe where
  data : Nat → UInt8
  nread : UInt32
  nwrite : UInt32
  readopen : Bool
  writeopen : Bool

/-- `udp_ops` and `tcp_ops`. -/
inductive SockOps where
  | udp
  | tcp
deriving DecidableEq, Repr

/-- The fields of a socket that the code for packets does not use. -/
structure SockRest where
  fd : Int
  ops : Option SockOps
  pending : Bool
deriving DecidableEq

structure SockList where
  socks : Nat → Option Nat
  size : Int

/-- The file table and the descriptors of all processes. -/
structure Files where
  ftable : Fin NFILE → File
  ofile : Slot → Fin NOFILE → Option (Fin NFILE)

/-- What the system calls on descriptors and sockets read and write. -/
structure State extends Files where
  host : Host
  used : Slot → Bool
  pipes : Nat → Pipe
  -- the pages that hold a socket now; the other fields of a socket are in `host.socks`
  rest : Nat → Option SockRest
  sockList : SockList
  tcpSockList : SockList
  udpSockList : SockList

/-- The descriptors of all processes as one table of pointers. -/
def Files.slots (t : Files) : Slot × Fin NOFILE → Option (Fin NFILE) := fun q => t.ofile q.1 q.2

def Files.setFile (t : Files) (f : Fin NFILE) (x : File) : Files := { t with ftable := Function.update t.ftable f x }

def Files.setFd (t : Files) (p : Slot) (fd : Fin NOFILE) (f : Option (Fin NFILE)) : Files :=
  { t with ofile := Function.update t.ofile p (Function.update (t.ofile p) fd f) }

namespace State

def setFile (s : State) (f : Fin NFILE) (x : File) : State := { s with toFiles := s.toFiles.setFile f x }

def setFd (s : State) (p : Slot) (fd : Fin NOFILE) (f : Option (Fin NFILE)) : State :=
  { s with toFiles := s.toFiles.setFd p fd f }

def setKmem (s : State) (k : Kmem) : State := { s with host := { s.host with kmem := k } }

def setPipe (s : State) (pi : Nat) (x : Pipe) : State := { s with pipes := Function.update s.pipes pi x }

/-- `sock->ops`, which is null where `initsocket` has failed. A page that holds no socket any more may hold anything. -/
def ops (s : State) (sock : Nat) : Except Stop SockOps :=
  match s.rest sock with
  | none => .error .overrun
  | some x => x.ops.elim (.error .fault) .ok

/-- The entry that `filealloc` takes. -/
def firstFree (s : State) : Option (Fin NFILE) := (List.finRange NFILE).find? fun f => (s.ftable f).ref = 0

/-- The descriptor that `fdalloc` takes. -/
def firstFd (s : State) (p : Slot) : Option (Fin NOFILE) := (List.finRange NOFILE).find? fun fd => s.ofile p fd = none

end State

/-! ## Pipes -/

/-- A pipe that has lost one of its ends. -/
def Pipe.endClosed (x : Pipe) (writable : Bool) : Pipe :=
  if writable then { x with writeopen := false } else { x with readopen := false }

def pipeclose (s : State) (pi : Nat) (writable : Bool) : Except Stop State :=
  let x := (s.pipes pi).endClosed writable
  let s := s.setPipe pi x
  if x.readopen = false ∧ x.writeopen = false then do .ok (s.setKmem (← kfree s.host.kmem pi))
  else .ok s

/-- A call that waits in a loop has returned a value, or sleeps after `i` bytes. -/
inductive Paused where
  | returns (r : Int)
  | sleeps (i : Nat)

/-- The loop of `pipewrite` from byte `i` on, with `left` bytes to go. -/
def pipewriteFrom (killed : Nat → Bool) (copyin : Nat → Option UInt8) (i : Nat) : (left : Nat) → Pipe → Paused × Pipe
  | 0, pi => (.returns i, pi)
  | left + 1, pi =>
      if pi.readopen = false ∨ killed i then (.returns (-1), pi)
      else if pi.nwrite = pi.nread + .ofNat PIPESIZE then (.sleeps i, pi)
      else
        match copyin i with
        | none => (.returns i, pi)
        | some ch =>
            pipewriteFrom killed copyin (i + 1) left
              { pi with data := Function.update pi.data (pi.nwrite.toNat % PIPESIZE) ch, nwrite := pi.nwrite + 1 }

def pipewrite (pi : Pipe) (n : Int) (killed : Nat → Bool) (copyin : Nat → Option UInt8) : Paused × Pipe :=
  pipewriteFrom killed copyin 0 n.toNat pi

/-- The value that `piperead` returns, the bytes it has taken and the pipe after it. -/
structure PipeRead where
  ret : Int
  taken : List UInt8
  pipe : Pipe

/-- The loop of `piperead`. A byte that cannot be copied to the user is taken all the same. -/
def pipereadFrom (copyout : Nat → Bool) (i : Nat) : (left : Nat) → Pipe → PipeRead
  | 0, pi => ⟨i, [], pi⟩
  | left + 1, pi =>
      if pi.nread = pi.nwrite then ⟨i, [], pi⟩
      else
        let ch := pi.data (pi.nread.toNat % PIPESIZE)
        let pi := { pi with nread := pi.nread + 1 }
        if copyout i then
          let r := pipereadFrom copyout (i + 1) left pi
          { r with taken := ch :: r.taken }
        else ⟨i, [ch], pi⟩

/-- `piperead`; `none` while it sleeps on an empty pipe. -/
def piperead (pi : Pipe) (n : Int) (killed : Bool) (copyout : Nat → Bool) : Option PipeRead :=
  if pi.nread = pi.nwrite ∧ pi.writeopen then
    if killed then some ⟨-1, [], pi⟩ else none
  else some (pipereadFrom copyout 0 n.toNat pi)

/-! ## Files -/

def filealloc (s : State) : Option (Fin NFILE × State) :=
  s.firstFree.map fun f => (f, s.setFile f { s.ftable f with ref := 1 })

def filedup (s : State) (f : Fin NFILE) : Except Stop State :=
  if (s.ftable f).ref < 1 then .error (.panic "filedup")
  else .ok (s.setFile f { s.ftable f with ref := (s.ftable f).ref + 1 })

/-- An entry that has lost one reference. The last one leaves all fields but two as they are. -/
def File.released (x : File) : File :=
  if 1 < x.ref then { x with ref := x.ref - 1 } else { x with ref := 0, type := .none }

/-- `fileclose`. The functions behind the `close` of a socket do nothing. -/
def fileclose (s : State) (f : Fin NFILE) : Except Stop State :=
  let ff := s.ftable f
  if ff.ref < 1 then .error (.panic "fileclose")
  else
    let s := s.setFile f ff.released
    if 1 < ff.ref then .ok s
    else
      match ff.type with
      | .pipe => pipeclose s ff.pipe ff.writable
      | .socket => (s.ops ff.sock).map fun _ => s
      | .inode | .device | .none => .ok s

/-- What a read meets outside of the file: copies to the user by byte, the value of the device's function, if there
is one, and that of `readi`. -/
structure ReadEnv where
  killed : Bool
  copyout : Nat → Bool
  devRead : Option Int
  readi : Int

def fileread (s : State) (f : Fin NFILE) (n : Int) (env : ReadEnv) : Except Stop (Option Int × State) :=
  let x := s.ftable f
  if x.readable = false then .ok (some (-1), s)
  else
    match x.type with
    | .pipe =>
        match piperead (s.pipes x.pipe) n env.killed env.copyout with
        | none => .ok (none, s)
        | some r => .ok (some r.ret, s.setPipe x.pipe r.pipe)
    | .device =>
        if x.major < 0 ∨ NDEV ≤ x.major then .ok (some (-1), s) else .ok (some (env.devRead.getD (-1)), s)
    | .inode =>
        .ok (some env.readi, if 0 < env.readi then s.setFile f { x with off := x.off + .ofInt env.readi } else s)
    | .socket | .none => .error (.panic "fileread")

/-- What a write meets outside of the file. `writei i n1` is the value of `writei` for the `n1` bytes from `i` on. -/
structure WriteEnv where
  killed : Nat → Bool
  copyin : Nat → Option UInt8
  devWrite : Option Int
  writei : Nat → Nat → Int

/-- `max` in `filewrite`: (MAXOPBLOCKS - 1 - 1 - 2) / 2 blocks. -/
def maxWrite : Nat := (10 - 1 - 1 - 2) / 2 * 1024

/-- The loop of `filewrite` on an inode, from byte `i` on: how far it comes and the offset after it. -/
def filewriteFrom (writei : Nat → Nat → Int) (n : Nat) : (fuel i : Nat) → UInt32 → Nat × UInt32
  | 0, i, off => (i, off)
  | fuel + 1, i, off =>
      if i < n then
        let n1 := min (n - i) maxWrite
        let r := writei i n1
        let off := if 0 < r then off + .ofInt r else off
        if r ≠ n1 then (i, off) else filewriteFrom writei n fuel (i + n1) off
      else (i, off)

/-- `filewrite`. Every round of the loop writes at least one byte or is the last. -/
def filewrite (s : State) (f : Fin NFILE) (n : Int) (env : WriteEnv) : Except Stop (Option Int × State) :=
  let x := s.ftable f
  if x.writable = false then .ok (some (-1), s)
  else
    match x.type with
    | .pipe =>
        match pipewrite (s.pipes x.pipe) n env.killed env.copyin with
        | (.returns r, pi) => .ok (some r, s.setPipe x.pipe pi)
        | (.sleeps _, pi) => .ok (none, s.setPipe x.pipe pi)
    | .device =>
        if x.major < 0 ∨ NDEV ≤ x.major then .ok (some (-1), s) else .ok (some (env.devWrite.getD (-1)), s)
    | .inode =>
        let (i, off) := filewriteFrom env.writei n.toNat n.toNat 0 x.off
        .ok (some (if (i : Int) = n then n else -1), s.setFile f { x with off := off })
    | .socket | .none => .error (.panic "filewrite")

/-! ## System calls on descriptors -/

/-- A descriptor as an index of `ofile`. -/
def fdIndex (fd : Int) : Option (Fin NOFILE) :=
  if h : 0 ≤ fd ∧ fd < NOFILE then some ⟨fd.toNat, by omega⟩ else none

def argfd (s : State) (p : Slot) (fd : Int) : Option (Fin NOFILE × Fin NFILE) :=
  (fdIndex fd).bind fun i => (s.ofile p i).map fun f => (i, f)

def fdalloc (s : State) (p : Slot) (f : Fin NFILE) : Option (Fin NOFILE × State) :=
  (s.firstFd p).map fun fd => (fd, s.setFd p fd (some f))

def sysDup (s : State) (p : Slot) (fd : Int) : Except Stop (Option Int × State) :=
  match argfd s p fd with
  | none => .ok (some (-1), s)
  | some (_, f) =>
      match fdalloc s p f with
      | none => .ok (some (-1), s)
      | some (fd, s) => do .ok (some fd.val, ← filedup s f)

def sysRead (s : State) (p : Slot) (fd n : Int) (env : ReadEnv) : Except Stop (Option Int × State) :=
  match argfd s p fd with
  | none => .ok (some (-1), s)
  | some (_, f) => fileread s f n env

def sysWrite (s : State) (p : Slot) (fd n : Int) (env : WriteEnv) : Except Stop (Option Int × State) :=
  match argfd s p fd with
  | none => .ok (some (-1), s)
  | some (_, f) => filewrite s f n env

def sysClose (s : State) (p : Slot) (fd : Int) : Except Stop (Option Int × State) :=
  match argfd s p fd with
  | none => .ok (some (-1), s)
  | some (fd, f) => do .ok (some 0, ← fileclose (s.setFd p fd none) f)

inductive InodeType where
  | dir
  | file
  | device
deriving DecidableEq, Repr

structure Inode where
  inum : Nat
  type : InodeType
  major : Int

/-- What `sys_open` stores in the entry it has allocated. -/
def File.opened (x : File) (ip : Inode) (omode : UInt32) : File :=
  let x := if ip.type = .device then { x with type := .device, major := ip.major }
    else { x with type := .inode, off := 0 }
  { x with
    ip := ip.inum
    readable := omode &&& O_WRONLY = 0
    writable := omode &&& O_WRONLY ≠ 0 ∨ omode &&& O_RDWR ≠ 0 }

/-- `sys_open`, with the inode that `create` or `namei` returns. -/
def sysOpen (s : State) (p : Slot) (lookup : Option Inode) (omode : UInt32) : Except Stop (Option Int × State) :=
  match lookup with
  | none => .ok (some (-1), s)
  | some ip =>
      if omode &&& O_CREATE = 0 ∧ ip.type = .dir ∧ omode ≠ O_RDONLY then .ok (some (-1), s)
      else if ip.type = .device ∧ (ip.major < 0 ∨ NDEV ≤ ip.major) then .ok (some (-1), s)
      else
        match filealloc s with
        | none => .ok (some (-1), s)
        | some (f, s) =>
            match fdalloc s p f with
            | none => do .ok (some (-1), ← fileclose s f)
            | some (fd, s) => .ok (some fd.val, s.setFile f ((s.ftable f).opened ip omode))

/-- The two files that the error paths of `pipealloc` and `sys_pipe` close. -/
def closeBoth (s : State) (f0 f1 : Fin NFILE) : Except Stop State := do fileclose (← fileclose s f0) f1

/-- An entry as one end of a pipe. -/
def File.pipeEnd (x : File) (pi : Nat) (writable : Bool) : File :=
  { x with type := .pipe, readable := !writable, writable := writable, pipe := pi }

def pipealloc (s : State) : Except Stop (Option (Fin NFILE × Fin NFILE) × State) :=
  match filealloc s with
  | none => .ok (none, s)
  | some (f0, s) =>
      match filealloc s with
      | none => do .ok (none, ← fileclose s f0)
      | some (f1, s) =>
          match kalloc s.host.kmem with
          | (none, k) => do .ok (none, ← closeBoth (s.setKmem k) f0 f1)
          | (some pi, k) =>
              let s := (s.setKmem k).setPipe pi
                { s.pipes pi with nread := 0, nwrite := 0, readopen := true, writeopen := true }
              let s := s.setFile f0 ((s.ftable f0).pipeEnd pi false)
              let s := s.setFile f1 ((s.ftable f1).pipeEnd pi true)
              .ok (some (f0, f1), s)

/-- `sys_pipe`; `mapped` says whether both descriptors can be copied to the user. -/
def sysPipe (s : State) (p : Slot) (mapped : Bool) : Except Stop (Option Int × State) := do
  match ← pipealloc s with
  | (none, s) => .ok (some (-1), s)
  | (some (rf, wf), s) =>
      match fdalloc s p rf with
      | none => .ok (some (-1), ← closeBoth s rf wf)
      | some (fd0, s) =>
          match fdalloc s p wf with
          | none => .ok (some (-1), ← closeBoth (s.setFd p fd0 none) rf wf)
          | some (fd1, s) =>
              if mapped then .ok (some 0, s)
              else .ok (some (-1), ← closeBoth ((s.setFd p fd0 none).setFd p fd1 none) rf wf)

/-! ## Descriptors of new and ending processes -/

/-- The loop of `fork` over the descriptors of `p`. -/
def dupFiles (s : State) (p np : Slot) : Except Stop State :=
  (List.finRange NOFILE).foldlM (fun s i =>
    match s.ofile p i with
    | none => .ok s
    | some f => do .ok ((← filedup s f).setFd np i (some f))) s

/-- The loop of `exit` over the descriptors of `p`. -/
def closeFiles (s : State) (p : Slot) : Except Stop State :=
  (List.finRange NOFILE).foldlM (fun s fd =>
    match s.ofile p fd with
    | none => .ok s
    | some f => do .ok ((← fileclose s f).setFd p fd none)) s

end Xv6Net.Sys
