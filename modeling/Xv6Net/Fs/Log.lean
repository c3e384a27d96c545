import Mathlib.Data.Finset.Card
import Xv6Net.Fs.Disk
import Xv6Net.Kernel.Kalloc
import Xv6Net.Lib.Run

/-!
# The log (`log.c`)

`log.lh` is the list of the block numbers in it, so that `log.lh.n` is its length. A call that would sleep has no
result.
-/

namespace Xv6Net.Fs

open Kernel Lib

def MAXOPBLOCKS : Nat := 10

def LOGSIZE : Nat := MAXOPBLOCKS * 3

structure Log where
  start : UInt32
  size : Int
  outstanding : Int
  committing : Bool
  lh : List UInt32
deriving DecidableEq

/-- `log.start+tail+1`. -/
def Log.slot (log : Log) (tail : Nat) : UInt32 := log.start + .ofNat tail + 1

/-! ## Writing the log and installing it -/

def installTrans (log : Log) : (tail : Nat) → (blocks : List UInt32) → Dev → Dev
  | _, [], d => d
  | tail, b :: bs, d =>
      let lbuf := d.bread (log.slot tail)
      installTrans log (tail + 1) bs (d.bwrite b lbuf)

/-- The loop of `write_head` from entry `i` on. -/
def fillHead (hb : Block) : (i : Nat) → List UInt32 → Block
  | _, [] => hb
  | i, b :: bs => fillHead (hb.setWord (1 + i) b) (i + 1) bs

def writeHead (log : Log) (d : Dev) : Dev :=
  let buf := d.bread log.start
  d.bwrite log.start (fillHead (buf.setWord 0 (.ofNat log.lh.length)) 0 log.lh)

/-- `read_head`. It writes outside of `log.lh` if the header has more than `LOGSIZE` entries. -/
def readHead (log : Log) (d : Dev) : Except Stop Log :=
  let buf := d.bread log.start
  let n := (buf.word 0).toInt32.toInt.toNat
  if n ≤ LOGSIZE then .ok { log with lh := (List.range n).map fun i => buf.word (1 + i) } else .error .overrun

def recoverFromLog (log : Log) (d : Dev) : Except Stop (Log × Dev) := do
  let log ← readHead log d
  let d := installTrans log 0 log.lh d
  let log := { log with lh := [] }
  return (log, writeHead log d)

def writeLog (log : Log) : (tail : Nat) → (blocks : List UInt32) → Dev → Dev
  | _, [], d => d
  | tail, b :: bs, d =>
      let fr := d.bread b
      writeLog log (tail + 1) bs (d.bwrite (log.slot tail) fr)

def commit (log : Log) (d : Dev) : Log × Dev :=
  if 0 < log.lh.length then
    let d := writeLog log 0 log.lh d
    let d := writeHead log d
    let d := installTrans log 0 log.lh d
    let log := { log with lh := [] }
    (log, writeHead log d)
  else (log, d)

/-! ## Crashes -/

/-- `initlog`, at the start of the machine. -/
def initlog (start : UInt32) (size : Int) (disk : Disk) : Except Stop (Log × Dev) :=
  recoverFromLog ⟨start, size, 0, false, []⟩ (.boot disk)

/-- What the disk holds after starts that crashed after so many writes as the list says, one after the other. -/
def initlogs (start : UInt32) (size : Int) : Disk → List Nat → Except Stop Disk
  | disk, [] => .ok disk
  | disk, k :: ks => do
      let (_, d) ← initlog start size disk
      initlogs start size (d.crash k) ks

/-- A block that is not in the log area. -/
def Log.Outside (log : Log) (b : UInt32) : Prop := ∀ i : Nat, i < log.size → b ≠ log.start + .ofNat i

/-- The header on the disk has no entry. -/
def Log.HeadEmpty (log : Log) (disk : Disk) : Prop := (disk log.start).word 0 = 0

instance (log : Log) (disk : Disk) : Decidable (log.HeadEmpty disk) :=
  inferInstanceAs (Decidable (_ = _))

/-- Every block that is not in the log area is as `f` says. -/
def Log.Home (log : Log) (disk f : Disk) : Prop := ∀ b, log.Outside b → disk b = f b

/-- A transaction that fits in the log and changes no block of the log area. -/
structure Log.Fits (log : Log) : Prop where
  nodup : log.lh.Nodup
  logsize : log.lh.length ≤ LOGSIZE
  size : log.lh.length < log.size
  out : ∀ b ∈ log.lh, log.Outside b

/-! ## Operations -/

/-- One round of the loop of `begin_op`. -/
def beginOp (log : Log) : Option Log :=
  if log.committing then none
  else if log.lh.length + (log.outstanding + 1) * MAXOPBLOCKS > LOGSIZE then none
  else some { log with outstanding := log.outstanding + 1 }

/-- `end_op` up to where it calls `commit`, with `do_commit`. -/
def endOp (log : Log) : Except Stop (Bool × Log) :=
  let log := { log with outstanding := log.outstanding - 1 }
  if log.committing then .error (.panic "log.committing")
  else if log.outstanding = 0 then .ok (true, { log with committing := true })
  else .ok (false, log)

def logWrite (log : Log) (blockno : UInt32) : Except Stop Log :=
  if log.lh.length ≥ LOGSIZE ∨ log.lh.length ≥ log.size - 1 then .error (.panic "too big a transaction")
  else if log.outstanding < 1 then .error (.panic "log_write outside of trans")
  else
    let i := log.lh.findIdx (· == blockno)
    if i = log.lh.length then .ok { log with lh := log.lh ++ [blockno] }
    else .ok { log with lh := log.lh.set i blockno }

/-- The calls of `log_write` in one transaction. -/
def logWrites (log : Log) (blocks : List UInt32) : Except Stop Log := blocks.foldlM logWrite log

/-! ## Operations of several processes -/

/-- The log with the operations between `begin_op` and `end_op`: each one with the blocks it has called `log_write` on.
`logged` has the blocks of all operations since the last commit. -/
structure LogSys where
  log : Log
  ops : List (Finset UInt32)
  logged : Finset UInt32

/-- `nlog` of `mkfs`. -/
def nlog : Nat := LOGSIZE

/-- The log after `initlog`, on a disk that `mkfs` wrote. -/
def LogSys.start : LogSys := ⟨⟨2, nlog, 0, false, []⟩, [], ∅⟩

/-- What the operations may still add to the log. -/
def LogSys.allowance (s : LogSys) : Nat := (s.ops.map fun S => MAXOPBLOCKS - S.card).sum

/-- Every block that operations logged has an entry of its own, with its place inside the log on the disk. -/
def LogSys.OwnSlots (s : LogSys) : Prop :=
  s.log.lh.Nodup ∧ ∀ b ∈ s.logged, ∃ i, s.log.lh[i]? = some b ∧ i + 1 < nlog

inductive LogAct where
  | beginOp
  | logWrite (op : Nat) (blockno : UInt32)
  | endOp (op : Nat)
  /-- `commit`, with the disk and the cache it finds. -/
  | commit (d : Dev)
  /-- The end of `end_op` after `commit`. -/
  | committed

/-- Operation `op` keeps to its allowance if it calls `log_write` on block `blockno`. -/
def LogSys.MayLog (s : LogSys) (op : Nat) (blockno : UInt32) : Prop :=
  ∃ S, s.ops[op]? = some S ∧ (insert blockno S).card ≤ MAXOPBLOCKS

instance (s : LogSys) (op : Nat) (blockno : UInt32) : Decidable (s.MayLog op blockno) :=
  match h : s.ops[op]? with
  | none => isFalse (by rintro ⟨S, hS, -⟩; rw [h] at hS; cases hS)
  | some S => decidable_of_iff ((insert blockno S).card ≤ MAXOPBLOCKS) (by simp [LogSys.MayLog, h])

def logStep (s : LogSys) : LogAct → Option LogSys
  | .beginOp => (beginOp s.log).map fun log => { s with log := log, ops := s.ops ++ [∅] }
  | .logWrite op blockno =>
      match s.ops[op]? with
      | none => none
      | some S =>
          if (insert blockno S).card ≤ MAXOPBLOCKS then
            match logWrite s.log blockno with
            | .error _ => none
            | .ok log => some ⟨log, s.ops.set op (insert blockno S), insert blockno s.logged⟩
          else none
  | .endOp op =>
      match s.ops[op]?, endOp s.log with
      | some _, .ok (_, log) => some { s with log := log, ops := s.ops.eraseIdx op }
      | _, _ => none
  | .commit d =>
      if s.log.committing then some { s with log := (commit s.log d).1, logged := ∅ } else none
  | .committed =>
      if s.log.committing ∧ s.log.lh = [] then some { s with log := { s.log with committing := false } } else none

end Xv6Net.Fs
