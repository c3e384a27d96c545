import Mathlib.Data.Fintype.Basic
import Xv6Net.Fs.Layout
import Xv6Net.Lib.Logged
import Xv6Net.Lib.Run

/-!
# Inodes and their blocks (`kernel/fs.c`)

The disk here is what `bread` returns: `log_write` makes a change of a buffer part of it. The functions behind `writei` log
these calls; a buffer that is changed and then released without one is changed in the cache only. There is one device. A step is
a call that runs to its end with no other one in between, so that locks are left out.
-/

namespace Xv6Net.Fs

open Lib

/-- The panics of `fs.c`. -/
inductive FsStop where
  | invalidFileSystem
  | freeingFreeBlock
  | bmapOutOfRange
  | igetNoInodes
  | ilock
  | ilockNoType
deriving DecidableEq

/-- `readsb` and the check in `fsinit`. -/
def fsinit (disk : Disk) : Except FsStop Superblock :=
  let sb := Superblock.decode (disk 1)
  if sb.magic = FSMAGIC then .ok sb else .error .invalidFileSystem

variable (sb : Superblock)

/-! ## Blocks -/

def bzero (disk : Disk) (bno : UInt32) : Disk := Function.update disk bno .zero

/-- The inner loop of `balloc`, over the bits of the bitmap block for the blocks from `b` on. -/
def freeBit (disk : Disk) (b : Nat) : Option Nat :=
  (List.range BPB).find? fun bi =>
    decide (b + bi < sb.size.toNat) && !(disk (sb.bblock (.ofNat b))).bit bi

/-- `balloc`, with the calls of `log_write`. -/
def ballocLogged (disk : Disk) : Logged UInt32 (UInt32 × Disk) :=
  let found := (List.range ((sb.size.toNat + BPB - 1) / BPB)).findSome? fun k =>
    (freeBit sb disk (k * BPB)).map (k * BPB, ·)
  match found with
  | none => pure (0, disk)
  | some (b, bi) => do
      let bp := sb.bblock (.ofNat b)
      let addr := .ofNat (b + bi)
      let disk ← .use bp (Function.update disk bp ((disk bp).setBit bi))
      .use addr (addr, bzero disk addr)

/-- Allocates a zeroed disk block; returns 0 if out of disk space. -/
def balloc (disk : Disk) : UInt32 × Disk := (ballocLogged sb disk).val

def bfree (disk : Disk) (b : UInt32) : Except FsStop Disk :=
  let bp := sb.bblock b
  let bi := b.toNat % BPB
  if (disk bp).bit bi then .ok (Function.update disk bp ((disk bp).clearBit bi)) else .error .freeingFreeBlock

/-! ## The contents of inodes -/

def iupdate (disk : Disk) (inum : UInt32) (ip : Dinode) : Disk :=
  Function.update disk (sb.iblock inum) ((disk (sb.iblock inum)).setDinode (inum.toNat % IPB) ip)

/-- The address in `addrs[i]`, which is allocated if there is none; 0 if out of disk space. -/
def addrOrAllocLogged (disk : Disk) (ip : Dinode) (i : Fin (NDIRECT + 1)) : Logged UInt32 (UInt32 × Disk × Dinode) :=
  if ip.addrs i = 0 then do
    let (addr, disk) ← ballocLogged sb disk
    if addr = 0 then pure (0, disk, ip) else pure (addr, disk, ip.setAddr i addr)
  else pure (ip.addrs i, disk, ip)

def addrOrAlloc (disk : Disk) (ip : Dinode) (i : Fin (NDIRECT + 1)) : UInt32 × Disk × Dinode :=
  (addrOrAllocLogged sb disk ip i).val

/-- The address of block `bn` of the file, which is allocated if there is none; 0 if out of disk space. -/
def bmapLogged (disk : Disk) (ip : Dinode) (bn : Nat) : Logged UInt32 (Except FsStop (UInt32 × Disk × Dinode)) :=
  if h : bn < NDIRECT then do
    let r ← addrOrAllocLogged sb disk ip ⟨bn, Nat.lt_succ_of_lt h⟩
    pure (.ok r)
  else
    let bn := bn - NDIRECT
    if bn < NINDIRECT then do
      let (bp, disk, ip) ← addrOrAllocLogged sb disk ip (Fin.last NDIRECT)
      if bp = 0 then pure (.ok (0, disk, ip))
      else if (disk bp).word bn = 0 then do
        let (addr, disk) ← ballocLogged sb disk
        if addr = 0 then pure (.ok (0, disk, ip))
        else .use bp (.ok (addr, Function.update disk bp ((disk bp).setWord bn addr), ip))
      else pure (.ok ((disk bp).word bn, disk, ip))
    else pure (.error .bmapOutOfRange)

def bmap (disk : Disk) (ip : Dinode) (bn : Nat) : Except FsStop (UInt32 × Disk × Dinode) := (bmapLogged sb disk ip bn).val

/-- The loop of `itrunc` over the direct addresses. -/
def truncDirect (disk : Disk) (ip : Dinode) : Except FsStop (Disk × Dinode) :=
  (List.finRange NDIRECT).foldlM (fun (disk, ip) i =>
    if ip.addrs i.castSucc = 0 then .ok (disk, ip)
    else do
      let disk ← bfree sb disk (ip.addrs i.castSucc)
      .ok (disk, ip.setAddr i.castSucc 0)) (disk, ip)

/-- The loop of `itrunc` over the entries of the indirect block, whose buffer is `a`. -/
def truncEntries (a : Block) (disk : Disk) : Except FsStop Disk :=
  (List.finRange NINDIRECT).foldlM (fun disk (j : Fin NINDIRECT) =>
    if a.word j = 0 then .ok disk else bfree sb disk (a.word j)) disk

/-- The part of `itrunc` for the indirect block. -/
def truncIndirect (disk : Disk) (ip : Dinode) : Except FsStop (Disk × Dinode) :=
  if ip.indirect = 0 then .ok (disk, ip)
  else do
    let disk ← truncEntries sb (disk ip.indirect) disk
    let disk ← bfree sb disk ip.indirect
    .ok (disk, ip.setAddr (Fin.last NDIRECT) 0)

def itrunc (disk : Disk) (inum : UInt32) (ip : Dinode) : Except FsStop (Disk × Dinode) := do
  let (disk, ip) ← truncDirect sb disk ip
  let (disk, ip) ← truncIndirect sb disk ip
  let ip := { ip with size := 0 }
  .ok (iupdate sb disk inum ip, ip)

/-- What `either_copyin` does for a source offset and a length: the bytes that it has stored, and if it succeeded. With
a bad user buffer some bytes may have been stored before it fails. -/
abbrev Copyin := Nat → Nat → List UInt8 × Bool

/-- Why the loop of `writei` ends: all is written, there is no block to be had, or `either_copyin` returns -1. -/
inductive WriteEnd where
  | done
  | full
  | fault
deriving DecidableEq

/-- The loop of `writei`; it makes less than `fuel` turns for `fuel = n + 1`. -/
def writeLoopLogged (copyin : Copyin) (n : Nat) :
    Nat → Nat → Nat → Disk → Dinode → Logged UInt32 (Except FsStop (WriteEnd × Nat × Nat × Disk × Dinode))
  | 0, tot, off, disk, ip => pure (.ok (.done, tot, off, disk, ip))
  | fuel + 1, tot, off, disk, ip =>
      if tot < n then
        (bmapLogged sb disk ip (off / BSIZE)).andThen fun (addr, disk, ip) =>
          if addr = 0 then pure (.ok (.full, tot, off, disk, ip))
          else
            let m := min (n - tot) (BSIZE - off % BSIZE)
            let (bytes, ok) := copyin tot m
            let disk := Function.update disk addr ((disk addr).store (off % BSIZE) (bytes.take m))
            if ok then do
              let disk ← .use addr disk
              writeLoopLogged copyin n fuel (tot + m) (off + m) disk ip
            else pure (.ok (.fault, tot, off, disk, ip))
      else pure (.ok (.done, tot, off, disk, ip))

def writeLoop (copyin : Copyin) (n fuel tot off : Nat) (disk : Disk) (ip : Dinode) :
    Except FsStop (Nat × Nat × Disk × Dinode) :=
  (writeLoopLogged sb copyin n fuel tot off disk ip).val.map Prod.snd

/-- `writei` with the reason for which it returns; there is none if it returns -1. -/
def writeiLogged (disk : Disk) (inum : UInt32) (ip : Dinode) (copyin : Copyin) (off n : UInt32) :
    Logged UInt32 (Except FsStop (Option WriteEnd × Int × Disk × Dinode)) :=
  if ip.size < off ∨ off + n < off then pure (.ok (none, -1, disk, ip))
  else if MAXFILE * BSIZE < (off + n).toNat then pure (.ok (none, -1, disk, ip))
  else
    (writeLoopLogged sb copyin n.toNat (n.toNat + 1) 0 off.toNat disk ip).andThen fun (why, tot, off, disk, ip) =>
      let ip := if ip.size.toNat < off then { ip with size := .ofNat off } else ip
      .use (sb.iblock inum) (.ok (some why, tot, iupdate sb disk inum ip, ip))

/-- Returns the number of bytes written, or -1. -/
def writei (disk : Disk) (inum : UInt32) (ip : Dinode) (copyin : Copyin) (off n : UInt32) :
    Except FsStop (Int × Disk × Dinode) :=
  (writeiLogged sb disk inum ip copyin off n).val.map Prod.snd

/-- The loop of `readi`; `copyout` says if `either_copyout` succeeds for a destination offset. The bytes copied are
collected. -/
def readLoop (copyout : Nat → Bool) (n : Nat) :
    Nat → Nat → Nat → List UInt8 → Disk → Dinode → Except FsStop (Int × List UInt8 × Disk × Dinode)
  | 0, tot, _, dst, disk, ip => .ok (tot, dst, disk, ip)
  | fuel + 1, tot, off, dst, disk, ip =>
      if tot < n then do
        let (addr, disk, ip) ← bmap sb disk ip (off / BSIZE)
        if addr = 0 then .ok (tot, dst, disk, ip)
        else
          let m := min (n - tot) (BSIZE - off % BSIZE)
          if copyout tot then
            readLoop copyout n fuel (tot + m) (off + m) (dst ++ slice (disk addr).bytes (off % BSIZE) m) disk ip
          else .ok (-1, dst, disk, ip)
      else .ok (tot, dst, disk, ip)

def readi (disk : Disk) (ip : Dinode) (copyout : Nat → Bool) (off n : UInt32) :
    Except FsStop (Int × List UInt8 × Disk × Dinode) :=
  if ip.size < off ∨ off + n < off then .ok (0, [], disk, ip)
  else
    let n := if ip.size < off + n then ip.size - off else n
    readLoop sb copyout n.toNat (n.toNat + 1) 0 off.toNat [] disk ip

/-! ## The inode table -/

def NINODE : Nat := 50

/-- `struct inode`; `din` is the copy of the disk inode. -/
structure Inode where
  inum : UInt32
  ref : Nat
  valid : Bool
  din : Dinode

structure InodeSys where
  disk : Disk
  itable : Fin NINODE → Inode

namespace InodeSys

def setInode (s : InodeSys) (ip : Fin NINODE) (x : Inode) : InodeSys :=
  { s with itable := Function.update s.itable ip x }

def iget (s : InodeSys) (inum : UInt32) : Except FsStop (Fin NINODE × InodeSys) :=
  match (List.finRange NINODE).find? fun ip => decide (0 < (s.itable ip).ref) && (s.itable ip).inum == inum with
  | some ip => .ok (ip, s.setInode ip { s.itable ip with ref := (s.itable ip).ref + 1 })
  | none =>
      match (List.finRange NINODE).find? fun ip => (s.itable ip).ref == 0 with
      | none => .error .igetNoInodes
      | some ip => .ok (ip, s.setInode ip { s.itable ip with inum := inum, ref := 1, valid := false })

def idup (s : InodeSys) (ip : Fin NINODE) : InodeSys :=
  s.setInode ip { s.itable ip with ref := (s.itable ip).ref + 1 }

/-- `none` stands for NULL. -/
def ialloc (s : InodeSys) (type : UInt16) : Except FsStop (Option (Fin NINODE) × InodeSys) :=
  match (List.range' 1 (sb.ninodes.toNat - 1)).find? fun inum => (sb.dinodes s.disk (.ofNat inum)).type == 0 with
  | none => .ok (none, s)
  | some inum => do
      let s := { s with disk := iupdate sb s.disk (.ofNat inum) { Dinode.zero with type := type } }
      let (ip, s) ← s.iget (.ofNat inum)
      .ok (some ip, s)

def ilock (s : InodeSys) (ip : Fin NINODE) : Except FsStop InodeSys :=
  if (s.itable ip).ref < 1 then .error .ilock
  else if (s.itable ip).valid then .ok s
  else
    let din := sb.dinodes s.disk (s.itable ip).inum
    if din.type = 0 then .error .ilockNoType
    else .ok (s.setInode ip { s.itable ip with valid := true, din := din })

/-- `op` on an inode and the disk between `ilock` and `iunlock`. -/
def locked (s : InodeSys) (ip : Fin NINODE) (op : Disk → UInt32 → Dinode → Except FsStop (Disk × Dinode)) :
    Except FsStop InodeSys := do
  let s ← s.ilock sb ip
  let (disk, din) ← op s.disk (s.itable ip).inum (s.itable ip).din
  .ok { s.setInode ip { s.itable ip with din := din } with disk := disk }

/-- The part of `iput` that frees the inode and its content on disk. -/
def ifree (s : InodeSys) (ip : Fin NINODE) : Except FsStop InodeSys := do
  let (disk, din) ← itrunc sb s.disk (s.itable ip).inum (s.itable ip).din
  let din := { din with type := 0 }
  let disk := iupdate sb disk (s.itable ip).inum din
  .ok { s.setInode ip { s.itable ip with din := din, valid := false } with disk := disk }

def iput (s : InodeSys) (ip : Fin NINODE) : Except FsStop InodeSys := do
  let s ← if (s.itable ip).ref = 1 ∧ (s.itable ip).valid ∧ (s.itable ip).din.nlink = 0 then s.ifree sb ip else .ok s
  .ok (s.setInode ip { s.itable ip with ref := (s.itable ip).ref - 1 })

end InodeSys

/-! ## Calls -/

inductive InodeCall where
  | iget (inum : UInt32)
  | idup (ip : Fin NINODE)
  | ialloc (type : UInt16)
  /-- `create`, `link` and `unlink` set these fields and call `iupdate`. -/
  | iupdate (ip : Fin NINODE) (major minor nlink : UInt16)
  | writei (ip : Fin NINODE) (copyin : Copyin) (off n : UInt32)
  | itrunc (ip : Fin NINODE)
  | iput (ip : Fin NINODE)

namespace InodeSys

def call (s : InodeSys) : InodeCall → Except FsStop InodeSys
  | .iget inum => (s.iget inum).map Prod.snd
  | .idup ip => .ok (s.idup ip)
  | .ialloc type => (s.ialloc sb type).map Prod.snd
  | .iupdate ip major minor nlink =>
      s.locked sb ip fun disk inum din =>
        let din := { din with major := major, minor := minor, nlink := nlink }
        .ok (Fs.iupdate sb disk inum din, din)
  | .writei ip copyin off n =>
      s.locked sb ip fun disk inum din => (Fs.writei sb disk inum din copyin off n).map Prod.snd
  | .itrunc ip => s.locked sb ip (Fs.itrunc sb)
  | .iput ip => s.iput sb ip

/-- Inode numbers are those of the file system, and `idup` and `iput` are called with a reference. -/
def MayCall (s : InodeSys) : InodeCall → Prop
  | .iget inum => inum < sb.ninodes
  | .idup ip | .iput ip => 0 < (s.itable ip).ref
  | .ialloc .. | .iupdate .. | .writei .. | .itrunc .. => True

instance (s : InodeSys) : (c : InodeCall) → Decidable (s.MayCall sb c)
  | .iget _ => inferInstanceAs (Decidable (_ < _))
  | .idup _ | .iput _ => inferInstanceAs (Decidable (0 < _))
  | .ialloc .. | .iupdate .. | .writei .. | .itrunc .. => inferInstanceAs (Decidable True)

def step (s : InodeSys) (c : InodeCall) : Option InodeSys :=
  if s.MayCall sb c then (s.call sb c).toOption else none

end InodeSys

end Xv6Net.Fs
