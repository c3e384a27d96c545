import Xv6Net.Fs.Files
import Xv6Net.Lib.Slots

/-!
# Directories (`kernel/fs.c`)

A string is the list of the bytes from its pointer on, and what lies behind the list reads as NUL. Names are buffers of
`DIRSIZ` bytes or longer strings; nothing behind the first `DIRSIZ` bytes is read. The directory is an inode in the table
that is locked.
-/

namespace Xv6Net.Fs

open Lib

/-! ## Strings (`kernel/string.c`) -/

def strncmp : (n : Nat) → (p q : List UInt8) → Int
  | 0, _, _ => 0
  | n + 1, p, q =>
      if byteAt p 0 ≠ 0 ∧ byteAt p 0 = byteAt q 0 then strncmp n p.tail q.tail
      else (byteAt p 0).toNat - (byteAt q 0).toNat

/-- The bytes that `strncpy` stores. -/
def strncpy : (n : Nat) → (t : List UInt8) → List UInt8
  | 0, _ => []
  | n + 1, t => if byteAt t 0 = 0 then 0 :: .replicate n 0 else byteAt t 0 :: strncpy n t.tail

def namecmp (s t : List UInt8) : Int := strncmp DIRSIZ s t

/-! ## Entries -/

/-- `sizeof(struct dirent)`. -/
def DIRENT_SIZE : Nat := 16

/-- `de.inum`. -/
def direntInum (de : List UInt8) : UInt16 := load16 de 0

/-- `de.name`. -/
def direntName (de : List UInt8) : List UInt8 := de.drop 2

/-- The panics of the functions on directories, and those of the functions that they call. -/
inductive DirStop where
  | fs (e : FsStop)
  | dirlookupNotDir
  | dirlookupRead
  | dirlinkRead
  | unlinkWritei
deriving DecidableEq

variable (sb : Superblock)

/-- The loop over the entries of a directory up to one for which it stops, with the offset and the entry. It makes less
than `fuel` turns for `fuel = size / DIRENT_SIZE + 1`. -/
def scanEntries (err : DirStop) (stop : List UInt8 → Bool) :
    Nat → UInt32 → Disk → Dinode → Except DirStop (UInt32 × Option (List UInt8) × Disk × Dinode)
  | 0, off, disk, dp => .ok (off, none, disk, dp)
  | fuel + 1, off, disk, dp =>
      if off < dp.size then do
        let (r, de, disk, dp) ← (readi sb disk dp (fun _ => true) off (.ofNat DIRENT_SIZE)).mapError .fs
        if r ≠ DIRENT_SIZE then .error err
        else if stop de then .ok (off, some de, disk, dp)
        else scanEntries err stop fuel (off + .ofNat DIRENT_SIZE) disk dp
      else .ok (off, none, disk, dp)

namespace InodeSys

/-- The loop on the directory `dp`. -/
def scan (s : InodeSys) (dp : Fin NINODE) (err : DirStop) (stop : List UInt8 → Bool) :
    Except DirStop (UInt32 × Option (List UInt8) × InodeSys) := do
  let x := s.itable dp
  let (off, de, disk, din) ← scanEntries sb err stop (x.din.size.toNat / DIRENT_SIZE + 1) 0 s.disk x.din
  .ok (off, de, { s.setInode dp { x with din := din } with disk := disk })

/-- The entry with `*poff`; `none` stands for 0. -/
def dirlookup (s : InodeSys) (dp : Fin NINODE) (name : List UInt8) :
    Except DirStop (Option (Fin NINODE × UInt32) × InodeSys) := do
  if (s.itable dp).din.type ≠ T_DIR then .error .dirlookupNotDir
  else
    let (off, found, s) ← s.scan sb dp .dirlookupRead fun de =>
      direntInum de != 0 && namecmp name (direntName de) == 0
    match found with
    | none => .ok (none, s)
    | some de =>
        let (ip, s) ← (s.iget (direntInum de).toUInt32).mapError .fs
        .ok (some (ip, off), s)

/-- `writei` of an entry, with what it returns. -/
def writeDirent (s : InodeSys) (dp : Fin NINODE) (de : List UInt8) (off : UInt32) : Except DirStop (Int × InodeSys) := do
  let x := s.itable dp
  let (r, disk, din) ← (writei sb s.disk x.inum x.din (copyFrom de) off (.ofNat DIRENT_SIZE)).mapError .fs
  .ok (r, { s.setInode dp { x with din := din } with disk := disk })

def dirlink (s : InodeSys) (dp : Fin NINODE) (name : List UInt8) (inum : UInt32) : Except DirStop (Int × InodeSys) := do
  let (found, s) ← s.dirlookup sb dp name
  match found with
  | some (ip, _) =>
      let s ← (s.iput sb ip).mapError .fs
      .ok (-1, s)
  | none =>
      let (off, _, s) ← s.scan sb dp .dirlinkRead fun de => direntInum de == 0
      let (r, s) ← s.writeDirent sb dp (bytes16 inum.toUInt16 ++ strncpy DIRSIZ name) off
      if r ≠ DIRENT_SIZE then .ok (-1, s) else .ok (0, s)

/-- The part of `sys_unlink` that clears an entry, and the `iput` for the reference that `dirlookup` returned. -/
def clearEntry (s : InodeSys) (dp : Fin NINODE) (name : List UInt8) : Except DirStop (Int × InodeSys) := do
  let (found, s) ← s.dirlookup sb dp name
  match found with
  | none => .ok (-1, s)
  | some (ip, off) =>
      let (r, s) ← s.writeDirent sb dp (.replicate DIRENT_SIZE 0) off
      if r ≠ DIRENT_SIZE then .error .unlinkWritei
      else
        let s ← (s.iput sb ip).mapError .fs
        .ok (0, s)

end InodeSys

inductive DirCall where
  | dirlink (name : List UInt8) (inum : UInt32)
  | clearEntry (name : List UInt8)

/-- Numbers of inodes are not 0 and fit into an entry. -/
def DirCall.Ok : DirCall → Prop
  | .dirlink _ inum => 0 < inum.toNat ∧ inum.toNat < 65536
  | .clearEntry _ => True

instance : (c : DirCall) → Decidable c.Ok
  | .dirlink .. => inferInstanceAs (Decidable (_ ∧ _))
  | .clearEntry _ => inferInstanceAs (Decidable True)

def DirCall.step (dp : Fin NINODE) (s : InodeSys) (c : DirCall) : Option InodeSys :=
  if c.Ok then
    match c with
    | .dirlink name inum => (s.dirlink sb dp name inum).toOption.map Prod.snd
    | .clearEntry name => (s.clearEntry sb dp name).toOption.map Prod.snd
  else none

/-! ## What a directory is -/

/-- The name that a string stands for in a directory: at most `DIRSIZ` characters. -/
def nameOf (s : List UInt8) : List UInt8 := (s.takeWhile (· != 0)).take DIRSIZ

/-- The name and the inode number of an entry in use. -/
def direntOf (de : List UInt8) : Option (List UInt8 × UInt32) :=
  if direntInum de = 0 then none else some (nameOf (direntName de), (direntInum de).toUInt32)

/-- Entry `i` of the bytes of a directory. -/
def direntAt (bytes : List UInt8) (i : Nat) : List UInt8 := (bytes.drop (DIRENT_SIZE * i)).take DIRENT_SIZE

def direntsOf (bytes : List UInt8) : List (Option (List UInt8 × UInt32)) :=
  (List.range (bytes.length / DIRENT_SIZE)).map fun i => direntOf (direntAt bytes i)

namespace InodeSys

def contents (s : InodeSys) (dp : Fin NINODE) : List UInt8 := (s.itable dp).din.contents s.disk

/-- The names in a directory with their inode numbers. -/
def dirents (s : InodeSys) (dp : Fin NINODE) : List (Option (List UInt8 × UInt32)) := direntsOf (s.contents dp)

/-- The inode number that stands under a name. -/
def inumOf (s : InodeSys) (dp : Fin NINODE) (name : List UInt8) : Option UInt32 := Slots.lookup (s.dirents dp) (nameOf name)

/-- `dp` is a directory with whole entries, and its copy in the table is the one on the disk. -/
structure DirInode (sb : Superblock) (dp : Fin NINODE) (s : InodeSys) : Prop where
  wellFormed : sb.WellFormed s.disk
  lt : (s.itable dp).inum < sb.ninodes
  din : (s.itable dp).din = sb.dinodes s.disk (s.itable dp).inum
  type : (s.itable dp).din.type = T_DIR
  whole : DIRENT_SIZE ∣ (s.itable dp).din.size.toNat

/-- In addition there is a reference to it, no two of its entries have the same name, and the table is not full. -/
structure Directory (sb : Superblock) (dp : Fin NINODE) (s : InodeSys) : Prop extends DirInode sb dp s where
  ref : 0 < (s.itable dp).ref
  unique : Slots.Unique (s.dirents dp)
  room : ∃ ip, (s.itable ip).ref = 0

/-- What `dirlookup` finds: the number of the inode that it returns. -/
def Finds (sb : Superblock) (dp : Fin NINODE) (s : InodeSys) (name : List UInt8) (inum : Option UInt32) : Prop :=
  ∃ found s', s.dirlookup sb dp name = .ok (found, s') ∧ found.map (fun r => (s'.itable r.1).inum) = inum

/-- There is no space for one more entry: no block is free, or the directory is as large as a file can be. -/
def NoSpace (sb : Superblock) (dp : Fin NINODE) (s : InodeSys) : Prop :=
  sb.Full s.disk ∨ (s.contents dp).length = MAXFILE * BSIZE

end InodeSys

end Xv6Net.Fs
