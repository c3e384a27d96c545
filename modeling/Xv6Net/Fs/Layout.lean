import Mathlib.Data.Fin.Basic
import Xv6Net.Fs.Disk
import Xv6Net.Lib.Owns

/-!
# The layout of a file system (`kernel/fs.h`)

Inodes and the bitmap are bytes of blocks, as the kernel and `mkfs` read and write them. `WellFormed` says what the
bytes of a disk have to satisfy: each block of the data area that is marked in the bitmap belongs to one file, in one
place, and a file has all of the blocks that its size asks for.
-/

namespace Xv6Net.Fs

open Lib

def ROOTINO : UInt32 := 1
def FSMAGIC : UInt32 := 0x10203040
def NDIRECT : Nat := 12
def NINDIRECT : Nat := BSIZE / 4
def MAXFILE : Nat := NDIRECT + NINDIRECT

def T_DIR : UInt16 := 1
def T_FILE : UInt16 := 2
def DIRSIZ : Nat := 14

/-- The size of `struct dinode`. -/
def DINODE_SIZE : Nat := 64

/-- Inodes per block. -/
def IPB : Nat := BSIZE / DINODE_SIZE

/-- Bitmap bits per block. -/
def BPB : Nat := BSIZE * 8

/-! ## On-disk structures -/

structure Superblock where
  magic : UInt32
  size : UInt32
  nblocks : UInt32
  ninodes : UInt32
  nlog : UInt32
  logstart : UInt32
  inodestart : UInt32
  bmapstart : UInt32
deriving DecidableEq

/-- `struct dinode`; the entry behind the direct addresses is the address of the indirect block. -/
structure Dinode where
  type : UInt16
  major : UInt16
  minor : UInt16
  nlink : UInt16
  size : UInt32
  addrs : Fin (NDIRECT + 1) → UInt32

namespace Dinode

/-- All bytes 0. -/
def zero : Dinode := ⟨0, 0, 0, 0, 0, fun _ => 0⟩

def encode (d : Dinode) : List UInt8 :=
  bytes16 d.type ++ bytes16 d.major ++ bytes16 d.minor ++ bytes16 d.nlink ++ bytes32 d.size ++
    (List.ofFn d.addrs).flatMap bytes32

def decode (b : List UInt8) : Dinode :=
  ⟨load16 b 0, load16 b 2, load16 b 4, load16 b 6, load32 b 8, fun i => load32 b (12 + 4 * i)⟩

def setAddr (d : Dinode) (i : Fin (NDIRECT + 1)) (addr : UInt32) : Dinode :=
  { d with addrs := Function.update d.addrs i addr }

/-- `addrs[NDIRECT]`. -/
def indirect (d : Dinode) : UInt32 := d.addrs (Fin.last NDIRECT)

end Dinode

namespace Block

/-- The structure with index `i` in a block of inodes. -/
def dinode (b : Block) (i : Nat) : Dinode := .decode (slice b.bytes (DINODE_SIZE * i) DINODE_SIZE)

def setDinode (b : Block) (i : Nat) (d : Dinode) : Block := b.store (DINODE_SIZE * i) d.encode

/-- `1 << (bi % 8)`. -/
def mask (bi : Nat) : UInt8 := 1 <<< UInt8.ofNat (bi % 8)

def bit (b : Block) (bi : Nat) : Bool := b.bytes (bi / 8) &&& mask bi != 0

def setBit (b : Block) (bi : Nat) : Block := b.store (bi / 8) [b.bytes (bi / 8) ||| mask bi]

def clearBit (b : Block) (bi : Nat) : Block := b.store (bi / 8) [b.bytes (bi / 8) &&& ~~~ mask bi]

end Block

namespace Superblock

def decode (b : Block) : Superblock :=
  ⟨b.word 0, b.word 1, b.word 2, b.word 3, b.word 4, b.word 5, b.word 6, b.word 7⟩

variable (sb : Superblock)

/-- The block with inode `inum`. -/
def iblock (inum : UInt32) : UInt32 := .ofNat (inum.toNat / IPB + sb.inodestart.toNat)

/-- The block of the bitmap with the bit for block `b`. -/
def bblock (b : UInt32) : UInt32 := .ofNat (b.toNat / BPB + sb.bmapstart.toNat)

def dinodes (disk : Disk) (inum : UInt32) : Dinode := (disk (sb.iblock inum)).dinode (inum.toNat % IPB)

def bit (disk : Disk) (b : UInt32) : Bool := (disk (sb.bblock b)).bit (b.toNat % BPB)

/-- The first of the data blocks, which are the last ones on the disk. -/
def datastart : Nat := sb.size.toNat - sb.nblocks.toNat

def IsData (b : UInt32) : Prop := sb.datastart ≤ b.toNat ∧ b.toNat < sb.size.toNat

def IsBitmap (b : UInt32) : Prop := sb.bmapstart.toNat ≤ b.toNat ∧ b.toNat < sb.datastart

def IsInodes (b : UInt32) : Prop := sb.inodestart.toNat ≤ b.toNat ∧ b.toNat < sb.bmapstart.toNat

/-- A block behind the log: of inodes, of the bitmap or of data. -/
def InFs (b : UInt32) : Prop := sb.inodestart.toNat ≤ b.toNat ∧ b.toNat < sb.size.toNat

instance (b : UInt32) : Decidable (sb.IsData b) := inferInstanceAs (Decidable (_ ∧ _))

instance (b : UInt32) : Decidable (sb.IsBitmap b) := inferInstanceAs (Decidable (_ ∧ _))

/-- The blocks of the inodes, of the bitmap and of data lie in this order. Block numbers are kept in variables of
type `int`. -/
structure Sane : Prop where
  inodes : sb.inodestart.toNat + (sb.ninodes.toNat + IPB - 1) / IPB ≤ sb.bmapstart.toNat
  bitmap : sb.bmapstart.toNat + (sb.size.toNat + BPB - 1) / BPB ≤ sb.datastart
  size : sb.size.toNat + BPB ≤ 2 ^ 31

end Superblock

/-! ## Blocks of files -/

/-- A place for the address of a block: one of the direct ones, the one of the indirect block, or an entry of it. -/
inductive Slot where
  | direct (i : Fin NDIRECT)
  | indirect
  | entry (j : Fin NINDIRECT)
deriving DecidableEq

/-- The place for the address of block `bn` of a file. -/
def Slot.ofIndex (bn : Nat) : Option Slot :=
  if h : bn < NDIRECT then some (.direct ⟨bn, h⟩)
  else if h : bn - NDIRECT < NINDIRECT then some (.entry ⟨bn - NDIRECT, h⟩)
  else none

namespace Dinode

variable (disk : Disk) (d : Dinode)

def slot : Slot → UInt32
  | .direct i => d.addrs i.castSucc
  | .indirect => d.indirect
  | .entry j => if d.indirect = 0 then 0 else (disk d.indirect).word j

/-- The address of block `bn` of the file, or 0. -/
def blockAt (bn : Nat) : UInt32 := ((Slot.ofIndex bn).map (d.slot disk)).getD 0

/-- Byte `k` of the file. -/
def byte (k : Nat) : UInt8 := (disk (d.blockAt disk (k / BSIZE))).bytes (k % BSIZE)

def contents : List UInt8 := slice (d.byte disk) 0 d.size.toNat

/-- The blocks with a byte below `size` have addresses. -/
def Mapped (size : Nat) : Prop := ∀ bn, bn < (size + BSIZE - 1) / BSIZE → d.blockAt disk bn ≠ 0

end Dinode

namespace Superblock

variable (sb : Superblock)

/-- All addresses in allocated inodes, the inodes being `din`. -/
def refs (disk : Disk) (din : UInt32 → Dinode) (p : UInt32 × Slot) : UInt32 :=
  if p.1 < sb.ninodes ∧ (din p.1).type ≠ 0 then (din p.1).slot disk p.2 else 0

/-- A data block that is marked in the bitmap. -/
def InUse (disk : Disk) (b : UInt32) : Prop := sb.IsData b ∧ sb.bit disk b

/-- All data blocks are marked. -/
def Full (disk : Disk) : Prop := ∀ b, sb.IsData b → sb.bit disk b

/-- The bitmap marks the blocks that are not data, and of data exactly those in `ref`, each of which is there once. -/
structure Accounts (disk : Disk) (ref : UInt32 × Slot → UInt32) : Prop where
  owns : Owns 0 ref (sb.InUse disk)
  reserved : ∀ b : UInt32, b.toNat < sb.datastart → sb.bit disk b

structure WellFormed (disk : Disk) : Prop where
  sane : sb.Sane
  accounts : sb.Accounts disk (sb.refs disk (sb.dinodes disk))
  mapped : ∀ inum < sb.ninodes, (sb.dinodes disk inum).type ≠ 0 →
    (sb.dinodes disk inum).Mapped disk (sb.dinodes disk inum).size.toNat

end Superblock

end Xv6Net.Fs
