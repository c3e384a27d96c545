import Mathlib.Logic.Function.Basic
import Xv6Net.Lib.Bytes
import Xv6Net.Lib.Writes

/-!
# Blocks, the disk and the data of cached blocks

The disk changes by writes of single blocks only. A block that is not in the cache is read from the disk, so that
reading changes nothing that a later read could tell. The disk is kept as the contents it started with and the writes
since.
-/

namespace Xv6Net.Fs

open Lib

def BSIZE : Nat := 1024

abbrev Block := Fin BSIZE → UInt8

namespace Block

def zero : Block := fun _ => 0

def bytes (b : Block) (i : Nat) : UInt8 := if h : i < BSIZE then b ⟨i, h⟩ else 0

/-- The block with the bytes `bs` stored from offset `off` on. -/
def store (b : Block) (off : Nat) (bs : List UInt8) : Block := fun i => write b.bytes off bs i

/-- Entry `i` of the block as an array of 32-bit words. -/
def word (b : Block) (i : Nat) : UInt32 := load32 (slice b.bytes (4 * i) 4) 0

def setWord (b : Block) (i : Nat) (x : UInt32) : Block := b.store (4 * i) (bytes32 x)

end Block

abbrev Disk := UInt32 → Block

structure Dev where
  /-- The disk before the writes. -/
  base : Disk
  writes : List (UInt32 × Block)
  /-- The data of the buffers in the cache. -/
  cache : UInt32 → Option Block

namespace Dev

def disk (d : Dev) : Disk := applyWrites d.base d.writes

def bread (d : Dev) (blockno : UInt32) : Block := (d.cache blockno).getD (d.disk blockno)

def bwrite (d : Dev) (blockno : UInt32) (data : Block) : Dev :=
  { d with
    writes := d.writes ++ [(blockno, data)]
    cache := Function.update d.cache blockno (some data) }

/-- The machine starts, with nothing in the cache. -/
def boot (disk : Disk) : Dev := ⟨disk, [], fun _ => none⟩

/-- What the disk holds if the machine stops after `k` of the writes. -/
def crash (d : Dev) (k : Nat) : Disk := applyWrites d.base (d.writes.take k)

end Dev

end Xv6Net.Fs
