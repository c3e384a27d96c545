import Xv6Net.Fs.Inode
import Xv6Net.Fs.Log
import Xv6Net.Vm.UserCopy

/-!
# Files as sequences of bytes

What `readi` and `writei` are for, and the sources of `either_copyin`.
-/

namespace Xv6Net.Fs

open Lib

/-- `either_copyin` from a kernel buffer. -/
def copyFrom (data : List UInt8) : Copyin := fun tot m => ((data.drop tot).take m, true)

/-- `either_copyin` from the user address `src`. -/
def copyUser (pt : Vm.PageTable) (mem : Vm.Memory) (src : UInt64) : Copyin := fun tot m =>
  let (ok, bytes) := Vm.copyin pt mem (src + .ofNat tot) (.ofNat m)
  (bytes, ok)

/-- The bytes from the user address `src` on, where they are mapped. -/
def userSource (pt : Vm.PageTable) (mem : Vm.Memory) (src : UInt64) (i : Nat) : Option UInt8 :=
  Vm.userByte pt mem (src + .ofNat i).toNat

/-- After a write of `bs` at `off` to a file; other files are as before. -/
structure FileWritten (sb : Superblock) (disk : Disk) (inum : UInt32) (off : Nat) (bs : List UInt8) (disk' : Disk)
    (ip' : Dinode) : Prop where
  wellFormed : sb.WellFormed disk'
  self : sb.dinodes disk' inum = ip'
  type : ip'.type = (sb.dinodes disk inum).type
  contents : ip'.contents disk' = splice ((sb.dinodes disk inum).contents disk) off bs
  inodes : ∀ q < sb.ninodes, q ≠ inum → sb.dinodes disk' q = sb.dinodes disk q
  files : ∀ q < sb.ninodes, q ≠ inum → (sb.dinodes disk q).type ≠ 0 →
    (sb.dinodes disk' q).contents disk' = (sb.dinodes disk q).contents disk

/-- After a write of `bs` at `off`, `readi` returns the bytes of `bs` and around them those of before, and so does the
disk with the transaction in place. -/
structure Contained (sb : Superblock) (disk : Disk) (inum : UInt32) (off : Nat) (bs : List UInt8) (disk' : Disk)
    (ip' : Dinode) (committed : Disk) : Prop where
  reads : ∀ o k : UInt32, o.toNat + k.toNat < 2 ^ 32 →
    let bytes := ((splice ((sb.dinodes disk inum).contents disk) off bs).drop o.toNat).take k.toNat
    readi sb disk' ip' (fun _ => true) o k = .ok (bytes.length, bytes, disk', ip')
  onDisk : (sb.dinodes committed inum).contents committed = splice ((sb.dinodes disk inum).contents disk) off bs

/-- The bytes of the source before the first one that is not there are in the file already, as far as they are for the
same block and for bytes below the end. -/
def SameUntilFault (src : Nat → Option UInt8) (disk : Disk) (ip : Dinode) (off : Nat) : Prop :=
  ∀ u, (∀ i < u, (src i).isSome) → src u = none →
    ∀ i < u, (off + i) / BSIZE = (off + u) / BSIZE → off + i < ip.size.toNat → src i = some (ip.byte disk (off + i))

end Xv6Net.Fs
