import Xv6Net.Fs.Inode
import Xv6Net.Fs.Log

/-!
# The program that makes an image (`mkfs/mkfs.c`)

The image is a map from sectors to blocks, as a disk is. `xshort` and `xint` give the bytes that `bytes16` and `bytes32`
stand for. A host file is the list of what the calls of `read` return.
-/

namespace Xv6Net.Fs

open Lib

/-- `struct dirent`. -/
def dirent (inum : UInt16) (name : List UInt8) : List UInt8 :=
  bytes16 inum ++ (name.take DIRSIZ ++ List.replicate (DIRSIZ - name.length) 0)

/-- The arguments of `mkfs`: a path and what is read, which is at most a block at a time and not nothing. -/
structure HostFile where
  path : List UInt8
  reads : List (List UInt8)
  bounded : ∀ buf ∈ reads, buf ≠ [] ∧ buf.length ≤ BSIZE

def HostFile.bytes (f : HostFile) : List UInt8 := f.reads.flatten

namespace Mkfs

def FSSIZE : Nat := 2000
def NINODES : Nat := 200
def nbitmap : Nat := FSSIZE / (BSIZE * 8) + 1
def ninodeblocks : Nat := NINODES / IPB + 1
def nmeta : Nat := 2 + nlog + ninodeblocks + nbitmap
def nblocks : Nat := FSSIZE - nmeta

def sb : Superblock where
  magic := FSMAGIC
  size := .ofNat FSSIZE
  nblocks := .ofNat nblocks
  ninodes := .ofNat NINODES
  nlog := .ofNat nlog
  logstart := 2
  inodestart := .ofNat (2 + nlog)
  bmapstart := .ofNat (2 + nlog + ninodeblocks)

/-- Assertions that end the program. -/
inductive Abort where
  | rootino
  | slash
  | maxfile
  | used
deriving DecidableEq

/-- The image file and the variables `freeinode` and `freeblock`. -/
structure State where
  image : Disk
  freeinode : UInt32
  freeblock : Nat

def winode (image : Disk) (inum : UInt32) (din : Dinode) : Disk :=
  let bn := sb.iblock inum
  Function.update image bn ((image bn).setDinode (inum.toNat % IPB) din)

def rinode (image : Disk) (inum : UInt32) : Dinode := (image (sb.iblock inum)).dinode (inum.toNat % IPB)

def ialloc (m : State) (type : UInt16) : UInt32 × State :=
  (m.freeinode, { m with
    image := winode m.image m.freeinode { Dinode.zero with type := type, nlink := 1 }
    freeinode := m.freeinode + 1 })

/-- `din.addrs[i]`, for which the next free block is taken if there is none. -/
def addrOrTake (freeblock : Nat) (din : Dinode) (i : Fin (NDIRECT + 1)) : Nat × Dinode :=
  if din.addrs i = 0 then (freeblock + 1, din.setAddr i (.ofNat freeblock)) else (freeblock, din)

/-- The part of `iappend` that finds or takes block `fbn`. -/
def blockFor (image : Disk) (freeblock : Nat) (din : Dinode) (fbn : Nat) : UInt32 × Disk × Nat × Dinode :=
  if h : fbn < NDIRECT then
    let (freeblock, din) := addrOrTake freeblock din ⟨fbn, Nat.lt_succ_of_lt h⟩
    (din.addrs ⟨fbn, Nat.lt_succ_of_lt h⟩, image, freeblock, din)
  else
    let (freeblock, din) := addrOrTake freeblock din (Fin.last NDIRECT)
    let indirect := image din.indirect
    if indirect.word (fbn - NDIRECT) = 0 then
      (.ofNat freeblock, Function.update image din.indirect (indirect.setWord (fbn - NDIRECT) (.ofNat freeblock)),
        freeblock + 1, din)
    else (indirect.word (fbn - NDIRECT), image, freeblock, din)

/-- The loop of `iappend`; there are less than `fuel` turns for `fuel = n + 1`. -/
def appendLoop : Nat → List UInt8 → Nat → Disk → Nat → Dinode → Except Abort (Nat × Disk × Nat × Dinode)
  | 0, _, off, image, freeblock, din => .ok (off, image, freeblock, din)
  | fuel + 1, p, off, image, freeblock, din =>
      if 0 < p.length then
        let fbn := off / BSIZE
        if fbn < MAXFILE then
          let (x, image, freeblock, din) := blockFor image freeblock din fbn
          let n1 := min p.length ((fbn + 1) * BSIZE - off)
          let image := Function.update image x ((image x).store (off - fbn * BSIZE) (p.take n1))
          appendLoop fuel (p.drop n1) (off + n1) image freeblock din
        else .error .maxfile
      else .ok (off, image, freeblock, din)

def iappend (m : State) (inum : UInt32) (p : List UInt8) : Except Abort State := do
  let din := rinode m.image inum
  let (off, image, freeblock, din) ← appendLoop (p.length + 1) p din.size.toNat m.image m.freeblock din
  .ok { m with image := winode image inum { din with size := .ofNat off }, freeblock := freeblock }

/-- `src/user/` -/
def srcUserDir : List UInt8 := [115, 114, 99, 47, 117, 115, 101, 114, 47]

/-- `user/` -/
def userDir : List UInt8 := [117, 115, 101, 114, 47]

/-- The path without the directory that it starts with. -/
def shortname (path : List UInt8) : List UInt8 :=
  if srcUserDir.isPrefixOf path then path.drop 9 else if userDir.isPrefixOf path then path.drop 5 else path

/-- Skips a leading `_`. -/
def skipUnderscore : List UInt8 → List UInt8
  | 95 :: rest => rest
  | name => name

/-- The body of the loop over the arguments. -/
def addFile (m : State) (f : HostFile) : Except Abort State := do
  if 47 ∈ shortname f.path then .error .slash
  else
    let (inum, m) := ialloc m T_FILE
    let m ← iappend m ROOTINO (dirent inum.toUInt16 (skipUnderscore (shortname f.path)))
    f.reads.foldlM (fun m buf => iappend m inum buf) m

/-- The bitmap with the first `used` blocks marked. -/
def bitmap (used : Nat) : Block := (List.range used).foldl Block.setBit .zero

def balloc (m : State) : Except Abort State :=
  if m.freeblock < BSIZE * 8 then
    .ok { m with image := Function.update m.image sb.bmapstart (bitmap m.freeblock) }
  else .error .used

/-- Zeroes and the superblock. -/
def format : State where
  image := Function.update (fun _ => .zero) 1 (Block.zero.store 0 ([sb.magic, sb.size, sb.nblocks, sb.ninodes, sb.nlog,
    sb.logstart, sb.inodestart, sb.bmapstart].flatMap bytes32))
  freeinode := 1
  freeblock := nmeta

/-- The size of the root directory becomes a multiple of the block size. -/
def fixRoot (m : State) : State :=
  let din := rinode m.image ROOTINO
  let off := (din.size.toNat / BSIZE + 1) * BSIZE
  { m with image := winode m.image ROOTINO { din with size := .ofNat off } }

/-- The image before the size of the root directory is changed and the bitmap is written. -/
def populate (files : List HostFile) : Except Abort State := do
  let (rootino, m) := ialloc format T_DIR
  if rootino = ROOTINO then
    let m ← iappend m rootino (dirent rootino.toUInt16 [46])
    let m ← iappend m rootino (dirent rootino.toUInt16 [46, 46])
    files.foldlM addFile m
  else .error .rootino

def main (files : List HostFile) : Except Abort State := do
  let m ← populate files
  balloc (fixRoot m)

/-! ## What the kernel expects of the image -/

/-- The number of blocks of a file of `size` bytes, with the indirect one. -/
def blocksFor (size : Nat) : Nat := (size + BSIZE - 1) / BSIZE + if NDIRECT * BSIZE < size then 1 else 0

/-- The blocks for metadata, for the root directory and for the files. -/
def blocksNeeded (files : List HostFile) : Nat :=
  nmeta + (blocksFor (16 * (files.length + 2)) + (files.map fun f => blocksFor f.bytes.length).sum)

/-- The image is a file system of the kernel, in which the inodes behind the root directory are the files. -/
structure ImageAgrees (files : List HostFile) (m : State) : Prop where
  superblock : fsinit m.image = .ok sb
  contents : ∀ k f, files[k]? = some f → ∀ off n : UInt32, off.toNat + n.toNat < 2 ^ 32 →
    let ip := sb.dinodes m.image (.ofNat (k + 2))
    let bytes := (f.bytes.drop off.toNat).take n.toNat
    readi sb m.image ip (fun _ => true) off n = .ok (bytes.length, bytes, m.image, ip)
  bitmap : ∀ b : UInt32, b.toNat < FSSIZE → (sb.bit m.image b ↔ b.toNat < m.freeblock)
  once : ∀ b : UInt32, nmeta ≤ b.toNat → b.toNat < m.freeblock → ∃! p, sb.refs m.image (sb.dinodes m.image) p = b
  mapped : ∀ inum < sb.ninodes, ∀ bn < ((sb.dinodes m.image inum).size.toNat + BSIZE - 1) / BSIZE,
    (sb.dinodes m.image inum).blockAt m.image bn ≠ 0 ∧ sb.InUse m.image ((sb.dinodes m.image inum).blockAt m.image bn)

end Mkfs

end Xv6Net.Fs
