import Xv6Net.Kernel.Kalloc
import Xv6Net.Lib.Dlist
import Xv6Net.Lib.Run

/-!
# The buffer cache (`bio.c`)

Each step is what a process does under one lock: the part of `bget`, `brelse`, `bpin` or `bunpin` under
`bcache.lock`, `acquiresleep` and `releasesleep` of a buffer, and what `bread` does with the buffer locked. References
to buffers are numbered. A reference knows the block that it was taken for, which the code does not store.
-/

namespace Xv6Net.Fs

open Kernel Lib

def NBUF : Nat := 30

structure Buf where
  valid : Bool
  dev : UInt32
  blockno : UInt32
  locked : Bool
  refcnt : UInt32
deriving DecidableEq

def Buf.key (b : Buf) : UInt32 × UInt32 := (b.dev, b.blockno)

/-- `bcache`, with `none` for the address of its head. -/
structure Bcache where
  buf : Fin NBUF → Buf
  links : Links (Fin NBUF)

def Bcache.set (c : Bcache) (i : Fin NBUF) (b : Buf) : Bcache := { c with buf := Function.update c.buf i b }

def binit : Bcache where
  buf := fun _ => ⟨false, 0, 0, false, 0⟩
  links := (List.finRange NBUF).foldl Links.pushFront .empty

/-- `bget` up to the release of `bcache.lock`. -/
def bget (c : Bcache) (dev blockno : UInt32) : Except Stop (Fin NBUF × Bcache) :=
  match search c.links.next (fun i => (c.buf i).dev == dev && (c.buf i).blockno == blockno) (NBUF + 1)
      (c.links.next none) with
  | some i => .ok (i, c.set i { c.buf i with refcnt := (c.buf i).refcnt + 1 })
  | none =>
      match search c.links.prev (fun i => (c.buf i).refcnt == 0) (NBUF + 1) (c.links.prev none) with
      | some i => .ok (i, c.set i { c.buf i with dev := dev, blockno := blockno, valid := false, refcnt := 1 })
      | none => .error (.panic "bget: no buffers")

/-- `brelse` from where it takes `bcache.lock`. -/
def brelse (c : Bcache) (i : Fin NBUF) : Bcache :=
  let b := { c.buf i with refcnt := (c.buf i).refcnt - 1 }
  if b.refcnt = 0 then { c.set i b with links := (c.links.unlink i).pushFront i } else c.set i b

def bpin (c : Bcache) (i : Fin NBUF) : Bcache := c.set i { c.buf i with refcnt := (c.buf i).refcnt + 1 }

def bunpin (c : Bcache) (i : Fin NBUF) : Bcache := c.set i { c.buf i with refcnt := (c.buf i).refcnt - 1 }

/-! ## Processes with buffers -/

/-- What a reference stands for: a call of `bread` that waits for the lock or has it, a buffer that `bread` has
returned, a call of `brelse` that has released the lock, and a pin. -/
inductive RefKind where
  | waiting
  | locked
  | holding
  | releasing
  | pinned
deriving DecidableEq

structure BufRef where
  buf : Fin NBUF
  dev : UInt32
  blockno : UInt32
  kind : RefKind
deriving DecidableEq

structure BioSys where
  cache : Bcache
  refs : List BufRef

def BioSys.start : BioSys := ⟨binit, []⟩

inductive BioAct where
  | bget (dev blockno : UInt32)
  | acquiresleep (r : Nat)
  | fill (r : Nat)
  | releasesleep (r : Nat)
  | brelse (r : Nat)
  | bpin (r : Nat)
  | bunpin (r : Nat)

/-- Reference `r`, if it is of this kind. -/
def BioSys.ref (s : BioSys) (r : Nat) (kind : RefKind) : Option BufRef := s.refs[r]?.filter (·.kind == kind)

/-- One step. A buffer is released and pinned while it is held, and a pin is removed once. A reference is only taken if
their number fits in `refcnt`. -/
def bioStep (s : BioSys) : BioAct → Option BioSys
  | .bget dev blockno =>
      match bget s.cache dev blockno with
      | .error _ => none
      | .ok (i, c) => if (c.buf i).refcnt = 0 then none else some ⟨c, s.refs ++ [⟨i, dev, blockno, .waiting⟩]⟩
  | .acquiresleep r => do
      let u ← s.ref r .waiting
      let b := s.cache.buf u.buf
      if b.locked then none
      else some ⟨s.cache.set u.buf { b with locked := true }, s.refs.set r { u with kind := .locked }⟩
  | .fill r => do
      let u ← s.ref r .locked
      let b := s.cache.buf u.buf
      some ⟨s.cache.set u.buf (if b.valid then b else { b with valid := true }),
        s.refs.set r { u with kind := .holding }⟩
  | .releasesleep r => do
      let u ← s.ref r .holding
      let b := s.cache.buf u.buf
      some ⟨s.cache.set u.buf { b with locked := false }, s.refs.set r { u with kind := .releasing }⟩
  | .brelse r => do
      let u ← s.ref r .releasing
      some ⟨brelse s.cache u.buf, s.refs.eraseIdx r⟩
  | .bpin r => do
      let u ← s.ref r .holding
      let c := bpin s.cache u.buf
      if (c.buf u.buf).refcnt = 0 then none else some ⟨c, s.refs ++ [{ u with kind := .pinned }]⟩
  | .bunpin r => do
      let u ← s.ref r .pinned
      some ⟨bunpin s.cache u.buf, s.refs.eraseIdx r⟩

/-! ## What the cache keeps -/

/-- The list through the head has every buffer once, in both directions. -/
def Bcache.Listed (c : Bcache) : Prop :=
  ∃ order : List (Fin NBUF), order.Nodup ∧ (∀ i, i ∈ order) ∧ Path c.links.next none order none ∧
    Path c.links.prev none order.reverse none

def Buf.Used (b : Buf) : Prop := b.valid = true ∨ b.refcnt ≠ 0

/-- No block is in two buffers. -/
def Bcache.Coherent (c : Bcache) : Prop :=
  ∀ i j, (c.buf i).Used → (c.buf j).Used → (c.buf i).key = (c.buf j).key → i = j

/-- No step takes a buffer with references for another block. -/
def BioSys.KeepsUsed (s : BioSys) : Prop :=
  ∀ a t, bioStep s a = some t → ∀ i, (s.cache.buf i).refcnt ≠ 0 →
    (t.cache.buf i).key = (s.cache.buf i).key ∧ ((s.cache.buf i).valid = true → (t.cache.buf i).valid = true)

/-- All references for one block are to the same buffer, and the buffer has the block. -/
def BioSys.SameBuffer (s : BioSys) : Prop :=
  (∀ u ∈ s.refs, (s.cache.buf u.buf).key = (u.dev, u.blockno)) ∧
    ∀ u ∈ s.refs, ∀ v ∈ s.refs, u.dev = v.dev → u.blockno = v.blockno → u.buf = v.buf

end Xv6Net.Fs
