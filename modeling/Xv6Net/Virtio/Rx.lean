import Mathlib.Logic.Function.Iterate
import Xv6Net.Lib.Run
import Xv6Net.Virtio.Virtq

/-!
# The receive queue: `virtio_net_init` and `receive_packet` beside a conforming device

`receive_packet` is cut at every point where the device can see or change the rings: the loop test, the call of
`handle_packet` (made with the lock released), `used_idx++`, the write to the available ring, and its index. The
device takes available heads in ring order, writes the buffer of a chain it holds, and pushes a held head on the
used ring, in any order among the ones it holds. Two histories are kept beside the state of the driver: the used
elements pushed so far and those `handle_packet` was called for.
-/

namespace Xv6Net.Virtio

open Kernel

/-- One round of the loop in `virtio_net_init` that fills the receive queue. Two descriptors make a chain whose
head carries the header page and whose second descriptor the buffer. -/
def rxFill (q : Virtq) (k : Kmem) : Except Stop (Virtq × Kmem) :=
  match allocDesc q with
  | (some hdrDesc, q) =>
      match allocDesc q with
      | (some rxDesc, q) =>
          match kalloc k with
          | (some rxbuf, k) =>
              let (hdr, k) := kalloc k
              let desc := Function.update q.desc hdrDesc ⟨hdr.getD 0, HDR_SIZE, VRING_DESC_F_NEXT, rxDesc⟩
              -- `next` of the second descriptor is not written
              let desc := Function.update desc rxDesc
                { desc rxDesc with addr := rxbuf, len := PGSIZE, flags := VRING_DESC_F_WRITE }
              .ok (({ q with desc := desc }.setAvail hdrDesc).bumpAvail, k)
          | (none, _) => .error (.panic "rxbuf alloc failed")
      | (none, _) => .error .fault
  | (none, _) => .error .fault

/-- `n` rounds of `rxFill`. -/
def rxFillLoop : Nat → Virtq → Kmem → Except Stop (Virtq × Kmem)
  | 0, q, k => .ok (q, k)
  | n + 1, q, k => do
      let (q, k) ← rxFill q k
      rxFillLoop n q k

/-- The receive queue that `virtio_net_init` hands to the device. -/
def rxInit (k : Kmem) : Except Stop (Virtq × Kmem) := rxFillLoop (NUM / 2) Virtq.zero k

/-- Where a call of `receive_packet` stands; `idle` is between two calls. -/
inductive RxPc where
  | idle
  /-- before the loop test, the lock held -/
  | test
  /-- inside `handle_packet`, the lock released -/
  | handle (id : Nat)
  /-- after `used_idx++`, before the write to the available ring -/
  | requeue (id : Nat)
  /-- after that write, before the index moves -/
  | publish (id : Nat)
deriving DecidableEq, Repr

/-- The driver's receive side, the device and the two histories. -/
structure RxSys where
  q : Virtq
  pc : RxPc
  /-- how many available entries the device has taken; it keeps this count modulo 2^16 -/
  taken : Nat
  /-- heads the device holds -/
  held : List Nat
  /-- contents of the receive buffers, by address -/
  mem : Nat → List UInt8
  pushLog : List VirtqUsedElem
  handleLog : List VirtqUsedElem

def RxSys.boot (q : Virtq) (mem : Nat → List UInt8) : RxSys := ⟨q, .idle, 0, [], mem, [], []⟩

/-- The address `receive_packet` gives to `handle_packet` lies in this page. -/
def Virtq.rxBuf (q : Virtq) (head : Nat) : Nat := (q.desc (q.desc head).next).addr

/-- `net.rxq.used_idx != net.rxq.device_area->idx`, both sides converted to `int`. -/
def Virtq.rxPending (q : Virtq) : Bool := q.usedIdx != q.deviceArea.idx.toNat

/-- The used element the loop reads. -/
def Virtq.rxElem (q : Virtq) : VirtqUsedElem := q.deviceArea.ring (q.usedIdx % NUM)

/-- One step of the driver. From `idle` it is a new call of `receive_packet`. -/
def driverStep (s : RxSys) : RxSys :=
  match s.pc with
  | .idle => { s with pc := .test }
  | .test =>
      if s.q.rxPending then
        { s with pc := .handle s.q.rxElem.id, handleLog := s.handleLog ++ [s.q.rxElem] }
      else { s with pc := .idle }
  | .handle id => { s with pc := .requeue id, q := { s.q with usedIdx := s.q.usedIdx + 1 } }
  | .requeue id => { s with pc := .publish id, q := s.q.setAvail id }
  | .publish _ => { s with pc := .test, q := s.q.bumpAvail }

/-- Who moves: the driver, or the device taking, writing or returning a chain. -/
inductive RxAct where
  | driver
  | take
  | write (head : Nat) (bytes : List UInt8)
  | push (head : Nat) (len : Nat)
deriving DecidableEq, Repr

def rxStep (s : RxSys) : RxAct → Option RxSys
  | .driver => some (driverStep s)
  | .take =>
      if UInt16.ofNat s.taken = s.q.driverArea.idx then none
      else some { s with
        taken := s.taken + 1
        held := s.held ++ [s.q.driverArea.ring ((UInt16.ofNat s.taken).toNat % NUM)] }
  | .write head bytes =>
      if head ∈ s.held then some { s with mem := Function.update s.mem (s.q.rxBuf head) bytes } else none
  | .push head len =>
      if head ∈ s.held then
        some { s with
          held := s.held.erase head
          q := s.q.pushUsed ⟨head, len⟩
          pushLog := s.pushLog ++ [⟨head, len⟩] }
      else none

/-! ## The four places a receive chain can be in -/

/-- Entries of the available ring the device has not taken. -/
def RxSys.published (s : RxSys) : List Nat :=
  (List.range (s.q.driverArea.idx - UInt16.ofNat s.taken).toNat).map fun i =>
    s.q.driverArea.ring ((s.taken + i) % NUM)

/-- The chain that `receive_packet` is busy with. -/
def RxSys.handling (s : RxSys) : List Nat :=
  match s.pc with
  | .handle id | .requeue id | .publish id => [id]
  | _ => []

/-- The number of the first used entry `receive_packet` has not picked up. -/
def RxSys.nextUsed (s : RxSys) : Nat :=
  match s.pc with
  | .handle _ => s.q.usedIdx + 1
  | _ => s.q.usedIdx

/-- Heads in the used ring that `receive_packet` has not picked up. -/
def RxSys.returned (s : RxSys) : List Nat :=
  (List.range (s.q.deviceArea.idx - UInt16.ofNat s.nextUsed).toNat).map fun i =>
    (s.q.deviceArea.ring ((s.nextUsed + i) % NUM)).id

/-- The heads of the `NUM/2` receive chains: every second descriptor. -/
def rxHeads : List Nat := (List.range (NUM / 2)).map (2 * ·)

/-- Every receive chain is in exactly one of the four places. -/
def RxSys.Owned (s : RxSys) : Prop :=
  (s.published ++ s.held ++ s.returned ++ s.handling).Perm rxHeads

/-- No entry that is pending before the step, in either ring, is overwritten by it. -/
def RxSys.PendingKept (s t : RxSys) : Prop :=
  (∀ i, i < (s.q.driverArea.idx - UInt16.ofNat s.taken).toNat →
    t.q.driverArea.ring ((s.taken + i) % NUM) = s.q.driverArea.ring ((s.taken + i) % NUM)) ∧
  (∀ i, i < (s.q.deviceArea.idx - UInt16.ofNat s.nextUsed).toNat →
    t.q.deviceArea.ring ((s.nextUsed + i) % NUM) = s.q.deviceArea.ring ((s.nextUsed + i) % NUM))

/-- The page `handle_packet` is parsing belongs to no chain the device may write. -/
def RxSys.ParsedBufferSafe (s : RxSys) : Prop :=
  ∀ id, s.pc = .handle id → ∀ h ∈ s.published ++ s.held, s.q.rxBuf h ≠ s.q.rxBuf id

end Xv6Net.Virtio
