import Xv6Net.Lib.Run
import Xv6Net.Virtio.Virtq

/-!
# Concurrent calls of `transmit_packet` beside a conforming device

Any number of calls run at once. Call `c` sends `data c`, its `pkt_data[0..pkt_len)`. The section under `vnet_lock`
is cut where the device can act: taking the descriptors, filling `packet_buf` and the descriptors, publishing, and
reading the used index (with the notification). Polling and the two calls of `free_desc` follow without the lock.

The device takes available chains in order, reads the buffers of a chain it has taken and sends the frame, and
pushes the used element of a chain it has read.
-/

namespace Xv6Net.Virtio

open Kernel

/-- The data of one call; `packet_buf`, to which it is copied, is one page. -/
structure Packet where
  bytes : List UInt8
  fits : bytes.length ≤ PGSIZE

-- Where a call stands. The two numbers are `hdr_desc` and `pkt_desc`, the third the page of the header.
inductive TxPc where
  | start
  | alloced (hdr pkt page : Nat)
  | copied (hdr pkt : Nat)
  | queued (hdr pkt : Nat)
  | polling (hdr pkt : Nat) (prevUsedIdx : UInt16)
  | freeHdr (hdr pkt : Nat)
  | freePkt (pkt : Nat)
  | done
  | dropped
  | panicked (e : Stop)
deriving DecidableEq, Repr

-- A chain the device has taken and not yet returned, with the frame once its buffers are read.
structure TxJob where
  seq : Nat
  head : Nat
  frame : Option (List UInt8)
deriving DecidableEq, Repr

/-- What the device has done. Publications are numbered from 0, and `sent` and `consumed` record these numbers. -/
structure TxLog where
  -- calls in the order of publication, each with the head it published
  published : List (Nat × Nat)
  taken : Nat
  jobs : List TxJob
  sent : List (Nat × List UInt8)
  consumed : List Nat

structure TxSys where
  q : Virtq
  kmem : Kmem
  -- the page `packet_buf` points to, shared by all calls
  packetBuf : Nat
  -- contents of pages, by address
  mem : Nat → List UInt8
  -- holder of `vnet_lock`
  lock : Option Nat
  pc : Nat → TxPc
  log : TxLog

/-- The state `virtio_net_init` leaves for sending; `packet_buf` is the last page it allocates. -/
def TxSys.boot (kmem : Kmem) (packetBuf : Nat) (mem : Nat → List UInt8) : TxSys where
  q := Virtq.zero
  kmem := kmem
  packetBuf := packetBuf
  mem := mem
  lock := none
  pc := fun _ => .start
  log := ⟨[], 0, [], [], []⟩

def TxSys.setPc (s : TxSys) (c : Nat) (pc : TxPc) : TxSys := { s with pc := Function.update s.pc c pc }

def TxSys.copyPacket (s : TxSys) (data : Packet) : TxSys :=
  { s with mem := Function.update s.mem s.packetBuf (data.bytes ++ (s.mem s.packetBuf).drop data.bytes.length) }

/-- The two descriptors of a chain, as `transmit_packet` fills them. -/
def Virtq.fillTx (q : Virtq) (hdr pkt page packetBuf pktLen : Nat) : Virtq :=
  let desc := Function.update q.desc hdr ⟨page, HDR_SIZE, (q.desc hdr).flags ||| VRING_DESC_F_NEXT, pkt⟩
  { q with desc := Function.update desc pkt { desc pkt with len := pktLen, addr := packetBuf, flags := 0 } }

/-- `acquire` up to the second `alloc_desc`. Without two descriptors the call returns: the header page and the
descriptor it may have got stay taken. -/
def txEnter (s : TxSys) (c : Nat) : TxSys :=
  match kalloc s.kmem with
  | (none, k) => { s with kmem := k, lock := some c }.setPc c (.panicked (.panic "failed to allocate header\n"))
  | (some page, k) =>
      let s := { s with kmem := k, mem := Function.update s.mem page (List.replicate PGSIZE 0) }
      match allocDesc s.q with
      | (hdrDesc, q) =>
          match allocDesc q with
          | (pktDesc, q) =>
              match hdrDesc, pktDesc with
              | some hdr, some pkt => { s with q := q, lock := some c }.setPc c (.alloced hdr pkt page)
              | _, _ => { s with q := q }.setPc c .dropped

/-- The next step of call `c`. A call that waits for the lock or for the used index has none. -/
def txCall (data : Nat → Packet) (s : TxSys) (c : Nat) : Option TxSys :=
  match s.pc c with
  | .start => if s.lock.isSome then none else some (txEnter s c)
  | .alloced hdr pkt page =>
      some (({ s with q := s.q.fillTx hdr pkt page s.packetBuf (data c).bytes.length }.copyPacket (data c)).setPc c
        (.copied hdr pkt))
  | .copied hdr pkt =>
      some ({ s with
        q := (s.q.setAvail hdr).bumpAvail
        log := { s.log with published := s.log.published ++ [(c, hdr)] } }.setPc c (.queued hdr pkt))
  | .queued hdr pkt => some ({ s with lock := none }.setPc c (.polling hdr pkt s.q.deviceArea.idx))
  | .polling hdr pkt prevUsedIdx =>
      if s.q.deviceArea.idx = prevUsedIdx then none else some (s.setPc c (.freeHdr hdr pkt))
  | .freeHdr hdr pkt =>
      match freeDesc s.q hdr with
      | .ok q => some ({ s with q := q }.setPc c (.freePkt pkt))
      | .error e => some (s.setPc c (.panicked e))
  | .freePkt pkt =>
      match freeDesc s.q pkt with
      | .ok q => some ({ s with q := q }.setPc c .done)
      | .error e => some (s.setPc c (.panicked e))
  | .done | .dropped | .panicked _ => none

/-- The bytes of the descriptor chain from `i` on; a chain has at most `NUM` descriptors. -/
def chainBytes (desc : Nat → VirtqDesc) (mem : Nat → List UInt8) : Nat → Nat → List UInt8
  | 0, _ => []
  | fuel + 1, i =>
      (mem (desc i).addr).take (desc i).len ++
        if (desc i).flags &&& VRING_DESC_F_NEXT = 0 then [] else chainBytes desc mem fuel (desc i).next

/-- The frame the device sends for a chain: its bytes after the virtio header. -/
def TxSys.frameOf (s : TxSys) (head : Nat) : List UInt8 := (chainBytes s.q.desc s.mem NUM head).drop HDR_SIZE

inductive TxAct where
  | call (c : Nat)
  | take
  | read (seq : Nat)
  | push (seq : Nat)
deriving DecidableEq, Repr

def txStep (data : Nat → Packet) (s : TxSys) : TxAct → Option TxSys
  | .call c => txCall data s c
  | .take =>
      let head := s.q.driverArea.ring ((UInt16.ofNat s.log.taken).toNat % NUM)
      if UInt16.ofNat s.log.taken = s.q.driverArea.idx then none
      else some { s with log := { s.log with
        taken := s.log.taken + 1
        jobs := s.log.jobs ++ [⟨s.log.taken, head, none⟩] } }
  | .read seq =>
      match s.log.jobs.find? (fun j => j.seq == seq && j.frame.isNone) with
      | some j =>
          some { s with log := { s.log with
            jobs := s.log.jobs.map fun i => if i = j then { j with frame := some (s.frameOf j.head) } else i
            sent := s.log.sent ++ [(j.seq, s.frameOf j.head)] } }
      | none => none
  | .push seq =>
      match s.log.jobs.find? (fun j => j.seq == seq && j.frame.isSome) with
      | some j =>
          some { s with
            q := s.q.pushUsed ⟨j.head, 0⟩
            log := { s.log with jobs := s.log.jobs.erase j, consumed := s.log.consumed ++ [j.seq] } }
      | none => none

/-! ## What transmission promises -/

/-- Publication number `seq` was made by call `c`. -/
def TxLog.Published (l : TxLog) (c seq : Nat) : Prop := ∃ head, l.published[seq]? = some (c, head)

/-- The device has returned the chain of call `c`. -/
def TxLog.Consumed (l : TxLog) (c : Nat) : Prop := ∃ seq ∈ l.consumed, l.Published c seq

/-- How often a frame was sent for a chain that call `c` published. -/
def TxLog.sentCount (l : TxLog) (c : Nat) : Nat :=
  l.sent.countP fun m => (l.published[m.1]?).map Prod.fst == some c

/-- The device has returned every chain published so far. -/
def TxLog.Quiet (l : TxLog) : Prop := l.consumed.length = l.published.length

/-- The call has begun to give its descriptors back. -/
def TxPc.Freeing : TxPc → Prop
  | .freeHdr _ _ | .freePkt _ | .done => True
  | _ => False

/-- Every frame sent is the data of the call that published its chain; a call is sent at most once, and exactly
once when it is past polling or when the device has returned every chain; no call frees a descriptor before the
device has returned its own chain. -/
structure TxSys.Integrity (data : Nat → Packet) (s : TxSys) : Prop where
  frames : ∀ m ∈ s.log.sent, ∃ c, s.log.Published c m.1 ∧ m.2 = (data c).bytes
  at_most_once : ∀ c, s.log.sentCount c ≤ 1
  once : ∀ c, (s.pc c).Freeing → s.log.sentCount c = 1
  all_sent : s.log.Quiet → ∀ c seq, s.log.Published c seq → s.log.sentCount c = 1
  freed_after : ∀ c, (s.pc c).Freeing → s.log.Consumed c

/-- The condition on a step: a call that enters the locked section finds every chain published so far returned by
the device, or finds no two free descriptors. -/
def TxCalm (s : TxSys) : TxAct → Prop
  | .call c => s.pc c = .start → s.log.Quiet ∨ (allocDesc (allocDesc s.q).2).1 = none
  | _ => True

instance (s : TxSys) : ∀ a, Decidable (TxCalm s a)
  | .call c => inferInstanceAs (Decidable (s.pc c = .start →
      s.log.consumed.length = s.log.published.length ∨ (allocDesc (allocDesc s.q).2).1 = none))
  | .take | .read _ | .push _ => isTrue trivial

/-! ## What becomes of the descriptors -/

/-- The call has begun and has not returned. A call that stopped the kernel never returns. -/
def TxPc.InProgress : TxPc → Prop
  | .start | .done | .dropped => False
  | _ => True

def freeDescs (q : Virtq) : List Nat := (List.range NUM).filter q.free

/-- The condition on a step: a call that enters the locked section does not find exactly one free descriptor. -/
def TxPaired (s : TxSys) : TxAct → Prop
  | .call c => s.pc c = .start → (freeDescs s.q).length ≠ 1
  | _ => True

instance decidableTxPaired (s : TxSys) : ∀ a, Decidable (TxPaired s a)
  | .call c => inferInstanceAs (Decidable (s.pc c = .start → _))
  | .take | .read _ | .push _ => isTrue trivial

end Xv6Net.Virtio
