import Xv6Net.Lib.Queue
import Xv6Net.Lib.Run
import Xv6Net.Net.Stack

/-!
# UDP sockets over whole runs

Binds, arrivals and reads happen in any order. An arrival is a parsed packet in a page that no packet still in the
system occupies. The logs say which packets arrived, to which socket their port was bound then, and which pages and
bytes were read from each socket.
-/

namespace Xv6Net.Net

open Kernel Lib

/-- The socket a destination port is bound to. -/
def Host.boundTo (h : Host) (port : UInt16) : Option Nat :=
  if port.toNat < MAX_PORT_BINDINGS then (h.udpPortBinds port.toNat).map (·.sock) else none

structure Arrival where
  page : Nat
  data : Datagram
  sock : Option Nat
deriving DecidableEq

structure DemuxSys where
  host : Host
  -- pages of arrived packets that were not dequeued
  live : List Nat
  arrived : List Arrival
  dequeued : Nat → List (Nat × List UInt8)

def DemuxSys.boot (h : Host) : DemuxSys := ⟨h, [], [], fun _ => []⟩

inductive DemuxAct where
  | bind (sock : Nat) (sockAddress : Option SockaddrIn) (addrlen : Nat)
  | arrive (page : Nat) (d : Datagram)
  | recv (sock : Nat) (len : Int) (mapped : Bool)

/-- One event. A packet whose handling faults is counted as arrived and is lost. A read is logged with the page that
`dequeue_udp_packet` has returned and the bytes that are passed to `copyout`. -/
def demuxStep (s : DemuxSys) : DemuxAct → Option DemuxSys
  | .bind sock sockAddress addrlen => some { s with host := (udpBind s.host sock sockAddress addrlen).2 }
  | .arrive page d =>
      if page = 0 ∨ page ∈ s.live then none
      else
        let t := { s with
          live := page :: s.live
          arrived := s.arrived ++ [⟨page, d, s.host.boundTo d.hdr.dstPort⟩] }
        match handleUdpPacket (s.host.storeFrame page d) page with
        | .ok (_, h) => some { t with host := h }
        | .error _ => some t
  | .recv sock len mapped =>
      match udpRecvfrom s.host sock len fun bytes => (mapped, bytes) with
      | some (.ok r) =>
          some { s with
            host := r.host
            live := s.live.erase r.pkt
            dequeued := Function.update s.dequeued sock (s.dequeued sock ++ [(r.pkt, r.dst)]) }
      | _ => none

/-- The nodes linked from `head` on. -/
def Host.Reaches (h : Host) (head : Option Nat) (ps : List Nat) : Prop :=
  Linked (fun p => (h.udpFrames p).next) head ps

/-- The packets that arrived for a socket, in order. -/
def arrivedFor (arrived : List Arrival) (sock : Nat) : List (Nat × Datagram) :=
  (arrived.filter fun a => a.sock = some sock).map fun a => (a.page, a.data)

/-- For every socket, the packets `done` that were dequeued followed by what is linked from `rx_head` are what arrived
for it, and the reads have got the pages and the bytes of `done`; the head is null iff the tail is; and the tail is the
last node. -/
def DemuxSys.Fifo (s : DemuxSys) : Prop :=
  ∀ sock, ∃ done ps, s.host.Reaches (s.host.socks sock).rxHead ps ∧
    done ++ ps.map (fun p => (p, (s.host.udpFrames p).toDatagram)) = arrivedFor s.arrived sock ∧
    s.dequeued sock = done.map (fun a => (a.1, a.2.bytes)) ∧
    ((s.host.socks sock).rxHead = none ↔ (s.host.socks sock).rxTail = none) ∧
    ∀ t, (s.host.socks sock).rxTail = some t → ps.getLast? = some t

/-- No port is bound and every queue is empty. -/
structure Host.AtBoot (h : Host) : Prop where
  unbound : ∀ port, h.udpPortBinds port = none
  empty : ∀ sock, (h.socks sock).rxHead = none ∧ (h.socks sock).rxTail = none

end Xv6Net.Net
