import Xv6Net.Net.Demux

/-!
# What becomes of a received frame

Every frame ends in one of three ways: nothing of it is kept, a page of it is lost, or its datagram is appended to the
queue of a socket.
-/

namespace Xv6Net.Net

open Kernel Lib

/-! ## The queues -/

/-- The pointers of socket `s` stand for the list of pages `qs s`, and no page is in two queues. -/
structure Queues (h : Host) (qs : Nat → List Nat) : Prop where
  queue : ∀ s, IsQueue (fun p => (h.udpFrames p).next) (h.socks s).rxHead (h.socks s).rxTail (qs s)
  disjoint : ∀ s t, ∀ p ∈ qs s, p ∈ qs t → s = t

/-- The queues stand for `qs`, and the pages in them are not on the free list. -/
structure Sane (h : Host) (qs : Nat → List Nat) : Prop where
  queues : Queues h qs
  used : ∀ s, ∀ p ∈ qs s, p ∉ h.kmem.freelist
  nodup : h.kmem.freelist.Nodup

/-- Nothing was appended: the queues and the packets in them are the same. -/
def Unchanged (h h' : Host) (qs : Nat → List Nat) : Prop :=
  Queues h' qs ∧ ∀ t, ∀ p ∈ qs t, (h'.udpFrames p).toDatagram = (h.udpFrames p).toDatagram

/-- The datagram `d` was appended to the queue of `s`, and nothing else changed in the queues. -/
def Appended (h h' : Host) (qs : Nat → List Nat) (s : Nat) (d : Datagram) : Prop :=
  ∃ p, Queues h' (Function.update qs s (qs s ++ [p])) ∧ (h'.udpFrames p).toDatagram = d ∧
    ∀ t, ∀ q ∈ qs t, (h'.udpFrames q).toDatagram = (h.udpFrames q).toDatagram

/-- The socket whose queue a packet for `port` goes to. -/
def Host.deliversTo (h : Host) (port : UInt16) : Option Nat :=
  (h.boundTo port).filter fun s => (h.socks s).proto = IPPROTO_UDP

/-! ## How a frame ends -/

inductive Verdict where
  | kept
  | leaked
  | delivered (sock : Nat) (d : Datagram)

/-- How a UDP or TCP packet ends. -/
def ip4Verdict (h : Host) (ip : Ip4Frame) : Verdict :=
  if ip.hdr.protocol.toNat = IPPROTO_TCP then .leaked
  else if ip.hdr.protocol.toNat = IPPROTO_UDP then
    match parseUdpPacket ip.payload ip.payloadLen.toNat with
    | none => .leaked
    | some d =>
        match h.deliversTo d.hdr.dstPort with
        | none => .leaked
        | some s => .delivered s d
  else .kept

def verdict (h : Host) (f : EthFrame) : Verdict :=
  if ntohs f.hdr.type = PROTO_IPV4 then
    match parseIp4Packet f.payload f.payloadLen.toNat with
    | none => .kept
    | some ip => ip4Verdict h ip
  else if ntohs f.hdr.type = PROTO_ARP then
    if ntohs (ArpPkt.decode f.payload).oper = ARP_OP_REQUEST then .leaked else .kept
  else .kept

/-- How often `kalloc` is called for a frame, `handle_packet`'s own two calls included. -/
def kallocCalls (h : Host) (f : EthFrame) : Nat :=
  2 + if ntohs f.hdr.type = PROTO_IPV4 then
        match parseIp4Packet f.payload f.payloadLen.toNat with
        | none => 0
        | some ip =>
            if ip.hdr.protocol.toNat = IPPROTO_TCP ∨ ip.hdr.protocol.toNat = IPPROTO_UDP then 1 else 0
      else if ntohs f.hdr.type = PROTO_ARP then
        let pkt := ArpPkt.decode f.payload
        if ntohs pkt.oper = ARP_OP_REQUEST then
          if pkt.tpa = h.netconf.ipAddr ∨ pkt.tpa = 0xFFFFFFFF then 2 else 1
        else 0
      else 0

/-- `handle_packet` appends one datagram to the queue of `s` and changes no other queue; ports and payload are the
given ones. -/
def Delivers (h : Host) (qs : Nat → List Nat) (frame : List UInt8) (s : Nat) (srcPort dstPort : UInt16)
    (payload : List UInt8) : Prop :=
  ∃ h' d, handlePacket h frame = .ok h' ∧ Appended h h' qs s d ∧ d.hdr.srcPort = srcPort ∧
    d.hdr.dstPort = dstPort ∧ d.payloadLen = payload.length ∧ d.payload = payload

/-- ARP requests, TCP packets, and UDP packets that are malformed or for a port without a UDP socket. -/
def Leaks (h : Host) (f : EthFrame) : Prop :=
  (ntohs f.hdr.type = PROTO_ARP ∧ ntohs (ArpPkt.decode f.payload).oper = ARP_OP_REQUEST) ∨
    ntohs f.hdr.type = PROTO_IPV4 ∧ ∃ ip, parseIp4Packet f.payload f.payloadLen.toNat = some ip ∧
      (ip.hdr.protocol.toNat = IPPROTO_TCP ∨ ip.hdr.protocol.toNat = IPPROTO_UDP ∧
        ∀ d, parseUdpPacket ip.payload ip.payloadLen.toNat = some d → h.deliversTo d.hdr.dstPort = none)

/-- `handle_packet` returns with as many free pages as before, or one fewer if it appended a datagram to a queue. -/
def ConservesPages (h : Host) (qs : Nat → List Nat) (packet : List UInt8) : Prop :=
  ∃ h', handlePacket h packet = .ok h' ∧
    (Unchanged h h' qs ∧ h'.kmem.freelist.length = h.kmem.freelist.length ∨
      (∃ s d, Appended h h' qs s d) ∧ h'.kmem.freelist.length + 1 = h.kmem.freelist.length)

def frameStep (h : Host) (packet : List UInt8) : Option Host := (handlePacket h packet).toOption

/-- The frame can be parsed, is not queued and does not lose a page. -/
def Harmless (h : Host) (packet : List UInt8) : Prop :=
  ∃ f, parseEthPacket packet = .ok f ∧ ¬ Leaks h f ∧ ∀ s d, verdict h f ≠ .delivered s d

/-! ## What a frame carries -/

/-- The length of an IPv4 header, from its first byte. -/
def hdrLen (ip : List UInt8) : Nat := (byteAt ip 0 &&& 0x0F).toNat * 4

end Xv6Net.Net
