import Xv6Net.Net.Stack

/-!
# What the receive path reads and where it stores

Two things are kept of the way of a frame through the parsers: its copies, by their place in the received bytes, and
the values that the code goes on with. The structures that frames are parsed from lie in larger pages. What stands in
a page behind the bytes that were copied there is a parameter here, so that the use of such bytes shows. The code
clears the pages, which is the case that nothing is appended.
-/

namespace Xv6Net.Net

open Kernel Lib

/-- The size of the payload of each frame structure. -/
def PAYLOAD_SIZE : Nat := 1500

/-- `n` bytes are copied from offset `src` of the received bytes to the start of an array of `size` bytes. -/
structure Copy where
  src : Nat
  n : Nat
  size : Nat

def Copy.InBounds (c : Copy) (len : Nat) : Prop := c.src + c.n ≤ len ∧ c.n ≤ c.size

instance (c : Copy) (len : Nat) : Decidable (c.InBounds len) := inferInstanceAs (Decidable (_ ∧ _))

/-- The fields that `arp_recv` looks at. A packet with another operation is printed. -/
inductive ArpUse where
  | request (sha : Mac) (spa tpa : UInt32)
  | reply (sha : Mac) (spa : UInt32)
  | printed (pkt : ArpPkt)
deriving DecidableEq

def ArpPkt.used (pkt : ArpPkt) : ArpUse :=
  if ntohs pkt.oper = ARP_OP_REQUEST then .request pkt.sha pkt.spa pkt.tpa
  else if ntohs pkt.oper = ARP_OP_REPLY then .reply pkt.sha pkt.spa
  else .printed pkt

/-- The segment in an IPv4 packet; `none` stands for one that is rejected. -/
inductive Segment where
  | tcp (pkt : Option TcpFrame)
  | udp (pkt : Option Datagram)
  | other

def Ip4Frame.segment (ip : Ip4Frame) (behind : List UInt8) : Segment :=
  if ip.hdr.protocol.toNat = IPPROTO_TCP then .tcp (parseTcpPacket (ip.payload ++ behind) ip.payloadLen.toNat)
  else if ip.hdr.protocol.toNat = IPPROTO_UDP then .udp (parseUdpPacket (ip.payload ++ behind) ip.payloadLen.toNat)
  else .other

inductive Parsed where
  | ip4 (pkt : Option (Ip4Frame × Segment))
  | arp (use : ArpUse)
  | other

/-- What `handle_packet` goes on with, if `behind` and `behind'` stand behind the bytes in the pages of the Ethernet
frame and of the IPv4 packet. -/
def EthFrame.parsed (f : EthFrame) (behind behind' : List UInt8) : Parsed :=
  if ntohs f.hdr.type = PROTO_IPV4 then
    .ip4 ((parseIp4Packet (f.payload ++ behind) f.payloadLen.toNat).map fun ip => (ip, ip.segment behind'))
  else if ntohs f.hdr.type = PROTO_ARP then .arp (ArpPkt.decode (f.payload ++ behind)).used
  else .other

/-- The copy of a payload that starts `skipped` bytes behind offset `base`. -/
def payloadCopy (base skipped n : Nat) : Copy := ⟨base + skipped, n, PAYLOAD_SIZE⟩

/-- The copies of the parser of a segment that starts at offset `base`. -/
def Segment.copies (base : Nat) : Segment → List Copy
  | .tcp (some pkt) => [payloadCopy base (pkt.hdr.dataOffset.toNat * 4) pkt.payloadLen]
  | .udp (some pkt) => [payloadCopy base UDP_HDR_SIZE pkt.payloadLen]
  | .tcp none | .udp none | .other => []

/-- The copies for an Ethernet payload that starts at offset `base`. `arp_insert` copies the address of the sender. -/
def Parsed.copies (base : Nat) : Parsed → List Copy
  | .ip4 (some (ip, seg)) =>
      let hdrLen := (ip.hdr.verIhl &&& 0x0F).toNat * 4
      payloadCopy base hdrLen ip.payloadLen.toNat :: seg.copies (base + hdrLen)
  | .arp (.request ..) | .arp (.reply ..) => [⟨base + 8, 6, 6⟩]
  | .ip4 none | .arp (.printed _) | .other => []

/-- The copies of the whole receive path; those of `parse_eth_packet` are made for every frame. -/
def receiveCopies (packet : List UInt8) : List Copy :=
  let payloadLen : UInt16 := .ofNat packet.length - 14
  ⟨0, ETH_HDR_SIZE, ETH_HDR_SIZE⟩ :: payloadCopy 0 ETH_HDR_SIZE payloadLen.toNat ::
    match parseEthPacket packet with
    | .error _ => []
    | .ok f => (f.parsed [] []).copies ETH_HDR_SIZE

/-- All copies are from inside the received bytes to inside of an array, and nothing depends on other bytes. -/
structure ReceiveSafe (packet : List UInt8) : Prop where
  copies : ∀ c ∈ receiveCopies packet, c.InBounds packet.length
  parsed : ∀ f, parseEthPacket packet = .ok f → ∀ behind behind', f.parsed behind behind' = f.parsed [] []

end Xv6Net.Net
