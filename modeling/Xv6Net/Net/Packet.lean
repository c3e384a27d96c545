import Xv6Net.Kernel.Kalloc
import Xv6Net.Lib.Bytes

/-!
# Frames and headers (`sys/eth.c`, `sys/ip4.c`, `sys/udp.c`, `sys/tcp.c`, `sys/net.c`)

A header that the kernel builds holds its fields as they stand in memory; `encode` is the memory of the packed
structure. A header that it parses holds them in host order. The buffers that are parsed were cleared before, so
they are lists of bytes with zeros behind; pages that frames are built in were not.
-/

namespace Xv6Net.Net

open Kernel Lib

/-! ## Byte order and checksums -/

def htons (hostshort : UInt16) : UInt16 := hostshort >>> 8 ||| hostshort <<< 8

def ntohs (netshort : UInt16) : UInt16 := netshort >>> 8 ||| netshort <<< 8

def ntohl (netlong : UInt32) : UInt32 :=
  (netlong &&& 0x000000FF) <<< 24 ||| (netlong &&& 0x0000FF00) <<< 8 |||
    (netlong &&& 0x00FF0000) >>> 8 ||| (netlong &&& 0xFF000000) >>> 24

def htonl (hostlong : UInt32) : UInt32 := ntohl hostlong

/-- The sum of the 16-bit words of a buffer, with a last odd byte as a word of its own. -/
def sumWords : List UInt8 → Nat
  | [] => 0
  | [a] => a.toNat
  | a :: b :: rest => a.toNat + 256 * b.toNat + sumWords rest

/-- The fold at the end of both checksums, on `unsigned long`. -/
def foldSum (cksum : Nat) : UInt16 :=
  let cksum := cksum / 65536 + cksum % 65536
  let cksum := cksum + cksum / 65536
  ~~~ UInt16.ofNat cksum

def chksum (hdr : List UInt8) : UInt16 := foldSum (sumWords hdr)

/-! ## Ethernet -/

def PROTO_IPV4 : UInt16 := 0x0800
def PROTO_ARP : UInt16 := 0x0806

abbrev Mac := Vector UInt8 6

def macAt (b : List UInt8) (i : Nat) : Mac := .ofFn fun j => byteAt b (i + j)

structure EthHdr where
  dstAddr : Mac
  srcAddr : Mac
  type : UInt16
deriving DecidableEq

def EthHdr.encode (h : EthHdr) : List UInt8 := h.dstAddr.toList ++ h.srcAddr.toList ++ bytes16 h.type

def ETH_HDR_SIZE : Nat := 14

/-- `struct eth_frame`; `payload_len` has 8 bits. The bytes of the payload from 1500 on overlap `payload_len` in the
structure, but what is parsed from a frame is at most the first 255 of them. -/
structure EthFrame where
  hdr : EthHdr
  payload : List UInt8
  payloadLen : UInt8

/-- `parse_eth_packet` into a cleared page. A packet shorter than a header gives a length of nearly 2^16. -/
def parseEthPacket (buf : List UInt8) : Except Stop EthFrame :=
  let payloadLen : UInt16 := .ofNat buf.length - 14
  if PGSIZE < ETH_HDR_SIZE + payloadLen.toNat then .error .overrun
  else .ok {
    hdr := ⟨macAt buf 0, macAt buf 6, load16 buf 12⟩
    payload := (buf.drop ETH_HDR_SIZE).take payloadLen.toNat
    payloadLen := payloadLen.toUInt8 }

def buildEth (eth : Nat → UInt8) (dst src : Mac) (type : UInt16) : Nat → UInt8 :=
  write eth 0 (EthHdr.encode ⟨dst, src, htons type⟩)

/-! ## IPv4 -/

def IPPROTO_TCP : Nat := 6
def IPPROTO_UDP : Nat := 17

structure Ip4Hdr where
  verIhl : UInt8
  tos : UInt8
  totalLen : UInt16
  identification : UInt16
  fragmentInfo : UInt16
  ttl : UInt8
  protocol : UInt8
  csum : UInt16
  srcIp : UInt32
  dstIp : UInt32
deriving DecidableEq

def Ip4Hdr.encode (h : Ip4Hdr) : List UInt8 :=
  [h.verIhl, h.tos] ++ bytes16 h.totalLen ++ bytes16 h.identification ++ bytes16 h.fragmentInfo ++
    [h.ttl, h.protocol] ++ bytes16 h.csum ++ bytes32 h.srcIp ++ bytes32 h.dstIp

def IP4_HDR_SIZE : Nat := 20

structure Ip4Frame where
  hdr : Ip4Hdr
  payload : List UInt8
  payloadLen : UInt16

/-- `parse_ip4_packet`; `none` stands for -1. -/
def parseIp4Packet (buf : List UInt8) (len : Nat) : Option Ip4Frame :=
  let hdr : Ip4Hdr := {
    verIhl := byteAt buf 0
    tos := byteAt buf 1
    totalLen := ntohs (load16 buf 2)
    identification := ntohs (load16 buf 4)
    fragmentInfo := ntohs (load16 buf 6)
    ttl := byteAt buf 8
    protocol := byteAt buf 9
    csum := ntohs (load16 buf 10)
    srcIp := ntohl (load32 buf 12)
    dstIp := ntohl (load32 buf 16) }
  let hdrLen := (hdr.verIhl &&& 0x0F).toNat * 4
  if hdrLen < 20 ∨ len < hdrLen then none
  else if len < hdr.totalLen.toNat then none
  else
    let payloadLen := UInt16.ofNat (len - hdrLen)
    some ⟨hdr, (buf.drop hdrLen).take payloadLen.toNat, payloadLen⟩

/-- The header `build_ip4` stores; the checksum is that of the header with a checksum of 0. -/
def ip4Header (src dst : UInt32) (proto : UInt8) (len : UInt16) : Ip4Hdr :=
  let hdr : Ip4Hdr := {
    verIhl := ((4 : UInt8) <<< 4) ||| 5
    tos := 0
    totalLen := htons len
    identification := htons 0
    fragmentInfo := htons 0
    ttl := 64
    protocol := proto
    csum := 0
    srcIp := htonl src
    dstIp := htonl dst }
  { hdr with csum := chksum hdr.encode }

/-- `build_ip4` at offset `ip` of a page. -/
def buildIp4 (page : Nat → UInt8) (ip : Nat) (src dst : UInt32) (proto : UInt8) (len : UInt16) : Nat → UInt8 :=
  write page ip (ip4Header src dst proto len).encode

/-! ## UDP -/

structure UdpHdr where
  srcPort : UInt16
  dstPort : UInt16
  len : UInt16
  csum : UInt16
deriving DecidableEq

def UdpHdr.encode (h : UdpHdr) : List UInt8 :=
  bytes16 h.srcPort ++ bytes16 h.dstPort ++ bytes16 h.len ++ bytes16 h.csum

def UDP_HDR_SIZE : Nat := 8

/-- The offset of `payload_len` in `struct udp_frame`, behind 1500 bytes of payload. -/
def UDP_PAYLOAD_LEN : Nat := 1508

/-- The part of `struct udp_frame` that a packet fills. -/
structure Datagram where
  hdr : UdpHdr
  payload : List UInt8
  payloadLen : Nat
deriving DecidableEq

/-- `parse_udp_packet`; `none` stands for -1. -/
def parseUdpPacket (buf : List UInt8) (len : Nat) : Option Datagram :=
  if len < 8 then none
  else
    let hdr : UdpHdr := {
      srcPort := ntohs (load16 buf 0)
      dstPort := ntohs (load16 buf 2)
      len := ntohs (load16 buf 4)
      csum := ntohs (load16 buf 6) }
    if hdr.len < 8 ∨ len < hdr.len.toNat then none
    else some ⟨hdr, (buf.drop UDP_HDR_SIZE).take (len - UDP_HDR_SIZE), len - UDP_HDR_SIZE⟩

/-- `udp_checksum`: the pseudo header, the header with a checksum of 0, and the payload. -/
def udpChecksum (srcIp dstIp : UInt32) (hdr : UdpHdr) (payload : List UInt8) : UInt16 :=
  let pseudo := bytes32 srcIp ++ bytes32 dstIp ++ [0, .ofNat IPPROTO_UDP] ++ bytes16 hdr.len
  foldSum (sumWords pseudo + sumWords hdr.encode + sumWords payload)

/-- The header `build_udp` stores. The destination port is stored as it is given. -/
def udpHeader (srcPort dstPort : UInt16) (payload : List UInt8) (srcIp dstIp : UInt32) : UdpHdr :=
  let hdr : UdpHdr := {
    srcPort := htons srcPort
    dstPort := dstPort
    len := htons (.ofNat (payload.length + UDP_HDR_SIZE))
    csum := 0 }
  { hdr with csum := udpChecksum srcIp dstIp hdr payload }

/-- `build_udp` at offset `udp` of a page. -/
def buildUdp (page : Nat → UInt8) (udp : Nat) (srcPort dstPort : UInt16) (payload : List UInt8)
    (srcIp dstIp : UInt32) : Nat → UInt8 :=
  let page := write page (udp + UDP_PAYLOAD_LEN) (bytes32 (.ofNat payload.length))
  let page := write page (udp + UDP_HDR_SIZE) payload
  write page udp (udpHeader srcPort dstPort payload srcIp dstIp).encode

/-! ## TCP -/

structure TcpHdr where
  srcPort : UInt16
  dstPort : UInt16
  seqNum : UInt32
  ackNum : UInt32
  dataOffset : UInt8
  flags : UInt8
  window : UInt16
  csum : UInt16
  urgentPtr : UInt16
deriving DecidableEq

def TcpHdr.encode (h : TcpHdr) : List UInt8 :=
  bytes16 h.srcPort ++ bytes16 h.dstPort ++ bytes32 h.seqNum ++ bytes32 h.ackNum ++ [h.dataOffset, h.flags] ++
    bytes16 h.window ++ bytes16 h.csum ++ bytes16 h.urgentPtr

def TCP_HDR_SIZE : Nat := 20

/-- The offset of `payload_len` in `struct tcp_frame`, behind 1500 bytes of payload. -/
def TCP_PAYLOAD_LEN : Nat := 1520

structure TcpFrame where
  hdr : TcpHdr
  payload : List UInt8
  payloadLen : Nat

/-- `parse_tcp_packet`; `none` stands for -1. -/
def parseTcpPacket (buf : List UInt8) (len : Nat) : Option TcpFrame :=
  if len < 20 then none
  else
    let hdr : TcpHdr := {
      srcPort := ntohs (load16 buf 0)
      dstPort := ntohs (load16 buf 2)
      seqNum := ntohl (load32 buf 4)
      ackNum := ntohl (load32 buf 8)
      dataOffset := (byteAt buf 12 >>> 4) &&& 0xF
      flags := byteAt buf 13
      window := ntohs (load16 buf 14)
      csum := ntohs (load16 buf 16)
      urgentPtr := ntohs (load16 buf 18) }
    let hdrLen := hdr.dataOffset.toNat * 4
    if hdrLen < 20 ∨ len < hdrLen then none
    else some ⟨hdr, (buf.drop hdrLen).take (len - hdrLen), len - hdrLen⟩

/-- The header `build_tcp` stores. No checksum is computed. -/
def tcpHeader (srcPort dstPort : UInt16) (seqNum ackNum : UInt32) (flags : UInt8) (window : UInt16) : TcpHdr where
  srcPort := htons srcPort
  dstPort := htons dstPort
  seqNum := htonl seqNum
  ackNum := htonl ackNum
  dataOffset := (5 : UInt8) <<< 4
  flags := flags
  window := htons window
  csum := 0
  urgentPtr := 0

/-- `build_tcp` at offset `tcp` of a page; it does not look at the addresses that it is given. -/
def buildTcp (page : Nat → UInt8) (tcp : Nat) (srcPort dstPort : UInt16) (seqNum ackNum : UInt32) (flags : UInt8)
    (window : UInt16) (payload : List UInt8) : Nat → UInt8 :=
  let page := write page tcp (tcpHeader srcPort dstPort seqNum ackNum flags window).encode
  let page := write page (tcp + TCP_HDR_SIZE) payload
  write page (tcp + TCP_PAYLOAD_LEN) (bytes32 (.ofNat payload.length))

/-- The packet in a page after `build_ip4` and, behind its header, `build_tcp`. -/
def tcpPacket (page : Nat → UInt8) (ip : Nat) (src dst : UInt32) (srcPort dstPort : UInt16) (seqNum ackNum : UInt32)
    (flags : UInt8) (window : UInt16) (payload : List UInt8) : List UInt8 :=
  let len := IP4_HDR_SIZE + TCP_HDR_SIZE + payload.length
  let page := buildIp4 page ip src dst (.ofNat IPPROTO_TCP) (.ofNat len)
  slice (buildTcp page (ip + IP4_HDR_SIZE) srcPort dstPort seqNum ackNum flags window payload) ip len

/-! ## ARP -/

def ARP_HTYPE_ETH : UInt16 := 1
def ARP_HLEN : UInt8 := 6
def ARP_PLEN : UInt8 := 4
def ARP_OP_REQUEST : UInt16 := 1
def ARP_OP_REPLY : UInt16 := 2

/-- `struct arp_pkt`, with its fields as they stand in memory. -/
structure ArpPkt where
  htype : UInt16
  ptype : UInt16
  hlen : UInt8
  plen : UInt8
  oper : UInt16
  sha : Mac
  spa : UInt32
  tha : Mac
  tpa : UInt32
deriving DecidableEq

def ArpPkt.encode (p : ArpPkt) : List UInt8 :=
  bytes16 p.htype ++ bytes16 p.ptype ++ [p.hlen, p.plen] ++ bytes16 p.oper ++ p.sha.toList ++ bytes32 p.spa ++
    p.tha.toList ++ bytes32 p.tpa

/-- The structure over the first bytes of a frame's payload. -/
def ArpPkt.decode (b : List UInt8) : ArpPkt where
  htype := load16 b 0
  ptype := load16 b 2
  hlen := byteAt b 4
  plen := byteAt b 5
  oper := load16 b 6
  sha := macAt b 8
  spa := load32 b 14
  tha := macAt b 18
  tpa := load32 b 24

def ARP_PACKET_SIZE : Nat := 28 + ETH_HDR_SIZE

end Xv6Net.Net
