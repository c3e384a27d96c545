import Xv6Net.Lib.OnesComplement
import Xv6Net.Net.Packet

/-!
# Checksums as they are on the wire

The Internet checksum over words in network order, and the checksum of a UDP datagram after RFC 768, to which those of the
code are compared.
-/

namespace Xv6Net.Net

open Lib

/-- The 16-bit words of a buffer in network order. A last odd byte is padded with a zero byte on the right. -/
def netWords : List UInt8 → List Nat
  | [] => []
  | [a] => [256 * a.toNat]
  | a :: b :: rest => (256 * a.toNat + b.toNat) :: netWords rest

/-- The one's complement sum of the words of a buffer. -/
def onesSum (b : List UInt8) : Nat := OnesComplement.sum 65536 (netWords b)

/-- The Internet checksum of a buffer. -/
def internetChecksum (b : List UInt8) : UInt16 := ~~~ UInt16.ofNat (onesSum b)

/-- The bytes of a word in network order. -/
def netBytes16 (x : UInt16) : List UInt8 := [.ofNat (x.toNat / 256), .ofNat x.toNat]

/-! ## UDP -/

/-- What RFC 768 puts before a datagram of `len` bytes for the checksum. The addresses are in network order. -/
def pseudoHeader (srcIp dstIp : UInt32) (len : Nat) : List UInt8 :=
  bytes32 srcIp ++ bytes32 dstIp ++ [0, .ofNat IPPROTO_UDP] ++ netBytes16 (.ofNat len)

/-- The datagram with its checksum field set to 0. -/
def clearChecksum (datagram : List UInt8) : List UInt8 := datagram.take 6 ++ [0, 0] ++ datagram.drop UDP_HDR_SIZE

/-- The checksum after RFC 768: a computed 0 is sent as ones, since 0 says that there is none. -/
def rfc768Checksum (srcIp dstIp : UInt32) (datagram : List UInt8) : UInt16 :=
  let csum := internetChecksum (pseudoHeader srcIp dstIp datagram.length ++ clearChecksum datagram)
  if csum = 0 then 0xFFFF else csum

/-- A datagram has the checksum that it should have, and the receiver finds it right. -/
structure ChecksumCorrect (srcIp dstIp : UInt32) (datagram : List UInt8) : Prop where
  sent : (datagram.drop 6).take 2 = netBytes16 (rfc768Checksum srcIp dstIp datagram)
  ne_zero : (datagram.drop 6).take 2 ≠ [0, 0]
  received : onesSum (pseudoHeader srcIp dstIp datagram.length ++ datagram) = 0xFFFF

/-- The datagram that `build_udp` leaves at offset `udp` of a page. -/
def builtDatagram (page : Nat → UInt8) (udp : Nat) (srcPort dstPort : UInt16) (payload : List UInt8)
    (srcIp dstIp : UInt32) : List UInt8 :=
  slice (buildUdp page udp srcPort dstPort payload srcIp dstIp) udp (UDP_HDR_SIZE + payload.length)

/-- What the checksum of that datagram is over: the pseudo header, the header without a checksum, and the payload. -/
def checksummed (srcPort dstPort : UInt16) (payload : List UInt8) (srcIp dstIp : UInt32) : List UInt8 :=
  pseudoHeader srcIp dstIp (UDP_HDR_SIZE + payload.length) ++
    (UdpHdr.encode ⟨htons srcPort, dstPort, htons (.ofNat (UDP_HDR_SIZE + payload.length)), 0⟩ ++ payload)

end Xv6Net.Net
