import Mathlib.Tactic.IntervalCases
import Xv6Net.Net.Lemmas.Packet

/-!
# Packets that the builders leave for the parsers
-/

namespace Xv6Net.Net

open Lib

/-! ## Byte order -/

/-- The bytes of a word change places. -/
theorem getLsbD_ntohl (x : UInt32) {i : Nat} (hi : i < 32) :
    (ntohl x).toBitVec.getLsbD i = x.toBitVec.getLsbD (24 - i / 8 * 8 + i % 8) := by
  simp only [ntohl, UInt32.toBitVec_or, UInt32.toBitVec_and, UInt32.toBitVec_shiftLeft, UInt32.toBitVec_shiftRight]
  interval_cases i <;> simp

theorem ntohl_htonl (x : UInt32) : ntohl (htonl x) = x := by
  apply UInt32.toBitVec_inj.mp
  apply BitVec.eq_of_getLsbD_eq
  intro i hi
  rw [getLsbD_ntohl _ hi, htonl, getLsbD_ntohl _ (by omega)]
  congr 1
  omega

/-! ## Headers -/

@[simp] theorem TcpHdr.length_encode (h : TcpHdr) : h.encode.length = TCP_HDR_SIZE := rfl

theorem Ip4Hdr.load_addresses (h : Ip4Hdr) (rest : List UInt8) :
    load32 (h.encode ++ rest) 12 = h.srcIp ∧ load32 (h.encode ++ rest) 16 = h.dstIp := by
  have hsrc := load32_append_bytes32 ([h.verIhl, h.tos] ++ bytes16 h.totalLen ++ bytes16 h.identification ++
    bytes16 h.fragmentInfo ++ [h.ttl, h.protocol] ++ bytes16 h.csum) h.srcIp (bytes32 h.dstIp ++ rest)
  have hdst := load32_append_bytes32 ([h.verIhl, h.tos] ++ bytes16 h.totalLen ++ bytes16 h.identification ++
    bytes16 h.fragmentInfo ++ [h.ttl, h.protocol] ++ bytes16 h.csum ++ bytes32 h.srcIp) h.dstIp rest
  simp only [Ip4Hdr.encode, List.append_assoc] at hsrc hdst ⊢
  exact ⟨hsrc, hdst⟩

theorem TcpHdr.load_numbers (h : TcpHdr) (rest : List UInt8) :
    load32 (h.encode ++ rest) 4 = h.seqNum ∧ load32 (h.encode ++ rest) 8 = h.ackNum := by
  have hseq := load32_append_bytes32 (bytes16 h.srcPort ++ bytes16 h.dstPort) h.seqNum
    (bytes32 h.ackNum ++ [h.dataOffset, h.flags] ++ bytes16 h.window ++ bytes16 h.csum ++ bytes16 h.urgentPtr ++ rest)
  have hack := load32_append_bytes32 (bytes16 h.srcPort ++ bytes16 h.dstPort ++ bytes32 h.seqNum) h.ackNum
    ([h.dataOffset, h.flags] ++ bytes16 h.window ++ bytes16 h.csum ++ bytes16 h.urgentPtr ++ rest)
  simp only [TcpHdr.encode, List.append_assoc] at hseq hack ⊢
  exact ⟨hseq, hack⟩

theorem parseTcpPacket_encode (h : TcpHdr) (payload : List UInt8) (hoff : h.dataOffset = 0x50) :
    parseTcpPacket (h.encode ++ payload) (TCP_HDR_SIZE + payload.length) =
      some ⟨⟨ntohs h.srcPort, ntohs h.dstPort, ntohl h.seqNum, ntohl h.ackNum, 5, h.flags, ntohs h.window, ntohs h.csum,
        ntohs h.urgentPtr⟩, payload, payload.length⟩ := by
  obtain ⟨hseq, hack⟩ := h.load_numbers payload
  have hsrc : load16 (h.encode ++ payload) 0 = h.srcPort := load16_bytes16 _
  have hdst : load16 (h.encode ++ payload) 2 = h.dstPort := load16_bytes16 _
  have hdata : (byteAt (h.encode ++ payload) 12 >>> 4) &&& 0xF = 5 := by
    rw [show byteAt (h.encode ++ payload) 12 = h.dataOffset from rfl, hoff]
    rfl
  have hwindow : load16 (h.encode ++ payload) 14 = h.window := load16_bytes16 _
  have hcsum : load16 (h.encode ++ payload) 16 = h.csum := load16_bytes16 _
  have hurgent : load16 (h.encode ++ payload) 18 = h.urgentPtr := load16_bytes16 _
  have hdrop : (h.encode ++ payload).drop 20 = payload := by
    rw [show 20 = h.encode.length from rfl, List.drop_left]
  have hlen : ¬ 20 + payload.length < 20 := by omega
  simp only [parseTcpPacket, TCP_HDR_SIZE, hsrc, hdst, hseq, hack, hdata, hwindow, hcsum, hurgent, UInt8.reduceToNat,
    Nat.reduceMul, Nat.lt_irrefl, hlen, or_self, if_false, hdrop, Nat.add_sub_cancel_left, List.take_length]
  rfl

/-! ## The packet -/

theorem tcpPacket_eq (page : Nat → UInt8) (ip : Nat) (src dst : UInt32) (srcPort dstPort : UInt16)
    (seqNum ackNum : UInt32) (flags : UInt8) (window : UInt16) {payload : List UInt8} (hlen : payload.length ≤ 1500) :
    tcpPacket page ip src dst srcPort dstPort seqNum ackNum flags window payload =
      (ip4Header src dst (.ofNat IPPROTO_TCP) (.ofNat (IP4_HDR_SIZE + TCP_HDR_SIZE + payload.length))).encode ++
        ((tcpHeader srcPort dstPort seqNum ackNum flags window).encode ++ payload) := by
  simp only [tcpPacket, buildTcp, buildIp4, Nat.add_assoc IP4_HDR_SIZE, slice_add]
  congr 1
  · rw [slice_write_of_disjoint (by simp [TCP_PAYLOAD_LEN]), slice_write_of_disjoint (by simp),
      slice_write_of_disjoint (by simp)]
    exact slice_write_self' (Ip4Hdr.length_encode _)
  congr 1
  · rw [slice_write_of_disjoint (by simp [TCP_PAYLOAD_LEN, TCP_HDR_SIZE]), slice_write_of_disjoint (by simp)]
    exact slice_write_self' (TcpHdr.length_encode _)
  · rw [slice_write_of_disjoint (by simp [TCP_PAYLOAD_LEN, TCP_HDR_SIZE]; omega), slice_write_self]

/-- What `parse_ip4_packet` gets from a packet without options. -/
theorem parseIp4Packet_ip4Header (src dst : UInt32) (proto : UInt8) {rest : List UInt8}
    (hlen : IP4_HDR_SIZE + rest.length < 65536) :
    ∃ f, parseIp4Packet ((ip4Header src dst proto (.ofNat (IP4_HDR_SIZE + rest.length))).encode ++ rest)
        (IP4_HDR_SIZE + rest.length) = some f ∧
      f.hdr.srcIp = src ∧ f.hdr.dstIp = dst ∧ f.hdr.protocol = proto ∧
      f.hdr.totalLen.toNat = IP4_HDR_SIZE + rest.length ∧ f.payload = rest ∧ f.payloadLen.toNat = rest.length := by
  set h := ip4Header src dst proto (.ofNat (IP4_HDR_SIZE + rest.length)) with hh
  have htot : (ntohs h.totalLen).toNat = IP4_HDR_SIZE + rest.length := by
    rw [hh, ip4Header, ntohs_htons, UInt16.toNat_ofNat']
    exact Nat.mod_eq_of_lt hlen
  obtain ⟨hsrc, hdst⟩ := h.load_addresses rest
  have hparse := parseIp4Packet_encode h rest (IP4_HDR_SIZE + rest.length) rfl hlen
  rw [if_neg (by rw [htot]; simp [IP4_HDR_SIZE]), hsrc, hdst] at hparse
  refine ⟨_, hparse, ntohl_htonl src, ntohl_htonl dst, rfl, htot, ?_, ?_⟩
  · simp [IP4_HDR_SIZE]
  · simp only [IP4_HDR_SIZE, Nat.add_sub_cancel_left, UInt16.toNat_ofNat'] at hlen ⊢
    omega

end Xv6Net.Net
