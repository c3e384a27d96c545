import Xv6Net.Net.Spec

/-!
# What the parsers read back
-/

namespace Xv6Net.Net

open Kernel Lib

variable {buf : List UInt8} {len : Nat}

/-! ## Byte order -/

theorem toNat_ntohs (x : UInt16) : (ntohs x).toNat = x.toNat % 256 * 256 + x.toNat / 256 := by
  have hx := x.toNat_lt
  have hhi : x.toNat <<< 8 % 2 ^ 16 = (x.toNat % 256) <<< 8 := by
    simp only [Nat.shiftLeft_eq]; omega
  have hlo : x.toNat >>> 8 = x.toNat / 256 := Nat.shiftRight_eq_div_pow x.toNat 8
  simp only [ntohs, UInt16.toNat_or, UInt16.toNat_shiftRight, UInt16.toNat_shiftLeft]
  rw [show (8 : UInt16).toNat % 16 = 8 from rfl, hhi, hlo, Nat.or_comm,
    ← Nat.shiftLeft_add_eq_or_of_lt (by omega), Nat.shiftLeft_eq]

theorem ntohs_ntohs (x : UInt16) : ntohs (ntohs x) = x := by
  have hx := x.toNat_lt
  apply UInt16.toNat_inj.mp
  simp only [toNat_ntohs]; omega

theorem ntohs_htons (x : UInt16) : ntohs (htons x) = x := ntohs_ntohs x

/-! ## Lengths of headers -/

@[simp] theorem EthHdr.length_encode (h : EthHdr) : h.encode.length = ETH_HDR_SIZE := by
  simp [EthHdr.encode, ETH_HDR_SIZE]

@[simp] theorem Ip4Hdr.length_encode (h : Ip4Hdr) : h.encode.length = IP4_HDR_SIZE := rfl

@[simp] theorem UdpHdr.length_encode (h : UdpHdr) : h.encode.length = UDP_HDR_SIZE := rfl

/-! ## Parsing what was encoded -/

theorem macAt_append (a : List UInt8) (m : Mac) (rest : List UInt8) : macAt (a ++ (m.toList ++ rest)) a.length = m := by
  apply Vector.ext
  intro i hi
  simp only [macAt, Vector.getElem_ofFn]
  rw [byteAt_append_right, byteAt_append_left rest (by simpa using hi)]
  simp [byteAt, hi]

theorem EthHdr.load_encode (h : EthHdr) (rest : List UInt8) :
    macAt (h.encode ++ rest) 0 = h.dstAddr ∧ macAt (h.encode ++ rest) 6 = h.srcAddr ∧
      load16 (h.encode ++ rest) 12 = h.type := by
  have hsrc := macAt_append h.dstAddr.toList h.srcAddr (bytes16 h.type ++ rest)
  have htype := load16_append_bytes16 (h.dstAddr.toList ++ h.srcAddr.toList) h.type rest
  simp only [List.length_append, Vector.length_toList, List.append_assoc] at hsrc htype
  simp only [EthHdr.encode, List.append_assoc]
  exact ⟨macAt_append [] h.dstAddr _, hsrc, htype⟩

theorem parseEthPacket_encode (h : EthHdr) {rest : List UInt8} (hlen : ETH_HDR_SIZE + rest.length ≤ PGSIZE) :
    parseEthPacket (h.encode ++ rest) = .ok ⟨h, rest, .ofNat rest.length⟩ := by
  simp only [ETH_HDR_SIZE, PGSIZE] at hlen
  have hn : (UInt16.ofNat (h.encode ++ rest).length - 14).toNat = rest.length := by
    simp only [List.length_append, EthHdr.length_encode, ETH_HDR_SIZE, UInt16.toNat_sub, UInt16.toNat_ofNat',
      UInt16.reduceToNat]
    omega
  have h8 : (UInt16.ofNat (h.encode ++ rest).length - 14).toUInt8 = .ofNat rest.length := by
    apply UInt8.toNat_inj.mp
    rw [UInt16.toNat_toUInt8, hn, UInt8.toNat_ofNat']
  have hfit : ¬ PGSIZE < ETH_HDR_SIZE + rest.length := by simp only [PGSIZE, ETH_HDR_SIZE]; omega
  have hdrop : (h.encode ++ rest).drop ETH_HDR_SIZE = rest := by
    rw [← h.length_encode, List.drop_left]
  obtain ⟨hdst, hsrc, htype⟩ := h.load_encode rest
  simp only [parseEthPacket, hn, h8, if_neg hfit, hdrop, List.take_length, hdst, hsrc, htype]

/-- The header fields that decide what happens to a packet. -/
theorem parseIp4Packet_encode (h : Ip4Hdr) (rest : List UInt8) (len : Nat) (hihl : h.verIhl = 0x45)
    (hlen : len < 65536) :
    parseIp4Packet (h.encode ++ rest) len =
      if len < 20 ∨ len < (ntohs h.totalLen).toNat then none
      else some ⟨⟨h.verIhl, h.tos, ntohs h.totalLen, ntohs h.identification, ntohs h.fragmentInfo, h.ttl, h.protocol,
        ntohs h.csum, ntohl (load32 (h.encode ++ rest) 12), ntohl (load32 (h.encode ++ rest) 16)⟩,
        rest.take (len - 20), .ofNat (len - 20)⟩ := by
  have hver : byteAt (h.encode ++ rest) 0 = h.verIhl := rfl
  have htot : load16 (h.encode ++ rest) 2 = h.totalLen := load16_bytes16 _
  have hid : load16 (h.encode ++ rest) 4 = h.identification := load16_bytes16 _
  have hfrag : load16 (h.encode ++ rest) 6 = h.fragmentInfo := load16_bytes16 _
  have hcs : load16 (h.encode ++ rest) 10 = h.csum := load16_bytes16 _
  have hih : (h.verIhl &&& 0x0F).toNat * 4 = 20 := by rw [hihl]; rfl
  have hdrop : (h.encode ++ rest).drop 20 = rest := by
    rw [show 20 = h.encode.length from rfl, List.drop_left]
  have hpl : (UInt16.ofNat (len - 20)).toNat = len - 20 := by
    rw [UInt16.toNat_ofNat']; omega
  simp only [parseIp4Packet, hver, htot, hid, hfrag, hcs, hih, hdrop, hpl]
  by_cases h1 : len < 20
  · simp [h1]
  · by_cases h2 : len < (ntohs h.totalLen).toNat
    · simp [h1, h2]
    · simp only [h1, h2, or_self, if_false, Nat.lt_irrefl]
      rfl

theorem parseUdpPacket_encode (h : UdpHdr) (payload : List UInt8) (hlen : (ntohs h.len).toNat = payload.length + 8) :
    parseUdpPacket (h.encode ++ payload) (payload.length + 8) =
      some ⟨⟨ntohs h.srcPort, ntohs h.dstPort, ntohs h.len, ntohs h.csum⟩, payload, payload.length⟩ := by
  have hs : load16 (h.encode ++ payload) 0 = h.srcPort := load16_bytes16 _
  have hd : load16 (h.encode ++ payload) 2 = h.dstPort := load16_bytes16 _
  have hl : load16 (h.encode ++ payload) 4 = h.len := load16_bytes16 _
  have hc : load16 (h.encode ++ payload) 6 = h.csum := load16_bytes16 _
  have hdrop : (h.encode ++ payload).drop UDP_HDR_SIZE = payload := by
    rw [← h.length_encode, List.drop_left]
  have h8 : ¬ (ntohs h.len < 8 ∨ payload.length + 8 < (ntohs h.len).toNat) := by
    rw [UInt16.lt_iff_toNat_lt, hlen]
    simp only [UInt16.reduceToNat]; omega
  have hge : ¬ payload.length + 8 < 8 := by omega
  have hsub : payload.length + 8 - UDP_HDR_SIZE = payload.length := Nat.add_sub_cancel ..
  simp only [parseUdpPacket, hs, hd, hl, hc, hdrop, if_neg h8, if_neg hge, hsub, List.take_length]

theorem ArpPkt.decode_encode (p : ArpPkt) : ArpPkt.decode p.encode = p := by
  have htype := load16_append_bytes16 [] p.htype
  have hptype := load16_append_bytes16 (bytes16 p.htype) p.ptype
  have hoper := load16_append_bytes16 (bytes16 p.htype ++ bytes16 p.ptype ++ [p.hlen, p.plen]) p.oper
  have hsha := macAt_append (bytes16 p.htype ++ bytes16 p.ptype ++ [p.hlen, p.plen] ++ bytes16 p.oper) p.sha
  have hspa := load32_append_bytes32
    (bytes16 p.htype ++ bytes16 p.ptype ++ [p.hlen, p.plen] ++ bytes16 p.oper ++ p.sha.toList) p.spa
  have htha := macAt_append (bytes16 p.htype ++ bytes16 p.ptype ++ [p.hlen, p.plen] ++ bytes16 p.oper ++
    p.sha.toList ++ bytes32 p.spa) p.tha
  have htpa := load32_append_bytes32 (bytes16 p.htype ++ bytes16 p.ptype ++ [p.hlen, p.plen] ++ bytes16 p.oper ++
    p.sha.toList ++ bytes32 p.spa ++ p.tha.toList) p.tpa []
  simp only [List.append_assoc, List.length_append, length_bytes16, length_bytes32, List.length_cons, List.length_nil,
    Vector.length_toList, List.append_nil, List.nil_append] at htype hptype hoper hsha hspa htha htpa
  simp only [ArpPkt.decode, ArpPkt.encode, List.append_assoc, htype, hptype, hoper, hsha, hspa, htha, htpa]
  rfl

/-! ## What the parsers accept -/

theorem toNat_ntohs_load16 (b : List UInt8) (i : Nat) : (ntohs (load16 b i)).toNat = be16 b i := by
  have h0 := (byteAt b i).toNat_lt
  have h1 := (byteAt b (i + 1)).toNat_lt
  simp only [toNat_ntohs, load16, be16, UInt16.toNat_ofNat']; omega

theorem parseIp4Packet_some {ip : Ip4Frame} (hlen : len < 65536) (hp : parseIp4Packet buf len = some ip) :
    20 ≤ hdrLen buf ∧ hdrLen buf ≤ len ∧ be16 buf 2 ≤ len ∧ ip.hdr.protocol = byteAt buf 9 ∧
      ip.payload = (buf.drop (hdrLen buf)).take (len - hdrLen buf) ∧ ip.payloadLen.toNat = len - hdrLen buf := by
  simp only [parseIp4Packet] at hp
  split at hp
  · cases hp
  · rename_i h1
    split at hp
    · cases hp
    · rename_i h2
      have hpl : (UInt16.ofNat (len - hdrLen buf)).toNat = len - hdrLen buf := by
        rw [UInt16.toNat_ofNat']; omega
      cases hp
      rw [toNat_ntohs_load16] at h2
      refine ⟨?_, ?_, ?_, rfl, ?_, hpl⟩
      · unfold hdrLen; omega
      · unfold hdrLen; omega
      · omega
      · rw [← hdrLen, hpl]

/-- The four parts of the frame are written to disjoint ranges of the page. -/
theorem udpSendtoFrame_eq (page : Nat → UInt8) (srcPort sinPort : UInt16) (kbuf : List UInt8)
    (netconf : NetState) (dstIp : UInt32) (dstMac : Mac) :
    udpSendtoFrame page srcPort sinPort kbuf netconf dstIp dstMac =
      EthHdr.encode ⟨dstMac, netconf.macAddr, htons PROTO_IPV4⟩ ++
        ((ip4Header (ntohl netconf.ipAddr) (ntohl dstIp) (.ofNat IPPROTO_UDP)
            (.ofNat (kbuf.length + UDP_HDR_SIZE + IP4_HDR_SIZE))).encode ++
          ((udpHeader srcPort sinPort kbuf netconf.ipAddr dstIp).encode ++ kbuf)) := by
  have hsum : kbuf.length + UDP_HDR_SIZE + IP4_HDR_SIZE + ETH_HDR_SIZE =
      ETH_HDR_SIZE + (IP4_HDR_SIZE + (UDP_HDR_SIZE + kbuf.length)) := by omega
  simp only [udpSendtoFrame, buildUdp, buildIp4, buildEth, hsum, slice_add, Nat.zero_add]
  congr 1
  · exact slice_write_self' (EthHdr.length_encode _)
  congr 1
  · rw [slice_write_of_disjoint (by simp)]
    exact slice_write_self' (Ip4Hdr.length_encode _)
  congr 1
  · rw [slice_write_of_disjoint (by simp), slice_write_of_disjoint (by simp)]
    exact slice_write_self' (UdpHdr.length_encode _)
  · rw [slice_write_of_disjoint (by simp; omega), slice_write_of_disjoint (by simp),
      slice_write_of_disjoint (by simp), slice_write_self]

/-! ## ARP frames -/

theorem arpFrame_eq (page : Nat → UInt8) (dst src : Mac) (arp : ArpPkt) :
    arpFrame page dst src arp = EthHdr.encode ⟨dst, src, htons PROTO_ARP⟩ ++ arp.encode := by
  have hlen : arp.encode.length = 28 := by simp [ArpPkt.encode]
  simp only [arpFrame, buildEth, ARP_PACKET_SIZE, Nat.add_comm 28, slice_add, Nat.zero_add]
  congr 1
  · rw [slice_write_of_disjoint (by simp)]
    exact slice_write_self' (EthHdr.length_encode _)
  · exact slice_write_self' hlen

theorem parseEthPacket_arpFrame (page : Nat → UInt8) (dst src : Mac) (arp : ArpPkt) :
    parseEthPacket (arpFrame page dst src arp) = .ok ⟨⟨dst, src, htons PROTO_ARP⟩, arp.encode, 28⟩ := by
  have hlen : arp.encode.length = 28 := by simp [ArpPkt.encode]
  rw [arpFrame_eq, parseEthPacket_encode _ (by rw [hlen]; decide), hlen]
  rfl

end Xv6Net.Net
