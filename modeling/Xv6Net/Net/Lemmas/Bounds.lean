import Xv6Net.Net.Bounds
import Xv6Net.Net.Lemmas.Packet

/-!
# Bounds of the receive path

The parsers of IPv4, UDP and TCP go by the length that they are given, and a packet that is shorter than a header is
rejected whatever its bytes are. `parse_eth_packet` does not look at the length, and nothing does for ARP.
-/

namespace Xv6Net.Net

open Kernel Lib

variable {buf : List UInt8} {len : Nat} {f : EthFrame} {ip : Ip4Frame} {a : List UInt8} {base i total : Nat}

/-! ## The parsers see the bytes they are given -/

theorem load16_append_left (b : List UInt8) (h : i + 2 ≤ a.length) : load16 (a ++ b) i = load16 a i := by
  simp only [load16, byteAt_append_left b (show i < a.length by omega),
    byteAt_append_left b (show i + 1 < a.length by omega)]

theorem load32_append_left (b : List UInt8) (h : i + 4 ≤ a.length) : load32 (a ++ b) i = load32 a i := by
  simp only [load32, load16_append_left b (show i + 2 ≤ a.length by omega),
    load16_append_left b (show i + 2 + 2 ≤ a.length by omega)]

theorem take_drop_append (b : List UInt8) {n : Nat} (h : i + n ≤ a.length) :
    ((a ++ b).drop i).take n = (a.drop i).take n := by
  rw [List.drop_append_of_le_length (by omega), List.take_append_of_le_length (by simp; omega)]

theorem parseIp4Packet_short (buf : List UInt8) (h : len < 20) : parseIp4Packet buf len = none := by
  simp only [parseIp4Packet]
  rw [if_pos (by omega)]

theorem parseIp4Packet_append (behind : List UInt8) (h : len ≤ buf.length) :
    parseIp4Packet (buf ++ behind) len = parseIp4Packet buf len := by
  by_cases hshort : len < 20
  · rw [parseIp4Packet_short _ hshort, parseIp4Packet_short _ hshort]
  · simp only [parseIp4Packet, byteAt_append_left behind (show 0 < buf.length by omega),
      byteAt_append_left behind (show 1 < buf.length by omega), byteAt_append_left behind (show 8 < buf.length by omega),
      byteAt_append_left behind (show 9 < buf.length by omega), load16_append_left behind (show 2 + 2 ≤ buf.length by omega),
      load16_append_left behind (show 4 + 2 ≤ buf.length by omega),
      load16_append_left behind (show 6 + 2 ≤ buf.length by omega),
      load16_append_left behind (show 10 + 2 ≤ buf.length by omega),
      load32_append_left behind (show 12 + 4 ≤ buf.length by omega),
      load32_append_left behind (show 16 + 4 ≤ buf.length by omega)]
    split
    · rfl
    · split
      · rfl
      · rename_i hhdr _
        rw [take_drop_append]
        have := Nat.mod_le (len - (byteAt buf 0 &&& 0x0F).toNat * 4) 65536
        rw [UInt16.toNat_ofNat']; omega

theorem parseUdpPacket_append (behind : List UInt8) (h : len ≤ buf.length) :
    parseUdpPacket (buf ++ behind) len = parseUdpPacket buf len := by
  unfold parseUdpPacket
  split
  · rfl
  · simp only [load16_append_left behind (show 0 + 2 ≤ buf.length by omega),
      load16_append_left behind (show 2 + 2 ≤ buf.length by omega),
      load16_append_left behind (show 4 + 2 ≤ buf.length by omega),
      load16_append_left behind (show 6 + 2 ≤ buf.length by omega)]
    split
    · rfl
    · rw [take_drop_append behind (by simp only [UDP_HDR_SIZE]; omega)]

theorem parseTcpPacket_append (behind : List UInt8) (h : len ≤ buf.length) :
    parseTcpPacket (buf ++ behind) len = parseTcpPacket buf len := by
  unfold parseTcpPacket
  split
  · rfl
  · simp only [byteAt_append_left behind (show 12 < buf.length by omega),
      byteAt_append_left behind (show 13 < buf.length by omega),
      load16_append_left behind (show 0 + 2 ≤ buf.length by omega),
      load16_append_left behind (show 2 + 2 ≤ buf.length by omega),
      load32_append_left behind (show 4 + 4 ≤ buf.length by omega),
      load32_append_left behind (show 8 + 4 ≤ buf.length by omega),
      load16_append_left behind (show 14 + 2 ≤ buf.length by omega),
      load16_append_left behind (show 16 + 2 ≤ buf.length by omega),
      load16_append_left behind (show 18 + 2 ≤ buf.length by omega)]
    split
    · rfl
    · rw [take_drop_append behind (by omega)]

/-! ## IPv4 -/

theorem parseUdpPacket_payloadLen {d : Datagram} (hp : parseUdpPacket buf len = some d) :
    UDP_HDR_SIZE + d.payloadLen = len := by
  simp only [parseUdpPacket] at hp
  split at hp
  · cases hp
  · split at hp
    · cases hp
    · cases hp
      simp only [UDP_HDR_SIZE]; omega

theorem parseTcpPacket_payloadLen {pkt : TcpFrame} (hp : parseTcpPacket buf len = some pkt) :
    pkt.hdr.dataOffset.toNat * 4 + pkt.payloadLen = len := by
  simp only [parseTcpPacket] at hp
  split at hp
  · cases hp
  · split at hp
    · cases hp
    · cases hp
      simp only; omega

theorem parseIp4Packet_verIhl (hp : parseIp4Packet buf len = some ip) : ip.hdr.verIhl = byteAt buf 0 := by
  simp only [parseIp4Packet] at hp
  split at hp
  · cases hp
  · split at hp
    · cases hp
    · cases hp
      rfl

theorem Ip4Frame.segment_append (h : ip.payloadLen.toNat ≤ ip.payload.length) (behind : List UInt8) :
    ip.segment behind = ip.segment [] := by
  simp only [Ip4Frame.segment, parseTcpPacket_append _ h, parseUdpPacket_append _ h]

/-- The copy of a segment's payload ends where the segment ends. -/
theorem Ip4Frame.segment_copies (hfit : base + ip.payloadLen.toNat ≤ total)
    (hsize : ip.payloadLen.toNat ≤ PAYLOAD_SIZE) : ∀ c ∈ (ip.segment []).copies base, c.InBounds total := by
  unfold Ip4Frame.segment
  intro c hc
  split at hc
  · cases hp : parseTcpPacket (ip.payload ++ []) ip.payloadLen.toNat with
    | none => simp only [hp, Segment.copies, List.not_mem_nil] at hc
    | some pkt =>
        have := parseTcpPacket_payloadLen hp
        simp only [hp, Segment.copies, List.mem_singleton] at hc
        subst hc
        simp only [Copy.InBounds, payloadCopy]; omega
  · split at hc
    · cases hp : parseUdpPacket (ip.payload ++ []) ip.payloadLen.toNat with
      | none => simp only [hp, Segment.copies, List.not_mem_nil] at hc
      | some pkt =>
          have := parseUdpPacket_payloadLen hp
          simp only [hp, Segment.copies, List.mem_singleton] at hc
          subst hc
          simp only [Copy.InBounds, payloadCopy]; omega
    · simp [Segment.copies] at hc

/-- What a frame carries in a payload that is at least `payload_len` bytes long, at offset `base`. -/
theorem EthFrame.parsed_ip4 (htype : ntohs f.hdr.type = PROTO_IPV4)
    (hlen : f.payloadLen.toNat ≤ f.payload.length) (behind behind' : List UInt8) :
    f.parsed behind behind' = f.parsed [] [] := by
  simp only [EthFrame.parsed, if_pos htype, parseIp4Packet_append _ hlen]
  congr 1
  cases hp : parseIp4Packet f.payload f.payloadLen.toNat with
  | none => rfl
  | some ip =>
      obtain ⟨-, hle, -, -, hpl, hn⟩ := parseIp4Packet_some (by have := f.payloadLen.toNat_lt; omega) hp
      have : ip.payloadLen.toNat ≤ ip.payload.length := by
        rw [hpl, hn, List.length_take, List.length_drop]; omega
      simp only [Option.map_some, Ip4Frame.segment_append this behind']

theorem EthFrame.copies_ip4 (htype : ntohs f.hdr.type = PROTO_IPV4)
    (hfit : base + f.payloadLen.toNat ≤ total) : ∀ c ∈ (f.parsed [] []).copies base, c.InBounds total := by
  intro c hc
  simp only [EthFrame.parsed, if_pos htype, List.append_nil] at hc
  cases hp : parseIp4Packet f.payload f.payloadLen.toNat with
  | none => simp only [hp, Option.map_none, Parsed.copies, List.not_mem_nil] at hc
  | some ip =>
      have hlt := f.payloadLen.toNat_lt
      obtain ⟨-, hle, -, -, -, hn⟩ := parseIp4Packet_some (by omega) hp
      have hhdr : (ip.hdr.verIhl &&& 0x0F).toNat * 4 = hdrLen f.payload := by
        rw [parseIp4Packet_verIhl hp, hdrLen]
      simp only [hp, Option.map_some, Parsed.copies, hhdr, List.mem_cons] at hc
      rcases hc with rfl | hc
      · simp only [Copy.InBounds, payloadCopy, PAYLOAD_SIZE]; omega
      · exact Ip4Frame.segment_copies (by omega) (by simp only [PAYLOAD_SIZE]; omega) c hc

/-! ## ARP -/

theorem macAt_append_left (b : List UInt8) (h : i + 6 ≤ a.length) : macAt (a ++ b) i = macAt a i := by
  ext j hj
  simp only [macAt, Vector.getElem_ofFn]
  rw [byteAt_append_left b (show i + j < a.length by omega)]

theorem ArpPkt.used_append (behind : List UInt8) (h : 28 ≤ buf.length) :
    (ArpPkt.decode (buf ++ behind)).used = (ArpPkt.decode buf).used := by
  have : ArpPkt.decode (buf ++ behind) = ArpPkt.decode buf := by
    simp only [ArpPkt.decode, load16_append_left behind (show 0 + 2 ≤ buf.length by omega),
      load16_append_left behind (show 2 + 2 ≤ buf.length by omega),
      byteAt_append_left behind (show 4 < buf.length by omega), byteAt_append_left behind (show 5 < buf.length by omega),
      load16_append_left behind (show 6 + 2 ≤ buf.length by omega),
      macAt_append_left behind (show 8 + 6 ≤ buf.length by omega),
      load32_append_left behind (show 14 + 4 ≤ buf.length by omega),
      macAt_append_left behind (show 18 + 6 ≤ buf.length by omega),
      load32_append_left behind (show 24 + 4 ≤ buf.length by omega)]
  rw [this]

theorem ArpPkt.used_append_of_reply (behind : List UInt8) (h : 18 ≤ buf.length)
    (hop : ntohs (load16 buf 6) = ARP_OP_REPLY) :
    (ArpPkt.decode (buf ++ behind)).used = (ArpPkt.decode buf).used := by
  have hne : ARP_OP_REPLY ≠ ARP_OP_REQUEST := by decide
  simp only [ArpPkt.used, ArpPkt.decode, load16_append_left behind (show 6 + 2 ≤ buf.length by omega), hop, if_neg hne,
    if_true, macAt_append_left behind (show 8 + 6 ≤ buf.length by omega),
    load32_append_left behind (show 14 + 4 ≤ buf.length by omega)]

/-- Bytes that leave a buffer as it was up to a nonzero byte at offset `k`. -/
def mark (buf : List UInt8) (k : Nat) : List UInt8 := List.replicate (k - buf.length) 0 ++ [1]

theorem byteAt_mark {k : Nat} (h : buf.length ≤ k) (i : Nat) :
    byteAt (buf ++ mark buf k) i = if i = k then 1 else byteAt buf i := by
  by_cases hi : i < buf.length
  · rw [byteAt_append_left _ hi, if_neg (by omega)]
  · obtain ⟨j, rfl⟩ := Nat.exists_eq_add_of_le (Nat.le_of_not_lt hi)
    rw [byteAt_append_right]
    simp only [byteAt, mark, List.getD_eq_getElem?_getD]
    grind

theorem load32_mark (h : buf.length ≤ i + 3) : load32 (buf ++ mark buf (i + 3)) i ≠ load32 buf i := by
  intro heq
  have h0 := (byteAt buf i).toNat_lt
  have h1 := (byteAt buf (i + 1)).toNat_lt
  have h2 := (byteAt buf (i + 2)).toNat_lt
  have hout : byteAt buf (i + 3) = 0 := by simp [byteAt, h]
  have := congrArg UInt32.toNat heq
  simp [load32, load16, byteAt_mark h, hout] at this
  omega

theorem load16_mark {k : Nat} (h : buf.length ≤ k) (hi : i + 1 < k) : load16 (buf ++ mark buf k) i = load16 buf i := by
  simp only [load16, byteAt_mark h, if_neg (show ¬ i = k by omega), if_neg (show ¬ i + 1 = k by omega)]

/-- A packet that is cut off before the last byte of what is looked at shows what stands behind it. -/
theorem ArpPkt.used_mark (h : buf.length < 28) (hop : ntohs (load16 buf 6) = ARP_OP_REPLY → buf.length < 18) :
    ∃ behind, (ArpPkt.decode (buf ++ behind)).used ≠ (ArpPkt.decode buf).used := by
  by_cases hr : ntohs (load16 buf 6) = ARP_OP_REPLY
  · have hlen := hop hr
    have hspa : load32 (buf ++ mark buf 17) 14 ≠ load32 buf 14 := load32_mark (by omega)
    refine ⟨mark buf 17, ?_⟩
    simp only [ArpPkt.used, ArpPkt.decode, load16_mark (show buf.length ≤ 17 by omega) (show 6 + 1 < 17 by omega)]
    grind
  · have htpa : load32 (buf ++ mark buf 27) 24 ≠ load32 buf 24 := load32_mark (by omega)
    refine ⟨mark buf 27, ?_⟩
    simp only [ArpPkt.used, ArpPkt.decode, load16_mark (show buf.length ≤ 27 by omega) (show 6 + 1 < 27 by omega)]
    grind

/-- The payload holds all that `arp_recv` looks at. -/
def ArpFits (payload : List UInt8) : Prop :=
  28 ≤ payload.length ∨ 18 ≤ payload.length ∧ ntohs (load16 payload 6) = ARP_OP_REPLY

theorem ArpFits.iff_used : ArpFits buf ↔ ∀ behind, (ArpPkt.decode (buf ++ behind)).used = (ArpPkt.decode buf).used := by
  constructor
  · rintro (h | ⟨h, hop⟩) behind
    · exact ArpPkt.used_append behind h
    · exact ArpPkt.used_append_of_reply behind h hop
  · intro h
    by_contra hn
    simp only [ArpFits, not_or, not_and] at hn
    have hshort : buf.length < 28 := by omega
    obtain ⟨behind, hne⟩ := ArpPkt.used_mark hshort fun hop => Nat.lt_of_not_le fun h18 => hn.2 h18 hop
    exact hne (h behind)

theorem ArpPkt.copies_used (hfit : base + 18 ≤ total) (pkt : ArpPkt) :
    ∀ c ∈ (Parsed.arp pkt.used).copies base, c.InBounds total := by
  intro c hc
  unfold ArpPkt.used at hc
  split at hc
  · simp only [Parsed.copies, List.mem_singleton] at hc
    subst hc
    simp only [Copy.InBounds]; omega
  · split at hc
    · simp only [Parsed.copies, List.mem_singleton] at hc
      subst hc
      simp only [Copy.InBounds]; omega
    · simp only [Parsed.copies, List.not_mem_nil] at hc

/-! ## Frames -/

variable {packet : List UInt8}

theorem payloadLen_toNat (h : ETH_HDR_SIZE ≤ packet.length) (hlen : packet.length ≤ PGSIZE) :
    (UInt16.ofNat packet.length - 14).toNat = packet.length - ETH_HDR_SIZE := by
  simp only [ETH_HDR_SIZE, PGSIZE] at h hlen
  simp only [ETH_HDR_SIZE, UInt16.toNat_sub, UInt16.toNat_ofNat', UInt16.reduceToNat]; omega

/-- The length wraps around for a frame that is shorter than a header, so the copy of its payload leaves the frame. -/
theorem ethCopy_inBounds (hlen : packet.length ≤ PGSIZE) :
    (payloadCopy 0 ETH_HDR_SIZE (UInt16.ofNat packet.length - 14).toNat).InBounds packet.length ↔
      ETH_HDR_SIZE ≤ packet.length ∧ packet.length ≤ ETH_HDR_SIZE + PAYLOAD_SIZE := by
  by_cases h : ETH_HDR_SIZE ≤ packet.length
  · rw [payloadLen_toNat h hlen]
    simp only [Copy.InBounds, payloadCopy]; omega
  · simp only [ETH_HDR_SIZE, PGSIZE] at h hlen
    simp only [Copy.InBounds, payloadCopy, ETH_HDR_SIZE, UInt16.toNat_sub, UInt16.toNat_ofNat', UInt16.reduceToNat]
    omega

theorem parseEthPacket_eq (h : ETH_HDR_SIZE ≤ packet.length) (hlen : packet.length ≤ PGSIZE) :
    ∃ f, parseEthPacket packet = .ok f ∧ f.hdr.type = load16 packet 12 ∧ f.payload = packet.drop ETH_HDR_SIZE ∧
      f.payloadLen.toNat ≤ f.payload.length := by
  have hn := payloadLen_toNat h hlen
  have hall : (packet.drop ETH_HDR_SIZE).take (UInt16.ofNat packet.length - 14).toNat = packet.drop ETH_HDR_SIZE := by
    rw [hn, List.take_of_length_le (by simp)]
  refine ⟨_, by simp only [parseEthPacket]; rw [if_neg (by omega)], rfl, hall, ?_⟩
  rw [UInt16.toNat_toUInt8, hall, hn, List.length_drop]
  exact Nat.mod_le _ _

theorem arpFits_drop (h : ETH_HDR_SIZE ≤ packet.length) :
    ArpFits (packet.drop ETH_HDR_SIZE) ↔
      42 ≤ packet.length ∨ 32 ≤ packet.length ∧ ntohs (load16 packet 20) = ARP_OP_REPLY := by
  simp only [ETH_HDR_SIZE] at h
  have hop : load16 (packet.drop ETH_HDR_SIZE) 6 = load16 packet 20 := by simp only [load16, byteAt_drop, ETH_HDR_SIZE]
  simp only [ArpFits, hop, List.length_drop]
  simp only [ETH_HDR_SIZE]
  grind

/-- Of what is parsed from a frame, only ARP can depend on bytes behind it. -/
theorem EthFrame.parsed_iff (hlen : f.payloadLen.toNat ≤ f.payload.length) :
    (∀ behind behind', f.parsed behind behind' = f.parsed [] []) ↔ (ntohs f.hdr.type = PROTO_ARP → ArpFits f.payload) := by
  by_cases hip : ntohs f.hdr.type = PROTO_IPV4
  · have hne : PROTO_IPV4 ≠ PROTO_ARP := by decide
    exact iff_of_true (EthFrame.parsed_ip4 hip hlen) (by simp [hip, hne])
  · by_cases harp : ntohs f.hdr.type = PROTO_ARP
    · have hip : PROTO_ARP ≠ PROTO_IPV4 := by decide
      simp [EthFrame.parsed, hip, harp, ArpFits.iff_used]
    · simp [EthFrame.parsed, hip, harp]

theorem EthFrame.copies_inBounds (hlen : f.payloadLen.toNat ≤ f.payload.length)
    (harp : ntohs f.hdr.type = PROTO_ARP → ArpFits f.payload) :
    ∀ c ∈ (f.parsed [] []).copies base, c.InBounds (base + f.payload.length) := by
  by_cases hip : ntohs f.hdr.type = PROTO_IPV4
  · exact EthFrame.copies_ip4 hip (by omega)
  · intro c hc
    simp only [EthFrame.parsed, if_neg hip] at hc
    split at hc
    · rename_i h
      refine ArpPkt.copies_used ?_ _ c hc
      rcases harp h with hfit | hfit
      · omega
      · omega
    · simp only [Parsed.copies, List.not_mem_nil] at hc

theorem ReceiveSafe.size (h : ReceiveSafe packet) (hlen : packet.length ≤ PGSIZE) :
    ETH_HDR_SIZE ≤ packet.length ∧ packet.length ≤ ETH_HDR_SIZE + PAYLOAD_SIZE :=
  (ethCopy_inBounds hlen).mp (h.copies _ (List.mem_cons_of_mem _ List.mem_cons_self))

theorem ReceiveSafe.arp (h : ReceiveSafe packet) (hlen : packet.length ≤ PGSIZE)
    (harp : ntohs (load16 packet 12) = PROTO_ARP) :
    42 ≤ packet.length ∨ 32 ≤ packet.length ∧ ntohs (load16 packet 20) = ARP_OP_REPLY := by
  have hmin := (h.size hlen).1
  obtain ⟨f, hf, htype, hpayload, hpl⟩ := parseEthPacket_eq hmin hlen
  have hfits := (EthFrame.parsed_iff hpl).mp (h.parsed f hf) (htype ▸ harp)
  rwa [hpayload, arpFits_drop hmin] at hfits

end Xv6Net.Net
