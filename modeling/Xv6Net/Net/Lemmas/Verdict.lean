import Xv6Net.Net.Lemmas.Packet
import Xv6Net.Net.Lemmas.Receive
import Xv6Net.Lib.Run

/-!
# Which frames are delivered, and which lose a page
-/

namespace Xv6Net.Net

open Kernel Lib Virtio

variable {d : Datagram} {f : EthFrame} {h : Host} {packet : List UInt8} {s : Nat} {qs : Nat → List Nat}

/-! ## Frames of `udp_sendto` -/

theorem Appended.not_unchanged {h' : Host} (ha : Appended h h' qs s d) : ¬ Unchanged h h' qs := by
  intro hu
  obtain ⟨p, hq, -, -⟩ := ha
  have := congrFun (hq.unique hu.1) s
  simp at this

/-- The verdict on a frame of `udp_sendto`. The length of the payload of an Ethernet frame is kept in 8 bits, so IPv4
packets of 256 bytes or more are longer than the frame they came in. -/
theorem verdict_udpSendtoFrame {p : UInt16} {bind : PortBinding} (hp : p.toNat < MAX_PORT_BINDINGS)
    (hb : h.udpPortBinds p.toNat = some bind) (hu : (h.socks bind.sock).proto = IPPROTO_UDP)
    (page : Nat → UInt8) (srcPort : UInt16) {payload : List UInt8} (hlen : payload.length ≤ 1472)
    (sender : NetState) (dstIp : UInt32) (dstMac : Mac) :
    ∃ f, parseEthPacket (udpSendtoFrame page srcPort (htons p) payload sender dstIp dstMac) = .ok f ∧
      kallocCalls h f ≤ 3 ∧
      if payload.length ≤ 227 then
        ∃ d, verdict h f = .delivered bind.sock d ∧ d.hdr.srcPort = srcPort ∧ d.hdr.dstPort = p ∧
          d.payloadLen = payload.length ∧ d.payload = payload
      else verdict h f = .kept := by
  set ip := ip4Header (ntohl sender.ipAddr) (ntohl dstIp) (.ofNat IPPROTO_UDP)
    (.ofNat (payload.length + UDP_HDR_SIZE + IP4_HDR_SIZE)) with hip
  set udp := udpHeader srcPort (htons p) payload sender.ipAddr dstIp with hudp
  rw [udpSendtoFrame_eq, ← hip, ← hudp]
  have hrest : (ip.encode ++ (udp.encode ++ payload)).length = payload.length + 28 := by
    simp only [List.length_append, Ip4Hdr.length_encode, UdpHdr.length_encode, IP4_HDR_SIZE, UDP_HDR_SIZE]; omega
  have hfits : ETH_HDR_SIZE + (ip.encode ++ (udp.encode ++ payload)).length ≤ PGSIZE := by
    rw [hrest]; simp only [ETH_HDR_SIZE, PGSIZE]; omega
  refine ⟨_, parseEthPacket_encode ⟨dstMac, sender.macAddr, htons PROTO_IPV4⟩ hfits, ?_⟩
  have ht : ntohs (htons PROTO_IPV4) = PROTO_IPV4 := ntohs_htons _
  have h8 : (UInt8.ofNat (ip.encode ++ (udp.encode ++ payload)).length).toNat = (payload.length + 28) % 256 := by
    rw [hrest, UInt8.toNat_ofNat']
  have htot : (ntohs ip.totalLen).toNat = payload.length + 28 := by
    rw [hip, show (ip4Header _ _ _ _).totalLen = htons _ from rfl, ntohs_htons, UInt16.toNat_ofNat']
    simp only [UDP_HDR_SIZE, IP4_HDR_SIZE]; omega
  have hparse := parseIp4Packet_encode ip (udp.encode ++ payload) ((payload.length + 28) % 256) rfl (by omega)
  simp only [verdict, kallocCalls, if_pos ht, h8]
  rw [htot] at hparse
  by_cases hle : payload.length ≤ 227
  · rw [if_neg (by omega)] at hparse
    rw [if_pos hle, hparse]
    have hmod : (payload.length + 28) % 256 - 20 = payload.length + 8 := by omega
    have hpl : (UInt16.ofNat (payload.length + 8)).toNat = payload.length + 8 := by
      rw [UInt16.toNat_ofNat']; omega
    have hul : (ntohs udp.len).toNat = payload.length + 8 := by
      rw [hudp, show (udpHeader _ _ _ _ _).len = htons _ from rfl, ntohs_htons, UInt16.toNat_ofNat']
      simp only [UDP_HDR_SIZE]; omega
    have htake : (udp.encode ++ payload).take (payload.length + 8) = udp.encode ++ payload := by
      apply List.take_of_length_le
      simp only [List.length_append, UdpHdr.length_encode, UDP_HDR_SIZE]; omega
    have hdst : ntohs udp.dstPort = p := ntohs_htons p
    have hto : h.deliversTo p = some bind.sock := by
      simp [Host.deliversTo, Host.boundTo, hp, hb, hu]
    have hproto : ip.protocol.toNat = IPPROTO_UDP := rfl
    have hnt : ¬ ip.protocol.toNat = IPPROTO_TCP := by rw [hproto]; decide
    refine ⟨by dsimp only; split <;> omega, ?_⟩
    simp only [ip4Verdict, hmod, hpl, htake, parseUdpPacket_encode udp payload hul, if_neg hnt, if_pos hproto, hdst,
      hto]
    exact ⟨_, rfl, ntohs_htons srcPort, rfl, rfl, rfl⟩
  · rw [if_pos (by omega)] at hparse
    rw [if_neg hle, hparse]
    exact ⟨by dsimp only; omega, rfl⟩

theorem handlePacket_delivers (hs : Sane h qs) (hf : parseEthPacket packet = .ok f) (hv : verdict h f = .delivered s d)
    (hk : kallocCalls h f ≤ h.kmem.freelist.length) :
    ∃ h', handlePacket h packet = .ok h' ∧ Appended h h' qs s d := by
  obtain ⟨h', ho, -⟩ := handlePacket_pages hs hf hk
  obtain ⟨f', hf', hq⟩ := handlePacket_queued hs ho
  obtain rfl : f = f' := Except.ok.inj (hf.symm.trans hf')
  rw [hv] at hq
  exact ⟨h', ho, hq⟩

theorem not_delivers {frame : List UInt8} (hs : Sane h qs)
    (hf : parseEthPacket frame = .ok f) (hv : verdict h f = .kept) (s : Nat) (srcPort dstPort : UInt16)
    (payload : List UInt8) : ¬ Delivers h qs frame s srcPort dstPort payload := by
  rintro ⟨h', d, ho, ha, -⟩
  obtain ⟨f', hf', hq⟩ := handlePacket_queued hs ho
  obtain rfl : f = f' := Except.ok.inj (hf.symm.trans hf')
  rw [hv] at hq
  exact ha.not_unchanged hq

theorem not_delivers_long (hs : Sane h qs) {p : UInt16} {bind : PortBinding}
    (hp : p.toNat < MAX_PORT_BINDINGS) (hb : h.udpPortBinds p.toNat = some bind)
    (hu : (h.socks bind.sock).proto = IPPROTO_UDP) (page : Nat → UInt8) (srcPort : UInt16) {payload : List UInt8}
    (hlen : payload.length ≤ 1472) (hgt : 227 < payload.length) (sender : NetState) (dstIp : UInt32) (dstMac : Mac) :
    ¬ Delivers h qs (udpSendtoFrame page srcPort (htons p) payload sender dstIp dstMac) bind.sock srcPort p
      payload := by
  obtain ⟨f, hf, -, hv⟩ := verdict_udpSendtoFrame hp hb hu page srcPort hlen sender dstIp dstMac
  rw [if_neg (by omega)] at hv
  exact not_delivers hs hf hv _ _ _ _

/-! ## What is delivered -/

theorem ip4Verdict_eq_leaked_iff {ip : Ip4Frame} : ip4Verdict h ip = .leaked ↔
    (ip.hdr.protocol.toNat = IPPROTO_TCP ∨ ip.hdr.protocol.toNat = IPPROTO_UDP ∧
      ∀ d, parseUdpPacket ip.payload ip.payloadLen.toNat = some d → h.deliversTo d.hdr.dstPort = none) := by
  unfold ip4Verdict
  split
  · rename_i htcp; simp [htcp]
  · rename_i htcp
    split
    · rename_i hudp
      cases hd : parseUdpPacket ip.payload ip.payloadLen.toNat with
      | none => simp [hudp]
      | some d =>
          have hne : ¬ IPPROTO_UDP = IPPROTO_TCP := by decide
          cases hto : h.deliversTo d.hdr.dstPort <;> simp [hudp, hto, hne]
    · rename_i hudp; simp [htcp, hudp]

theorem verdict_eq_leaked_iff : verdict h f = .leaked ↔ Leaks h f := by
  unfold verdict Leaks
  split
  · rename_i hip
    have hne : ¬ PROTO_IPV4 = PROTO_ARP := by decide
    cases hp : parseIp4Packet f.payload f.payloadLen.toNat with
    | none => simp [hip, hne]
    | some ip => simp [hip, hne, ip4Verdict_eq_leaked_iff]
  · rename_i hip
    split
    · rename_i harp
      split
      · rename_i hreq; simp [harp, hreq]
      · rename_i hreq; simp [hreq, hip]
    · rename_i harp; simp [harp, hip]

theorem Verdict.lost_eq {h' : Host} {v : Verdict} (hv : v.Queued h h' qs) :
    (v = .leaked → v.lost = 1 ∧ Unchanged h h' qs) ∧
      (v ≠ .leaked → v.lost = 0 ∧ Unchanged h h' qs ∨ v.lost = 1 ∧ ∃ s d, Appended h h' qs s d) := by
  cases v with
  | kept => exact ⟨(nomatch ·), fun _ => .inl ⟨rfl, hv⟩⟩
  | leaked => exact ⟨fun _ => ⟨rfl, hv⟩, fun hn => absurd rfl hn⟩
  | delivered s d => exact ⟨(nomatch ·), fun _ => .inr ⟨rfl, s, d, hv⟩⟩

theorem conservesPages_iff (hs : Sane h qs)
    (hk : ∀ f, parseEthPacket packet = .ok f → kallocCalls h f ≤ h.kmem.freelist.length) :
    ConservesPages h qs packet ↔ ∃ f, parseEthPacket packet = .ok f ∧ ¬ Leaks h f := by
  constructor
  · rintro ⟨h', ho, hc⟩
    obtain ⟨f, hf, hq⟩ := handlePacket_queued hs ho
    refine ⟨f, hf, fun hleak => ?_⟩
    obtain ⟨h'', ho', hl⟩ := handlePacket_pages hs hf (hk f hf)
    obtain rfl : h' = h'' := Except.ok.inj (ho.symm.trans ho')
    obtain ⟨h1, hu⟩ := (Verdict.lost_eq hq).1 (verdict_eq_leaked_iff.mpr hleak)
    have hcount := hl.count
    rcases hc with ⟨-, hc⟩ | ⟨⟨s, d, ha⟩, -⟩
    · omega
    · exact ha.not_unchanged hu
  · rintro ⟨f, hf, hleak⟩
    obtain ⟨h', ho, hl⟩ := handlePacket_pages hs hf (hk f hf)
    obtain ⟨f', hf', hq⟩ := handlePacket_queued hs ho
    obtain rfl : f = f' := Except.ok.inj (hf.symm.trans hf')
    have hcount := hl.count
    refine ⟨h', ho, ?_⟩
    rcases (Verdict.lost_eq hq).2 (fun hv => hleak (verdict_eq_leaked_iff.mp hv)) with ⟨h0, hu⟩ | ⟨h1, ha⟩
    · exact .inl ⟨hu, by omega⟩
    · exact .inr ⟨ha, by omega⟩

/-! ## Sequences of frames -/

theorem kallocCalls_le (h : Host) (f : EthFrame) : kallocCalls h f ≤ 4 := by
  unfold kallocCalls
  split
  · cases parseIp4Packet f.payload f.payloadLen.toNat with
    | none => simp
    | some ip => dsimp only; split <;> omega
  · dsimp only
    split
    · split
      · split <;> omega
      · omega
    · omega

theorem Harmless.step (hh : Harmless h packet) (hs : Sane h qs) (hk : 4 ≤ h.kmem.freelist.length) :
    ∃ h', frameStep h packet = some h' ∧ Sane h' qs ∧ h'.kmem.freelist.length = h.kmem.freelist.length := by
  obtain ⟨f, hf, hleak, hdel⟩ := hh
  obtain ⟨h', ho, hl⟩ := handlePacket_pages hs hf (Nat.le_trans (kallocCalls_le h f) hk)
  obtain ⟨f', hf', hq⟩ := handlePacket_queued hs ho
  obtain rfl : f = f' := Except.ok.inj (hf.symm.trans hf')
  have hkept : verdict h f = .kept := by
    cases hv : verdict h f with
    | kept => rfl
    | leaked => exact absurd (verdict_eq_leaked_iff.mp hv) hleak
    | delivered s d => exact absurd hv (hdel s d)
  rw [hkept] at hl hq
  exact ⟨h', by rw [frameStep, ho]; rfl,
    ⟨hq.1, fun t p hp hm => hs.used t p hp (hl.sub p hm), hl.nodup⟩, hl.count⟩

theorem Harmless.run {packets : List (List UInt8)} (hs : Sane h qs)
    (hk : 4 ≤ h.kmem.freelist.length) (hm : RunMeets frameStep Harmless h packets) :
    ∃ h', run frameStep h packets = some h' ∧ h'.kmem.freelist.length = h.kmem.freelist.length := by
  induction packets generalizing h with
  | nil => exact ⟨h, rfl, rfl⟩
  | cons packet packets ih =>
      obtain ⟨h₁, ht, hs₁, hc₁⟩ := hm.1.step hs hk
      obtain ⟨h₂, hr, hc₂⟩ := ih hs₁ (by omega) (hm.2 h₁ ht)
      exact ⟨h₂, run_cons_eq_some.mpr ⟨h₁, ht, hr⟩, by omega⟩

end Xv6Net.Net
