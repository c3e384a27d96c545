import Xv6Net.Kernel.Lemmas.Pages
import Xv6Net.Net.Lemmas.Queue

/-!
# `handle_packet` as a whole

The queues and the free list are followed through all of it.
-/

namespace Xv6Net.Net

open Kernel Lib Virtio

variable {pkt : ArpPkt} {f : EthFrame} {h h' : Host} {ip : Ip4Frame} {k : Kmem} {packet : List UInt8} {p : Nat}
  {qs : Nat → List Nat}

theorem Sane.fresh (hs : Sane h qs) (hk : kalloc h.kmem = (some p, k)) (t : Nat) : p ∉ qs t :=
  fun ht => hs.used t p ht (by rw [(kalloc_eq_some hk).1]; exact List.mem_cons_self)

/-! ## Sending -/

/-- `transmit_packet` returns with the header page lost, and has sent the packet if there were descriptors for it. -/
theorem transmitPacket_wire (hk : kalloc h.kmem = (some p, k)) (d : List UInt8) :
    ∃ q w, transmitPacket h d = .ok { h with kmem := k, txq := q, wire := w } ∧
      (h.txq.TwoFree ∧ w = h.wire ++ [d] ∨ ¬ h.txq.TwoFree ∧ w = h.wire) := by
  rcases h1 : allocDesc h.txq with ⟨hd | hd, q⟩ <;> rcases h2 : allocDesc q with ⟨pd | pd, q'⟩ <;>
    simp only [transmitPacket, twoFree_iff, hk, h1, h2]
  · exact ⟨_, _, rfl, .inr ⟨by simp, rfl⟩⟩
  · exact ⟨_, _, rfl, .inr ⟨by simp, rfl⟩⟩
  · exact ⟨_, _, rfl, .inr ⟨by simp, rfl⟩⟩
  · obtain ⟨hlt, -, rfl⟩ := allocDesc_eq_some h1
    obtain ⟨hlt', hf', rfl⟩ := allocDesc_eq_some h2
    have hne : pd ≠ hd := by rintro rfl; simp at hf'
    -- the two descriptors are taken when they are given back
    rw [freeDesc_of_taken hlt (by simp [Virtq.pushUsed, Virtq.bumpAvail, Virtq.setAvail, Virtq.fillTx,
      Function.update_of_ne hne.symm])]
    simp only [bind, Except.bind]
    rw [freeDesc_of_taken hlt' (by simp [Virtq.pushUsed, Virtq.bumpAvail, Virtq.setAvail, Virtq.fillTx,
      Function.update_of_ne hne])]
    exact ⟨_, _, rfl, .inl ⟨by simp, rfl⟩⟩

theorem transmitPacket_spec (hk : kalloc h.kmem = (some p, k)) (d : List UInt8) :
    ∃ q w, transmitPacket h d = .ok { h with kmem := k, txq := q, wire := w } ∧ (w = h.wire ∨ w = h.wire ++ [d]) := by
  obtain ⟨q, w, hsend, ⟨-, hw⟩ | ⟨-, hw⟩⟩ := transmitPacket_wire hk d
  · exact ⟨q, w, hsend, .inr hw⟩
  · exact ⟨q, w, hsend, .inl hw⟩

theorem transmitPacket_ok {d : List UInt8} (ht : transmitPacket h d = .ok h') :
    ∃ k q w, h' = { h with kmem := k, txq := q, wire := w } ∧ (w = h.wire ∨ w = h.wire ++ [d]) := by
  rcases hk : kalloc h.kmem with ⟨p | p, k⟩
  · simp [transmitPacket, hk] at ht
  · obtain ⟨q, w, he, hw⟩ := transmitPacket_spec hk d
    rw [he] at ht
    exact ⟨k, q, w, (Except.ok.inj ht).symm, hw⟩

theorem arpRequest_ok {targetIp : UInt32} (ho : arpRequest h targetIp = .ok h') :
    ∃ k q w, h' = { h with kmem := k, txq := q, wire := w } ∧ (w = h.wire ∨ w = h.wire ++
      [arpFrame freshPage broadcastMac h.netconf.macAddr
        (arpPacket h.netconf ARP_OP_REQUEST broadcastMac targetIp)]) := by
  unfold arpRequest at ho
  split at ho
  · cases ho; exact ⟨_, _, _, rfl, .inl rfl⟩
  · simp only [bind, Except.bind] at ho
    split at ho
    · cases ho
    · rename_i h₁ ht
      obtain ⟨k, q, w, rfl, hw⟩ := transmitPacket_ok ht
      split at ho
      · cases ho
      · cases ho; exact ⟨_, _, _, rfl, hw⟩

theorem sendKbuf_ok {sock : Nat} {addr : SockaddrIn} {dstMac : Mac} {kbuf : List UInt8}
    {r : Option Int} (ho : sendKbuf h sock addr dstMac kbuf = .ok (r, h')) : r = some 0 ∧ h'.socks = h.socks := by
  unfold sendKbuf at ho
  split at ho
  · cases ho
  · split at ho
    · cases ho
    · simp only [bind, Except.bind] at ho
      split at ho
      · cases ho
      · rename_i h₁ ht
        obtain ⟨k, q, w, rfl, -⟩ := transmitPacket_ok ht
        split at ho
        · cases ho
        · cases ho; exact ⟨rfl, rfl⟩

/-- What `arp_recv` changes: the cache gets the sender of the packet, and a request may be answered. -/
theorem arpRecv_ok (ha : arpRecv h pkt = .ok h') :
    ∃ k q w c, h' = { h with kmem := k, txq := q, wire := w, arpCache := c } ∧
      (c = h.arpCache ∨ (ntohs pkt.oper = ARP_OP_REQUEST ∨ ntohs pkt.oper = ARP_OP_REPLY) ∧
        c = arpInsert pkt.spa pkt.sha h.arpCache) ∧
      (w = h.wire ∨ ntohs pkt.oper = ARP_OP_REQUEST ∧ w = h.wire ++
        [arpFrame freshPage pkt.sha h.netconf.macAddr (arpPacket h.netconf ARP_OP_REPLY pkt.sha pkt.spa)]) := by
  unfold arpRecv at ha
  split at ha
  · rename_i hreq
    split at ha
    · cases ha; exact ⟨_, _, _, _, rfl, .inl rfl, .inl rfl⟩
    · dsimp only at ha
      split at ha
      · -- the reply is sent and its page freed
        simp only [bind, Except.bind] at ha
        split at ha
        · cases ha
        · rename_i h₁ ht
          obtain ⟨k, q, w, rfl, hw⟩ := transmitPacket_ok ht
          split at ha
          · cases ha
          · cases ha; exact ⟨_, _, _, _, rfl, .inr ⟨.inl hreq, rfl⟩, hw.imp id fun hw => ⟨hreq, hw⟩⟩
      · cases ha; exact ⟨_, _, _, _, rfl, .inr ⟨.inl hreq, rfl⟩, .inl rfl⟩
  · split at ha
    · rename_i hrep
      cases ha; exact ⟨_, _, _, _, rfl, .inr ⟨.inr hrep, rfl⟩, .inl rfl⟩
    · cases ha; exact ⟨_, _, _, _, rfl, .inl rfl, .inl rfl⟩

/-! ## What a frame can do -/

/-- What `handle_ip4_packet` can do. -/
inductive Ip4Step (h : Host) (ip : Ip4Frame) : Host → Prop
  | other (htcp : ip.hdr.protocol.toNat ≠ IPPROTO_TCP) (hudp : ip.hdr.protocol.toNat ≠ IPPROTO_UDP) : Ip4Step h ip h
  | tcp {p : Nat} {k : Kmem} (htcp : ip.hdr.protocol.toNat = IPPROTO_TCP) (hk : kalloc h.kmem = (some p, k))
      (tcp : TcpFrame) : Ip4Step h ip (handleTcpPacket { h with kmem := k } tcp).2
  | tcpShort {p : Nat} {k : Kmem} (htcp : ip.hdr.protocol.toNat = IPPROTO_TCP) (hk : kalloc h.kmem = (some p, k)) :
      Ip4Step h ip { h with kmem := k }
  | udp {p : Nat} {k : Kmem} {d : Datagram} {r : Int} {h' : Host} (htcp : ip.hdr.protocol.toNat ≠ IPPROTO_TCP)
      (hudp : ip.hdr.protocol.toNat = IPPROTO_UDP) (hk : kalloc h.kmem = (some p, k))
      (hd : parseUdpPacket ip.payload ip.payloadLen.toNat = some d)
      (ho : handleUdpPacket (Host.storeFrame { h with kmem := k } p d) p = .ok (r, h')) : Ip4Step h ip h'
  | udpShort {p : Nat} {k : Kmem} (htcp : ip.hdr.protocol.toNat ≠ IPPROTO_TCP)
      (hudp : ip.hdr.protocol.toNat = IPPROTO_UDP) (hk : kalloc h.kmem = (some p, k))
      (hd : parseUdpPacket ip.payload ip.payloadLen.toNat = none) : Ip4Step h ip { h with kmem := k }

theorem handleIp4Packet_step (ho : handleIp4Packet h ip = .ok h') : Ip4Step h ip h' := by
  unfold handleIp4Packet at ho
  split at ho
  · rename_i htcp
    split at ho
    · cases ho
    · rename_i p k hk
      dsimp only at ho
      split at ho
      · cases ho; exact .tcp htcp hk _
      · cases ho; exact .tcpShort htcp hk
  · rename_i htcp
    split at ho
    · rename_i hudp
      split at ho
      · cases ho
      · rename_i p k hk
        dsimp only at ho
        split at ho
        · rename_i d hd
          simp only [bind, Except.bind] at ho
          split at ho
          · cases ho
          · rename_i x hx
            cases ho; exact .udp htcp hudp hk hd hx
        · rename_i hd
          cases ho; exact .udpShort htcp hudp hk hd
    · rename_i hudp
      cases ho; exact .other htcp hudp

/-- What `handle_packet` can do with a parsed frame. -/
inductive FrameStep (h : Host) (f : EthFrame) : Host → Prop
  | kept (hv : verdict h f = .kept) : FrameStep h f h
  | ip4 {ip : Ip4Frame} {h' : Host} (hv : verdict h f = ip4Verdict h ip) (hs : Ip4Step h ip h') : FrameStep h f h'
  | arp {h' : Host} (hv : verdict h f = .kept ∨ verdict h f = .leaked)
      (ho : arpRecv h (ArpPkt.decode f.payload) = .ok h') : FrameStep h f h'

theorem handleFrame_step {ip4 : Option Nat} (ho : handleFrame h f ip4 = .ok h') : FrameStep h f h' := by
  unfold handleFrame at ho
  split at ho
  · rename_i hip
    split at ho
    · cases ho
    · split at ho
      · rename_i ip hp
        exact .ip4 (by simp only [verdict, if_pos hip, hp]) (handleIp4Packet_step ho)
      · rename_i hp
        cases ho; exact .kept (by simp only [verdict, if_pos hip, hp])
  · rename_i hip
    split at ho
    · rename_i harp
      refine .arp ?_ ho
      simp only [verdict, if_neg hip, if_pos harp]
      split
      · exact .inr rfl
      · exact .inl rfl
    · rename_i harp
      cases ho; exact .kept (by simp only [verdict, if_neg hip, if_neg harp])

/-- `handle_packet` as a whole: the two pages for the frame are taken and given back. Without the second one it would
free the null pointer and panic. -/
structure PacketStep (h h' : Host) (f : EthFrame) (eth ip4 : Nat) (k₁ k₂ k₃ k₄ : Kmem) (h₁ : Host) : Prop where
  first : kalloc h.kmem = (some eth, k₁)
  second : kalloc k₁ = (some ip4, k₂)
  frame : FrameStep { h with kmem := k₂ } f h₁
  free₁ : kfree h₁.kmem eth = .ok k₃
  free₂ : kfree k₃ ip4 = .ok k₄
  eq : h' = { h₁ with kmem := k₄ }

theorem handlePacket_step (ho : handlePacket h packet = .ok h') :
    ∃ f eth ip4 k₁ k₂ k₃ k₄ h₁, parseEthPacket packet = .ok f ∧ PacketStep h h' f eth ip4 k₁ k₂ k₃ k₄ h₁ := by
  unfold handlePacket at ho
  split at ho
  · cases ho
  · rename_i eth k₁ hk₁
    simp only [bind, Except.bind] at ho
    split at ho
    · cases ho
    rename_i f hf
    split at ho
    · cases ho
    rename_i h₁ hh
    split at ho
    · cases ho
    rename_i k₃ hk₃
    split at ho
    · cases ho
    rename_i k₄ hk₄
    cases ho
    rcases hk₂ : kalloc k₁ with ⟨ip4 | ip4, k₂⟩
    · simp only [hk₂, Option.getD_none] at hk₄
      obtain ⟨-, -, hle, -⟩ := kfree_eq_ok hk₄
      exact absurd (Nat.le_trans k₃.kernbase_le hle) (by decide)
    · simp only [hk₂, Option.getD_some] at hh hk₄
      exact ⟨f, eth, ip4, k₁, k₂, k₃, k₄, h₁, hf, hk₁, hk₂, handleFrame_step hh, hk₃, hk₄, rfl⟩

/-! ## The queues -/

/-- What the verdict says about the queues. -/
def Verdict.Queued (h h' : Host) (qs : Nat → List Nat) : Verdict → Prop
  | .kept | .leaked => Unchanged h h' qs
  | .delivered s d => Appended h h' qs s d

theorem SameRx.unchanged (hs : SameRx h h') (hq : Queues h qs) :
    Unchanged h h' qs := ⟨hs.queues hq, fun _ p _ => by rw [hs.frames]⟩

theorem arpRecv_same (ha : arpRecv h pkt = .ok h') : SameRx h h' := by
  obtain ⟨k, q, w, c, rfl, -, -⟩ := arpRecv_ok ha
  exact .of_eq rfl rfl rfl

theorem handleTcpPacket_same (h : Host) (tcp : TcpFrame) : SameRx h (handleTcpPacket h tcp).2 := by
  unfold handleTcpPacket
  dsimp only
  split
  · exact .of_eq rfl rfl rfl
  · split
    · exact .of_eq rfl rfl rfl
    · split
      · split
        · exact .of_eq rfl rfl rfl
        · split
          · exact .of_eq rfl rfl rfl
          · exact .setSock h ⟨rfl, rfl, rfl⟩
      · exact .of_eq rfl rfl rfl

/-- A datagram in a fresh page: dropped, or put at the end of one queue. -/
theorem handleUdpPacket_fresh {d : Datagram} {r : Int} (hs : Sane h qs) (hk : kalloc h.kmem = (some p, k))
    (ho : handleUdpPacket (Host.storeFrame { h with kmem := k } p d) p = .ok (r, h')) :
    h'.kmem = k ∧ (h.deliversTo d.hdr.dstPort = none ∧ Unchanged h h' qs ∨
      ∃ s, h.deliversTo d.hdr.dstPort = some s ∧ Queues h' (Function.update qs s (qs s ++ [p])) ∧
        Appended h h' qs s d) := by
  have hfresh := hs.fresh hk
  have hsk : SameRx h { h with kmem := k } := .of_eq rfl rfl rfl
  obtain ⟨hqd, hsame⟩ := (hsk.queues hs.queues).store hfresh d
  have hport := storeFrame_deliversTo { h with kmem := k } p d
  cases hto : h.deliversTo d.hdr.dstPort with
  | none =>
      obtain ⟨r, he⟩ := handleUdpPacket_none (hport.trans hto)
      rw [he] at ho
      cases ho
      exact ⟨rfl, .inl ⟨rfl, hqd, fun t q hq => by rw [hsame t q hq]⟩⟩
  | some s =>
      obtain ⟨h₁, he, hq₁, hd₁⟩ := handleUdpPacket_some hqd hfresh (hport.trans hto)
      rw [he] at ho
      cases ho
      refine ⟨hd₁.kmem, .inr ⟨s, rfl, hq₁, p, hq₁, by rw [hd₁.data, storeFrame_self], fun t q hq => ?_⟩⟩
      rw [hd₁.data, hsame t q hq]

theorem Ip4Step.queued (hs : Sane h qs) (ho : Ip4Step h ip h') : (ip4Verdict h ip).Queued h h' qs := by
  have hsame : ∀ k, SameRx h { h with kmem := k } := fun k => .of_eq rfl rfl rfl
  unfold ip4Verdict
  cases ho with
  | other htcp hudp => rw [if_neg htcp, if_neg hudp]; exact (SameRx.of_eq rfl rfl rfl).unchanged hs.queues
  | tcp htcp hk tcp =>
      rw [if_pos htcp]
      exact ((hsame _).trans (handleTcpPacket_same ..)).unchanged hs.queues
  | tcpShort htcp hk => rw [if_pos htcp]; exact (hsame _).unchanged hs.queues
  | udpShort htcp hudp hk hd =>
      simp only [if_neg htcp, if_pos hudp, hd]
      exact (hsame _).unchanged hs.queues
  | udp htcp hudp hk hd ho =>
      simp only [if_neg htcp, if_pos hudp, hd]
      rcases (handleUdpPacket_fresh hs hk ho).2 with ⟨hto, hun⟩ | ⟨s, hto, -, happ⟩
      · rw [hto]; exact hun
      · rw [hto]; exact happ

theorem FrameStep.queued (hs : Sane h qs) (ho : FrameStep h f h') : (verdict h f).Queued h h' qs := by
  cases ho with
  | kept hv => rw [hv]; exact (SameRx.of_eq rfl rfl rfl).unchanged hs.queues
  | ip4 hv ho => rw [hv]; exact ho.queued hs
  | arp hv ho =>
      have hun := (arpRecv_same ho).unchanged hs.queues
      rcases hv with hv | hv <;> rw [hv] <;> exact hun

theorem Verdict.Queued.of_kmem {v : Verdict} (hv : v.Queued h h' qs) (k : Kmem) :
    v.Queued h { h' with kmem := k } qs := by
  have hk : SameRx h' { h' with kmem := k } := .of_eq rfl rfl rfl
  cases v with
  | kept => exact ⟨hk.queues hv.1, hv.2⟩
  | leaked => exact ⟨hk.queues hv.1, hv.2⟩
  | delivered s d =>
      obtain ⟨p, hq, hd⟩ := hv
      exact ⟨p, hk.queues hq, hd⟩

theorem Sane.kalloc (hs : Sane h qs) (hk : kalloc h.kmem = (some p, k)) : Sane { h with kmem := k } qs := by
  have hf := (kalloc_eq_some hk).1
  have hsk : SameRx h { h with kmem := k } := .of_eq rfl rfl rfl
  exact ⟨hsk.queues hs.queues, fun t q hq hm => hs.used t q hq (by rw [hf]; exact List.mem_cons_of_mem _ hm),
    (kalloc_held hs.nodup hk).2.1⟩

theorem handlePacket_queued (hs : Sane h qs) (ho : handlePacket h packet = .ok h') :
    ∃ f, parseEthPacket packet = .ok f ∧ (verdict h f).Queued h h' qs := by
  obtain ⟨f, eth, ip4, k₁, k₂, k₃, k₄, h₁, hf, hp⟩ := handlePacket_step ho
  refine ⟨f, hf, ?_⟩
  rw [hp.eq]
  exact (hp.frame.queued ((hs.kalloc hp.first).kalloc hp.second)).of_kmem k₄

/-! ## The pages -/

/-- How many pages of a frame do not come back to the free list. -/
def Verdict.lost : Verdict → Nat
  | .kept => 0
  | .leaked | .delivered _ _ => 1

/-- A frame in a page of its own is sent and the page freed: the header page of `transmit_packet` is lost. -/
theorem send_and_free {k₀ : Kmem} (hl : Lost 1 k₀ h.kmem) (hp : Held h.kmem p)
    (hfree : p ∈ k₀.freelist) (hlen : 0 < h.kmem.freelist.length) (d : List UInt8) :
    ∃ h', (do
        let h ← transmitPacket h d
        let k ← kfree h.kmem p
        .ok { h with kmem := k }) = Except.ok h' ∧ Lost 1 k₀ h'.kmem := by
  obtain ⟨q, k, hk⟩ := kalloc_isSome hlen
  obtain ⟨q', w, he, -⟩ := transmitPacket_spec hk d
  obtain ⟨k', hf, hl', -⟩ := (hl.trans (Lost.kalloc hl.nodup hk)).kfree (hp.kalloc hk) hfree
  refine ⟨{ h with kmem := k', txq := q', wire := w }, ?_, hl'⟩
  rw [he]
  simp only [bind, Except.bind, hf]

theorem arpRequest_pages (hn : h.kmem.freelist.Nodup) (hlen : 2 ≤ h.kmem.freelist.length)
    (targetIp : UInt32) : ∃ h', arpRequest h targetIp = .ok h' ∧ Lost 1 h.kmem h'.kmem := by
  obtain ⟨p, k, hk⟩ := kalloc_isSome (by omega : 0 < h.kmem.freelist.length)
  obtain ⟨hp, -, hf⟩ := kalloc_held hn hk
  have hlen' : 0 < k.freelist.length := by rw [hf, List.length_cons] at hlen; omega
  simp only [arpRequest, hk]
  exact send_and_free (h := { h with kmem := k }) (Lost.kalloc hn hk) hp
    (by rw [hf]; exact List.mem_cons_self) hlen' _

theorem arpRecv_pages (hn : h.kmem.freelist.Nodup)
    (hlen : (if ntohs pkt.oper = ARP_OP_REQUEST then
        if pkt.tpa = h.netconf.ipAddr ∨ pkt.tpa = 0xFFFFFFFF then 2 else 1 else 0) ≤ h.kmem.freelist.length) :
    ∃ h', arpRecv h pkt = .ok h' ∧
      Lost (if ntohs pkt.oper = ARP_OP_REQUEST then 1 else 0) h.kmem h'.kmem := by
  unfold arpRecv
  split
  · rename_i hreq
    rw [if_pos hreq] at hlen
    have hpos : 0 < h.kmem.freelist.length := by split at hlen <;> omega
    obtain ⟨p, k, hk⟩ := kalloc_isSome hpos
    obtain ⟨hp, -, hf⟩ := kalloc_held hn hk
    simp only [hk]
    split
    · rename_i hus
      rw [if_pos hus, hf, List.length_cons] at hlen
      exact send_and_free (h := { h with kmem := k, arpCache := arpInsert pkt.spa pkt.sha h.arpCache })
        (Lost.kalloc hn hk) hp (by rw [hf]; exact List.mem_cons_self)
        (by dsimp only; omega) _
    · exact ⟨_, rfl, Lost.kalloc hn hk⟩
  · split <;> exact ⟨_, rfl, Lost.refl hn⟩

theorem handleTcpPacket_kmem (h : Host) (tcp : TcpFrame) : (handleTcpPacket h tcp).2.kmem = h.kmem := by
  unfold handleTcpPacket
  dsimp only
  split
  · rfl
  · split
    · rfl
    · split
      · split
        · rfl
        · split <;> rfl
      · rfl

theorem handleIp4Packet_pages (hs : Sane h qs)
    (hlen : (if ip.hdr.protocol.toNat = IPPROTO_TCP ∨ ip.hdr.protocol.toNat = IPPROTO_UDP then 1 else 0) ≤
      h.kmem.freelist.length) :
    ∃ h', handleIp4Packet h ip = .ok h' ∧ Lost (ip4Verdict h ip).lost h.kmem h'.kmem := by
  unfold handleIp4Packet ip4Verdict
  split
  · rename_i htcp
    rw [if_pos (Or.inl htcp)] at hlen
    obtain ⟨p, k, hk⟩ := kalloc_isSome hlen
    simp only [hk]
    split
    · exact ⟨_, rfl, by rw [handleTcpPacket_kmem]; exact Lost.kalloc hs.nodup hk⟩
    · exact ⟨_, rfl, Lost.kalloc hs.nodup hk⟩
  · split
    · rename_i hudp
      rw [if_pos (Or.inr hudp)] at hlen
      obtain ⟨p, k, hk⟩ := kalloc_isSome hlen
      have hl := Lost.kalloc hs.nodup hk
      have hfresh := hs.fresh hk
      simp only [hk]
      cases hd : parseUdpPacket ip.payload ip.payloadLen.toNat with
      | none => exact ⟨_, rfl, hl⟩
      | some d =>
          obtain ⟨hqd, -⟩ := (hs.kalloc hk).queues.store hfresh d
          have hport := storeFrame_deliversTo { h with kmem := k } p d
          dsimp only
          cases hto : h.deliversTo d.hdr.dstPort with
          | none =>
              obtain ⟨r, he⟩ := handleUdpPacket_none (hport.trans hto)
              simp only [he, bind, Except.bind]
              exact ⟨_, rfl, hl⟩
          | some s =>
              obtain ⟨h₁, he, -, hd₁⟩ := handleUdpPacket_some hqd hfresh (hport.trans hto)
              simp only [he, bind, Except.bind]
              exact ⟨_, rfl, by rw [hd₁.kmem]; exact hl⟩
    · exact ⟨_, rfl, Lost.refl hs.nodup⟩

theorem handleFrame_pages (hs : Sane h qs) (hlen : kallocCalls h f ≤ h.kmem.freelist.length + 2) (p : Nat) :
    ∃ h', handleFrame h f (some p) = .ok h' ∧ Lost (verdict h f).lost h.kmem h'.kmem := by
  unfold kallocCalls at hlen
  unfold handleFrame verdict
  split
  · rename_i hip
    rw [if_pos hip] at hlen
    cases hp : parseIp4Packet f.payload f.payloadLen.toNat with
    | none => exact ⟨_, rfl, Lost.refl hs.nodup⟩
    | some ip =>
        rw [hp] at hlen
        exact handleIp4Packet_pages hs (by dsimp only at hlen; omega)
  · rename_i hip
    rw [if_neg hip] at hlen
    split
    · rename_i harp
      rw [if_pos harp] at hlen
      have hle := Nat.le_of_add_le_add_right (Nat.add_comm 2 _ ▸ hlen)
      obtain ⟨h', he, hl⟩ := arpRecv_pages hs.nodup hle
      refine ⟨h', he, ?_⟩
      split at hl
      · rename_i hreq; rw [if_pos hreq]; exact hl
      · rename_i hreq; rw [if_neg hreq]; exact hl
    · exact ⟨_, rfl, Lost.refl hs.nodup⟩

/-- `handle_packet` returns if its calls of `kalloc` succeed, and only the pages of the verdict are lost. -/
theorem handlePacket_pages (hs : Sane h qs)
    (hf : parseEthPacket packet = .ok f) (hlen : kallocCalls h f ≤ h.kmem.freelist.length) :
    ∃ h', handlePacket h packet = .ok h' ∧ Lost (verdict h f).lost h.kmem h'.kmem := by
  have h2 : 2 ≤ h.kmem.freelist.length := Nat.le_trans (by unfold kallocCalls; omega) hlen
  obtain ⟨eth, k₁, hk₁⟩ := kalloc_isSome (by omega : 0 < h.kmem.freelist.length)
  obtain ⟨heth, hn₁, hf₁⟩ := kalloc_held hs.nodup hk₁
  have hlen₁ : h.kmem.freelist.length = k₁.freelist.length + 1 := by rw [hf₁]; rfl
  obtain ⟨ip4, k₂, hk₂⟩ := kalloc_isSome (by omega : 0 < k₁.freelist.length)
  obtain ⟨hip4, hn₂, hf₂⟩ := kalloc_held hn₁ hk₂
  have hlen₂ : k₁.freelist.length = k₂.freelist.length + 1 := by rw [hf₂]; rfl
  have hs₂ : Sane { h with kmem := k₂ } qs := (hs.kalloc hk₁).kalloc hk₂
  obtain ⟨h₁, he, hl⟩ := handleFrame_pages (f := f) hs₂
    (show kallocCalls h f ≤ k₂.freelist.length + 2 by omega) ip4
  -- the two pages are still held, and are freed in turn
  have hl₂ : Lost (1 + 1) h.kmem k₂ := (Lost.kalloc hs.nodup hk₁).trans (Lost.kalloc hn₁ hk₂)
  have hl₃ : Lost ((verdict h f).lost + 1 + 1) h.kmem h₁.kmem := by
    have := hl₂.trans hl
    rw [show 1 + 1 + (verdict { h with kmem := k₂ } f).lost = (verdict h f).lost + 1 + 1 from by
      rw [Nat.add_comm]; rfl] at this
    exact this
  have hmem₂ : ip4 ∈ h.kmem.freelist := by
    rw [hf₁, hf₂]; exact List.mem_cons_of_mem _ List.mem_cons_self
  have hne : ip4 ≠ eth := by
    rintro rfl
    exact heth.not_free (by rw [hf₂]; exact List.mem_cons_self)
  obtain ⟨k₃, hfr₁, hl₄, hheld⟩ := hl₃.kfree (hl.held eth (heth.kalloc hk₂))
    (by rw [hf₁]; exact List.mem_cons_self)
  obtain ⟨k₄, hfr₂, hl₅, -⟩ := hl₄.kfree (hheld ip4 hne (hl.held ip4 hip4)) hmem₂
  refine ⟨{ h₁ with kmem := k₄ }, ?_, hl₅⟩
  simp only [handlePacket, hk₁, hk₂, hf, bind, Except.bind, he, hfr₁, Option.getD_some, hfr₂]

end Xv6Net.Net
