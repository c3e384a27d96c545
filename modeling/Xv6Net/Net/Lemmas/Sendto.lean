import Xv6Net.Net.Lemmas.Packet
import Xv6Net.Net.Lemmas.Receive
import Xv6Net.Net.Lemmas.Recvfrom
import Xv6Net.Net.Sendto

/-!
# What `udp_sendto` admits
-/

namespace Xv6Net.Net

open Kernel Lib Virtio Vm

variable {h h' : Host} {sock buf dest addrlen : Nat} {len : Int} {pt : PageTable} {mem : Memory} {kbuf : List UInt8}

/-! ## The frame -/

section

variable (page : Nat → UInt8) (srcPort sinPort : UInt16) (netconf : NetState) (dstIp : UInt32) (dstMac : Mac)

theorem length_udpSendtoFrame (kbuf : List UInt8) :
    (udpSendtoFrame page srcPort sinPort kbuf netconf dstIp dstMac).length = 42 + kbuf.length := by
  rw [udpSendtoFrame, length_slice, ETH_HDR_SIZE, IP4_HDR_SIZE, UDP_HDR_SIZE]
  omega

theorem be16_udpSendtoFrame (hlen : kbuf.length ≤ 1500) :
    be16 (udpSendtoFrame page srcPort sinPort kbuf netconf dstIp dstMac) 16 = 28 + kbuf.length ∧
      be16 (udpSendtoFrame page srcPort sinPort kbuf netconf dstIp dstMac) 38 = 8 + kbuf.length := by
  rw [udpSendtoFrame_eq, ← toNat_ntohs_load16, ← toNat_ntohs_load16]
  generalize hip : ip4Header _ _ _ _ = ip
  generalize hudp : udpHeader _ _ _ _ _ = udp
  generalize heth : EthHdr.encode _ = eth
  have hlength : eth.length = 14 := by rw [← heth, EthHdr.length_encode]; rfl
  have htot : load16 (eth ++ (ip.encode ++ (udp.encode ++ kbuf))) 16 = ip.totalLen := by
    have := load16_append_right eth (ip.encode ++ (udp.encode ++ kbuf)) 2
    rw [hlength] at this
    exact this.trans (load16_bytes16 _)
  have hulen : load16 (eth ++ (ip.encode ++ (udp.encode ++ kbuf))) 38 = udp.len := by
    have := load16_append_right (eth ++ ip.encode) (udp.encode ++ kbuf) 4
    rw [List.length_append, hlength, List.append_assoc] at this
    exact this.trans (load16_bytes16 _)
  rw [htot, hulen, ← hip, ← hudp]
  simp only [ip4Header, udpHeader, ntohs_htons, UInt16.toNat_ofNat', UDP_HDR_SIZE, IP4_HDR_SIZE]
  omega

end

/-- With two pages the call returns, and the frame is sent if there are descriptors for it. -/
theorem sendKbuf_returns (sock : Nat) (addr : SockaddrIn) (dstMac : Mac) (hlen : kbuf.length ≤ 1500)
    (hfree : 2 ≤ h.kmem.freelist.length) :
    ∃ h', sendKbuf h sock addr dstMac kbuf = .ok (some 0, h') ∧
      (h.txq.TwoFree ∧ h'.wire = h.wire ++ [udpSendtoFrame freshPage (.ofNat (h.socks sock).srcPort) addr.sinPort kbuf
          h.netconf addr.sAddr dstMac] ∨ ¬ h.txq.TwoFree ∧ h'.wire = h.wire) := by
  obtain ⟨eth, k, hk⟩ := kalloc_isSome (by omega : 0 < h.kmem.freelist.length)
  obtain ⟨hlist, -, hend⟩ := kalloc_eq_some hk
  obtain ⟨hdr, k', hk'⟩ := kalloc_isSome (k := k) (by rw [hlist, List.length_cons] at hfree; omega)
  obtain ⟨q, w, hsend, hw⟩ := transmitPacket_wire (h := { h with kmem := k }) hk'
    (udpSendtoFrame freshPage (.ofNat (h.socks sock).srcPort) addr.sinPort kbuf h.netconf addr.sAddr dstMac)
  have hram : k'.Ram eth := by
    have hvalid := h.kmem.valid eth (by rw [hlist]; exact List.mem_cons_self)
    rw [Kmem.Ram, (kalloc_eq_some hk').2.2, hend]
    exact hvalid
  obtain ⟨k'', hfreed⟩ := kfree_ram hram
  refine ⟨{ h with kmem := k'', txq := q, wire := w }, ?_, hw⟩
  simp only [sendKbuf, if_neg (Nat.not_lt.mpr hlen), hk, hsend, hfreed, bind, Except.bind]

theorem sendKbuf_stops (addr : SockaddrIn) (dstMac : Mac) (hfree : h.kmem.freelist.length < 2) {r : Option Int × Host} :
    sendKbuf h sock addr dstMac kbuf ≠ .ok r := by
  unfold sendKbuf
  split
  · simp
  · rcases hk : kalloc h.kmem with ⟨_ | eth, k⟩
    · simp
    · have hnil : k.freelist = [] := by
        rw [(kalloc_eq_some hk).1, List.length_cons] at hfree
        exact List.length_eq_zero_iff.mp (by omega)
      rcases hk' : kalloc k with ⟨p, k'⟩
      obtain rfl : p = none := by simpa [hk'] using kalloc_nil hnil
      simp [transmitPacket, hk', bind, Except.bind]

theorem sendsWhole_sendKbuf (addr : SockaddrIn) (dstMac : Mac) (hlen : (kbuf.length : Int) = len) (hle : len ≤ 1500) :
    SendsWhole h len (kbuf.length, sendKbuf h sock addr dstMac kbuf) ↔
      len ≤ 1472 ∧ 2 ≤ h.kmem.freelist.length ∧ h.txq.TwoFree := by
  constructor
  · rintro ⟨-, ret, h', hret, hsent⟩
    by_cases hfree : 2 ≤ h.kmem.freelist.length
    · obtain ⟨h'', hret', hwire⟩ := sendKbuf_returns sock addr dstMac (by omega : kbuf.length ≤ 1500) hfree
      obtain ⟨rfl, rfl⟩ : 0 = ret ∧ h'' = h' := by simpa [hret'] using hret
      rcases hsent with ⟨hret, -⟩ | ⟨frame, hframe, hlength, hmax, -⟩
      · simp at hret
      · rcases hwire with ⟨htwo, -⟩ | ⟨-, hsame⟩
        · exact ⟨by omega, hfree, htwo⟩
        · rw [hsame] at hframe
          simp at hframe
    · exact absurd hret (sendKbuf_stops addr dstMac (Nat.not_le.mp hfree))
  · rintro ⟨hmax, hfree, htwo⟩
    obtain ⟨h', hret, ⟨-, hwire⟩ | ⟨hnot, -⟩⟩ :=
      sendKbuf_returns sock addr dstMac (by omega : kbuf.length ≤ 1500) hfree
    · obtain ⟨hip, hudp⟩ := be16_udpSendtoFrame freshPage (.ofNat (h.socks sock).srcPort) addr.sinPort h.netconf
        addr.sAddr dstMac (by omega : kbuf.length ≤ 1500)
      have hlength := length_udpSendtoFrame freshPage (.ofNat (h.socks sock).srcPort) addr.sinPort h.netconf
        addr.sAddr dstMac kbuf
      exact ⟨by omega, 0, h', hret, .inr ⟨_, hwire, by omega, by omega, by omega, by omega⟩⟩
    · exact absurd htwo hnot

theorem sendsWhole_refused {n : Nat} : SendsWhole h len (n, .ok (some (-1), h)) ↔ n ≤ 1500 :=
  ⟨And.left, fun hn => ⟨hn, -1, h, rfl, .inl ⟨rfl, rfl⟩⟩⟩

/-- A negative length is larger than the address space when it gets to `copyin`, so the copy fails in the end. -/
theorem sendsWhole_negative {n : Nat} {r : Bool × List UInt8} (hint : -2 ^ 31 ≤ len) (hneg : len < 0)
    (hn : (len % 2 ^ 64).toNat = n) (hr : CopiedFrom pt mem buf n r) :
    r.1 = false ∧ (r.2.length ≤ 1500 ↔ ¬ pt.Maps buf 1501) := by
  have hlarge : MAXVA < n := by
    rw [MAXVA]
    omega
  have hfalse : r.1 = false := by
    by_contra htrue
    have := (hr.done_iff.mp (by simpa using htrue)).le_maxva
    omega
  have hle : 1501 ≤ n := by
    rw [MAXVA] at hlarge
    omega
  rw [← hr.le_length_iff hle]
  exact ⟨hfalse, by omega⟩

theorem sendsWhole_iff (hint : -2 ^ 31 ≤ len)
    (harp : ∀ kaddr, copyinFrom pt mem dest SOCKADDR_IN_SIZE = (true, kaddr) →
      (arpLookup (SockaddrIn.decode kaddr).sAddr h.arpCache).isSome) :
    SendsWhole h len (udpSendtoFrom h sock pt mem buf len dest addrlen) ↔ Sendable h pt buf len dest addrlen := by
  have hrefused : SendsWhole h len (0, .ok (some (-1), h)) := sendsWhole_refused.mpr (by decide)
  have hdest := copyinFrom_copied pt mem dest SOCKADDR_IN_SIZE
  unfold udpSendtoFrom udpSendto Sendable
  split
  · next hshort => exact ⟨fun _ hle => absurd hle (by omega), fun _ => hrefused⟩
  · next hshort =>
    rcases hd : copyinFrom pt mem dest SOCKADDR_IN_SIZE with ⟨_ | _, kaddr⟩
    · have hnot : ¬ pt.Maps dest SOCKADDR_IN_SIZE := by simp [← hdest.done_iff, hd]
      exact ⟨fun _ _ hmaps => absurd hmaps hnot, fun _ => hrefused⟩
    · have hmaps : pt.Maps dest SOCKADDR_IN_SIZE := by simp [← hdest.done_iff, hd]
      obtain ⟨dstMac, hmac⟩ := Option.isSome_iff_exists.mp (harp kaddr hd)
      simp only [Nat.not_lt.mp hshort, hmaps, if_true, hmac, forall_const]
      split
      · exact ⟨fun _ => ⟨fun _ => by omega, fun _ _ => by omega⟩, fun _ => hrefused⟩
      · next hmax =>
        generalize hn : (len % _).toNat = n
        have hbuf := copyinFrom_copied pt mem buf n
        rcases Int.lt_or_le len 0 with hneg | hpos
        · obtain ⟨hfalse, hlength⟩ := sendsWhole_negative hint hneg hn hbuf
          rcases hc : copyinFrom pt mem buf n with ⟨_ | _, kbuf⟩
          · rw [hc] at hlength
            simp only [sendsWhole_refused, hlength, hneg, forall_const]
            exact ⟨fun hnot => ⟨hnot, fun _ => by omega⟩, And.left⟩
          · simp [hc] at hfalse
        · obtain rfl : len.toNat = n := by omega
          rcases hc : copyinFrom pt mem buf len.toNat with ⟨_ | _, kbuf⟩
          · have hnot : ¬ pt.Maps buf len.toNat := by simp [← hbuf.done_iff, hc]
            have hlt : kbuf.length < len.toNat := by simpa [hc] using (hbuf.stopped (by rw [hc])).1
            simp only [sendsWhole_refused]
            exact ⟨fun _ => ⟨fun _ => by omega, fun _ _ hm => absurd hm hnot⟩, fun _ => by omega⟩
          · have hm : pt.Maps buf len.toNat := by simp [← hbuf.done_iff, hc]
            have hlength : kbuf.length = len.toNat := by simpa [hc] using hbuf.done (by rw [hc])
            simp only [sendsWhole_sendKbuf _ dstMac (by omega : (kbuf.length : Int) = len) (Int.not_lt.mp hmax), hpos,
              Int.not_lt.mp hmax, hm, forall_const]
            exact ⟨fun hs => ⟨fun _ => by omega, hs⟩, And.right⟩

end Xv6Net.Net
