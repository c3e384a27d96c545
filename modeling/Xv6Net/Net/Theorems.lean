import Xv6Net.Net.Lemmas.Arp
import Xv6Net.Net.Lemmas.Binders
import Xv6Net.Net.Lemmas.Bounds
import Xv6Net.Net.Lemmas.Cache
import Xv6Net.Net.Lemmas.Checksum
import Xv6Net.Net.Lemmas.Demux
import Xv6Net.Net.Lemmas.Dns
import Xv6Net.Net.Lemmas.Recvfrom
import Xv6Net.Net.Lemmas.Sendto
import Xv6Net.Net.Lemmas.Tables
import Xv6Net.Net.Lemmas.Tcp
import Xv6Net.Net.Lemmas.Verdict

/-!
# Properties of the network stack
-/

namespace Xv6Net.Net

open Kernel Lib Virtio Vm

/-- A host with one UDP socket at address 16 and another one at 32, and nothing bound. -/
def Host.sample : Host where
  kmem := Kmem.sample
  netconf := ⟨0x0a000a0a, .replicate 6 2⟩
  arpCache := .replicate 16 ⟨0, .replicate 6 0, false⟩
  socks := fun s => ⟨0, 0, if s = 16 ∨ s = 32 then IPPROTO_UDP else 0, 2, AF_INET, .closed, none, none⟩
  udpFrames := fun _ => ⟨⟨⟨0, 0, 0, 0⟩, [], 0⟩, none⟩
  udpPortBinds := fun _ => none
  tcpPortBinds := fun _ => none
  txq := Virtq.zero
  packetBuf := 0
  wire := []

/-! ## Sockets and their queues -/

/-- In every run of binds, arrivals and reads from boot, each UDP socket gets exactly the packets whose port was
bound to it when they arrived, in the order of arrival. -/
theorem udp_demux_fifo {h : Host} {as : List DemuxAct} {s : DemuxSys} (hb : h.AtBoot)
    (hs : run demuxStep (.boot h) as = some s) : s.Fifo := by
  have hstep : ∀ s a t, (∃ qs, DemuxInv s qs) → demuxStep s a = some t → ∃ qs, DemuxInv t qs := by
    rintro s a t ⟨qs, hi⟩ ht
    exact hi.step ht
  obtain ⟨qs, hinv⟩ := run_keeps' hstep ⟨_, DemuxInv.boot hb⟩ hs
  exact hinv.isFifo

/-- Two packets for one socket, one for a port that is not bound, and one of the two read. -/
theorem udp_demux_fifo_three :
    ∃ s, run demuxStep (.boot Host.sample)
        [.bind 16 (some ⟨htons 7, 0⟩) 16, .arrive (PHYSTOP - 8 * PGSIZE) ⟨⟨1, 7, 9, 0⟩, [65], 1⟩,
          .arrive (PHYSTOP - 9 * PGSIZE) ⟨⟨1, 8, 9, 0⟩, [66], 1⟩,
          .arrive (PHYSTOP - 10 * PGSIZE) ⟨⟨1, 7, 9, 0⟩, [67], 1⟩, .recv 16 100 true] = some s ∧
      s.dequeued 16 = [(PHYSTOP - 8 * PGSIZE, [65])] ∧ (s.host.socks 16).rxHead = some (PHYSTOP - 10 * PGSIZE) ∧
      s.Fifo := by
  refine ⟨_, rfl, rfl, rfl, ?_⟩
  exact @udp_demux_fifo Host.sample
    [.bind 16 (some ⟨htons 7, 0⟩) 16, .arrive (PHYSTOP - 8 * PGSIZE) ⟨⟨1, 7, 9, 0⟩, [65], 1⟩,
      .arrive (PHYSTOP - 9 * PGSIZE) ⟨⟨1, 8, 9, 0⟩, [66], 1⟩,
      .arrive (PHYSTOP - 10 * PGSIZE) ⟨⟨1, 7, 9, 0⟩, [67], 1⟩, .recv 16 100 true] _
    ⟨fun _ => rfl, fun _ => ⟨rfl, rfl⟩⟩ rfl

/-! ## From `udp_sendto` to the queue -/

theorem Host.sample_sane : Sane Host.sample fun _ => [] where
  queues := .boot ⟨fun _ => rfl, fun _ => ⟨rfl, rfl⟩⟩
  used _ _ hp := nomatch hp
  nodup := by decide

/-- The sample host with its socket 16 bound to port 7. -/
def Host.bound : Host := (udpBind Host.sample 16 (some ⟨htons 7, 0⟩) SOCKADDR_IN_SIZE).2

theorem Host.bound_sane : Sane Host.bound fun _ => [] where
  queues := (SameRx.udpBind ..).queues Host.sample_sane.queues
  used _ _ hp := nomatch hp
  nodup := by decide

/-- A datagram sent with `udp_sendto` reaches the socket its port is bound to exactly as long as its payload has at
most 227 bytes. -/
theorem udp_delivery_iff {h : Host} {qs : Nat → List Nat} (hs : Sane h qs) (hk : 3 ≤ h.kmem.freelist.length)
    {p : UInt16} {bind : PortBinding} (hp : p.toNat < MAX_PORT_BINDINGS)
    (hb : h.udpPortBinds p.toNat = some bind) (hu : (h.socks bind.sock).proto = IPPROTO_UDP)
    (page : Nat → UInt8) (srcPort : UInt16) {payload : List UInt8} (hlen : payload.length ≤ 1472)
    (sender : NetState) (dstIp : UInt32) (dstMac : Mac) :
    Delivers h qs (udpSendtoFrame page srcPort (htons p) payload sender dstIp dstMac) bind.sock srcPort p payload ↔
      payload.length ≤ 227 := by
  constructor
  · intro hd
    by_contra hgt
    exact not_delivers_long hs hp hb hu page srcPort hlen (by omega) sender dstIp dstMac hd
  · intro hle
    obtain ⟨f, hf, hcalls, hv⟩ := verdict_udpSendtoFrame hp hb hu page srcPort hlen sender dstIp dstMac
    rw [if_pos hle] at hv
    obtain ⟨d, hv, hd⟩ := hv
    obtain ⟨h', ho, ha⟩ := handlePacket_delivers hs hf hv (Nat.le_trans hcalls hk)
    exact ⟨h', d, ho, ha, hd⟩

theorem udp_delivery_iff_three :
    Delivers Host.bound (fun _ => [])
      (udpSendtoFrame freshPage 9 (htons 7) [1, 2, 3] ⟨1, .replicate 6 1⟩ 2 (.replicate 6 2)) 16 9 7 [1, 2, 3] :=
  (@udp_delivery_iff Host.bound _ Host.bound_sane (by decide) 7 ⟨0, 7, 16⟩ (by decide) rfl rfl freshPage 9
    [1, 2, 3] (by decide) ⟨1, .replicate 6 1⟩ 2 (.replicate 6 2)).mpr (by decide)

def longMessage : List UInt8 := .replicate 228 65

/-- A message of 228 bytes makes an IPv4 packet of 256, whose length is 0 in 8 bits. -/
theorem udp_delivery_long_fails :
    ¬ Delivers Host.bound (fun _ => [])
      (udpSendtoFrame freshPage 9 (htons 7) longMessage ⟨1, .replicate 6 1⟩ 2 (.replicate 6 2)) 16 9 7 longMessage := by
  have hbind : Host.bound.udpPortBinds (7 : UInt16).toNat = some ⟨0, 7, 16⟩ := rfl
  have hlen : longMessage.length = 228 := List.length_replicate
  exact not_delivers_long Host.bound_sane (by decide) hbind rfl freshPage 9 (by omega) (by omega) _ _ _

/-! ## What is delivered -/

/-- A frame of 43 bytes, of a datagram with one byte. -/
def shortFrame : List UInt8 := udpSendtoFrame freshPage 9 (htons 7) [65] ⟨1, .replicate 6 1⟩ 2 (.replicate 6 2)

/-- For any number of calls of `udp_bind` and any order of their steps: as long as every insertion finds its port
unbound, at most one call for a port returns 0 and its binding stays. Where an insertion does not, two calls for one
port have returned 0 once all calls have returned. -/
theorem port_exclusivity {h : Host} {as : List BindAct} {s : BindSys} (hb : h.AtBoot)
    (hs : run bindStep (.boot h) as = some s) :
    (RunMeets bindStep InsertsFree (.boot h) as → s.Exclusive) ∧
      (¬ RunMeets bindStep InsertsFree (.boot h) as → s.Quiet → ¬ s.Exclusive) := by
  have hboot := BindOnce.boot hb
  constructor
  · intro hm
    have hstep : ∀ s a t, BindOnce s → InsertsFree s a → bindStep s a = some t → BindOnce t :=
      fun _ _ _ hi hg ht => hi.move (hi.toBindInv.moves ht) hg
    exact (run_keeps hstep hboot hm hs).exclusive
  · intro hm hq
    have htwice : BoundTwice s := run_marks (fun _ _ _ hi ht => hi.move (hi.moves ht))
      (fun _ _ _ hi hg ht => hi.boundTwice hg ht) (fun _ _ _ hi hB ht => hB.move (hi.moves ht)) hboot.toBindInv hm hs
    exact htwice.not_exclusive hq

theorem Host.sample_atBoot : Host.sample.AtBoot := ⟨fun _ => rfl, fun _ => ⟨rfl, rfl⟩⟩

/-- Where call `i` stands, and for which port. -/
def BindSys.at (s : BindSys) (i : Nat) : Option (BindPc × Nat) := (s.calls i).map fun c => (c.pc, c.port)

def bindsInTurn : Sample bindStep (.boot Host.sample)
    [.call 0 16 ⟨htons 7, 0⟩ SOCKADDR_IN_SIZE, .call 1 32 ⟨htons 7, 0⟩ SOCKADDR_IN_SIZE, .advance 0, .advance 0,
      .advance 0, .advance 1, .advance 0] InsertsFree
    (fun s => s.at 0 = some (.returned 0, 7) ∧ s.at 1 = some (.returned (-1), 7)) := .eval (by decide +kernel)

/-- The second call looks at the port after the first one has bound it. -/
theorem port_exclusivity_in_turn :
    ∃ s, run bindStep (.boot Host.sample)
        [.call 0 16 ⟨htons 7, 0⟩ SOCKADDR_IN_SIZE, .call 1 32 ⟨htons 7, 0⟩ SOCKADDR_IN_SIZE, .advance 0, .advance 0,
          .advance 0, .advance 1, .advance 0] = some s ∧
      s.at 0 = some (.returned 0, 7) ∧ s.at 1 = some (.returned (-1), 7) ∧ s.Exclusive := by
  obtain ⟨s, hm, hs, h0, h1⟩ := bindsInTurn
  exact ⟨s, hs, h0, h1, (port_exclusivity Host.sample_atBoot hs).1 hm⟩

def bindsAtOnce : Sample bindStep (.boot Host.sample)
    [.call 0 16 ⟨htons 7, 0⟩ SOCKADDR_IN_SIZE, .call 1 32 ⟨htons 7, 0⟩ SOCKADDR_IN_SIZE, .advance 0, .advance 1,
      .advance 0, .advance 0, .advance 0, .advance 1, .advance 1, .advance 1] (fun _ _ => True)
    (fun s => s.at 0 = some (.returned 0, 7) ∧ s.at 1 = some (.returned 0, 7) ∧
      (s.host.udpPortBinds 7).map (·.sock) = some 32) := .eval (by decide +kernel)

/-- Both calls find port 7 free and both return 0: the second binding has replaced the first. -/
theorem port_bound_twice :
    ∃ s, run bindStep (.boot Host.sample)
        [.call 0 16 ⟨htons 7, 0⟩ SOCKADDR_IN_SIZE, .call 1 32 ⟨htons 7, 0⟩ SOCKADDR_IN_SIZE, .advance 0, .advance 1,
          .advance 0, .advance 0, .advance 0, .advance 1, .advance 1, .advance 1] = some s ∧
      (s.host.udpPortBinds 7).map (·.sock) = some 32 ∧ ¬ s.Exclusive := by
  obtain ⟨s, -, hs, h0, h1, hb⟩ := bindsAtOnce
  refine ⟨s, hs, hb, fun hex => ?_⟩
  obtain ⟨c, hc, hc0⟩ := Option.map_eq_some_iff.mp h0
  obtain ⟨d, hd, hd1⟩ := Option.map_eq_some_iff.mp h1
  simp only [Prod.mk.injEq] at hc0 hd1
  exact absurd (hex.once 0 1 c d hc hd hc0.1 hd1.1 (hc0.2.trans hd1.2.symm)) (by decide)

/-! ## What is received -/

/-- `udp_recvfrom` takes the first packet, returns the smaller one of its length and that of the buffer, and writes so
many bytes to the buffer and none elsewhere, exactly if the payload is no longer than the buffer. -/
theorem recvfrom_respects_buffer_iff {h : Host} {qs : Nat → List Nat} {sock pkt buf len : Nat} {rest : List Nat}
    {pt : PageTable} (hq : Queues h qs) (hne : qs sock = pkt :: rest) (hram : h.kmem.Ram pkt) (hown : pt.Own)
    (hmaps : pt.Maps buf len) :
    (∀ mem, RespectsBuffer h qs sock pt mem buf len) ↔ (h.udpFrames pkt).payloadLen ≤ len := by
  constructor
  · intro hall
    by_contra hlt
    obtain ⟨mem, hnot⟩ := exists_not_respectsBuffer hq hne hram hown (Nat.lt_of_not_le hlt) buf
    exact hnot (hall mem)
  · intro hle mem
    exact respectsBuffer_of_le hq hne hram hown hmaps hle mem

/-- A host whose socket 16 has one packet, with a payload of two bytes. -/
def Host.queued : Host :=
  { Host.bound with
    kmem := (kalloc Kmem.sample).2
    udpFrames := fun _ => ⟨⟨⟨9, 7, 10, 0⟩, [65, 66], 2⟩, none⟩
    socks := setRx Host.bound.socks 16 (some (PHYSTOP - PGSIZE)) (some (PHYSTOP - PGSIZE)) }

def oneQueued : Nat → List Nat := Function.update (fun _ => []) 16 [PHYSTOP - PGSIZE]

theorem Host.queued_queues : Queues Host.queued oneQueued where
  queue s := by
    by_cases hs : s = 16
    · subst hs
      exact IsQueue.single rfl
    · simp only [Host.queued, oneQueued, setRx_of_ne _ _ _ hs, Function.update_of_ne hs]
      exact Host.bound_sane.queues.queue s
  disjoint s t p hs ht := by
    simp only [oneQueued, Function.update_apply] at hs ht
    split at hs <;> split at ht <;> simp_all

theorem onePage_own : onePage.Own := by
  have hleaf : ∀ i pte, onePage.leaves.lookup i = some pte → i = 0 ∧ pte = ⟨PHYSTOP - 2 * PGSIZE, true, false, true⟩ := by
    intro i pte hi
    by_cases h0 : i = 0
    · subst h0
      exact ⟨rfl, (Option.some.inj hi).symm⟩
    · have hnone : onePage.leaves.lookup i = none := AList.lookup_insert_ne h0
      rw [hnone] at hi
      cases hi
  constructor
  · intro i pte hi
    rw [(hleaf i pte hi).2]
    decide
  · intro i j p q hi hj _
    rw [(hleaf i p hi).1, (hleaf j q hj).1]

theorem recvfrom_respects_buffer_iff_two :
    onePage.Maps 4000 2 ∧ ∀ mem, RespectsBuffer Host.queued oneQueued 16 onePage mem 4000 2 := by
  have hmaps : onePage.Maps 4000 2 := by unfold PageTable.Maps; decide
  exact ⟨hmaps, (recvfrom_respects_buffer_iff Host.queued_queues rfl ⟨by decide, by decide, by decide⟩ onePage_own
    hmaps).mpr (Nat.le_refl 2)⟩

/-- With a buffer of one byte, the second byte of the payload is written behind it. -/
theorem recvfrom_overruns_buffer :
    onePage.Maps 4000 1 ∧ ∃ mem, ¬ RespectsBuffer Host.queued oneQueued 16 onePage mem 4000 1 :=
  ⟨by unfold PageTable.Maps; decide,
    exists_not_respectsBuffer Host.queued_queues rfl ⟨by decide, by decide, by decide⟩ onePage_own (by decide) 4000⟩

/-! ## Pages -/

/-- `handle_packet` conserves pages for every frame but ARP requests, TCP packets and UDP packets that reach no
socket, and so does any sequence of other frames that are not queued; `transmit_packet` and `arp_request` lose a page
in every call that gets one. -/
theorem page_conservation_iff {h : Host} {qs : Nat → List Nat} (hs : Sane h qs) :
    (∀ packet, (∀ f, parseEthPacket packet = .ok f → kallocCalls h f ≤ h.kmem.freelist.length) →
      (ConservesPages h qs packet ↔ ∃ f, parseEthPacket packet = .ok f ∧ ¬ Leaks h f)) ∧
    (∀ packets, 4 ≤ h.kmem.freelist.length → RunMeets frameStep Harmless h packets →
      ∃ h', run frameStep h packets = some h' ∧ h'.kmem.freelist.length = h.kmem.freelist.length) ∧
    (∀ pktData, h.kmem.freelist ≠ [] → ∃ h', transmitPacket h pktData = .ok h' ∧
      h'.kmem.freelist.length + 1 = h.kmem.freelist.length) ∧
    (∀ targetIp, 2 ≤ h.kmem.freelist.length → ∃ h', arpRequest h targetIp = .ok h' ∧
      h'.kmem.freelist.length + 1 = h.kmem.freelist.length) := by
  refine ⟨fun packet hk => conservesPages_iff hs hk, fun packets hk hm => Harmless.run hs hk hm,
    fun pktData hne => ?_, fun targetIp hk => ?_⟩
  · obtain ⟨p, k, hk⟩ := kalloc_isSome (List.length_pos_iff.mpr hne)
    obtain ⟨q, w, ho, -⟩ := transmitPacket_spec hk pktData
    exact ⟨_, ho, (Lost.kalloc hs.nodup hk).count⟩
  · obtain ⟨h', ho, hl⟩ := arpRequest_pages hs.nodup hk targetIp
    exact ⟨h', ho, hl.count⟩

/-- A datagram for a bound port costs its page, and nothing else is lost. -/
theorem page_conservation_iff_bound : ConservesPages Host.bound (fun _ => []) shortFrame :=
  ((page_conservation_iff Host.bound_sane).1 shortFrame (fun f hf => by
    obtain rfl := Except.ok.inj hf; decide)).mpr ⟨_, rfl, fun hl => nomatch verdict_eq_leaked_iff.mpr hl⟩

/-- A datagram for a port that is not bound loses a page, and fifteen of them stop a kernel with sixteen free pages. -/
theorem page_conservation_fails :
    ¬ ConservesPages Host.sample (fun _ => []) shortFrame ∧
      run frameStep Host.sample (.replicate 14 shortFrame) ≠ none ∧
      run frameStep Host.sample (.replicate 15 shortFrame) = none := by
  refine ⟨fun hc => ?_, ?_, rfl⟩
  · obtain ⟨f, hf, hn⟩ := (conservesPages_iff Host.sample_sane fun f hf => by
      obtain rfl := Except.ok.inj hf; decide).mp hc
    obtain rfl := Except.ok.inj hf
    exact hn (verdict_eq_leaked_iff.mp rfl)
  · exact fun hn => nomatch hn

/-! ## Bounds of the receive path -/

/-- The receive path keeps to the received bytes and to the arrays of its structures exactly for the frames that hold
an Ethernet header and at most 1500 bytes behind it, and of ARP all the fields that are looked at. -/
theorem receive_bounds_iff (packet : List UInt8) (hlen : packet.length ≤ PGSIZE) :
    ReceiveSafe packet ↔
      ETH_HDR_SIZE ≤ packet.length ∧ packet.length ≤ ETH_HDR_SIZE + PAYLOAD_SIZE ∧
        (ntohs (load16 packet 12) = PROTO_ARP →
          42 ≤ packet.length ∨ 32 ≤ packet.length ∧ ntohs (load16 packet 20) = ARP_OP_REPLY) := by
  constructor
  · intro h
    obtain ⟨hmin, hmax⟩ := h.size hlen
    exact ⟨hmin, hmax, h.arp hlen⟩
  · rintro ⟨hmin, hmax, harp⟩
    obtain ⟨f, hf, htype, hpayload, hpl⟩ := parseEthPacket_eq hmin hlen
    rw [← arpFits_drop hmin, ← hpayload, ← htype] at harp
    constructor
    · intro c hc
      simp only [receiveCopies, hf, List.mem_cons] at hc
      rcases hc with rfl | rfl | hc
      · exact ⟨by simpa using hmin, le_rfl⟩
      · exact (ethCopy_inBounds hlen).mpr ⟨hmin, hmax⟩
      · have := EthFrame.copies_inBounds hpl harp c hc
        rwa [hpayload, List.length_drop, Nat.add_sub_cancel' hmin] at this
    · intro f' hf'
      obtain rfl := Except.ok.inj (hf.symm.trans hf')
      exact (EthFrame.parsed_iff hpl).mpr harp

/-- An ARP packet with operation `oper` in a frame of `14 + n` bytes, `8 ≤ n`. -/
def arpBytes (oper : UInt8) (n : Nat) : List UInt8 :=
  .replicate 12 0 ++ [8, 6] ++ [0, 1, 8, 0, 6, 4, 0, oper] ++ .replicate (n - 8) 7

/-- A reply of 32 bytes is handled within bounds. -/
theorem receive_bounds_iff_reply : (arpBytes 2 18).length ≤ PGSIZE ∧ ReceiveSafe (arpBytes 2 18) :=
  ⟨by decide, (receive_bounds_iff (arpBytes 2 18) (by decide)).mpr ⟨by decide, by decide, fun _ => .inr (by decide)⟩⟩

/-- The copies for a frame of 13 bytes are from behind it, those for a frame of 1515 bytes go beyond the array, and
the address that a request of 24 bytes asks for is not in it. -/
theorem receive_bounds_fail :
    ¬ ReceiveSafe (.replicate 13 0) ∧ ¬ ReceiveSafe (.replicate 1515 0) ∧ ¬ ReceiveSafe (arpBytes 1 10) := by
  refine ⟨fun h => ?_, fun h => ?_, fun h => ?_⟩
  · exact absurd (h.size (by decide)).1 (by decide)
  · have := (h.size (by rw [List.length_replicate]; decide)).2
    rw [List.length_replicate] at this
    exact absurd this (by decide)
  · exact absurd (h.arp (by decide) (by decide)) (by decide)

/-! ## Address resolution -/

/-- ARP agreement, for any hosts with distinct addresses and any order of requests and deliveries: what a lookup
returns for the address of a host is that host's MAC address, and what is sent on the receipt of a frame is a reply to
the MAC address and the IP address of the host that sent the frame. -/
theorem arp_agreement {ι : Type} [DecidableEq ι] {hosts : ι → Host} {mac : ι → Mac} {as : List (LanAct ι)}
    {s : ι → Host} (hdistinct : ∀ i j, (hosts i).netconf.ipAddr = (hosts j).netconf.ipAddr → i = j)
    (hs : run lanStep (bootLan hosts mac) as = some s) :
    (∀ i j m, arpLookup (hosts j).netconf.ipAddr (s i).arpCache = some m → m = mac j) ∧
      ∀ i j n t, lanStep s (.deliver j n i) = some t → (t i).wire = (s i).wire ∨
        ∃ frame e, (t i).wire = (s i).wire ++ [frame] ∧ parseEthPacket frame = .ok e ∧
          ntohs e.hdr.type = PROTO_ARP ∧ e.hdr.dstAddr = mac j ∧
          ntohs (ArpPkt.decode e.payload).oper = ARP_OP_REPLY ∧ (ArpPkt.decode e.payload).tha = mac j ∧
          (ArpPkt.decode e.payload).tpa = (hosts j).netconf.ipAddr := by
  have h := run_keeps' (fun _ _ _ h ht => LanInv.step h ht) (LanInv.boot hosts mac) hs
  constructor
  · intro i j m hl
    obtain ⟨j', hip, hmac⟩ := (h.cache i).lookup hl
    rw [← hmac, hdistinct j' j hip]
  · intro i j n t ht
    refine (h.deliver ht).2.imp id fun hw => ⟨_, _, hw, parseEthPacket_arpFrame .., ntohs_htons _, rfl, ?_⟩
    rw [ArpPkt.decode_encode]
    exact ⟨ntohs_htons _, rfl, rfl⟩

/-- Two hosts with the addresses 1 and 2. -/
def twoHosts : Bool → Host :=
  bootLan (fun i => { Host.sample with netconf := ⟨if i then 1 else 2, .replicate 6 0⟩ })
    fun i => .replicate 6 (if i then 3 else 4)

def asksAndLearns : Sample lanStep twoHosts
    [.request true 2, .deliver true 0 false, .deliver false 0 true, .deliver true 0 true] (fun _ _ => True)
    (fun s => arpLookup 2 (s true).arpCache = some (.replicate 6 4)) := .eval (by decide +kernel)

/-- Two hosts: the first asks for the second, which learns and answers, and the first learns from the answer. -/
theorem arp_agreement_two :
    ∃ s, run lanStep (bootLan (fun i : Bool => { Host.sample with netconf := ⟨if i then 1 else 2, .replicate 6 0⟩ })
        fun i => .replicate 6 (if i then 3 else 4))
        [.request true 2, .deliver true 0 false, .deliver false 0 true, .deliver true 0 true] = some s ∧
      (∃ m, arpLookup 2 (s true).arpCache = some m) ∧
      ∀ m, arpLookup 2 (s true).arpCache = some m → m = .replicate 6 4 := by
  obtain ⟨s, -, hs, hm⟩ := asksAndLearns
  have h := (arp_agreement (by decide) hs).1
  exact ⟨s, hs, ⟨_, hm⟩, h true false⟩

/-- After any insertions into the cleared cache, an address is found exactly if it is among the first ones that came, and
then with the MAC address that came last. -/
theorem arp_cache_refines (hist : List (UInt32 × Mac)) : CacheRefines hist (insertAll hist) := by
  rw [insertAll_eq]
  refine ⟨fun ip => ?_, fun ip mac h => ?_, ⟨(BoundedMap.ofHistory ARP_CACHE_SIZE hist).length, ?_, ?_⟩, ?_, fun ip mac ip' hne => ?_⟩
  · rw [arpLookup_cacheOf, BoundedMap.isSome_lookup, BoundedMap.keys_ofHistory]
    rfl
  · rw [arpLookup_cacheOf] at h
    exact BoundedMap.lookup_ofHistory h
  · intro ae hae
    rw [cacheOf, List.take_left' (List.length_map ..)] at hae
    obtain ⟨e, -, rfl⟩ := List.mem_map.mp hae
    rfl
  · intro ae hae
    rw [cacheOf, List.drop_left' (List.length_map ..)] at hae
    rw [List.eq_of_mem_replicate hae]
    rfl
  · rw [filter_cacheOf, List.map_map]
    exact BoundedMap.nodup_keys_ofHistory ..
  · rw [arpInsert_cacheOf, arpLookup_cacheOf, arpLookup_cacheOf, BoundedMap.lookup_put_of_ne hne]

/-- For any history of ARP packets: a packet from `spa` that is learned from makes `spa` known with the address of its
sender exactly if `spa` was known already or the cache was not full. -/
theorem arp_resolution_iff {h₀ h h' : Host} {mac : Mac} {pkts : List ArpPkt} {pkt : ArpPkt}
    (hrun : run arpStep (netInit { h₀ with arpCache := clearedCache } mac) pkts = some h)
    (hoper : ntohs pkt.oper = ARP_OP_REQUEST ∨ ntohs pkt.oper = ARP_OP_REPLY) (hk : (kalloc h.kmem).1.isSome)
    (hrecv : arpRecv h pkt = .ok h') : Resolves h' pkt.spa pkt.sha ↔ HasRoom h.arpCache pkt.spa := by
  have hboot : Filled (netInit { h₀ with arpCache := clearedCache } mac).arpCache := ⟨[(h₀.netconf.ipAddr, mac)], rfl⟩
  rw [resolves_iff, arpRecv_learns hoper hk hrecv]
  exact (hboot.run hrun).lookup_insert_iff

/-- A reply from `ip`, from the machine with the address `b:b:b:b:b:b`. -/
def replyFrom (ip : UInt32) (b : UInt8) : ArpPkt := arpPacket ⟨ip, .replicate 6 b⟩ ARP_OP_REPLY (.replicate 6 2) 0x0a000a0a

def learnsThree : Sample arpStep (netInit { Host.sample with arpCache := clearedCache } (.replicate 6 2))
    [replyFrom 1 1, replyFrom 2 2, replyFrom 1 3] (fun _ _ => True)
    (fun h => (kalloc h.kmem).1.isSome ∧ HasRoom h.arpCache 7) := .eval (by decide +kernel)

theorem arp_resolution_iff_fourth : ∃ h h', run arpStep (netInit { Host.sample with arpCache := clearedCache } (.replicate 6 2))
    [replyFrom 1 1, replyFrom 2 2, replyFrom 1 3] = some h ∧ arpRecv h (replyFrom 7 4) = .ok h' ∧
      Resolves h' 7 (.replicate 6 4) := by
  obtain ⟨h, -, hs, hk, hroom⟩ := learnsThree
  have hoper : ntohs (replyFrom 7 4).oper = ARP_OP_REPLY := by decide
  refine ⟨h, _, hs, rfl, ?_⟩
  exact (arp_resolution_iff hs (.inr hoper) hk rfl).mpr hroom

def fifteenReplies : List ArpPkt := (List.range 15).map fun i => replyFrom (.ofNat i) 1

def fillsCache : Sample arpStep (netInit { Host.sample with arpCache := clearedCache } (.replicate 6 2)) fifteenReplies
    (fun _ _ => True) (fun h => (kalloc h.kmem).1.isSome ∧ arpLookup 99 (arpInsert 99 (.replicate 6 4) h.arpCache) = none) :=
  .eval (by decide +kernel)

/-- Fifteen other hosts have been heard of: with the own address the cache is full, and the answer is not stored. -/
theorem arp_resolution_fails : ∃ h h', run arpStep (netInit { Host.sample with arpCache := clearedCache } (.replicate 6 2))
    fifteenReplies = some h ∧ arpRecv h (replyFrom 99 4) = .ok h' ∧ arpLookup 99 h'.arpCache = none := by
  obtain ⟨h, -, hs, -, hl⟩ := fillsCache
  exact ⟨h, _, hs, rfl, hl⟩

/-! ## The port tables -/

/-- `udp_bind` and the handler of UDP packets stay within the table. `tcp_bind` does so exactly if a port that it lets pass
is below the end of the table in the order of the host, the handler of TCP segments if the port of the segment is. -/
theorem port_indices_in_range_iff (h : Host) (sock addrlen : Nat) (udpAddr : Option SockaddrIn) (tcpAddr : Option Sockaddr)
    (udpPkt : Nat) (tcpPkt : TcpFrame) :
    InRange (udpBindLogged h sock udpAddr addrlen) ∧ InRange (handleUdpPacketLogged h udpPkt) ∧
      (InRange (tcpBindLogged h sock tcpAddr addrlen) ↔
        ∀ a ∈ tcpAddr, a.sinPort.toNat ≤ MAX_PORT_BINDINGS → (ntohs a.sinPort).toNat < MAX_PORT_BINDINGS) ∧
      (InRange (handleTcpPacketLogged h tcpPkt) ↔ tcpPkt.hdr.dstPort.toNat < MAX_PORT_BINDINGS) :=
  ⟨udpBindLogged_inRange h sock udpAddr addrlen, handleUdpPacketLogged_inRange h udpPkt,
    tcpBindLogged_inRange_iff h sock tcpAddr addrlen, handleTcpPacketLogged_inRange_iff h tcpPkt⟩

/-- An address with `sin_port` 2 passes the check and is used as port 512; a segment for port 600 is not checked. -/
theorem port_indices_in_range_fails :
    ¬ InRange (tcpBindLogged .sample 16 (some ⟨⟨2, 0⟩, 2⟩) SOCKADDR_IN_SIZE) ∧
      ¬ InRange (handleTcpPacketLogged .sample ⟨⟨1, 600, 0, 0, 5, 2, 0, 0, 0⟩, [], 0⟩) := by
  rw [tcpBindLogged_inRange_iff, handleTcpPacketLogged_inRange_iff]
  decide

/-- A `udp_bind` that fails changes nothing, and a `tcp_bind` exactly if the family that it stores before its later checks
is the one that the socket has. -/
theorem failed_bind_unchanged_iff (h : Host) (sock : Nat) (udpAddr : Option SockaddrIn) (tcpAddr : Option Sockaddr)
    (addrlen : Nat) :
    (∀ h', udpBind h sock udpAddr addrlen = (-1, h') → NothingChanged h h') ∧
      ((∀ h', tcpBind h sock tcpAddr addrlen = .ok (-1, h') → NothingChanged h h') ↔
        FamilyKept h sock tcpAddr addrlen) :=
  ⟨fun _ => udpBind_failed, tcpBind_failed_iff h sock tcpAddr addrlen⟩

/-- A host whose sockets are new TCP sockets. -/
def Host.tcpSample : Host :=
  { Host.sample with socks := fun _ => ⟨0, 0, IPPROTO_TCP, SOCK_STREAM, AF_INET, .closed, none, none⟩ }

/-- The address has the family 10, which the socket keeps although the call fails. -/
theorem failed_bind_unchanged_fails : ∃ h', tcpBind .tcpSample 16 (some ⟨⟨1, 0⟩, 10⟩) SOCKADDR_IN_SIZE = .ok (-1, h') ∧
    ¬ NothingChanged .tcpSample h' := by
  refine ⟨_, rfl, fun hn => ?_⟩
  have hsock := congrFun hn.socks 16
  exact absurd (congrArg Socket.family hsock) (by decide)

/-! ## Checksums -/

/-- What `chksum` computes and stores with the low byte first is the Internet checksum, and with it the header that
`build_ip4` leaves in a page sums up to ones. -/
theorem chksum_internetChecksum {b : List UInt8} (hb : b.length ≤ 65535) (page : Nat → UInt8) (ip : Nat)
    (src dst : UInt32) (proto : UInt8) (len : UInt16) :
    bytes16 (chksum b) = netBytes16 (internetChecksum b) ∧
      onesSum (slice (buildIp4 page ip src dst proto len) ip IP4_HDR_SIZE) = 0xFFFF := by
  constructor
  · exact bytes16_foldSum ((sumWords_le b).trans_lt (by omega))
  · rw [slice_buildIp4]
    exact onesSum_ip4Header src dst proto len

theorem chksum_internetChecksum_odd : bytes16 (chksum [0x12, 0xFF, 0x34]) = [0xB9, 0] ∧
    onesSum (slice (buildIp4 (fun _ => 1) 14 0x0a000a0a 0x0a000a02 17 28) 14 IP4_HDR_SIZE) = 0xFFFF :=
  (chksum_internetChecksum (b := [0x12, 0xFF, 0x34]) (by decide) (fun _ => 1) 14 0x0a000a0a 0x0a000a02 17 28).imp_left
    fun h => h.trans (by decide)

/-- The checksum that `build_udp` stores is right exactly if the words that it is over do not sum up to a multiple of
65535. -/
theorem udp_checksum_iff (page : Nat → UInt8) (udp : Nat) (srcPort dstPort : UInt16) (payload : List UInt8)
    (hlen : payload.length ≤ 1500) (srcIp dstIp : UInt32) :
    ChecksumCorrect srcIp dstIp (builtDatagram page udp srcPort dstPort payload srcIp dstIp) ↔
      ¬ 65535 ∣ (netWords (checksummed srcPort dstPort payload srcIp dstIp)).sum :=
  checksumCorrect_iff page udp srcPort dstPort payload srcIp dstIp hlen

theorem udp_checksum_iff_odd : ChecksumCorrect 0x0a0a000a 0x020a000a
    (builtDatagram (fun _ => 0) 34 80 0x5000 [1, 2, 3] 0x0a0a000a 0x020a000a) :=
  (udp_checksum_iff (fun _ => 0) 34 80 0x5000 [1, 2, 3] (by decide) 0x0a0a000a 0x020a000a).mpr (by decide)

/-- Two bytes from 10.0.10.10 to 10.0.10.2, port 80 to port 80, for which the sum is 65535: the checksum 0 is stored. -/
theorem udp_checksum_fails :
    ((builtDatagram (fun _ => 0) 34 80 0x5000 [0xD7, 0x2E] 0x0a0a000a 0x020a000a).drop 6).take 2 = [0, 0] ∧
      rfc768Checksum 0x0a0a000a 0x020a000a
        (builtDatagram (fun _ => 0) 34 80 0x5000 [0xD7, 0x2E] 0x0a0a000a 0x020a000a) = 0xFFFF := by
  decide

/-! ## TCP segments -/

/-- The parsers read back what `build_ip4` and `build_tcp` were given. -/
theorem tcp_round_trip (page : Nat → UInt8) (ip : Nat) (src dst : UInt32) (srcPort dstPort : UInt16)
    (seqNum ackNum : UInt32) (flags : UInt8) (window : UInt16) {payload : List UInt8} (hlen : payload.length ≤ 1460) :
    ∃ f, parseIp4Packet (tcpPacket page ip src dst srcPort dstPort seqNum ackNum flags window payload)
        (40 + payload.length) = some f ∧
      f.hdr.srcIp = src ∧ f.hdr.dstIp = dst ∧ f.hdr.protocol.toNat = IPPROTO_TCP ∧
      f.hdr.totalLen.toNat = 40 + payload.length ∧
      parseTcpPacket f.payload f.payloadLen.toNat =
        some ⟨⟨srcPort, dstPort, seqNum, ackNum, 5, flags, window, 0, 0⟩, payload, payload.length⟩ := by
  set rest := (tcpHeader srcPort dstPort seqNum ackNum flags window).encode ++ payload with hrest
  have hlength : IP4_HDR_SIZE + TCP_HDR_SIZE + payload.length = IP4_HDR_SIZE + rest.length := by
    simp [hrest, Nat.add_assoc]
  have h40 : 40 + payload.length = IP4_HDR_SIZE + rest.length := hlength
  obtain ⟨f, hf, hsrc, hdst, hproto, htot, hpayload, hplen⟩ :=
    parseIp4Packet_ip4Header src dst (.ofNat IPPROTO_TCP) (show IP4_HDR_SIZE + rest.length < 65536 by omega)
  refine ⟨f, ?_, hsrc, hdst, by rw [hproto]; rfl, by rw [htot, h40], ?_⟩
  · rw [tcpPacket_eq page ip src dst srcPort dstPort seqNum ackNum flags window (by omega), hlength, h40]
    exact hf
  · have hsum : rest.length = TCP_HDR_SIZE + payload.length := by simp [hrest]
    rw [hpayload, hplen, hsum, hrest, parseTcpPacket_encode _ payload rfl]
    simp only [tcpHeader, ntohs_htons, ntohl_htonl]
    rfl

theorem tcp_round_trip_three : ∃ f, parseIp4Packet (tcpPacket (fun _ => 9) 14 0x0a000a0a 0x0a000a02 80 1024 7 0xFFFFFFFF SYN
    1024 [1, 2, 3]) 43 = some f ∧ f.hdr.srcIp = 0x0a000a0a ∧ f.hdr.dstIp = 0x0a000a02 ∧
      f.hdr.protocol.toNat = IPPROTO_TCP ∧ f.hdr.totalLen.toNat = 43 ∧
      parseTcpPacket f.payload f.payloadLen.toNat =
        some ⟨⟨80, 1024, 7, 0xFFFFFFFF, 5, SYN, 1024, 0, 0⟩, [1, 2, 3], 3⟩ :=
  tcp_round_trip (fun _ => 9) 14 0x0a000a0a 0x0a000a02 80 1024 7 0xFFFFFFFF SYN 1024 (by decide)

/-! ## What `udp_sendto` admits -/

/-- With the address of the destination in the cache, `udp_sendto` keeps to its buffer and to the size of a frame exactly
for the lengths and buffers that are `Sendable`. -/
theorem udp_sendto_admits_iff {h : Host} {sock buf dest addrlen : Nat} {len : Int} {pt : PageTable} {mem : Memory}
    (hint : -2 ^ 31 ≤ len)
    (harp : ∀ kaddr, copyinFrom pt mem dest SOCKADDR_IN_SIZE = (true, kaddr) →
      (arpLookup (SockaddrIn.decode kaddr).sAddr h.arpCache).isSome) :
    SendsWhole h len (udpSendtoFrom h sock pt mem buf len dest addrlen) ↔ Sendable h pt buf len dest addrlen :=
  sendsWhole_iff hint harp

/-- A host that knows where 10.10.10.10 is. -/
def Host.resolved : Host := { Host.sample with arpCache := [⟨0x0a0a0a0a, .replicate 6 7, true⟩] }

theorem Host.resolved_arp : ∀ kaddr, copyinFrom onePage (fun _ => 10) 0 SOCKADDR_IN_SIZE = (true, kaddr) →
    (arpLookup (SockaddrIn.decode kaddr).sAddr Host.resolved.arpCache).isSome := by
  intro kaddr hk
  obtain rfl : List.replicate 16 10 = kaddr := congrArg Prod.snd hk
  decide

theorem onePage_maps {n : Nat} (hn : n ≤ PGSIZE) : onePage.Maps 0 n := by
  intro i hi
  have hround : pgRoundDown i = 0 := by simp only [pgRoundDown, PGSIZE] at *; omega
  have hwalk : walkaddr onePage 0 ≠ 0 := by decide
  simp [userAddr, hround, hwalk]

theorem udp_sendto_admits_iff_three : SendsWhole Host.resolved 3 (udpSendtoFrom Host.resolved 16 onePage (fun _ => 10) 100
    3 0 16) :=
  (udp_sendto_admits_iff (by decide) Host.resolved_arp).mpr fun _ _ =>
    ⟨fun hneg => absurd hneg (by decide), fun _ _ _ => ⟨by decide, by decide, 0, 1, by decide⟩⟩

/-- With the length -1 the whole page is written to the 1500 bytes of `kbuf`; a message of 1500 bytes makes a frame of
1542 bytes. -/
theorem udp_sendto_admits_fails :
    ¬ SendsWhole Host.resolved (-1) (udpSendtoFrom Host.resolved 16 onePage (fun _ => 10) 0 (-1) 0 16) ∧
      ¬ SendsWhole Host.resolved 1500 (udpSendtoFrom Host.resolved 16 onePage (fun _ => 10) 0 1500 0 16) := by
  rw [sendsWhole_iff (by decide) Host.resolved_arp, sendsWhole_iff (by decide) Host.resolved_arp]
  have hdest : onePage.Maps 0 SOCKADDR_IN_SIZE := onePage_maps (by decide)
  constructor
  · intro hs
    exact (hs (by decide) hdest).1 (by decide) (onePage_maps (by decide))
  · intro hs
    exact absurd ((hs (by decide) hdest).2 (by decide) (by decide) (onePage_maps (by decide))).1 (by decide)

/-! ## Names -/

/-- `node_to_dns` of a name with labels that are not empty returns `LONG_DOMAIN` exactly if the name has more than 253
characters, and for other names `LONG_DOMAIN_SECTION` exactly if a label has more than 63. Otherwise it returns 0, and what
it stored are two bytes more than the name has characters, from which the labels can be read back. -/
theorem node_to_dns_invertible (name : CString) (hlabels : ∀ l ∈ name.chars.splitOn DOT, l ≠ []) :
    ((nodeToDns name).1 = LONG_DOMAIN ↔ 253 < name.chars.length) ∧
      (name.chars.length ≤ 253 →
        ((nodeToDns name).1 = LONG_DOMAIN_SECTION ↔ ∃ l ∈ name.chars.splitOn DOT, 63 < l.length)) ∧
      (name.chars.length ≤ 253 → (∀ l ∈ name.chars.splitOn DOT, l.length ≤ 63) →
        (nodeToDns name).1 = 0 ∧ ∃ bytes : List UInt8, bytes.length = name.chars.length + 2 ∧
          (∀ j, (nodeToDns name).2 j = bytes[j]?) ∧ unwire bytes = some (name.chars.splitOn DOT, [])) := by
  by_cases hlong : 253 < name.chars.length
  · have hcode := nodeToDns_long hlong
    exact ⟨by simp [hcode, hlong], fun hle => absurd hlong (Nat.not_lt.mpr hle),
      fun hle => absurd hlong (Nat.not_lt.mpr hle)⟩
  · have hle := Nat.not_lt.mp hlong
    by_cases hsection : ∃ l ∈ name.chars.splitOn DOT, 63 < l.length
    · obtain ⟨l, hl, hlen⟩ := hsection
      have hcode := nodeToDns_section hle hl hlen
      refine ⟨by simp [hcode, hlong, LONG_DOMAIN, LONG_DOMAIN_SECTION], fun _ => ?_, fun _ hshort => ?_⟩
      · simp only [hcode, true_iff]
        exact ⟨l, hl, hlen⟩
      · exact absurd hlen (Nat.not_lt.mpr (hshort l hl))
    · have hshort : ∀ l ∈ name.chars.splitOn DOT, l.length ≤ 63 :=
        fun l hl => Nat.not_lt.mp fun hlt => hsection ⟨l, hl, hlt⟩
      have hok := nodeToDns_ok hle hshort
      refine ⟨by simp [hok, hlong, LONG_DOMAIN], fun _ => by simp [hok, hsection, LONG_DOMAIN_SECTION], fun _ _ => ?_⟩
      refine ⟨by rw [hok], wire (name.chars.splitOn DOT) ++ [0], ?_, fun j => ?_, ?_⟩
      · rw [List.length_append, length_wire_splitOn]
        rfl
      · rw [hok, ← putBytes_add (fun _ _ => rfl) _ j, Nat.zero_add]
      · exact unwire_wire (fun l hl => ⟨hlabels l hl, by have := hshort l hl; omega⟩) []

/-- The name `a.bc`. -/
def twoLabels : CString := ⟨[97, 46, 98, 99], by decide, by decide⟩

theorem node_to_dns_invertible_two :
    (∀ l ∈ twoLabels.chars.splitOn DOT, l ≠ []) ∧ (nodeToDns twoLabels).1 = 0 ∧
      ∃ bytes : List UInt8, bytes.length = 6 ∧ (∀ j, (nodeToDns twoLabels).2 j = bytes[j]?) ∧
        unwire bytes = some ([[97], [98, 99]], []) := by
  have hlabels : ∀ l ∈ twoLabels.chars.splitOn DOT, l ≠ [] := by decide
  exact ⟨hlabels, (node_to_dns_invertible twoLabels hlabels).2.2 (by decide) (by decide)⟩

end Xv6Net.Net
