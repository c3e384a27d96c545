import Xv6Net.Net.Lemmas.Receive

/-!
# What receiving a frame keeps

Whatever a frame does, as long as the kernel does not stop: the queues and the free list stay apart, a queue gets a
page only for a port that is bound, and of a socket only the receive queue changes.
-/

namespace Xv6Net.Net

open Kernel Lib Virtio

variable {h h' : Host} {qs qs' : Nat → List Nat}

/-! ## The queues and the free list -/

/-- Between `h` and `h'` pages left the free list, and the queues went from `qs` to `qs'`. -/
structure Settled (h h' : Host) (qs qs' : Nat → List Nat) : Prop where
  sane : Sane h' qs'
  lost : ∃ n, Lost n h.kmem h'.kmem
  fresh : ∀ t, ∀ p ∈ qs' t, p ∈ qs t ∨ p ∈ h.kmem.freelist
  bound : ∀ t, qs' t = qs t ∨ ∃ port < MAX_PORT_BINDINGS, ∃ b, h.udpPortBinds port = some b ∧ b.sock = t

theorem Settled.of_same (hs : Sane h qs) (hrx : SameRx h h') {n : Nat} (hl : Lost n h.kmem h'.kmem) :
    Settled h h' qs qs :=
  ⟨⟨hrx.queues hs.queues, fun t p hp hm => hs.used t p hp (hl.sub p hm), hl.nodup⟩, ⟨n, hl⟩, fun _ _ hp => .inl hp,
    fun _ => .inl rfl⟩

theorem transmitPacket_lost {d : List UInt8} (hn : h.kmem.freelist.Nodup) (ht : transmitPacket h d = .ok h') :
    Lost 1 h.kmem h'.kmem := by
  rcases hk : kalloc h.kmem with ⟨p | p, k⟩
  · simp [transmitPacket, hk] at ht
  · obtain ⟨q, w, he, -⟩ := transmitPacket_spec hk d
    rw [he] at ht
    cases ht
    exact Lost.kalloc hn hk

theorem arpRecv_lost {pkt : ArpPkt} (hn : h.kmem.freelist.Nodup) (ha : arpRecv h pkt = .ok h') :
    ∃ n, Lost n h.kmem h'.kmem := by
  unfold arpRecv at ha
  split at ha
  · split at ha
    · rename_i k hk
      cases ha; exact ⟨0, Lost.kalloc_none hn hk⟩
    · rename_i frame k hk
      obtain ⟨hheld, hnd, hf⟩ := kalloc_held hn hk
      dsimp only at ha
      split at ha
      · -- the reply is sent, and the page it was built in is freed
        simp only [bind, Except.bind] at ha
        split at ha
        · cases ha
        · rename_i h₁ ht
          have hl := transmitPacket_lost hnd ht
          obtain ⟨k', hfree, hl', -⟩ := ((Lost.kalloc hn hk).trans hl).kfree (hl.held frame hheld)
            (by rw [hf]; exact List.mem_cons_self)
          rw [hfree] at ha
          cases ha; exact ⟨_, hl'⟩
      · cases ha; exact ⟨_, Lost.kalloc hn hk⟩
  · split at ha <;> cases ha <;> exact ⟨0, Lost.refl hn⟩

theorem Host.deliversTo_bound {port : UInt16} {sock : Nat} (hd : h.deliversTo port = some sock) :
    ∃ p < MAX_PORT_BINDINGS, ∃ b, h.udpPortBinds p = some b ∧ b.sock = sock := by
  obtain ⟨hbound, -⟩ := Option.filter_eq_some_iff.mp hd
  unfold Host.boundTo at hbound
  split at hbound
  · rename_i hr
    obtain ⟨b, hb, hs⟩ := Option.map_eq_some_iff.mp hbound
    exact ⟨_, hr, b, hb, hs⟩
  · cases hbound

theorem Ip4Step.settled {ip : Ip4Frame} (hs : Sane h qs) (ho : Ip4Step h ip h') : ∃ qs', Settled h h' qs qs' := by
  have hsame : ∀ k, SameRx h { h with kmem := k } := fun k => .of_eq rfl rfl rfl
  cases ho with
  | other => exact ⟨qs, .of_same hs (.of_eq rfl rfl rfl) (Lost.refl hs.nodup)⟩
  | tcp _ hk tcp =>
      have hl := Lost.kalloc hs.nodup hk
      exact ⟨qs, .of_same hs ((hsame _).trans (handleTcpPacket_same ..)) (by rw [handleTcpPacket_kmem]; exact hl)⟩
  | tcpShort _ hk => exact ⟨qs, .of_same hs (hsame _) (Lost.kalloc hs.nodup hk)⟩
  | udpShort _ _ hk _ => exact ⟨qs, .of_same hs (hsame _) (Lost.kalloc hs.nodup hk)⟩
  | @udp p k d r _ _ _ hk _ ho =>
      have hl := Lost.kalloc hs.nodup hk
      have hsk := hs.kalloc hk
      obtain ⟨hheld, hnd, hf⟩ := kalloc_held hs.nodup hk
      obtain ⟨hkm, ⟨-, hun⟩ | ⟨sock, hto, hq, -⟩⟩ := handleUdpPacket_fresh hs hk ho
      · exact ⟨qs, ⟨hun.1, by rw [hkm]; exact hsk.used, by rw [hkm]; exact hnd⟩, ⟨1, by rw [hkm]; exact hl⟩,
          fun _ _ hp => .inl hp, fun _ => .inl rfl⟩
      · -- the page of the datagram is the only new one
        have hmem : ∀ t, ∀ q ∈ Function.update qs sock (qs sock ++ [p]) t, q ∈ qs t ∨ q = p := by
          intro t q hq
          rw [Function.update_apply] at hq
          split at hq
          · rename_i ht
            rw [ht]
            exact (List.mem_append.mp hq).imp id List.mem_singleton.mp
          · exact .inl hq
        refine ⟨_, ⟨hq, fun t q hq => ?_, by rw [hkm]; exact hnd⟩, ⟨1, by rw [hkm]; exact hl⟩, fun t q hq => ?_,
          fun t => ?_⟩
        · rw [hkm]
          rcases hmem t q hq with hq | rfl
          · exact hsk.used t q hq
          · exact hheld.not_free
        · rcases hmem t q hq with hq | rfl
          · exact .inl hq
          · exact .inr (by rw [hf]; exact List.mem_cons_self)
        · by_cases ht : t = sock
          · rw [ht]; exact .inr (Host.deliversTo_bound hto)
          · exact .inl (Function.update_of_ne ht ..)

theorem FrameStep.settled {f : EthFrame} (hs : Sane h qs) (ho : FrameStep h f h') : ∃ qs', Settled h h' qs qs' := by
  cases ho with
  | kept => exact ⟨qs, .of_same hs (.of_eq rfl rfl rfl) (Lost.refl hs.nodup)⟩
  | ip4 _ ho => exact ho.settled hs
  | arp _ ho =>
      obtain ⟨n, hl⟩ := arpRecv_lost hs.nodup ho
      exact ⟨qs, .of_same hs (arpRecv_same ho) hl⟩

/-- A page that is in no queue is freed. -/
theorem Sane.kfree {p : Nat} {k : Kmem} (hs : Sane h qs) (hp : Held h.kmem p) (hq : ∀ t, p ∉ qs t)
    (hk : kfree h.kmem p = .ok k) : Sane { h with kmem := k } qs := by
  have hrx : SameRx h { h with kmem := k } := .of_eq rfl rfl rfl
  obtain ⟨k', he, hf, hnd, -⟩ := hp.kfree hs.nodup
  rw [he] at hk
  cases hk
  refine ⟨hrx.queues hs.queues, fun t q hm hq' => ?_, hnd⟩
  rcases List.mem_cons.mp (hf ▸ hq') with rfl | hq'
  · exact hq t hm
  · exact hs.used t q hm hq'

theorem handlePacket_settled {packet : List UInt8} (hs : Sane h qs) (ho : handlePacket h packet = .ok h') :
    ∃ qs', Settled h h' qs qs' := by
  obtain ⟨f, eth, ip4, k₁, k₂, k₃, k₄, h₁, -, hp⟩ := handlePacket_step ho
  have hk₁ := hp.first
  have hk₂ := hp.second
  obtain ⟨heth, hnd₁, hf₁⟩ := kalloc_held hs.nodup hk₁
  obtain ⟨hip4, hnd₂, hf₂⟩ := kalloc_held hnd₁ hk₂
  have hs₁ := hs.kalloc hk₁
  obtain ⟨qs', hset⟩ := hp.frame.settled (hs₁.kalloc hk₂)
  obtain ⟨n, hl⟩ := hset.lost
  -- the two pages were free at the start, so no queue has them
  have hne : ip4 ≠ eth := by
    rintro rfl
    exact heth.not_free (by rw [hf₂]; exact List.mem_cons_self)
  have hmem : ip4 ∈ h.kmem.freelist := by rw [hf₁, hf₂]; exact List.mem_cons_of_mem _ List.mem_cons_self
  have hout₁ : ∀ t, eth ∉ qs' t := fun t hq =>
    (hset.fresh t eth hq).elim (hs.fresh hk₁ t) (heth.kalloc hk₂).not_free
  have hout₂ : ∀ t, ip4 ∉ qs' t := fun t hq => (hset.fresh t ip4 hq).elim (hs₁.fresh hk₂ t) hip4.not_free
  -- and they are still held, to be freed in turn
  have hl₁ : Lost (n + 1 + 1) h.kmem h₁.kmem := by
    have := ((Lost.kalloc hs.nodup hk₁).trans (Lost.kalloc hnd₁ hk₂)).trans hl
    rwa [show 1 + 1 + n = n + 1 + 1 from by omega] at this
  have heth₁ := hl.held eth (heth.kalloc hk₂)
  obtain ⟨_, he₃, hl₃, hheld⟩ := hl₁.kfree heth₁ (by rw [hf₁]; exact List.mem_cons_self)
  cases he₃.symm.trans hp.free₁
  have hip4₃ := hheld ip4 hne (hl.held ip4 hip4)
  obtain ⟨_, he₄, hl₄, -⟩ := hl₃.kfree hip4₃ hmem
  cases he₄.symm.trans hp.free₂
  have hsub : ∀ q ∈ k₂.freelist, q ∈ h.kmem.freelist := fun q hq => by
    rw [hf₁, hf₂]; exact List.mem_cons_of_mem _ (List.mem_cons_of_mem _ hq)
  rw [hp.eq]
  exact ⟨qs', (hset.sane.kfree heth₁ hout₁ hp.free₁).kfree hip4₃ hout₂ hp.free₂, ⟨n, hl₄⟩,
    fun t q hq => (hset.fresh t q hq).imp id (hsub q), hset.bound⟩

/-! ## The tables and the sockets -/

/-- The port tables are the same, and of a socket only the queue has changed. `handle_tcp_packet` changes the state of
a socket too, but only of one whose type is the number of TCP. -/
structure OnlyQueues (h h' : Host) : Prop where
  udp : h'.udpPortBinds = h.udpPortBinds
  tcp : h'.tcpPortBinds = h.tcpPortBinds
  socks : ∀ a, (h.socks a).type ≠ IPPROTO_TCP →
    ∃ rxHead rxTail, h'.socks a = { h.socks a with rxHead := rxHead, rxTail := rxTail }

namespace OnlyQueues

theorem of_eq (hu : h'.udpPortBinds = h.udpPortBinds) (ht : h'.tcpPortBinds = h.tcpPortBinds)
    (hs : h'.socks = h.socks) : OnlyQueues h h' :=
  ⟨hu, ht, fun a _ => ⟨(h.socks a).rxHead, (h.socks a).rxTail, by rw [hs]⟩⟩

theorem trans {h'' : Host} (h₁ : OnlyQueues h h') (h₂ : OnlyQueues h' h'') : OnlyQueues h h'' := by
  refine ⟨h₂.udp.trans h₁.udp, h₂.tcp.trans h₁.tcp, fun a ha => ?_⟩
  obtain ⟨hd, tl, he⟩ := h₁.socks a ha
  obtain ⟨hd', tl', he'⟩ := h₂.socks a (by rw [he]; exact ha)
  exact ⟨hd', tl', by rw [he', he]⟩

theorem setRx (h : Host) (sock : Nat) (hd tl : Option Nat) (frames : Nat → UdpFrame) :
    OnlyQueues h { h with udpFrames := frames, socks := setRx h.socks sock hd tl } := by
  refine ⟨rfl, rfl, fun a _ => ?_⟩
  by_cases ha : a = sock
  · exact ⟨hd, tl, by rw [ha]; exact Function.update_self ..⟩
  · exact ⟨(h.socks a).rxHead, (h.socks a).rxTail, setRx_of_ne _ _ _ ha⟩

end OnlyQueues

theorem handleUdpPacket_only {udp : Nat} {r : Int} (ho : handleUdpPacket h udp = .ok (r, h')) : OnlyQueues h h' := by
  unfold handleUdpPacket enqueueUdpPacket at ho
  dsimp only at ho
  split at ho
  · cases ho; exact .of_eq rfl rfl rfl
  · split at ho
    · cases ho; exact .of_eq rfl rfl rfl
    · split at ho
      · split at ho
        · cases ho; exact .setRx ..
        · split at ho
          · cases ho
          · cases ho; exact .setRx ..
      · cases ho; exact .of_eq rfl rfl rfl

theorem handleTcpPacket_only (h : Host) (tcp : TcpFrame) : OnlyQueues h (handleTcpPacket h tcp).2 := by
  unfold handleTcpPacket
  dsimp only
  split
  · exact .of_eq rfl rfl rfl
  · rename_i b _
    split
    · exact .of_eq rfl rfl rfl
    · split
      · split
        · exact .of_eq rfl rfl rfl
        · rename_i htype
          split
          · exact .of_eq rfl rfl rfl
          · refine ⟨rfl, rfl, fun a ha => ⟨(h.socks a).rxHead, (h.socks a).rxTail, Function.update_of_ne ?_ ..⟩⟩
            rintro rfl
            exact htype ha
      · exact .of_eq rfl rfl rfl

theorem Ip4Step.only {ip : Ip4Frame} (ho : Ip4Step h ip h') : OnlyQueues h h' := by
  have hsame : ∀ k, OnlyQueues h { h with kmem := k } := fun k => .of_eq rfl rfl rfl
  cases ho with
  | other => exact .of_eq rfl rfl rfl
  | tcp => exact (hsame _).trans (handleTcpPacket_only ..)
  | tcpShort => exact hsame _
  | udpShort => exact hsame _
  | @udp p k d r _ _ _ hk _ ho =>
      have hstore : OnlyQueues h (Host.storeFrame { h with kmem := k } p d) := .of_eq rfl rfl rfl
      exact hstore.trans (handleUdpPacket_only ho)

theorem handlePacket_only {packet : List UInt8} (ho : handlePacket h packet = .ok h') : OnlyQueues h h' := by
  obtain ⟨f, eth, ip4, k₁, k₂, k₃, k₄, h₁, -, hp⟩ := handlePacket_step ho
  have hsame : OnlyQueues h { h with kmem := k₂ } := .of_eq rfl rfl rfl
  have hframe : OnlyQueues { h with kmem := k₂ } h₁ := by
    cases hp.frame with
    | kept => exact .of_eq rfl rfl rfl
    | ip4 _ ho => exact ho.only
    | arp _ ho =>
        obtain ⟨_, _, _, _, rfl, -, -⟩ := arpRecv_ok ho
        exact .of_eq rfl rfl rfl
  rw [hp.eq]
  exact (hsame.trans hframe).trans (.of_eq rfl rfl rfl)

end Xv6Net.Net
