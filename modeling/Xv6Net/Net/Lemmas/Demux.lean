import Xv6Net.Net.Lemmas.Queue

/-!
# The queues along a run of binds, arrivals and reads
-/

namespace Xv6Net.Net

open Kernel Lib

structure DemuxInv (s : DemuxSys) (qs : Nat → List Nat) : Prop where
  queues : Queues s.host qs
  live : ∀ t, ∀ p ∈ qs t, p ∈ s.live
  udp : ∀ port b, s.host.udpPortBinds port = some b → (s.host.socks b.sock).proto = IPPROTO_UDP
  fifo : ∀ t, ∃ done, done ++ (qs t).map (fun p => (p, (s.host.udpFrames p).toDatagram)) = arrivedFor s.arrived t ∧
    s.dequeued t = done.map fun a => (a.1, a.2.bytes)

namespace DemuxInv

variable {s t : DemuxSys} {qs : Nat → List Nat}

theorem boot {h : Host} (hb : h.AtBoot) : DemuxInv (.boot h) fun _ => [] where
  queues := Queues.boot hb
  live _ _ hp := nomatch hp
  udp port b hp := by rw [DemuxSys.boot, hb.unbound port] at hp; cases hp
  fifo _ := ⟨[], rfl, rfl⟩

theorem bind (h : DemuxInv s qs) (sock : Nat) (a : Option SockaddrIn) (l : Nat) :
    DemuxInv { s with host := (udpBind s.host sock a l).2 } qs := by
  have hb := SameRx.udpBind s.host sock a l
  refine ⟨hb.queues h.queues, h.live, fun port b hp => ?_, fun t => ?_⟩
  · rw [(hb.socks b.sock).2.2]
    rcases hb.binds port b hp with hp | hp
    · exact h.udp port b hp
    · exact hp
  · simp only [hb.frames]; exact h.fifo t

theorem arrivedFor_snoc (l : List Arrival) (a : Arrival) (t : Nat) :
    arrivedFor (l ++ [a]) t = arrivedFor l t ++ if a.sock = some t then [(a.page, a.data)] else [] := by
  simp only [arrivedFor, List.filter_append, List.map_append]
  by_cases h : a.sock = some t <;> simp [h]

section

variable (h : DemuxInv s qs)
include h

/-- Every bound socket is a UDP socket, so a packet goes where its port is bound to. -/
theorem deliversTo_eq (port : UInt16) : s.host.deliversTo port = s.host.boundTo port := by
  cases hb : s.host.boundTo port with
  | none => rw [Host.deliversTo, hb]; rfl
  | some t =>
      refine Option.filter_eq_some_iff.mpr ⟨hb, ?_⟩
      unfold Host.boundTo at hb
      split at hb
      · obtain ⟨b, hbind, rfl⟩ := Option.map_eq_some_iff.mp hb
        simpa using h.udp _ b hbind
      · cases hb

theorem arrive {p : Nat} {d : Datagram} (hp : p ∉ s.live)
    (hs : demuxStep s (.arrive p d) = some t) : ∃ qs', DemuxInv t qs' := by
  have hfresh : ∀ t, p ∉ qs t := fun t hm => hp (h.live t p hm)
  obtain ⟨hq, hne⟩ := h.queues.store hfresh d
  have hfifo : ∀ t, ∃ done, done ++ (qs t).map (fun r => (r, ((s.host.storeFrame p d).udpFrames r).toDatagram)) =
      arrivedFor s.arrived t ∧ s.dequeued t = done.map fun a => (a.1, a.2.bytes) := by
    intro t
    obtain ⟨done, hdone, hread⟩ := h.fifo t
    refine ⟨done, ?_, hread⟩
    rw [← hdone]
    exact congrArg _ (List.map_congr_left fun r hr => by rw [hne t r hr])
  have hto := (storeFrame_deliversTo s.host p d).trans (h.deliversTo_eq _)
  simp only [demuxStep] at hs
  split at hs
  · cases hs
  · cases hd : s.host.boundTo d.hdr.dstPort with
    | none =>
        obtain ⟨r, he⟩ := handleUdpPacket_none (hto.trans hd)
        rw [he] at hs
        cases hs
        refine ⟨qs, hq, fun t r hr => List.mem_cons_of_mem _ (h.live t r hr), h.udp, fun t => ?_⟩
        rw [arrivedFor_snoc, hd, if_neg (by simp), List.append_nil]
        exact hfifo t
    | some sock =>
        obtain ⟨h', he, hq', hsame⟩ := handleUdpPacket_some hq hfresh (hto.trans hd)
        rw [he] at hs
        cases hs
        refine ⟨_, hq', fun t r hr => ?_, fun port b hp' => ?_, fun t => ?_⟩
        · rw [Function.update_apply] at hr
          split at hr
          · rcases List.mem_append.mp hr with hr | hr
            · exact List.mem_cons_of_mem _ (h.live _ r hr)
            · rw [List.mem_singleton.mp hr]; exact List.mem_cons_self
          · exact List.mem_cons_of_mem _ (h.live t r hr)
        · rw [hsame.proto]
          exact h.udp port b (hsame.binds ▸ hp')
        · obtain ⟨done, hdone, hread⟩ := hfifo t
          refine ⟨done, ?_, hread⟩
          rw [arrivedFor_snoc, hd, ← hdone]
          simp only [hsame.data]
          by_cases ht : sock = t
          · subst ht
            simp only [Function.update_self, List.map_append, List.map_cons, List.map_nil, List.append_assoc,
              if_true, storeFrame_self]
          · simp only [Option.some.injEq, if_neg ht, List.append_nil, Function.update_of_ne (Ne.symm ht)]

theorem recv {sock : Nat} {len : Int} {mapped : Bool}
    (hs : demuxStep s (.recv sock len mapped) = some t) : ∃ qs', DemuxInv t qs' := by
  simp only [demuxStep] at hs
  split at hs
  · rename_i r hr
    cases hs
    rcases hd : dequeueUdpPacket s.host sock with ⟨pkt | pkt, h'⟩
    · simp [udpRecvfrom, hd] at hr
    · obtain ⟨-, hf, hsame, rest, hrest, hq⟩ := h.queues.dequeue hd
      -- only the allocator changes after the packet is off the queue
      have hk : r.pkt = pkt ∧ r.dst = (s.host.udpFrames pkt).bytes ∧ ∃ k, r.host = { h' with kmem := k } := by
        simp only [udpRecvfrom, hd, Option.some.injEq] at hr
        cases hkf : kfree h'.kmem pkt with
        | error e => rw [hkf] at hr; cases hr
        | ok k => rw [hkf] at hr; cases hr; exact ⟨rfl, by rw [hf], k, rfl⟩
      obtain ⟨rfl, hdst, k, hk⟩ := hk
      have hnd : (qs sock).Nodup := (h.queues.queue sock).linked.nodup
      rw [hrest] at hnd
      refine ⟨Function.update qs sock rest, ?_, fun t q hq' => ?_, fun port b hp => ?_, fun t => ?_⟩
      · rw [hk]; exact hq.congr (fun _ _ _ => rfl) (fun _ => ⟨rfl, rfl⟩)
      · rw [Function.update_apply] at hq'
        split at hq'
        · rename_i ht
          have hne : q ≠ r.pkt := by rintro rfl; exact (List.nodup_cons.mp hnd).1 hq'
          refine (List.mem_erase_of_ne hne).mpr (h.live sock q ?_)
          rw [hrest]; exact List.mem_cons_of_mem _ hq'
        · rename_i ht
          have hne : q ≠ r.pkt := by
            rintro rfl
            exact ht (h.queues.disjoint t sock r.pkt hq' (by rw [hrest]; exact List.mem_cons_self))
          exact (List.mem_erase_of_ne hne).mpr (h.live t q hq')
      · rw [hk] at hp ⊢
        rw [hsame.proto]
        exact h.udp port b (hsame.binds ▸ hp)
      · obtain ⟨done, hdone, hread⟩ := h.fifo t
        simp only [hk, hf]
        by_cases ht : t = sock
        · subst ht
          rw [hrest] at hdone
          refine ⟨done ++ [(r.pkt, (s.host.udpFrames r.pkt).toDatagram)], ?_, ?_⟩
          · simpa only [Function.update_self, List.append_assoc, List.map_cons, List.singleton_append] using hdone
          · simp only [Function.update_self, hread, hdst, List.map_append, List.map_cons, List.map_nil]
        · simp only [Function.update_of_ne ht]; exact ⟨done, hdone, hread⟩
  · cases hs

theorem step {a : DemuxAct} (hs : demuxStep s a = some t) : ∃ qs', DemuxInv t qs' := by
  cases a with
  | bind sock addr l => cases hs; exact ⟨qs, h.bind sock addr l⟩
  | arrive p d =>
      refine h.arrive (fun hp => ?_) hs
      simp only [demuxStep, if_pos (Or.inr hp : p = 0 ∨ p ∈ s.live)] at hs
      cases hs
  | recv sock len mapped => exact h.recv hs

theorem isFifo : s.Fifo := by
  intro sock
  have hq := h.queues.queue sock
  obtain ⟨done, hdone, hread⟩ := h.fifo sock
  refine ⟨done, qs sock, hq.linked, hdone, hread, ?_, fun t ht => ?_⟩
  · rw [hq.head_eq_none, hq.tail_eq_none]
  · rw [← hq.tail_eq, ht]

end

end DemuxInv

end Xv6Net.Net
