import Xv6Net.Net.Spec

/-!
# The receive queues as lists

Enqueueing and dequeueing are appending and taking off.
-/

namespace Xv6Net.Net

open Kernel Lib

/-- `h'` differs from `h` in the links of frames and the pointers of queues only. -/
structure SameButQueues (h h' : Host) : Prop where
  data : ∀ p, (h'.udpFrames p).toDatagram = (h.udpFrames p).toDatagram
  kmem : h'.kmem = h.kmem
  binds : h'.udpPortBinds = h.udpPortBinds
  proto : ∀ s, (h'.socks s).proto = (h.socks s).proto

/-! ## The two kinds of stores -/

theorem setNext_next (frames : Nat → UdpFrame) (p : Nat) (n : Option Nat) :
    (fun q => (setNext frames p n q).next) = Function.update (fun q => (frames q).next) p n := by
  funext q
  simp only [setNext, Function.update_apply]; split <;> rfl

theorem setNext_data (frames : Nat → UdpFrame) (p : Nat) (n : Option Nat) (q : Nat) :
    (setNext frames p n q).toDatagram = (frames q).toDatagram := by
  simp only [setNext, Function.update_apply]
  split
  · rename_i he; rw [he]
  · rfl

theorem setRx_self (socks : Nat → Socket) (s : Nat) (hd tl : Option Nat) :
    (setRx socks s hd tl s).rxHead = hd ∧ (setRx socks s hd tl s).rxTail = tl := by
  simp [setRx]

theorem setRx_of_ne (socks : Nat → Socket) {t : Nat} (hd tl : Option Nat) (h : t ≠ s) :
    setRx socks s hd tl t = socks t := Function.update_of_ne h ..

theorem setRx_proto (socks : Nat → Socket) (s : Nat) (hd tl : Option Nat) (t : Nat) :
    (setRx socks s hd tl t).proto = (socks t).proto := by
  simp only [setRx, Function.update_apply]
  split
  · rename_i he; rw [he]
  · rfl

theorem enqueueUdpPacket_nil (hhead : (h.socks s).rxHead = none) :
    enqueueUdpPacket h p s = .ok { h with
      udpFrames := setNext h.udpFrames p none
      socks := setRx h.socks s (some p) (some p) } := by
  simp only [enqueueUdpPacket, hhead]

theorem enqueueUdpPacket_cons {hd tail : Nat} (hhead : (h.socks s).rxHead = some hd)
    (htail : (h.socks s).rxTail = some tail) :
    enqueueUdpPacket h p s = .ok { h with
      udpFrames := setNext (setNext h.udpFrames p none) tail (some p)
      socks := setRx h.socks s (some hd) (some p) } := by
  simp only [enqueueUdpPacket, hhead, htail]

namespace Queues

variable {h h' : Host} {qs : Nat → List Nat} {s p : Nat}

section

variable (hq : Queues h qs)
include hq

theorem unique {qs' : Nat → List Nat} (hq' : Queues h qs') : qs = qs' :=
  funext fun s => (hq.queue s).unique (hq'.queue s)

/-- The queues depend on the links of the queued pages and on the pointers of the sockets. -/
theorem congr (hn : ∀ s, ∀ p ∈ qs s, (h'.udpFrames p).next = (h.udpFrames p).next)
    (hs : ∀ s, (h'.socks s).rxHead = (h.socks s).rxHead ∧ (h'.socks s).rxTail = (h.socks s).rxTail) :
    Queues h' qs where
  queue s := by
    rw [(hs s).1, (hs s).2]
    exact (hq.queue s).congr (hn s)
  disjoint := hq.disjoint

/-- A page that is in no queue, appended to one of them, leaves the queues disjoint. -/
theorem disjoint_append (hp : ∀ t, p ∉ qs t) (t u : Nat) :
    ∀ r ∈ Function.update qs s (qs s ++ [p]) t, r ∈ Function.update qs s (qs s ++ [p]) u → t = u := by
  have hmem : ∀ t r, r ∈ Function.update qs s (qs s ++ [p]) t → r ∈ qs t ∨ t = s ∧ r = p := by
    intro t r hr
    rw [Function.update_apply] at hr
    split at hr
    · rename_i ht
      rcases List.mem_append.mp hr with hr | hr
      · exact Or.inl (ht ▸ hr)
      · exact Or.inr ⟨ht, List.mem_singleton.mp hr⟩
    · exact Or.inl hr
  intro r ht hu
  rcases hmem t r ht with ht' | ⟨hts, hr⟩ <;> rcases hmem u r hu with hu' | ⟨hus, hr'⟩
  · exact hq.disjoint t u r ht' hu'
  · exact absurd (hr' ▸ ht') (hp t)
  · exact absurd (hr ▸ hu') (hp u)
  · rw [hts, hus]

theorem enqueue (hp : ∀ t, p ∉ qs t) :
    ∃ h', enqueueUdpPacket h p s = .ok h' ∧ Queues h' (Function.update qs s (qs s ++ [p])) ∧
      SameButQueues h h' := by
  have hs := hq.queue s
  -- clearing the link of the new page does not touch a queued one
  have hclear : ∀ t, IsQueue (Function.update (fun q => (h.udpFrames q).next) p none) (h.socks t).rxHead
      (h.socks t).rxTail (qs t) := fun t =>
    (hq.queue t).congr fun r hr => Function.update_of_ne (fun he => hp t (by rw [← he]; exact hr)) ..
  cases hhead : (h.socks s).rxHead with
  | none =>
      have hnil : qs s = [] := (hs.head_eq_none).mp hhead
      refine ⟨_, enqueueUdpPacket_nil hhead, ⟨fun t => ?_, hq.disjoint_append hp⟩,
        ⟨fun r => setNext_data .., rfl, rfl, fun t => setRx_proto ..⟩⟩
      rw [setNext_next]
      by_cases ht : t = s
      · rw [ht, (setRx_self ..).1, (setRx_self ..).2, Function.update_self, hnil]
        exact IsQueue.single (Function.update_self ..)
      · simp only [setRx_of_ne _ _ _ ht, Function.update_of_ne ht]
        exact hclear t
  | some hd =>
      cases htail : (h.socks s).rxTail with
      | none =>
          have hnil := (hs.tail_eq_none).mp htail
          rw [← hs.head_eq_none, hhead] at hnil; cases hnil
      | some tail =>
          have hmem : tail ∈ qs s := List.mem_of_getLast? (htail ▸ hs.tail_eq).symm
          refine ⟨_, enqueueUdpPacket_cons hhead htail,
            ⟨fun t => ?_, hq.disjoint_append hp⟩, ⟨fun r => ?_, rfl, rfl, fun t => setRx_proto ..⟩⟩
          · rw [setNext_next, setNext_next]
            by_cases ht : t = s
            · rw [ht, (setRx_self ..).1, (setRx_self ..).2, Function.update_self]
              have hcs := hclear s
              rw [hhead, htail] at hcs
              exact hcs.snoc (hp s) (Function.update_self ..)
            · simp only [setRx_of_ne _ _ _ ht, Function.update_of_ne ht]
              refine (hclear t).congr fun r hr => Function.update_of_ne (fun he => ht ?_) ..
              exact hq.disjoint t s r hr (he ▸ hmem)
          · rw [setNext_data, setNext_data]

theorem dequeue (hd : dequeueUdpPacket h s = (some p, h')) :
    (h.socks s).rxHead = some p ∧ h'.udpFrames = h.udpFrames ∧ SameButQueues h h' ∧
      ∃ rest, qs s = p :: rest ∧ Queues h' (Function.update qs s rest) := by
  unfold dequeueUdpPacket at hd
  split at hd
  · cases hd
  · rename_i ret hhead
    cases hd
    have hs := hq.queue s
    rw [hhead] at hs
    obtain ⟨rest, hrest, hs'⟩ := hs.pop
    refine ⟨hhead, rfl, ⟨fun _ => rfl, rfl, rfl, fun t => setRx_proto ..⟩, rest, hrest, fun t => ?_, ?_⟩
    · by_cases ht : t = s
      · rw [ht, (setRx_self ..).1, (setRx_self ..).2, Function.update_self]; exact hs'
      · simp only [setRx_of_ne _ _ _ ht, Function.update_of_ne ht]; exact hq.queue t
    · -- the shorter queue holds no new pages
      have hsub : ∀ t, ∀ r ∈ Function.update qs s rest t, r ∈ qs t := by
        intro t r hr
        rw [Function.update_apply] at hr
        split at hr
        · rename_i ht; rw [ht, hrest]; exact List.mem_cons_of_mem _ hr
        · exact hr
      exact fun t u r ht hu => hq.disjoint t u r (hsub t r ht) (hsub u r hu)

end

theorem boot (hb : h.AtBoot) : Queues h fun _ => [] where
  queue s := by
    rw [(hb.empty s).1, (hb.empty s).2]; exact IsQueue.nil _
  disjoint _ _ _ hp := nomatch hp

end Queues

/-! ## What leaves the queues alone -/

/-- `h'` has the links and the queues of `h`, and what is new in its UDP table are UDP sockets. -/
structure SameRx (h h' : Host) : Prop where
  frames : h'.udpFrames = h.udpFrames
  socks : ∀ t, (h'.socks t).rxHead = (h.socks t).rxHead ∧ (h'.socks t).rxTail = (h.socks t).rxTail ∧
    (h'.socks t).proto = (h.socks t).proto
  binds : ∀ port b, h'.udpPortBinds port = some b →
    h.udpPortBinds port = some b ∨ (h.socks b.sock).proto = IPPROTO_UDP

namespace SameRx

variable {h h' h'' : Host}

theorem of_eq (hf : h'.udpFrames = h.udpFrames) (hs : h'.socks = h.socks)
    (hb : h'.udpPortBinds = h.udpPortBinds) : SameRx h h' :=
  ⟨hf, fun t => by rw [hs]; exact ⟨rfl, rfl, rfl⟩, fun port b hp => Or.inl (hb ▸ hp)⟩

theorem trans (h₁ : SameRx h h') (h₂ : SameRx h' h'') : SameRx h h'' := by
  refine ⟨h₂.frames.trans h₁.frames, fun t => ?_, fun port b hp => ?_⟩
  · obtain ⟨a₁, b₁, c₁⟩ := h₁.socks t
    obtain ⟨a₂, b₂, c₂⟩ := h₂.socks t
    exact ⟨a₂.trans a₁, b₂.trans b₁, c₂.trans c₁⟩
  · rcases h₂.binds port b hp with hp | hp
    · exact h₁.binds port b hp
    · exact Or.inr ((h₁.socks b.sock).2.2 ▸ hp)

theorem setSock (h : Host) {sock : Nat} {x : Socket} (hx : x.rxHead = (h.socks sock).rxHead ∧
    x.rxTail = (h.socks sock).rxTail ∧ x.proto = (h.socks sock).proto) :
    SameRx h { h with socks := Function.update h.socks sock x } := by
  refine ⟨rfl, fun t => ?_, fun _ _ hp => Or.inl hp⟩
  simp only [Function.update_apply]
  split
  · rename_i ht; rw [ht]; exact hx
  · exact ⟨rfl, rfl, rfl⟩

theorem insert (h : Host) (b : PortBinding) : SameRx h (insertPortBinding h b) := by
  unfold insertPortBinding
  split
  · exact of_eq rfl rfl rfl
  · split
    · rename_i hudp
      refine ⟨rfl, fun _ => ⟨rfl, rfl, rfl⟩, fun port b' hp => ?_⟩
      simp only [Function.update_apply] at hp
      split at hp
      · cases hp; exact Or.inr hudp
      · exact Or.inl hp
    · exact of_eq rfl rfl rfl

theorem udpBind (h : Host) (sock : Nat) (a : Option SockaddrIn) (l : Nat) : SameRx h (udpBind h sock a l).2 := by
  unfold Net.udpBind
  cases a with
  | none => exact of_eq rfl rfl rfl
  | some addr =>
      dsimp only
      iterate 5
        split
        · exact of_eq rfl rfl rfl
      split
      · exact of_eq rfl rfl rfl
      · rename_i k _
        have h₀ : SameRx h { h with kmem := k } := of_eq rfl rfl rfl
        refine ((h₀.trans (setSock _ ?_)).trans (insert _ _)).trans (setSock _ ?_)
        · exact ⟨rfl, rfl, rfl⟩
        · exact ⟨rfl, rfl, rfl⟩

theorem queues (hs : SameRx h h') (hq : Queues h qs) : Queues h' qs :=
  hq.congr (fun _ p _ => by rw [hs.frames]) (fun t => ⟨(hs.socks t).1, (hs.socks t).2.1⟩)

end SameRx

/-! ## Which socket gets a packet -/

theorem handleUdpPacket_none (hn : h.deliversTo (h.udpFrames p).hdr.dstPort = none) :
    ∃ r, handleUdpPacket h p = .ok (r, h) := by
  unfold handleUdpPacket
  by_cases hr : MAX_PORT_BINDINGS ≤ (h.udpFrames p).hdr.dstPort.toNat
  · exact ⟨-1, by simp only [if_pos hr]⟩
  · rw [Host.deliversTo, Host.boundTo, if_pos (by omega)] at hn
    simp only [if_neg hr]
    cases hb : h.udpPortBinds (h.udpFrames p).hdr.dstPort.toNat with
    | none => exact ⟨-1, rfl⟩
    | some bind =>
        have hproto : (h.socks bind.sock).proto ≠ IPPROTO_UDP := by simpa [hb] using hn
        exact ⟨0, by simp only [if_neg hproto]⟩

theorem handleUdpPacket_some (hq : Queues h qs) (hp : ∀ t, p ∉ qs t)
    (hd : h.deliversTo (h.udpFrames p).hdr.dstPort = some s) :
    ∃ h', handleUdpPacket h p = .ok (0, h') ∧ Queues h' (Function.update qs s (qs s ++ [p])) ∧
      SameButQueues h h' := by
  obtain ⟨hbound, hproto⟩ := Option.filter_eq_some_iff.mp hd
  have hproto : (h.socks s).proto = IPPROTO_UDP := by simpa using hproto
  unfold Host.boundTo at hbound
  split at hbound
  · rename_i hr
    obtain ⟨bind, hb, rfl⟩ := Option.map_eq_some_iff.mp hbound
    obtain ⟨h', he, hq', hsame⟩ := hq.enqueue (s := bind.sock) hp
    refine ⟨h', ?_, hq', hsame⟩
    have hr' : ¬ MAX_PORT_BINDINGS ≤ (h.udpFrames p).hdr.dstPort.toNat := by omega
    simp only [handleUdpPacket, if_neg hr', hb, if_pos hproto, he]
    rfl
  · cases hbound

/-- Storing a packet in a page outside of the queues leaves them alone. -/
theorem Queues.store (hq : Queues h qs) (hp : ∀ t, p ∉ qs t) (d : Datagram) :
    Queues (h.storeFrame p d) qs ∧ ∀ t, ∀ r ∈ qs t, (h.storeFrame p d).udpFrames r = h.udpFrames r := by
  have hne : ∀ t, ∀ r ∈ qs t, (h.storeFrame p d).udpFrames r = h.udpFrames r :=
    fun t r hr => Function.update_of_ne (fun he => hp t (by rw [← he]; exact hr)) ..
  exact ⟨hq.congr (fun t r hr => congrArg UdpFrame.next (hne t r hr)) (fun _ => ⟨rfl, rfl⟩), hne⟩

theorem storeFrame_self (h : Host) (p : Nat) (d : Datagram) : (h.storeFrame p d).udpFrames p = ⟨d, none⟩ :=
  Function.update_self ..

theorem storeFrame_deliversTo (h : Host) (p : Nat) (d : Datagram) :
    (h.storeFrame p d).deliversTo ((h.storeFrame p d).udpFrames p).hdr.dstPort = h.deliversTo d.hdr.dstPort := by
  rw [storeFrame_self]; rfl

end Xv6Net.Net
