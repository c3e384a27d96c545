import Mathlib.Data.List.Nodup
import Xv6Net.Virtio.Lemmas.TxOwn

/-!
# The invariant of sending, one chain at a time

While every call finds the device idle when it enters the locked section, at most one chain is published and not yet
returned. `packet_buf` then belongs to that chain, and a used index that has changed means that this very chain
was returned.
-/

namespace Xv6Net.Virtio

open Kernel Lib

variable {seq : Nat} {l : TxLog} {pc : TxPc}

/-! ## What the device reads from a chain -/

/-- The descriptors `hdr` and `pkt` form a chain that carries the packet `p`. -/
structure ChainHolds (p : Packet) (s : TxSys) (hdr pkt : Nat) : Prop where
  linked : (s.q.desc hdr).flags &&& VRING_DESC_F_NEXT ≠ 0 ∧ (s.q.desc hdr).next = pkt
  hdr_len : (s.q.desc hdr).len = HDR_SIZE ∧ HDR_SIZE ≤ (s.mem (s.q.desc hdr).addr).length
  page_ne : (s.q.desc hdr).addr ≠ s.packetBuf
  body : (s.q.desc pkt).addr = s.packetBuf ∧ (s.q.desc pkt).len = p.bytes.length ∧ (s.q.desc pkt).flags = 0
  bytes : p.bytes <+: s.mem s.packetBuf

namespace ChainHolds

variable {p : Packet} {s t : TxSys} {hdr pkt : Nat}

theorem frameOf_eq (h : ChainHolds p s hdr pkt) : s.frameOf hdr = p.bytes := by
  have hbody : (s.mem (s.q.desc pkt).addr).take (s.q.desc pkt).len = p.bytes := by
    rw [h.body.1, h.body.2.1]; exact (List.prefix_iff_eq_take.mp h.bytes).symm
  have hlen : ((s.mem (s.q.desc hdr).addr).take (s.q.desc hdr).len).length = HDR_SIZE := by
    rw [List.length_take, h.hdr_len.1]; exact Nat.min_eq_left h.hdr_len.2
  simp only [TxSys.frameOf, NUM, chainBytes, if_neg h.linked.1, h.linked.2, h.body.2.2, Nat.zero_and, if_true,
    hbody, List.append_nil]
  rw [← hlen, List.drop_left]

/-- A chain is kept by whatever keeps its descriptors and its two pages. -/
theorem of_kept (h : ChainHolds p s hdr pkt) (hbuf : t.packetBuf = s.packetBuf)
    (hd : ∀ d ∈ [hdr, pkt], t.q.desc d = s.q.desc d)
    (hpage : ∀ a, a ≠ s.packetBuf → HDR_SIZE ≤ (s.mem a).length → HDR_SIZE ≤ (t.mem a).length)
    (hmem : t.mem s.packetBuf = s.mem s.packetBuf) : ChainHolds p t hdr pkt := by
  have hh := hd hdr (by simp)
  have hp := hd pkt (by simp)
  constructor
  · rw [hh]; exact h.linked
  · rw [hh]; exact ⟨h.hdr_len.1, hpage _ h.page_ne h.hdr_len.2⟩
  · rw [hh, hbuf]; exact h.page_ne
  · rw [hp, hbuf]; exact h.body
  · rw [hbuf, hmem]; exact h.bytes

/-- What `transmit_packet` fills in is a chain with its packet. -/
theorem fill {page : Nat} (pc : TxPc) (c : Nat) (hne : pkt ≠ hdr) (hpage : page ≠ s.packetBuf)
    (hlen : HDR_SIZE ≤ (s.mem page).length) :
    ChainHolds p (({ s with q := s.q.fillTx hdr pkt page s.packetBuf p.bytes.length }.copyPacket p).setPc c pc)
      hdr pkt := by
  have hflag : ∀ f, (f ||| VRING_DESC_F_NEXT) &&& VRING_DESC_F_NEXT ≠ 0 := by
    intro f h
    have := congrArg (fun n => n.testBit 0) h
    simp [VRING_DESC_F_NEXT] at this
  constructor <;>
    simp [TxSys.setPc, TxSys.copyPacket, Virtq.fillTx, Function.update_of_ne hne.symm,
      hflag, hpage, hlen]

end ChainHolds

/-! ## The invariant -/

/-- The call has published its chain. -/
def TxPc.Published : TxPc → Prop
  | .queued _ _ | .polling _ _ _ | .freeHdr _ _ | .freePkt _ | .done => True
  | _ => False

/-- The chain of call `c` is the last one published, and the device has returned every other one. -/
structure Pending (data : Nat → Packet) (s : TxSys) (c hdr pkt : Nat) : Prop where
  count : s.log.published.length = s.log.consumed.length + 1
  last : s.log.published[s.log.consumed.length]? = some (c, hdr)
  waits : s.pc c = .queued hdr pkt ∨ s.pc c = .polling hdr pkt (.ofNat s.log.consumed.length)
  chain : ChainHolds (data c) s hdr pkt
  slot : s.q.driverArea.ring (s.log.consumed.length % NUM) = hdr

/-- How far the device is with the pending chain: not taken, taken, or read and sent. -/
def TxLog.InDevice (l : TxLog) (hdr : Nat) : Prop :=
  (l.taken = l.consumed.length ∧ l.jobs = [] ∧ l.sent.map Prod.fst = List.range l.consumed.length) ∨
  (l.taken = l.consumed.length + 1 ∧ l.jobs = [⟨l.consumed.length, hdr, none⟩] ∧
    l.sent.map Prod.fst = List.range l.consumed.length) ∨
  (∃ frame, l.taken = l.consumed.length + 1 ∧ l.jobs = [⟨l.consumed.length, hdr, some frame⟩] ∧
    l.sent.map Prod.fst = List.range (l.consumed.length + 1))

inductive TxPhase (data : Nat → Packet) (s : TxSys) : Prop where
  | quiet (hq : s.log.Quiet) (ht : s.log.taken = s.log.consumed.length) (hj : s.log.jobs = [])
      (hs : s.log.sent.map Prod.fst = List.range s.log.consumed.length)
  | pending (c hdr pkt : Nat) (hp : Pending data s c hdr pkt) (hd : s.log.InDevice hdr)

structure TxInv (data : Nat → Packet) (s : TxSys) : Prop where
  own : TxOwn s
  buf : s.packetBuf ∉ s.kmem.freelist
  avail_idx : s.q.driverArea.idx = .ofNat s.log.published.length
  used_idx : s.q.deviceArea.idx = .ofNat s.log.consumed.length
  consumed : s.log.consumed = List.range s.log.consumed.length
  calls : (s.log.published.map Prod.fst).Nodup
  published : ∀ c, (s.pc c).Published ↔ c ∈ s.log.published.map Prod.fst
  frames : ∀ m ∈ s.log.sent, ∃ c, s.log.Published c m.1 ∧ m.2 = (data c).bytes
  alloced : ∀ c hdr pkt page, s.pc c = .alloced hdr pkt page →
    s.log.Quiet ∧ page ≠ s.packetBuf ∧ HDR_SIZE ≤ (s.mem page).length
  copied : ∀ c hdr pkt, s.pc c = .copied hdr pkt → s.log.Quiet ∧ ChainHolds (data c) s hdr pkt
  phase : TxPhase data s

namespace TxInv

variable {data : Nat → Packet} {s t : TxSys} {c : Nat}

theorem boot {kmem : Kmem} {packetBuf : Nat} (h : packetBuf ∉ kmem.freelist) (mem : Nat → List UInt8) :
    TxInv data (.boot kmem packetBuf mem) where
  own := TxOwn.boot ..
  buf := h
  avail_idx := rfl
  used_idx := rfl
  consumed := rfl
  calls := List.nodup_nil
  published _ := by simp [TxSys.boot, TxPc.Published]
  frames _ h := nomatch h
  alloced _ _ _ _ h := nomatch h
  copied _ _ _ h := nomatch h
  phase := .quiet rfl rfl rfl rfl

theorem not_quiet (hp : Pending data s c hdr pkt) : ¬ s.log.Quiet := by
  intro hq
  have := hp.count
  unfold TxLog.Quiet at hq; omega

/-! ## Steps of a call -/

/-- A step of call `c` that publishes nothing: the log and the rings stay, and every chain in use stays. -/
theorem stay (h : TxInv data s) (hown : TxOwn t) (hlog : t.log = s.log)
    (hpc : t.pc = Function.update s.pc c pc) (hbuf : t.packetBuf = s.packetBuf)
    (hav : t.q.driverArea = s.q.driverArea) (hdev : t.q.deviceArea = s.q.deviceArea)
    (hfl : ∀ p ∈ t.kmem.freelist, p ∈ s.kmem.freelist) (hpub : pc.Published ↔ (s.pc c).Published)
    (hal : ∀ hdr pkt page, pc = .alloced hdr pkt page →
      s.log.Quiet ∧ page ≠ s.packetBuf ∧ HDR_SIZE ≤ (t.mem page).length)
    (hco : ∀ hdr pkt, pc = .copied hdr pkt → s.log.Quiet ∧ ChainHolds (data c) t hdr pkt)
    (hmem : ∀ c', c' ≠ c → (s.pc c').Locked → t.mem = s.mem)
    (hchain : ∀ c', c' ≠ c → ∀ hdr pkt, (s.pc c' = .copied hdr pkt ∨ Pending data s c' hdr pkt) →
      ChainHolds (data c') s hdr pkt → ChainHolds (data c') t hdr pkt)
    (hself : ∀ hdr pkt, Pending data s c hdr pkt →
      ChainHolds (data c) t hdr pkt ∧ pc = .polling hdr pkt (.ofNat s.log.consumed.length)) :
    TxInv data t := by
  have hnow : t.pc c = pc := by rw [hpc, Function.update_self]
  have hother : ∀ c', c' ≠ c → t.pc c' = s.pc c' := fun c' hc => by rw [hpc, Function.update_of_ne hc]
  constructor
  · exact hown
  · rw [hbuf]; exact fun hm => h.buf (hfl _ hm)
  · rw [hav, hlog]; exact h.avail_idx
  · rw [hdev, hlog]; exact h.used_idx
  · rw [hlog]; exact h.consumed
  · rw [hlog]; exact h.calls
  · intro c'
    rw [hlog]
    by_cases hc : c' = c
    · rw [hc, hnow, hpub]; exact h.published c
    · rw [hother c' hc]; exact h.published c'
  · rw [hlog]; exact h.frames
  · intro c' hdr pkt page hc'
    rw [hlog, hbuf]
    by_cases hc : c' = c
    · rw [hc, hnow] at hc'; exact hal hdr pkt page hc'
    · rw [hother c' hc] at hc'
      rw [hmem c' hc (by rw [hc']; trivial)]; exact h.alloced c' hdr pkt page hc'
  · intro c' hdr pkt hc'
    rw [hlog]
    by_cases hc : c' = c
    · rw [hc, hnow] at hc'; rw [hc]; exact hco hdr pkt hc'
    · rw [hother c' hc] at hc'
      obtain ⟨hq, hch⟩ := h.copied c' hdr pkt hc'
      exact ⟨hq, hchain c' hc hdr pkt (Or.inl hc') hch⟩
  · rcases h.phase with ⟨hq, ht, hj, hs⟩ | ⟨c', hdr, pkt, hp, hd⟩
    · rw [← hlog] at hq ht hj hs; exact .quiet hq ht hj hs
    · refine .pending c' hdr pkt ?_ (hlog ▸ hd)
      have hslot := hp.slot
      by_cases hc : c' = c
      · subst hc
        obtain ⟨hch, hpoll⟩ := hself hdr pkt hp
        exact ⟨hlog ▸ hp.count, hlog ▸ hp.last, Or.inr (by rw [hnow, hpoll, hlog]), hch, by rw [hav, hlog, hslot]⟩
      · exact ⟨hlog ▸ hp.count, hlog ▸ hp.last, by rw [hother c' hc, hlog]; exact hp.waits,
          hchain c' hc hdr pkt (Or.inr hp) hp.chain, by rw [hav, hlog, hslot]⟩

/-- A pending call is past the copy and before the frees. -/
theorem pending_pc (hpc : s.pc c = pc) (hp : Pending data s c hdr pkt) :
    pc = .queued hdr pkt ∨ pc = .polling hdr pkt (.ofNat s.log.consumed.length) := hpc ▸ hp.waits

section

variable (h : TxInv data s)
include h

theorem enter (hpc : s.pc c = .start) (hl : s.lock = none) (hcalm : TxCalm s (.call c)) : TxInv data (txEnter s c) := by
  have hown := h.own.enter (c := c) hl
  have hfree : ∀ c', ¬ (s.pc c').Locked := by
    intro c' hc'
    have := h.own.locked c' hc'
    rw [hl] at this; cases this
  have hnp : ∀ hdr pkt, ¬ Pending data s c hdr pkt := by
    intro hdr pkt hp
    rcases pending_pc hpc hp with h' | h' <;> cases h'
  -- a page from the free list is neither `packet_buf` nor shorter than a header once it is cleared
  have hkeep : ∀ {page rest}, s.kmem.freelist = page :: rest → page ≠ s.packetBuf ∧
      ∀ a, HDR_SIZE ≤ (s.mem a).length →
        HDR_SIZE ≤ (Function.update s.mem page (List.replicate PGSIZE 0) a).length := by
    intro page rest hp
    refine ⟨fun he => h.buf (by rw [hp, he]; exact List.mem_cons_self), fun a ha => ?_⟩
    rw [Function.update_apply]; split
    · rw [List.length_replicate]; decide
    · exact ha
  rcases txEnter_cases s c with ⟨k, hk, he⟩ | ⟨page, k, q, hp, hdrop, he⟩ |
      ⟨page, k, hdr, pkt, hp, -, -, -, -, -, hsome, he⟩ <;> rw [he] at hown ⊢
  · refine h.stay hown rfl rfl rfl rfl rfl (fun p hmem => ?_) (by rw [hpc]; simp [TxPc.Published]) (by simp)
      (by simp) (fun c' _ hc' => absurd hc' (hfree c')) (fun c' _ hdr pkt _ hch => ?_)
      (fun hdr pkt hpd => absurd hpd (hnp hdr pkt))
    · exact List.mem_of_mem_tail (hk ▸ hmem)
    · exact hch.of_kept rfl (fun _ _ => rfl) (fun _ _ hlen => hlen) rfl
  · obtain ⟨hpage, hlen⟩ := hkeep hp
    obtain ⟨hqd, hqa, hqu, -⟩ := hdrop.frame
    refine h.stay hown rfl rfl rfl hqa hqu (fun p hmem => ?_) (by rw [hpc]; simp [TxPc.Published]) (by simp)
      (by simp) (fun c' _ hc' => absurd hc' (hfree c')) (fun c' _ hdr pkt _ hch => ?_)
      (fun hdr pkt hpd => absurd hpd (hnp hdr pkt))
    · rw [hp]; exact List.mem_cons_of_mem _ hmem
    · exact hch.of_kept rfl (fun d _ => congrFun hqd d) (fun a _ => hlen a) (Function.update_of_ne hpage.symm ..)
  · obtain ⟨hpage, hlen⟩ := hkeep hp
    have hq : s.log.Quiet := by
      rcases hcalm hpc with hq | hn
      · exact hq
      · rw [hsome] at hn; cases hn
    refine h.stay hown rfl rfl rfl rfl rfl (fun p hmem => ?_) (by rw [hpc]; simp [TxPc.Published])
      (fun hdr' pkt' page' hpc' => ?_) (by simp) (fun c' _ hc' => absurd hc' (hfree c'))
      (fun c' _ hdr' pkt' _ hch => ?_) (fun hdr' pkt' hpd => absurd hpd (hnp hdr' pkt'))
    · rw [hp]; exact List.mem_cons_of_mem _ hmem
    · cases hpc'
      refine ⟨hq, hpage, ?_⟩
      simp only [TxSys.setPc, Function.update_self, List.length_replicate]; decide
    · exact hch.of_kept rfl (fun _ _ => rfl) (fun a _ => hlen a) (Function.update_of_ne hpage.symm ..)

theorem fill {page : Nat} (hpc : s.pc c = .alloced hdr pkt page)
    (hown : TxOwn (({ s with q := s.q.fillTx hdr pkt page s.packetBuf (data c).bytes.length }.copyPacket
      (data c)).setPc c (.copied hdr pkt))) :
    TxInv data (({ s with q := s.q.fillTx hdr pkt page s.packetBuf (data c).bytes.length }.copyPacket
      (data c)).setPc c (.copied hdr pkt)) := by
  obtain ⟨hq, hpage, hlen⟩ := h.alloced c hdr pkt page hpc
  have hne : pkt ≠ hdr := by
    have := h.own.nodup c
    rw [hpc] at this
    simpa [TxPc.descs, eq_comm] using this
  -- the lock keeps the other calls out, and nothing is pending
  have hout := h.own.others_out (c := c) (by rw [hpc]; trivial)
  refine h.stay hown rfl rfl rfl rfl rfl (fun _ hm => hm) (by rw [hpc]; simp [TxPc.Published]) (by simp)
    (fun hdr' pkt' hpc' => ?_) (fun c' hc hc' => absurd hc' (hout c' hc)) (fun c' hc hdr' pkt' hor _ => ?_)
    (fun hdr' pkt' hp => absurd hq (not_quiet hp))
  · cases hpc'; exact ⟨hq, ChainHolds.fill _ c hne hpage hlen⟩
  · rcases hor with hc' | hp
    · exact absurd (by rw [hc']; trivial) (hout c' hc)
    · exact absurd hq (not_quiet hp)

theorem publish (hpc : s.pc c = .copied hdr pkt) (hown : TxOwn ({ s with
      q := (s.q.setAvail hdr).bumpAvail
      log := { s.log with published := s.log.published ++ [(c, hdr)] } }.setPc c (.queued hdr pkt))) :
    TxInv data ({ s with
      q := (s.q.setAvail hdr).bumpAvail
      log := { s.log with published := s.log.published ++ [(c, hdr)] } }.setPc c (.queued hdr pkt)) := by
  obtain ⟨hq, hch⟩ := h.copied c hdr pkt hpc
  have hout := h.own.others_out (c := c) (by rw [hpc]; trivial)
  have hnew : c ∉ s.log.published.map Prod.fst := by
    rw [← h.published c, hpc]; exact fun hf => hf
  have hk : s.log.consumed.length = s.log.published.length := hq
  constructor
  · exact hown
  · exact h.buf
  · simp only [TxSys.setPc, Virtq.setAvail, Virtq.bumpAvail, h.avail_idx, ofNat_succ16, List.length_append,
      List.length_singleton]
  · exact h.used_idx
  · exact h.consumed
  · simp only [TxSys.setPc, List.map_append, List.map_cons, List.map_nil]
    exact List.nodup_append.mpr ⟨h.calls, by simp, fun a ha b hb he => by
      simp only [List.mem_singleton] at hb; subst hb; subst he; exact hnew ha⟩
  · intro c'
    simp only [TxSys.setPc, List.map_append, List.map_cons, List.map_nil, List.mem_append, List.mem_singleton,
      Function.update_apply]
    split
    · rename_i he; simp [he, TxPc.Published]
    · rename_i hc; rw [h.published c']; simp [hc]
  · intro m hm
    obtain ⟨c', ⟨head, hhead⟩, hb⟩ := h.frames m hm
    refine ⟨c', ⟨head, ?_⟩, hb⟩
    have hlt := (List.getElem?_eq_some_iff.mp hhead).1
    simpa only [TxSys.setPc, List.getElem?_append_left hlt] using hhead
  · intro c' hdr' pkt' page' hc'
    by_cases hc : c' = c
    · simp [TxSys.setPc, hc] at hc'
    · simp only [TxSys.setPc, Function.update_of_ne hc] at hc'
      exact absurd (by rw [hc']; trivial) (hout c' hc)
  · intro c' hdr' pkt' hc'
    by_cases hc : c' = c
    · simp [TxSys.setPc, hc] at hc'
    · simp only [TxSys.setPc, Function.update_of_ne hc] at hc'
      exact absurd (by rw [hc']; trivial) (hout c' hc)
  · rcases h.phase with ⟨-, ht, hj, hs⟩ | ⟨c', hdr', pkt', hp, -⟩
    · refine .pending c hdr pkt ⟨?_, ?_, Or.inl (by simp [TxSys.setPc]), ?_, ?_⟩ (Or.inl ⟨ht, hj, hs⟩)
      · simp [TxSys.setPc, hk]
      · simp [TxSys.setPc, hk]
      · exact hch.of_kept rfl (fun _ _ => rfl) (fun _ _ hlen => hlen) rfl
      · simp only [TxSys.setPc, Virtq.bumpAvail, Virtq.setAvail, h.avail_idx, toNat_ofNat_mod_NUM, hk,
          Function.update_self]
    · exact absurd hq (not_quiet hp)

/-- A step of a call that has published and only moves on, or frees a descriptor of its own. -/
theorem past (hown : TxOwn t) (hlog : t.log = s.log)
    (hpc : t.pc = Function.update s.pc c pc) (hbuf : t.packetBuf = s.packetBuf) (hm : t.mem = s.mem)
    (hk : t.kmem = s.kmem) (hav : t.q.driverArea = s.q.driverArea) (hdev : t.q.deviceArea = s.q.deviceArea)
    (hpub : pc.Published) (hpub' : (s.pc c).Published)
    (hd : ∀ d, d ∉ (s.pc c).descs → t.q.desc d = s.q.desc d)
    (hself : ∀ hdr pkt, Pending data s c hdr pkt → t.q.desc = s.q.desc ∧
      pc = .polling hdr pkt (.ofNat s.log.consumed.length)) : TxInv data t := by
  refine h.stay hown hlog hpc hbuf hav hdev (fun p hp => hk ▸ hp) (iff_of_true hpub hpub') ?_ ?_
    (fun _ _ _ => hm) (fun c' hc hdr pkt hor hch => ?_) (fun hdr pkt hp => ?_)
  · rintro hdr pkt page rfl; exact hpub.elim
  · rintro hdr pkt rfl; exact hpub.elim
  · have hdescs : (s.pc c').descs = [hdr, pkt] := by
      rcases hor with hc' | hp
      · rw [hc']; rfl
      · rcases hp.waits with hc' | hc' <;> rw [hc'] <;> rfl
    refine hch.of_kept hbuf (fun d hmem => hd d fun hmem' => hc ?_) (fun _ _ hlen => by rw [hm]; exact hlen)
      (by rw [hm])
    exact h.own.alone c' c d (hdescs ▸ hmem) hmem'
  · obtain ⟨hdesc, hpoll⟩ := hself hdr pkt hp
    refine ⟨hp.chain.of_kept hbuf (fun d _ => congrFun hdesc d) (fun _ _ hlen => by rw [hm]; exact hlen)
      (by rw [hm]), hpoll⟩

theorem call (hcalm : TxCalm s (.call c)) (hs : txCall data s c = some t) : TxInv data t := by
  have hown := h.own.call hs
  unfold txCall at hs
  split at hs
  · rename_i hpc
    split at hs
    · cases hs
    · rename_i hl
      cases hs; exact h.enter hpc (by simpa using hl) hcalm
  · rename_i hdr pkt page hpc
    cases hs; exact h.fill hpc hown
  · rename_i hdr pkt hpc
    cases hs; exact h.publish hpc hown
  · -- the used index is read before or after the device returns the chain
    rename_i hdr pkt hpc
    cases hs
    refine h.past hown rfl rfl rfl rfl rfl rfl rfl trivial (by rw [hpc]; trivial) (fun _ _ => rfl)
      (fun hdr' pkt' hp => ⟨rfl, ?_⟩)
    rcases pending_pc hpc hp with he | he <;> cases he
    rw [h.used_idx]
  · rename_i hdr pkt prev hpc
    split at hs
    · cases hs
    · rename_i hne
      cases hs
      refine h.past hown rfl rfl rfl rfl rfl rfl rfl trivial (by rw [hpc]; trivial) (fun _ _ => rfl)
        (fun hdr' pkt' hp => ?_)
      -- while its own chain is pending the index does not move
      rcases pending_pc hpc hp with he | he <;> cases he
      exact absurd h.used_idx hne
  · rename_i hdr pkt hpc
    rw [h.own.freeDesc_ok (c := c) (by simp [hpc, TxPc.descs])] at hs
    cases hs
    refine h.past hown rfl rfl rfl rfl rfl rfl rfl trivial (by rw [hpc]; trivial) (fun d hd => ?_)
      (fun hdr' pkt' hp => ?_)
    · have hne : d ≠ hdr := by rintro rfl; simp [hpc, TxPc.descs] at hd
      simp [TxSys.setPc, Function.update_of_ne hne]
    · rcases pending_pc hpc hp with he | he <;> cases he
  · rename_i pkt hpc
    rw [h.own.freeDesc_ok (c := c) (by simp [hpc, TxPc.descs])] at hs
    cases hs
    refine h.past hown rfl rfl rfl rfl rfl rfl rfl trivial (by rw [hpc]; trivial) (fun d hd => ?_)
      (fun hdr' pkt' hp => ?_)
    · have hne : d ≠ pkt := by rintro rfl; simp [hpc, TxPc.descs] at hd
      simp [TxSys.setPc, Function.update_of_ne hne]
    · rcases pending_pc hpc hp with he | he <;> cases he
  all_goals cases hs

/-! ## Steps of the device -/

/-- The rings and the pages as a call sees them do not depend on what the device has taken, read or sent. -/
theorem of_log (hpub : l.published = s.log.published)
    (hcon : l.consumed = s.log.consumed) (hframes : ∀ m ∈ l.sent, ∃ c, l.Published c m.1 ∧ m.2 = (data c).bytes)
    (hphase : TxPhase data { s with log := l }) : TxInv data { s with log := l } where
  own := ⟨h.own.nodup, h.own.held, h.own.alone, h.own.locked⟩
  buf := h.buf
  avail_idx := by rw [hpub]; exact h.avail_idx
  used_idx := by rw [hcon]; exact h.used_idx
  consumed := by rw [hcon]; exact h.consumed
  calls := by rw [hpub]; exact h.calls
  published := by rw [hpub]; exact h.published
  frames := hframes
  alloced := by
    intro c hdr pkt page hc
    simp only [TxLog.Quiet, hpub, hcon]; exact h.alloced c hdr pkt page hc
  copied := by
    intro c hdr pkt hc
    obtain ⟨hq, hch⟩ := h.copied c hdr pkt hc
    simp only [TxLog.Quiet, hpub, hcon]
    exact ⟨hq, hch.of_kept rfl (fun _ _ => rfl) (fun _ _ hlen => hlen) rfl⟩
  phase := hphase

end

theorem pending_of_log (hp : Pending data s c hdr pkt)
    (hpub : l.published = s.log.published) (hcon : l.consumed = s.log.consumed) :
    Pending data { s with log := l } c hdr pkt where
  count := by rw [hpub, hcon]; exact hp.count
  last := by rw [hpub, hcon]; exact hp.last
  waits := by rw [hcon]; exact hp.waits
  chain := hp.chain.of_kept rfl (fun _ _ => rfl) (fun _ _ hlen => hlen) rfl
  slot := by rw [hcon]; exact hp.slot

theorem take (h : TxInv data s) (hne : UInt16.ofNat s.log.taken ≠ s.q.driverArea.idx) :
    TxInv data { s with log := { s.log with
      taken := s.log.taken + 1
      jobs := s.log.jobs ++ [⟨s.log.taken, s.q.driverArea.ring ((UInt16.ofNat s.log.taken).toNat % NUM), none⟩] } } := by
  have hne' : s.log.taken ≠ s.log.published.length := by
    intro he; rw [he, ← h.avail_idx] at hne; exact hne rfl
  refine h.of_log rfl rfl h.frames ?_
  rcases h.phase with ⟨hq, ht, -, -⟩ | ⟨c, hdr, pkt, hp, ⟨ht, hj, hs⟩ | ⟨ht, -⟩ | ⟨_, ht, -⟩⟩
  · exact absurd (ht.trans hq) hne'
  · refine .pending c hdr pkt (pending_of_log hp rfl rfl) (Or.inr (Or.inl ⟨by rw [ht], ?_, hs⟩))
    simp only [hj, ht, toNat_ofNat_mod_NUM, hp.slot, List.nil_append]
  · exact absurd (ht.trans hp.count.symm) hne'
  · exact absurd (ht.trans hp.count.symm) hne'

theorem read (h : TxInv data s) {j : TxJob} (hj : s.log.jobs.find? (fun j => j.seq == seq && j.frame.isNone) = some j) :
    TxInv data { s with log := { s.log with
      jobs := s.log.jobs.map fun i => if i = j then { j with frame := some (s.frameOf j.head) } else i
      sent := s.log.sent ++ [(j.seq, s.frameOf j.head)] } } := by
  have hmem := List.mem_of_find?_eq_some hj
  have hnone : j.frame = none := by
    have := List.find?_some hj
    simp only [Bool.and_eq_true, Option.isNone_iff_eq_none] at this
    exact this.2
  -- the job is the pending chain, taken and not read
  rcases h.phase with ⟨-, -, hnil, -⟩ | ⟨c, hdr, pkt, hp, ⟨-, hnil, -⟩ | ⟨ht, hone, hs⟩ | ⟨f, -, hone, -⟩⟩
  · rw [hnil] at hmem; cases hmem
  · rw [hnil] at hmem; cases hmem
  · rw [hone, List.mem_singleton] at hmem
    subst hmem
    have hf := hp.chain.frameOf_eq
    refine h.of_log rfl rfl (fun m hm => ?_) (.pending c hdr pkt (pending_of_log hp rfl rfl)
      (Or.inr (Or.inr ⟨s.frameOf hdr, ht, by simp [hone], ?_⟩)))
    · rcases List.mem_append.mp hm with hm | hm
      · exact h.frames m hm
      · rw [List.mem_singleton] at hm
        subst hm; exact ⟨c, ⟨hdr, hp.last⟩, hf⟩
    · simp [hs, List.range_succ]
  · rw [hone, List.mem_singleton] at hmem
    subst hmem; cases hnone

theorem push (h : TxInv data s) {j : TxJob} (hj : s.log.jobs.find? (fun j => j.seq == seq && j.frame.isSome) = some j) :
    TxInv data { s with
      q := s.q.pushUsed ⟨j.head, 0⟩
      log := { s.log with jobs := s.log.jobs.erase j, consumed := s.log.consumed ++ [j.seq] } } := by
  have hmem := List.mem_of_find?_eq_some hj
  have hsome : j.frame.isSome := by
    have := List.find?_some hj
    simp only [Bool.and_eq_true] at this; exact this.2
  rcases h.phase with ⟨-, -, hnil, -⟩ | ⟨c, hdr, pkt, hp, ⟨-, hnil, -⟩ | ⟨-, hone, -⟩ | ⟨f, ht, hone, hs⟩⟩
  · rw [hnil] at hmem; cases hmem
  · rw [hnil] at hmem; cases hmem
  · rw [hone, List.mem_singleton] at hmem
    subst hmem; cases hsome
  · rw [hone, List.mem_singleton] at hmem
    subst hmem
    exact {
      own := ⟨h.own.nodup, h.own.held, h.own.alone, h.own.locked⟩
      buf := h.buf
      avail_idx := h.avail_idx
      used_idx := by
        simp only [Virtq.pushUsed, h.used_idx, ofNat_succ16, List.length_append, List.length_singleton]
      consumed := by
        simp only [List.length_append, List.length_singleton, List.range_succ]; rw [← h.consumed]
      calls := h.calls
      published := h.published
      frames := h.frames
      alloced := fun c' hdr' pkt' page' hc' => absurd (h.alloced c' hdr' pkt' page' hc').1 (not_quiet hp)
      copied := fun c' hdr' pkt' hc' => absurd (h.copied c' hdr' pkt' hc').1 (not_quiet hp)
      phase := .quiet (by simp [TxLog.Quiet, hp.count]) (by simp [ht]) (by simp [hone]) (by simp [hs]) }

theorem step (h : TxInv data s) {a : TxAct} (hcalm : TxCalm s a) (hs : txStep data s a = some t) : TxInv data t := by
  cases a with
  | call c => exact h.call hcalm hs
  | take =>
      simp only [txStep] at hs
      split at hs
      · cases hs
      · cases hs; exact h.take ‹_›
  | read seq =>
      simp only [txStep] at hs
      split at hs
      · cases hs; exact h.read ‹_›
      · cases hs
  | push seq =>
      simp only [txStep] at hs
      split at hs
      · cases hs; exact h.push ‹_›
      · cases hs

/-! ## From the invariant to integrity -/

theorem countP_range_eq_count_take {α : Type} [DecidableEq α] (l : List α) (a : α) (n : Nat) :
    (List.range n).countP (fun i => l[i]? == some a) = (l.take n).count a := by
  induction n with
  | zero => rfl
  | succ n ih =>
      rw [List.range_succ, List.countP_append, ih, List.take_add_one, List.count_append, List.countP_singleton]
      cases l[n]? <;> simp [List.count_cons]

/-- Frames are numbered by publication, so a call is counted as often as it is among the first publications. -/
theorem sentCount_eq {n : Nat} (hs : l.sent.map Prod.fst = List.range n) (c : Nat) :
    l.sentCount c = ((l.published.map Prod.fst).take n).count c := by
  rw [← countP_range_eq_count_take, ← hs, List.countP_map]
  simp only [TxLog.sentCount, List.getElem?_map, Function.comp_def]

/-- How many frames were sent: those of the returned chains and perhaps that of the pending one. -/
theorem sent_range (h : TxInv data s) : ∃ n, s.log.consumed.length ≤ n ∧ s.log.sent.map Prod.fst = List.range n := by
  rcases h.phase with ⟨-, -, -, hs⟩ | ⟨c, hdr, pkt, -, ⟨-, -, hs⟩ | ⟨-, -, hs⟩ | ⟨_, -, -, hs⟩⟩
  · exact ⟨_, Nat.le_refl _, hs⟩
  · exact ⟨_, Nat.le_refl _, hs⟩
  · exact ⟨_, Nat.le_refl _, hs⟩
  · exact ⟨_, Nat.le_succ _, hs⟩

/-- A call past polling is not the pending one, so its chain was returned. -/
theorem freeing_seq (h : TxInv data s) (hf : (s.pc c).Freeing) :
    ∃ seq, seq < s.log.consumed.length ∧ s.log.Published c seq := by
  have hpub : (s.pc c).Published := by
    revert hf; cases s.pc c <;> simp [TxPc.Freeing, TxPc.Published]
  obtain ⟨⟨c', head⟩, hmem, rfl⟩ := List.mem_map.mp ((h.published c).mp hpub)
  obtain ⟨seq, hseq⟩ := List.mem_iff_getElem?.mp hmem
  refine ⟨seq, ?_, head, hseq⟩
  have hlt := (List.getElem?_eq_some_iff.mp hseq).1
  rcases h.phase with ⟨hq, -, -, -⟩ | ⟨c', hdr, pkt, hp, -⟩
  · unfold TxLog.Quiet at hq; omega
  · have hne : seq ≠ s.log.consumed.length := by
      rintro rfl
      rw [hp.last, Option.some.injEq, Prod.mk.injEq] at hseq
      obtain ⟨rfl, rfl⟩ := hseq
      rcases hp.waits with hw | hw <;> rw [hw] at hf <;> exact hf
    have := hp.count
    omega

/-- The chain of a call that the device has returned was sent exactly once. -/
theorem sentCount_of_consumed (h : TxInv data s) (hlt : seq < s.log.consumed.length)
    (hpub : s.log.Published c seq) : s.log.sentCount c = 1 := by
  obtain ⟨n, hle, hs⟩ := h.sent_range
  obtain ⟨head, hhead⟩ := hpub
  rw [sentCount_eq hs]
  refine List.count_eq_one_of_mem (h.calls.sublist (List.take_sublist ..)) ?_
  refine List.mem_iff_getElem?.mpr ⟨seq, ?_⟩
  rw [List.getElem?_take_of_lt (by omega), List.getElem?_map, hhead]; rfl

theorem integrity (h : TxInv data s) : s.Integrity data where
  frames := h.frames
  at_most_once c := by
    obtain ⟨n, -, hs⟩ := h.sent_range
    rw [sentCount_eq hs]
    exact List.nodup_iff_count_le_one.mp (h.calls.sublist (List.take_sublist ..)) c
  once c hf := by
    obtain ⟨seq, hlt, hpub⟩ := h.freeing_seq hf
    exact h.sentCount_of_consumed hlt hpub
  all_sent hq c seq hpub := by
    obtain ⟨head, hhead⟩ := hpub
    have hlt := (List.getElem?_eq_some_iff.mp hhead).1
    exact h.sentCount_of_consumed (by unfold TxLog.Quiet at hq; omega) ⟨head, hhead⟩
  freed_after c hf := by
    obtain ⟨seq, hlt, hpub⟩ := h.freeing_seq hf
    exact ⟨seq, by rw [h.consumed]; exact List.mem_range.mpr hlt, hpub⟩

end TxInv

end Xv6Net.Virtio
