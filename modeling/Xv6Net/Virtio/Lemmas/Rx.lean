import Xv6Net.Lib.Ring
import Xv6Net.Virtio.Rx

/-!
# The invariant of the receive queue

Everything follows from two logs: the heads ever published (the ones from `virtio_net_init`, then the handled
ones in the order of handling) and the elements ever pushed. The four places of a chain are windows of the two.
-/

namespace Xv6Net.Virtio

open Kernel Lib

/-- How many handled chains are back in the available ring. -/
def RxSys.requeued (s : RxSys) : Nat := s.handleLog.length - s.handling.length

/-- The heads ever made available to the device, in order. -/
def RxSys.availLog (s : RxSys) : List Nat := rxHeads ++ (s.handleLog.take s.requeued).map (·.id)

/-- The available side: index, ring and log agree, and the device holds what it took and did not push. -/
structure AvailInv (a : VirtqAvail) (log : List Nat) (taken : Nat) (pushed held : List Nat) : Prop where
  idx : a.idx = .ofNat log.length
  ring : RingHolds NUM a.ring log taken
  taken_le : taken ≤ log.length
  moved : (pushed ++ held).Perm (log.take taken)

/-- Counters, rings and logs agree. `desc` is the descriptor table that `virtio_net_init` left. -/
structure RxInv (desc : Nat → VirtqDesc) (s : RxSys) : Prop where
  desc_eq : s.q.desc = desc
  next_used : s.nextUsed = s.handleLog.length
  used_idx : s.q.deviceArea.idx = .ofNat s.pushLog.length
  handling_eq : (s.handleLog.drop s.requeued).map (·.id) = s.handling
  pfx : s.handleLog <+: s.pushLog
  used_ring : RingHolds NUM s.q.deviceArea.ring s.pushLog s.handleLog.length
  avail : AvailInv s.q.driverArea s.availLog s.taken (s.pushLog.map (·.id)) s.held
  publish_slot : ∀ id, s.pc = .publish id → s.q.driverArea.ring (s.availLog.length % NUM) = id

namespace RxInv

variable {desc : Nat → VirtqDesc} {s : RxSys}

/-! ## The four places as windows of the logs -/

section

variable (h : RxInv desc s)
include h

theorem handled_ids :
    s.handleLog.map (·.id) = (s.handleLog.take s.requeued).map (·.id) ++ s.handling := by
  rw [← h.handling_eq, ← List.map_append, List.take_append_drop]

theorem pushed_ids :
    s.pushLog.map (·.id) = (s.handleLog.take s.requeued).map (·.id) ++ s.handling ++
      (s.pushLog.drop s.handleLog.length).map (·.id) := by
  rw [← h.handled_ids, ← List.map_append]
  have := List.take_append_drop s.handleLog.length s.pushLog
  rw [← List.prefix_iff_eq_take.mp h.pfx] at this
  rw [this]

/-- The requeued heads cancel: what is published, held, returned or handled is what `virtio_net_init` published. -/
theorem windows_perm :
    (s.availLog.drop s.taken ++ s.held ++ (s.pushLog.drop s.handleLog.length).map (·.id) ++ s.handling).Perm
      rxHeads := by
  set r := (s.handleLog.take s.requeued).map (·.id) with hr
  have hlog : s.availLog = rxHeads ++ r := rfl
  have hm := h.avail.moved.append_right (s.availLog.drop s.taken)
  rw [List.take_append_drop, h.pushed_ids, ← hr, hlog] at hm
  rw [← List.perm_append_right_iff r]
  refine List.Perm.trans ?_ hm
  rw [List.perm_iff_count]
  intro a
  simp only [hlog, List.count_append]; omega

theorem windows_length :
    s.availLog.length - s.taken + s.held.length + (s.pushLog.length - s.handleLog.length) +
      s.handling.length = 4 := by
  have := h.windows_perm.length_eq
  simp only [List.length_append, List.length_drop, List.length_map, rxHeads, List.length_range, NUM] at this
  omega

theorem published_eq : s.published = s.availLog.drop s.taken := by
  have hl := h.windows_length
  have hle := h.avail.taken_le
  unfold RxSys.published
  rw [h.avail.idx, toNat_ofNat_sub16 hle (by omega)]
  apply List.ext_getElem?
  intro i
  by_cases hi : i < s.availLog.length - s.taken
  · rw [List.getElem?_map, List.getElem?_range hi, List.getElem?_drop,
      h.avail.ring.get (by omega) (by omega)]
    rfl
  · rw [List.getElem?_eq_none (by simp; omega), List.getElem?_eq_none (by simp; omega)]

theorem returned_eq :
    s.returned = (s.pushLog.drop s.handleLog.length).map (·.id) := by
  have hl := h.windows_length
  have hle := h.pfx.length_le
  unfold RxSys.returned
  rw [h.used_idx, h.next_used, toNat_ofNat_sub16 hle (by omega)]
  apply List.ext_getElem?
  intro i
  by_cases hi : i < s.pushLog.length - s.handleLog.length
  · rw [List.getElem?_map, List.getElem?_range hi, List.getElem?_map, List.getElem?_drop,
      h.used_ring.get (by omega) (by omega)]
    rfl
  · rw [List.getElem?_eq_none (by simp; omega), List.getElem?_eq_none (by simp; omega)]

theorem owned : s.Owned := by
  unfold RxSys.Owned
  rw [h.published_eq, h.returned_eq]; exact h.windows_perm

/-! ## Steps of the driver -/

/-- The loop test, on the invariant and below 2^16 packets, is what it is meant to be. -/
theorem rxPending_iff (hp : s.pushLog.length < 65536) (hpc : s.pc = .test) :
    s.q.rxPending = true ↔ s.handleLog.length < s.pushLog.length := by
  have hn := h.next_used
  have hle := h.pfx.length_le
  simp only [RxSys.nextUsed, hpc] at hn
  simp only [Virtq.rxPending, h.used_idx, UInt16.toNat_ofNat', hn, bne_iff_ne, ne_eq]
  omega

/-- The element the loop reads is the first one not yet handled. -/
theorem rxElem_eq (hpc : s.pc = .test) (hlt : s.handleLog.length < s.pushLog.length) :
    s.pushLog[s.handleLog.length]? = some s.q.rxElem := by
  have hn := h.next_used
  simp only [RxSys.nextUsed, hpc] at hn
  rw [h.used_ring.get (Nat.le_refl _) hlt, Virtq.rxElem, hn]

end

theorem prefix_snoc {α : Type} {l m : List α} {x : α} (h : l <+: m) (hx : m[l.length]? = some x) :
    l ++ [x] <+: m := by
  obtain ⟨t, rfl⟩ := h
  cases t with
  | nil => simp at hx
  | cons y t =>
      simp only [List.getElem?_append_right (Nat.le_refl _), Nat.sub_self, List.getElem?_cons_zero,
        Option.some.injEq] at hx
      subst hx; exact ⟨t, by simp⟩

/-- Only the last step of a round adds to the available log. -/
theorem availLog_test (hpc : s.pc = .test) (e : VirtqUsedElem) :
    RxSys.availLog { s with pc := .handle e.id, handleLog := s.handleLog ++ [e] } = s.availLog := by
  simp [RxSys.availLog, RxSys.requeued, RxSys.handling, hpc]

section

variable (h : RxInv desc s)
include h

theorem availLog_publish {id : Nat} (hpc : s.pc = .publish id) :
    RxSys.availLog { s with pc := .test, q := s.q.bumpAvail } = s.availLog ++ [id] := by
  have hids := h.handled_ids
  simp only [RxSys.handling, hpc] at hids
  simp only [RxSys.availLog, RxSys.requeued, RxSys.handling, hpc, List.length_nil, Nat.sub_zero,
    List.take_length, List.append_assoc] at hids ⊢
  rw [hids]

/-- At the start and at the end of the loop only the place in the code changes. -/
theorem between (hpc : s.pc = .idle ∨ s.pc = .test) {pc : RxPc} (hpc' : pc = .idle ∨ pc = .test) :
    RxInv desc { s with pc := pc } := by
  have ha : RxSys.availLog { s with pc := pc } = s.availLog := by
    rcases hpc with hpc | hpc <;> rcases hpc' with rfl | rfl <;>
      simp [RxSys.availLog, RxSys.requeued, RxSys.handling, hpc]
  have hnext : RxSys.nextUsed { s with pc := pc } = s.nextUsed := by
    rcases hpc with hpc | hpc <;> rcases hpc' with rfl | rfl <;> simp [RxSys.nextUsed, hpc]
  exact { h with
    next_used := hnext ▸ h.next_used
    handling_eq := by rcases hpc' with rfl | rfl <;> simp [RxSys.requeued, RxSys.handling]
    avail := ha ▸ h.avail
    publish_slot := by rcases hpc' with rfl | rfl <;> simp }

theorem driver (hp : s.pushLog.length < 65536) : RxInv desc (driverStep s) := by
  have hlen := h.windows_length
  have hidx := h.avail.idx
  have hq := h.handling_eq
  unfold driverStep
  split
  · -- a new call
    rename_i hpc
    exact h.between (.inl hpc) (.inr rfl)
  · rename_i hpc
    split
    · -- the loop test finds a used element
      rename_i hpend
      have hlt := (h.rxPending_iff hp hpc).mp hpend
      exact { h with
        next_used := by simpa [RxSys.nextUsed, hpc] using h.next_used
        handling_eq := by simp [RxSys.requeued, RxSys.handling]
        pfx := prefix_snoc h.pfx (h.rxElem_eq hpc hlt)
        used_ring := h.used_ring.mono (by simp)
        avail := availLog_test hpc s.q.rxElem ▸ h.avail
        publish_slot := by simp }
    · -- `receive_packet` returns
      exact h.between (.inr hpc) (.inl rfl)
  · -- `handle_packet` has returned
    rename_i id hpc
    have ha : RxSys.availLog { s with pc := .requeue id, q := { s.q with usedIdx := s.q.usedIdx + 1 } } =
        s.availLog := by simp [RxSys.availLog, RxSys.requeued, RxSys.handling, hpc]
    exact { h with
      next_used := by simpa [RxSys.nextUsed, hpc] using h.next_used
      handling_eq := by simpa [RxSys.requeued, RxSys.handling, hpc] using hq
      avail := ha ▸ h.avail
      publish_slot := by simp }
  · -- the slot written is the one after the last published entry
    rename_i id hpc
    have ha : RxSys.availLog { s with pc := .publish id, q := s.q.setAvail id } = s.availLog := by
      simp [RxSys.availLog, RxSys.requeued, RxSys.handling, hpc]
    have hslot : s.q.driverArea.idx.toNat % NUM = s.availLog.length % NUM := by
      rw [hidx, toNat_ofNat_mod_NUM]
    have hroom : s.availLog.length < s.taken + NUM := by simp only [NUM]; omega
    exact { h with
      next_used := by simpa [RxSys.nextUsed, hpc, Virtq.setAvail] using h.next_used
      handling_eq := by simpa [RxSys.requeued, RxSys.handling, hpc] using hq
      avail := by
        rw [ha]
        exact { h.avail with ring := by simpa [Virtq.setAvail, hslot] using h.avail.ring.write hroom id }
      publish_slot := by
        intro id' h'
        cases h'
        rw [ha]; simp [Virtq.setAvail, hslot] }
  · -- the entry becomes visible
    rename_i id hpc
    have ha := h.availLog_publish hpc
    exact { h with
      next_used := by simpa [RxSys.nextUsed, hpc, Virtq.bumpAvail] using h.next_used
      handling_eq := by simp [RxSys.requeued, RxSys.handling]
      avail := by
        rw [ha]
        exact {
          idx := by simp only [Virtq.bumpAvail, hidx, ofNat_succ16, List.length_append, List.length_singleton]
          ring := h.avail.ring.grow (h.publish_slot id hpc)
          taken_le := by have := h.avail.taken_le; simp; omega
          moved := by rw [List.take_append_of_le_length h.avail.taken_le]; exact h.avail.moved }
      publish_slot := by simp }

/-! ## Steps of the device -/

theorem take (hne : UInt16.ofNat s.taken ≠ s.q.driverArea.idx) :
    RxInv desc { s with
      taken := s.taken + 1
      held := s.held ++ [s.q.driverArea.ring ((UInt16.ofNat s.taken).toNat % NUM)] } := by
  have hle := h.avail.taken_le
  have hlt : s.taken < s.availLog.length := by
    rcases Nat.lt_or_eq_of_le hle with h' | h'
    · exact h'
    · rw [h', ← h.avail.idx] at hne; exact absurd rfl hne
  have hx := h.avail.ring.get (Nat.le_refl _) hlt
  rw [toNat_ofNat_mod_NUM]
  exact { h with
    avail := { h.avail with
      ring := h.avail.ring.mono (Nat.le_succ _)
      taken_le := hlt
      moved := by
        have hm := h.avail.moved.append_right [s.q.driverArea.ring (s.taken % NUM)]
        have ht : s.availLog.take (s.taken + 1) =
            s.availLog.take s.taken ++ [s.q.driverArea.ring (s.taken % NUM)] := by
          rw [List.take_add_one, hx]; rfl
        rw [← ht, List.append_assoc] at hm
        exact hm } }

theorem push {head : Nat} (hh : head ∈ s.held) (len : Nat) :
    RxInv desc { s with
      held := s.held.erase head
      q := s.q.pushUsed ⟨head, len⟩
      pushLog := s.pushLog ++ [⟨head, len⟩] } := by
  have hlen := h.windows_length
  have hle := h.pfx.length_le
  have hslot : s.q.deviceArea.idx.toNat % NUM = s.pushLog.length % NUM := by
    rw [h.used_idx, toNat_ofNat_mod_NUM]
  have hroom : s.pushLog.length < s.handleLog.length + NUM := by simp only [NUM]; omega
  exact { h with
    used_idx := by
      simp only [Virtq.pushUsed, h.used_idx, ofNat_succ16, List.length_append, List.length_singleton]
    pfx := h.pfx.trans (List.prefix_append _ _)
    used_ring := by simpa [Virtq.pushUsed, hslot] using h.used_ring.push hroom ⟨head, len⟩
    avail := { h.avail with
      moved := by
        refine List.Perm.trans ?_ h.avail.moved
        have := (List.perm_cons_erase hh).symm.append_left (s.pushLog.map (·.id))
        simpa using this } }

theorem step {t : RxSys} {a : RxAct} (hp : s.pushLog.length < 65536) (hs : rxStep s a = some t) : RxInv desc t := by
  cases a with
  | driver => cases hs; exact h.driver hp
  | take =>
      simp only [rxStep] at hs
      split at hs
      · cases hs
      · cases hs; exact h.take ‹_›
  | write head bytes =>
      simp only [rxStep] at hs
      split at hs
      · cases hs; exact { h with }
      · cases hs
  | push head len =>
      simp only [rxStep] at hs
      split at hs
      · cases hs; exact h.push ‹_› len
      · cases hs

/-! ## What the steps leave alone -/

/-- Only `receive_packet` writes the available ring, in the slot after the last published entry. -/
theorem driver_availRing {i : Nat} (hi : s.taken ≤ i) (hlt : i < s.availLog.length) :
    (driverStep s).q.driverArea.ring (i % NUM) = s.q.driverArea.ring (i % NUM) := by
  have hlen := h.windows_length
  unfold driverStep
  split
  · rfl
  · split <;> rfl
  · rfl
  · simp only [Virtq.setAvail, h.avail.idx, toNat_ofNat_mod_NUM]
    exact Function.update_of_ne (mod_ne_of_lt hlt (by simp only [NUM]; omega)) _ _
  · rfl

end

theorem driver_deviceArea (s : RxSys) : (driverStep s).q.deviceArea = s.q.deviceArea := by
  unfold driverStep; split <;> (try split) <;> rfl

theorem pendingKept {t : RxSys} {a : RxAct} (h : RxInv desc s) (hs : rxStep s a = some t) :
    s.PendingKept t := by
  have hlen := h.windows_length
  have htk := h.avail.taken_le
  have hpf := h.pfx.length_le
  unfold RxSys.PendingKept
  rw [h.avail.idx, toNat_ofNat_sub16 htk (by omega), h.used_idx, h.next_used,
    toNat_ofNat_sub16 hpf (by omega)]
  cases a with
  | driver =>
      cases hs
      exact ⟨fun i hi => h.driver_availRing (by omega) (by omega), fun i _ => by rw [driver_deviceArea]⟩
  | take =>
      simp only [rxStep] at hs
      split at hs <;> cases hs
      exact ⟨fun _ _ => rfl, fun _ _ => rfl⟩
  | write head bytes =>
      simp only [rxStep] at hs
      split at hs <;> cases hs
      exact ⟨fun _ _ => rfl, fun _ _ => rfl⟩
  | push head len =>
      simp only [rxStep] at hs
      split at hs <;> cases hs
      refine ⟨fun _ _ => rfl, fun i hi => ?_⟩
      simp only [Virtq.pushUsed, h.used_idx, toNat_ofNat_mod_NUM]
      exact Function.update_of_ne (mod_ne_of_lt (by omega) (by simp only [NUM]; omega)) _ _

/-- A head that is published or held is not the one being handled, so its buffer is another page. -/
theorem parsedBufferSafe (h : RxInv desc s) {q₀ : Virtq} (hq₀ : q₀.desc = desc)
    (hbufs : ∀ g ∈ rxHeads, ∀ l ∈ rxHeads, q₀.rxBuf g = q₀.rxBuf l → g = l) : s.ParsedBufferSafe := by
  have hbuf : ∀ g, s.q.rxBuf g = q₀.rxBuf g := by
    intro g; simp only [Virtq.rxBuf, h.desc_eq, hq₀]
  have hown := h.owned
  have hnd : (s.published ++ s.held ++ s.returned ++ s.handling).Nodup := hown.nodup_iff.mpr (by decide)
  intro id hpc g hg he
  have hmem : id ∈ s.handling := by simp [RxSys.handling, hpc]
  have hg' : g ∈ s.published ++ s.held ++ s.returned := List.mem_append_left _ hg
  have hne : g ≠ id := (List.nodup_append.mp hnd).2.2 g hg' id hmem
  rw [hbuf, hbuf] at he
  exact hne (hbufs g (hown.subset (List.mem_append_left _ hg')) id
    (hown.subset (List.mem_append_right _ hmem)) he)

end RxInv

end Xv6Net.Virtio
