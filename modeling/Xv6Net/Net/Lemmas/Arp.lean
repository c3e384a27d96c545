import Xv6Net.Net.Arp
import Xv6Net.Net.Lemmas.Packet
import Xv6Net.Net.Lemmas.Receive

/-!
# What hosts learn from each other

Every frame that was sent names its sender truly, so every entry that a cache gets from one is true.
-/

namespace Xv6Net.Net

open Kernel Lib

/-! ## The cache -/

/-- Whatever the cache says about an address is what `owner` says about it. -/
def Truthful (owner : UInt32 → Mac → Prop) (cache : List ArpEntry) : Prop :=
  ∀ ae ∈ cache, ae.valid = true → owner ae.ip ae.mac

theorem Truthful.insert {owner : UInt32 → Mac → Prop} {ip : UInt32} {mac : Mac} (hmac : owner ip mac) :
    ∀ {cache : List ArpEntry}, Truthful owner cache → Truthful owner (arpInsert ip mac cache)
  | [], h => h
  | ae :: rest, h => by
      have hrest : Truthful owner rest := fun e he => h e (List.mem_cons_of_mem _ he)
      intro e he hv
      simp only [arpInsert] at he
      split at he
      · rename_i hip
        rcases List.mem_cons.mp he with rfl | he
        · rw [← hip] at hmac; exact hmac
        · exact hrest e he hv
      · split at he
        · rcases List.mem_cons.mp he with rfl | he
          · exact hmac
          · exact hrest e he hv
        · rcases List.mem_cons.mp he with rfl | he
          · exact h e List.mem_cons_self hv
          · exact Truthful.insert hmac hrest e he hv

theorem Truthful.lookup {owner : UInt32 → Mac → Prop} {cache : List ArpEntry} {ip : UInt32} {mac : Mac}
    (h : Truthful owner cache) (hl : arpLookup ip cache = some mac) : owner ip mac := by
  obtain ⟨ae, hae, rfl⟩ := Option.map_eq_some_iff.mp hl
  have hfound := List.find?_some hae
  simp only [Bool.and_eq_true, beq_iff_eq] at hfound
  rw [← hfound.2]
  exact h ae (List.mem_of_find?_eq_some hae) hfound.1

theorem truthful_cleared (owner : UInt32 → Mac → Prop) : Truthful owner clearedCache := by
  intro ae hae hv
  rw [List.eq_of_mem_replicate hae] at hv
  cases hv

/-! ## Receiving an ARP frame -/

/-- A frame that `arp_request` or `arp_recv` of a host with configuration `conf` sends. -/
def IsArpFrame (conf : NetState) (frame : List UInt8) : Prop :=
  ∃ dst oper tha tpa, (oper = ARP_OP_REQUEST ∨ oper = ARP_OP_REPLY) ∧
    frame = arpFrame freshPage dst conf.macAddr (arpPacket conf oper tha tpa)

/-- What a host does with a frame of another one: it learns the sender's addresses, and may answer the sender. -/
theorem handlePacket_arp {h h' : Host} {conf : NetState} {frame : List UInt8} (hf : IsArpFrame conf frame)
    (ho : handlePacket h frame = .ok h') :
    h'.netconf = h.netconf ∧
      (h'.arpCache = h.arpCache ∨ h'.arpCache = arpInsert conf.ipAddr conf.macAddr h.arpCache) ∧
      (h'.wire = h.wire ∨ h'.wire = h.wire ++ [arpFrame freshPage conf.macAddr h.netconf.macAddr
        (arpPacket h.netconf ARP_OP_REPLY conf.macAddr conf.ipAddr)]) := by
  obtain ⟨dst, oper, tha, tpa, hoper, rfl⟩ := hf
  simp only [handlePacket, parseEthPacket_arpFrame] at ho
  split at ho
  · cases ho
  · simp only [bind, Except.bind] at ho
    split at ho
    · cases ho
    · rename_i h₁ hrecv
      simp only [handleFrame, ntohs_htons, if_true, ArpPkt.decode_encode] at hrecv
      obtain ⟨k, q, w, c, rfl, hc, hw⟩ := arpRecv_ok hrecv
      split at ho
      · cases ho
      · split at ho
        · cases ho
        · cases ho
          exact ⟨rfl, hc.imp id And.right, hw.imp id And.right⟩

/-! ## The network -/

section Lan

variable {ι : Type} [DecidableEq ι] {conf : ι → NetState} {hosts hosts' : ι → Host}

structure LanInv (conf : ι → NetState) (hosts : ι → Host) : Prop where
  netconf : ∀ i, (hosts i).netconf = conf i
  sent : ∀ j, ∀ frame ∈ (hosts j).wire, IsArpFrame (conf j) frame
  cache : ∀ i, Truthful (fun ip mac => ∃ j, (conf j).ipAddr = ip ∧ (conf j).macAddr = mac) (hosts i).arpCache

/-- One host moves on, still itself and with what it may send and know. -/
theorem LanInv.set (h : LanInv conf hosts) {i : ι} {x : Host} (hconf : x.netconf = (hosts i).netconf)
    (hsent : x.wire = (hosts i).wire ∨ ∃ frame, x.wire = (hosts i).wire ++ [frame] ∧ IsArpFrame (conf i) frame)
    (hcache : x.arpCache = (hosts i).arpCache ∨ ∃ j,
      x.arpCache = arpInsert (conf j).ipAddr (conf j).macAddr (hosts i).arpCache) :
    LanInv conf (Function.update hosts i x) := by
  constructor
  · intro i'
    by_cases hi : i' = i
    · subst hi; rw [Function.update_self, hconf]; exact h.netconf i'
    · rw [Function.update_of_ne hi]; exact h.netconf i'
  · intro i' frame hframe
    by_cases hi : i' = i
    · subst hi
      rw [Function.update_self] at hframe
      rcases hsent with hw | ⟨f, hw, hf⟩
      · rw [hw] at hframe; exact h.sent i' frame hframe
      · rw [hw, List.mem_append, List.mem_singleton] at hframe
        rcases hframe with hframe | rfl
        · exact h.sent i' frame hframe
        · exact hf
    · rw [Function.update_of_ne hi] at hframe; exact h.sent i' frame hframe
  · intro i'
    by_cases hi : i' = i
    · subst hi
      rw [Function.update_self]
      rcases hcache with hc | ⟨j, hc⟩
      · rw [hc]; exact h.cache i'
      · rw [hc]; exact (h.cache i').insert ⟨j, rfl, rfl⟩
    · rw [Function.update_of_ne hi]; exact h.cache i'

omit [DecidableEq ι] in
theorem LanInv.boot (hosts : ι → Host) (mac : ι → Mac) :
    LanInv (fun i => ⟨(hosts i).netconf.ipAddr, mac i⟩) (bootLan hosts mac) where
  netconf _ := rfl
  sent _ _ hf := nomatch hf
  cache i := (truthful_cleared _).insert ⟨i, rfl, rfl⟩

/-- A host that receives a frame of host `j` sends nothing, or an answer to `j`. -/
theorem LanInv.deliver (h : LanInv conf hosts) {j i : ι} {n : Nat} (hs : lanStep hosts (.deliver j n i) = some hosts') :
    LanInv conf hosts' ∧ ((hosts' i).wire = (hosts i).wire ∨ (hosts' i).wire = (hosts i).wire ++
      [arpFrame freshPage (conf j).macAddr (conf i).macAddr
        (arpPacket (conf i) ARP_OP_REPLY (conf j).macAddr (conf j).ipAddr)]) := by
  simp only [lanStep] at hs
  split at hs
  · cases hs
  · rename_i frame hframe
    split at hs
    · rename_i x hx
      cases hs
      obtain ⟨hconf, hc, hw⟩ := handlePacket_arp (h.sent j frame (List.mem_of_getElem? hframe)) hx
      rw [h.netconf i] at hw
      refine ⟨h.set hconf (hw.imp id fun hw => ⟨_, hw, ?_⟩) (hc.imp id fun hc => ⟨j, hc⟩), ?_⟩
      · exact ⟨_, ARP_OP_REPLY, _, _, .inr rfl, rfl⟩
      · rw [Function.update_self]; exact hw
    · cases hs

theorem LanInv.step {a : LanAct ι} (h : LanInv conf hosts) (hs : lanStep hosts a = some hosts') :
    LanInv conf hosts' := by
  cases a with
  | request i targetIp =>
      simp only [lanStep] at hs
      split at hs
      · rename_i x hx
        cases hs
        obtain ⟨k, q, w, rfl, hw⟩ := arpRequest_ok hx
        rw [h.netconf i] at hw
        exact h.set rfl (hw.imp id fun hw => ⟨_, hw, _, ARP_OP_REQUEST, _, _, .inl rfl, rfl⟩) (.inl rfl)
      · cases hs
  | deliver j n i => exact (h.deliver hs).1
  | other i kmem txq =>
      cases hs
      exact h.set rfl (.inl rfl) (.inl rfl)

end Lan

end Xv6Net.Net
