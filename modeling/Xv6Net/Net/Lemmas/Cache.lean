import Xv6Net.Net.Cache
import Xv6Net.Net.Lemmas.Arp

/-!
# The ARP cache is a map of bounded size

The valid entries are those of the map, in its order, and the entries behind them are as they were at boot. The test of
`arp_insert` for the address also looks at entries that are not valid, whose address is 0: for the address 0 it finds
the first of them, which is the entry that would be taken anyway.
-/

namespace Xv6Net.Net

open Kernel Lib BoundedMap

def clearedEntry : ArpEntry := ⟨0, .replicate 6 0, false⟩

/-- The cache with the entries of a map and `n` entries that were never used. -/
def cacheOf (m : List (UInt32 × Mac)) (n : Nat) : List ArpEntry :=
  m.map (fun e => ⟨e.1, e.2, true⟩) ++ .replicate n clearedEntry

variable {ip : UInt32} {mac : Mac} {m : List (UInt32 × Mac)} {n : Nat}

theorem arpLookup_cacheOf : arpLookup ip (cacheOf m n) = m.lookup ip := by
  induction m with
  | nil =>
      have : (List.replicate n clearedEntry).find? (fun ae => ae.valid && ae.ip == ip) = none := by
        rw [List.find?_eq_none]
        intro ae hae
        rw [List.eq_of_mem_replicate hae]
        simp [clearedEntry]
      simp [arpLookup, cacheOf, this]
  | cons e m ih =>
      obtain ⟨a, b⟩ := e
      by_cases h : a = ip
      · simp [arpLookup, cacheOf, h]
      · have hne : ip ≠ a := fun h' => h h'.symm
        simpa [arpLookup, cacheOf, h, List.lookup_cons, beq_eq_false_iff_ne.mpr hne] using ih

theorem arpInsert_cacheOf : arpInsert ip mac (cacheOf m n) =
    cacheOf (put (decide (0 < n)) ip mac m) (m.length + n - (put (decide (0 < n)) ip mac m).length) := by
  induction m with
  | nil =>
      cases n with
      | zero => simp [cacheOf, arpInsert, put]
      | succ n =>
          by_cases h : (0 : UInt32) = ip <;>
            simp [cacheOf, arpInsert, put, List.replicate_succ, clearedEntry, h]
  | cons e m ih =>
      obtain ⟨a, b⟩ := e
      by_cases h : a = ip
      · simp [cacheOf, arpInsert, put, h]
      · have hlen : m.length + 1 + n - ((put (decide (0 < n)) ip mac m).length + 1) =
            m.length + n - (put (decide (0 < n)) ip mac m).length := by omega
        simp only [cacheOf, List.map_cons, List.cons_append, arpInsert, if_neg h, put, List.length_cons, hlen] at ih ⊢
        simp [ih]

/-- A cache of the fixed size, one insertion further. -/
theorem arpInsert_insert (h : m.length ≤ ARP_CACHE_SIZE) (e : UInt32 × Mac) :
    arpInsert e.1 e.2 (cacheOf m (ARP_CACHE_SIZE - m.length)) =
      cacheOf (insert ARP_CACHE_SIZE m e) (ARP_CACHE_SIZE - (insert ARP_CACHE_SIZE m e).length) := by
  have hroom : decide (0 < ARP_CACHE_SIZE - m.length) = decide (m.length < ARP_CACHE_SIZE) :=
    decide_eq_decide.mpr (by omega)
  rw [arpInsert_cacheOf, hroom, Nat.add_sub_cancel' h]
  rfl

theorem length_ofHistory_le (hist : List (UInt32 × Mac)) : (ofHistory ARP_CACHE_SIZE hist).length ≤ ARP_CACHE_SIZE := by
  have := congrArg List.length (keys_ofHistory ARP_CACHE_SIZE hist)
  rw [List.length_map, List.length_take] at this
  omega

theorem insertAll_eq (hist : List (UInt32 × Mac)) :
    insertAll hist = cacheOf (ofHistory ARP_CACHE_SIZE hist) (ARP_CACHE_SIZE - (ofHistory ARP_CACHE_SIZE hist).length) := by
  induction hist using List.reverseRecOn with
  | nil => rfl
  | append_singleton hist e ih =>
      have hlast : insertAll (hist ++ [e]) = arpInsert e.1 e.2 (insertAll hist) := by simp [insertAll]
      rw [hlast, ih, arpInsert_insert (length_ofHistory_le hist), ofHistory_concat]

theorem filter_cacheOf : (cacheOf m n).filter (·.valid) = m.map fun e => ⟨e.1, e.2, true⟩ := by
  rw [cacheOf, List.filter_append, List.filter_eq_self.mpr, List.filter_eq_nil_iff.mpr, List.append_nil]
  · intro ae hae
    rw [List.eq_of_mem_replicate hae]
    simp [clearedEntry]
  · intro ae hae
    obtain ⟨e, -, rfl⟩ := List.mem_map.mp hae
    rfl

/-! ## Resolving an address -/

/-- A packet that `arp_recv` learns from. -/
theorem arpRecv_learns {h h' : Host} {pkt : ArpPkt} (hoper : ntohs pkt.oper = ARP_OP_REQUEST ∨ ntohs pkt.oper = ARP_OP_REPLY)
    (hk : (kalloc h.kmem).1.isSome) (ha : arpRecv h pkt = .ok h') :
    h'.arpCache = arpInsert pkt.spa pkt.sha h.arpCache := by
  unfold arpRecv at ha
  by_cases hreq : ntohs pkt.oper = ARP_OP_REQUEST
  · rw [if_pos hreq] at ha
    split at ha
    · next hno => simp [hno] at hk
    · dsimp only at ha
      split at ha
      · simp only [bind, Except.bind] at ha
        split at ha
        · cases ha
        · next ht =>
          obtain ⟨k, q, w, rfl, -⟩ := transmitPacket_ok ht
          split at ha
          · cases ha
          · cases ha
            rfl
      · cases ha
        rfl
  · rw [if_neg hreq, if_pos (hoper.resolve_left hreq)] at ha
    cases ha
    rfl

theorem resolves_iff {h : Host} : Resolves h ip mac ↔ arpLookup ip h.arpCache = some mac := by
  refine ⟨fun hr => hr.lookup, fun hl => ⟨hl, fun sock len addrlen sinPort copyin h' hs => ?_⟩⟩
  simp only [udpSendto, hl] at hs
  split at hs
  · cases hs
  split at hs
  · cases hs
  split at hs
  · cases hs
  · cases (sendKbuf_ok hs).1

/-- The caches that a host has after some history. -/
def Filled (cache : List ArpEntry) : Prop := ∃ hist, cache = insertAll hist

theorem Filled.insert {cache : List ArpEntry} (h : Filled cache) : Filled (arpInsert ip mac cache) := by
  obtain ⟨hist, rfl⟩ := h
  exact ⟨hist ++ [(ip, mac)], by simp [insertAll]⟩

theorem Filled.run {h h' : Host} {pkts : List ArpPkt} (hf : Filled h.arpCache) (hr : run arpStep h pkts = some h') :
    Filled h'.arpCache := by
  have hstep : ∀ h pkt h', Filled h.arpCache → arpStep h pkt = some h' → Filled h'.arpCache := by
    intro h pkt h' hf hs
    unfold arpStep at hs
    cases ha : arpRecv h pkt with
    | error e => rw [ha] at hs; cases hs
    | ok x =>
        rw [ha] at hs
        cases hs
        obtain ⟨k, q, w, c, rfl, hc, -⟩ := arpRecv_ok ha
        rcases hc with rfl | ⟨-, rfl⟩
        · exact hf
        · exact hf.insert
  exact run_keeps' hstep hf hr

theorem exists_invalid_cacheOf : (∃ ae ∈ cacheOf m n, ae.valid = false) ↔ 0 < n := by
  constructor
  · rintro ⟨ae, hae, hv⟩
    rcases List.mem_append.mp hae with hae | hae
    · obtain ⟨e, -, rfl⟩ := List.mem_map.mp hae
      cases hv
    · exact Nat.pos_of_ne_zero (List.mem_replicate.mp hae).1
  · intro hn
    exact ⟨clearedEntry, List.mem_append_right _ (List.mem_replicate.mpr ⟨Nat.ne_of_gt hn, rfl⟩), rfl⟩

/-- The new address is found unless the cache is full of others. -/
theorem Filled.lookup_insert_iff {cache : List ArpEntry} (h : Filled cache) :
    arpLookup ip (arpInsert ip mac cache) = some mac ↔ HasRoom cache ip := by
  obtain ⟨hist, rfl⟩ := h
  rw [insertAll_eq, arpInsert_cacheOf, arpLookup_cacheOf, lookup_put_self, HasRoom, arpLookup_cacheOf, isSome_lookup,
    exists_invalid_cacheOf]
  simp only [decide_eq_true_eq, ite_eq_left_iff, reduceCtorEq, imp_false, not_not]

end Xv6Net.Net
