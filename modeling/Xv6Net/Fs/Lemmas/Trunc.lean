import Xv6Net.Fs.Lemmas.Write

/-! `itrunc` frees exactly the blocks of the file, and an inode without blocks can be allocated and freed. -/

namespace Xv6Net.Fs

open Lib

variable {sb : Superblock} {disk disk' : Disk} {inum : UInt32} {ip ip' : Dinode}

/-- Blocks with addresses are not in the bitmap. -/
theorem Superblock.Pending.same_of_bitmap (h : sb.Pending disk inum ip)
    (hframe : ∀ c, ¬ sb.IsBitmap c → disk' c = disk c) (p : UInt32 × Slot) (hp : sb.refsWith disk inum ip p ≠ 0) :
    disk' (sb.refsWith disk inum ip p) = disk (sb.refsWith disk inum ip p) :=
  hframe _ (h.accounts.owns.inUse p hp).1.not_isBitmap

theorem Superblock.Pending.slot_of_bitmap (h : sb.Pending disk inum ip) (ht : ip.type ≠ 0)
    (hframe : ∀ c, ¬ sb.IsBitmap c → disk' c = disk c) : ip.slot disk' = ip.slot disk := by
  funext s
  apply Dinode.slot_congr
  intro hind
  have := h.same_of_bitmap hframe (inum, .indirect)
  rw [Superblock.refsWith_self h.lt ht] at this
  exact this hind

/-- A turn of the loop over the direct addresses. -/
theorem bfree_direct (hsb : sb.Sane) (h : sb.Pending disk inum ip) (ht : ip.type ≠ 0) (i : Fin NDIRECT)
    (hi : ip.addrs i.castSucc ≠ 0) :
    ∃ disk', bfree sb disk (ip.addrs i.castSucc) = .ok disk' ∧ sb.Pending disk' inum (ip.setAddr i.castSucc 0) ∧
      ∀ c, ¬ sb.IsBitmap c → disk' c = disk c := by
  have hself : sb.refsWith disk inum ip (inum, .direct i) = ip.addrs i.castSucc := Superblock.refsWith_self h.lt ht _
  obtain ⟨disk', hfree, hacc, hframe⟩ := bfree_spec hsb h.accounts (p := (inum, .direct i)) (by rwa [hself])
  rw [hself] at hfree
  have hne : i.castSucc ≠ Fin.last NDIRECT := (Fin.castSucc_lt_last i).ne
  have hslot : (ip.setAddr i.castSucc 0).slot disk' = Function.update (ip.slot disk) (.direct i) 0 := by
    rw [Dinode.slot_setAddr fun heq => absurd heq hne, h.slot_of_bitmap ht hframe, Slot.ofAddr_castSucc]
  have ht' : (ip.setAddr i.castSucc 0).type ≠ 0 := ht
  have hrefs := Superblock.refsWith_update hsb h.lt ht ht' (fun c hc => hframe c hc.not_isBitmap)
    (fun q _ => h.same_of_bitmap hframe (q, .indirect)) hslot
  refine ⟨disk', hfree, h.step hsb (fun c hc => hframe c hc.not_isBitmap) ?_ fun q hq s => ?_, hframe⟩
  · rw [hrefs]
    exact hacc
  · rw [hrefs]
    exact Function.update_of_ne (fun heq => hq (Prod.ext_iff.mp heq).1) ..

/-- What the loop leaves, after the turns for the list `l`. -/
structure TruncDirect (sb : Superblock) (disk : Disk) (inum : UInt32) (ip : Dinode) (l : List (Fin NDIRECT))
    (disk' : Disk) (ip' : Dinode) : Prop where
  pending : sb.Pending disk' inum ip'
  type : ip'.type = ip.type
  indirect : ip'.indirect = ip.indirect
  freed : ∀ i : Fin NDIRECT, i ∈ l ∨ ip.addrs i.castSucc = 0 → ip'.addrs i.castSucc = 0
  frame : ∀ c, ¬ sb.IsBitmap c → disk' c = disk c

theorem truncDirect_spec (hsb : sb.Sane) (h : sb.Pending disk inum ip) (ht : ip.type ≠ 0) :
    ∃ disk' ip', truncDirect sb disk ip = .ok (disk', ip') ∧
      TruncDirect sb disk inum ip (List.finRange NDIRECT) disk' ip' := by
  unfold truncDirect
  generalize List.finRange NDIRECT = l
  induction l generalizing disk ip with
  | nil => exact ⟨disk, ip, rfl, h, rfl, rfl, fun i hi => hi.resolve_left List.not_mem_nil, fun _ _ => rfl⟩
  | cons i l ih =>
      simp only [List.foldlM_cons]
      by_cases h0 : ip.addrs i.castSucc = 0
      · obtain ⟨disk', ip', hrun, ht⟩ := ih h ht
        refine ⟨disk', ip', by simpa [h0, bind, Except.bind] using hrun, ht.pending, ht.type, ht.indirect, ?_, ht.frame⟩
        intro k hk
        refine ht.freed k ?_
        rcases hk with hk | hk
        · rcases List.mem_cons.mp hk with rfl | hk
          · exact .inr h0
          · exact .inl hk
        · exact .inr hk
      · obtain ⟨disk₁, hfree, hp, hframe⟩ := bfree_direct hsb h ht i h0
        obtain ⟨disk', ip', hrun, ht⟩ := ih hp ht
        have hne : i.castSucc ≠ Fin.last NDIRECT := (Fin.castSucc_lt_last i).ne
        refine ⟨disk', ip', by simpa [h0, hfree, bind, Except.bind] using hrun, ht.pending, ht.type,
          ht.indirect.trans (Dinode.indirect_setAddr_of_ne hne 0), ?_, fun c hc => (ht.frame c hc).trans (hframe c hc)⟩
        intro k hk
        refine ht.freed k ?_
        by_cases hki : k = i
        · exact .inr (by simp [hki])
        · have : k.castSucc ≠ i.castSucc := fun heq => hki (Fin.castSucc_injective _ heq)
          simpa [hki, Function.update_of_ne this] using hk

/-- The entries are freed while they still are in the block, so the account has to leave them out one by one. -/
theorem truncEntries_fold (hsb : sb.Sane) (a : Block) (l : List (Fin NINDIRECT)) (hnodup : l.Nodup) (disk : Disk)
    (ref : UInt32 × Slot → UInt32) (h : sb.Accounts disk ref) (ha : ∀ j ∈ l, ref (inum, .entry j) = a.word j) :
    ∃ disk' ref', l.foldlM (fun disk (j : Fin NINDIRECT) =>
        if a.word j = 0 then .ok disk else bfree sb disk (a.word j)) disk = .ok disk' ∧
      sb.Accounts disk' ref' ∧ (∀ j ∈ l, ref' (inum, .entry j) = 0) ∧
      (∀ p, (∀ j ∈ l, p ≠ (inum, .entry j)) → ref' p = ref p) ∧ ∀ c, ¬ sb.IsBitmap c → disk' c = disk c := by
  induction l generalizing disk ref with
  | nil => exact ⟨disk, ref, rfl, h, fun j hj => absurd hj List.not_mem_nil, fun _ _ => rfl, fun _ _ => rfl⟩
  | cons j l ih =>
      obtain ⟨hj, hnodup⟩ := List.nodup_cons.mp hnodup
      have hother (k : Fin NINDIRECT) (hk : k ∈ l) : (inum, Slot.entry k) ≠ (inum, .entry j) := by
        intro heq
        obtain rfl := Slot.entry.inj (Prod.ext_iff.mp heq).2
        exact hj hk
      -- one turn sets this entry of the account to 0, also if it was 0
      have hturn : ∃ disk₁, (if a.word j = 0 then .ok disk else bfree sb disk (a.word j)) = .ok disk₁ ∧
          sb.Accounts disk₁ (Function.update ref (inum, .entry j) 0) ∧ ∀ c, ¬ sb.IsBitmap c → disk₁ c = disk c := by
        have hval := ha j List.mem_cons_self
        by_cases h0 : a.word j = 0
        · refine ⟨disk, if_pos h0, ?_, fun _ _ => rfl⟩
          rwa [← h0, ← hval, Function.update_eq_self]
        · rw [if_neg h0, ← hval]
          exact bfree_spec hsb h (by rwa [hval])
      obtain ⟨disk₁, hrun₁, hacc₁, hframe₁⟩ := hturn
      obtain ⟨disk', ref', hrun, hacc, hzero, hkeep, hframe⟩ := ih hnodup disk₁ _ hacc₁ fun k hk => by
        rw [Function.update_of_ne (hother k hk)]
        exact ha k (List.mem_cons_of_mem _ hk)
      refine ⟨disk', ref', by rw [List.foldlM_cons, hrun₁]; exact hrun, hacc, ?_, ?_,
        fun c hc => (hframe c hc).trans (hframe₁ c hc)⟩
      · intro k hk
        rcases List.mem_cons.mp hk with rfl | hk
        · rw [hkeep _ fun i hi => (hother i hi).symm, Function.update_self]
        · exact hzero k hk
      · intro p hp
        rw [hkeep p fun i hi => hp i (List.mem_cons_of_mem _ hi), Function.update_of_ne (hp j List.mem_cons_self)]

theorem truncEntries_spec (hsb : sb.Sane) {ref : UInt32 × Slot → UInt32} (h : sb.Accounts disk ref) {a : Block}
    (ha : ∀ j : Fin NINDIRECT, ref (inum, .entry j) = a.word j) :
    ∃ disk' ref', truncEntries sb a disk = .ok disk' ∧ sb.Accounts disk' ref' ∧ (∀ j, ref' (inum, .entry j) = 0) ∧
      (∀ p, (∀ j, p ≠ (inum, .entry j)) → ref' p = ref p) ∧ ∀ c, ¬ sb.IsBitmap c → disk' c = disk c := by
  have hmem (j : Fin NINDIRECT) : j ∈ List.finRange NINDIRECT := List.mem_finRange j
  obtain ⟨disk', ref', hrun, hacc, hzero, hkeep, hframe⟩ :=
    truncEntries_fold hsb a (List.finRange NINDIRECT) (List.nodup_finRange NINDIRECT) disk ref h fun j _ => ha j
  exact ⟨disk', ref', hrun, hacc, fun j => hzero j (hmem j), fun p hp => hkeep p fun j _ => hp j, hframe⟩

theorem truncIndirect_spec (hsb : sb.Sane) (h : sb.Pending disk inum ip) (ht : ip.type ≠ 0)
    (hdirect : ∀ i : Fin NDIRECT, ip.addrs i.castSucc = 0) :
    ∃ disk' ip', truncIndirect sb disk ip = .ok (disk', ip') ∧ sb.Pending disk' inum ip' ∧ ip'.type = ip.type ∧
      (∀ i, ip'.addrs i = 0) ∧ ∀ c, ¬ sb.IsBitmap c → disk' c = disk c := by
  have hall (d : Dinode) (hd : ∀ i : Fin NDIRECT, d.addrs i.castSucc = 0) (hlast : d.indirect = 0)
      (i : Fin (NDIRECT + 1)) : d.addrs i = 0 := Fin.lastCases hlast hd i
  unfold truncIndirect
  by_cases h0 : ip.indirect = 0
  · rw [if_pos h0]
    exact ⟨disk, ip, rfl, h, rfl, hall ip hdirect h0, fun _ _ => rfl⟩
  · have hself (s : Slot) : sb.refsWith disk inum ip (inum, s) = ip.slot disk s := Superblock.refsWith_self h.lt ht s
    obtain ⟨disk₁, ref, hrun₁, hacc₁, hzero, hkeep, hframe₁⟩ := truncEntries_spec hsb h.accounts (a := disk ip.indirect)
      fun j => by rw [hself, Dinode.slot, if_neg h0]
    have hlast : ref (inum, .indirect) = ip.indirect := by
      rw [hkeep _ fun j heq => Slot.noConfusion (Prod.ext_iff.mp heq).2, hself]; rfl
    obtain ⟨disk', hrun, hacc, hframe'⟩ := bfree_spec hsb hacc₁ (p := (inum, .indirect)) (by rwa [hlast])
    rw [hlast] at hrun
    have hframe (c : UInt32) (hc : ¬ sb.IsBitmap c) : disk' c = disk c := (hframe' c hc).trans (hframe₁ c hc)
    have hother (q : UInt32) (hq : q ≠ inum) (s : Slot) :
        sb.refsWith disk' inum (ip.setAddr (Fin.last NDIRECT) 0) (q, s) = sb.refsWith disk inum ip (q, s) :=
      Superblock.refsWith_of_ne hsb (fun c hc => hframe c hc.not_isBitmap) hq (h.same_of_bitmap hframe _) s
    have hself' (s : Slot) : sb.refsWith disk' inum (ip.setAddr (Fin.last NDIRECT) 0) (inum, s) =
        (ip.setAddr (Fin.last NDIRECT) 0).slot disk' s :=
      Superblock.refsWith_self h.lt (show (ip.setAddr (Fin.last NDIRECT) 0).type ≠ 0 from ht) s
    have hrefs : sb.refsWith disk' inum (ip.setAddr (Fin.last NDIRECT) 0) = Function.update ref (inum, .indirect) 0 := by
      ext ⟨q, s⟩ : 1
      by_cases hq : q = inum
      · subst hq
        rw [hself']
        cases s with
        | direct i =>
            have hne : (q, Slot.direct i) ≠ (q, .indirect) := fun heq => Slot.noConfusion (Prod.ext_iff.mp heq).2
            rw [Function.update_of_ne hne, hkeep _ fun j heq => Slot.noConfusion (Prod.ext_iff.mp heq).2, hself,
              Dinode.slot, Dinode.slot, Dinode.addrs_setAddr, Function.update_of_ne (Fin.castSucc_lt_last i).ne]
        | indirect =>
            rw [Function.update_self, Dinode.slot, Dinode.indirect_setAddr_last]
        | entry j =>
            have hne : (q, Slot.entry j) ≠ (q, .indirect) := fun heq => Slot.noConfusion (Prod.ext_iff.mp heq).2
            rw [Function.update_of_ne hne, hzero, Dinode.slot, Dinode.indirect_setAddr_last, if_pos rfl]
      · have hne : (q, s) ≠ (inum, .indirect) := fun heq => hq (Prod.ext_iff.mp heq).1
        rw [hother q hq, Function.update_of_ne hne, hkeep _ fun j heq => hq (Prod.ext_iff.mp heq).1]
    refine ⟨disk', ip.setAddr (Fin.last NDIRECT) 0, ?_, h.step hsb (fun c hc => hframe c hc.not_isBitmap) ?_ hother, rfl, ?_,
      hframe⟩
    · simp only [if_neg h0, hrun₁, hrun, bind, Except.bind]
    · rw [hrefs]
      exact hacc
    · refine hall _ (fun i => ?_) (Dinode.indirect_setAddr_last ..)
      rw [Dinode.addrs_setAddr, Function.update_of_ne (Fin.castSucc_lt_last i).ne, hdirect]

theorem itrunc_spec (h : sb.WellFormed disk) (hi : inum < sb.ninodes) (ht : (sb.dinodes disk inum).type ≠ 0) :
    ∃ disk' ip', itrunc sb disk inum (sb.dinodes disk inum) = .ok (disk', ip') ∧ ip'.type ≠ 0 ∧ (∀ i, ip'.addrs i = 0) ∧
      Written sb disk inum disk' ip' := by
  obtain ⟨disk₁, ip₁, hrun₁, hd⟩ := truncDirect_spec h.sane (h.pending hi) ht
  have ht₁ : ip₁.type ≠ 0 := hd.type ▸ ht
  obtain ⟨disk₂, ip₂, hrun₂, hp, htype, hzero, hframe⟩ := truncIndirect_spec h.sane hd.pending ht₁ fun i =>
    hd.freed i (.inl (List.mem_finRange i))
  refine ⟨_, { ip₂ with size := 0 }, ?_, (htype ▸ ht₁ : ip₂.type ≠ 0), hzero,
    .iupdate h.sane (hp.congr rfl rfl) (fun _ bn hbn => ?_) fun c hc => ?_⟩
  · simp only [itrunc, hrun₁, hrun₂, bind, Except.bind]
  · simp [BSIZE] at hbn
  · rw [hframe c hc.not_isBitmap, hd.frame c hc.not_isBitmap]

/-- An inode with no addresses may get another type. -/
theorem Superblock.Pending.of_empty (h : sb.Pending disk inum ip) (he : ip.type = 0 ∨ ∀ i, ip.addrs i = 0)
    (he' : ip'.type = 0 ∨ ∀ i, ip'.addrs i = 0) : sb.Pending disk inum ip' where
  lt := h.lt
  accounts := by
    have hzero (d : Dinode) (hd : d.type = 0 ∨ ∀ i, d.addrs i = 0) (s : Slot) : sb.refsWith disk inum d (inum, s) = 0 := by
      by_cases hdt : d.type = 0
      · exact Superblock.refs_eq_of_not_alloc (by simp [hdt]) s
      · have hall := hd.resolve_left hdt
        rw [Superblock.refsWith_self h.lt hdt]
        cases s with
        | direct i => exact hall _
        | indirect => exact hall _
        | entry j => exact if_pos (hall _)
    have : sb.refsWith disk inum ip' = sb.refsWith disk inum ip := by
      funext ⟨q, s⟩
      by_cases hq : q = inum
      · subst hq
        rw [hzero ip he, hzero ip' he']
      · simp only [Superblock.refsWith, Superblock.refs, Function.update_of_ne hq]
    rw [this]
    exact h.accounts
  mapped := h.mapped

end Xv6Net.Fs
