import Xv6Net.Fs.Lemmas.Balloc

/-!
# Blocks of an inode that is being changed

Between the changes of an in-memory inode and its `iupdate`, the account of blocks is right with the inode in memory in
place of the one on the disk.
-/

namespace Xv6Net.Fs

open Lib

variable {bn : Nat} {s : Slot} {b k : UInt32}

namespace Superblock

variable {sb : Superblock} {disk disk' : Disk} {inum : UInt32} {ip ip' : Dinode}

/-- The addresses with `ip` as inode `inum`. -/
abbrev refsWith (sb : Superblock) (disk : Disk) (inum : UInt32) (ip : Dinode) : UInt32 × Slot → UInt32 :=
  sb.refs disk (Function.update (sb.dinodes disk) inum ip)

/-- Apart from the size of `ip`, the file system is well formed as soon as `ip` is written to inode `inum`. -/
structure Pending (sb : Superblock) (disk : Disk) (inum : UInt32) (ip : Dinode) : Prop where
  lt : inum < sb.ninodes
  accounts : sb.Accounts disk (sb.refsWith disk inum ip)
  mapped : ∀ k < sb.ninodes, k ≠ inum → (sb.dinodes disk k).type ≠ 0 →
    (sb.dinodes disk k).Mapped disk (sb.dinodes disk k).size.toNat

theorem WellFormed.pending (h : sb.WellFormed disk) (hi : inum < sb.ninodes) :
    sb.Pending disk inum (sb.dinodes disk inum) where
  lt := hi
  accounts := by rw [refsWith, Function.update_eq_self]; exact h.accounts
  mapped := fun k hk _ ht => h.mapped k hk ht

theorem refsWith_self (hi : inum < sb.ninodes) (ht : ip.type ≠ 0) (s : Slot) :
    sb.refsWith disk inum ip (inum, s) = ip.slot disk s := by
  rw [refsWith, refs_of_alloc ⟨hi, by rwa [Function.update_self]⟩, Function.update_self]

theorem refsWith_other (hk : k < sb.ninodes) (hne : k ≠ inum) (ht : (sb.dinodes disk k).type ≠ 0) (s : Slot) :
    sb.refsWith disk inum ip (k, s) = (sb.dinodes disk k).slot disk s := by
  rw [refsWith, refs_of_alloc ⟨hk, by rwa [Function.update_of_ne hne]⟩, Function.update_of_ne hne]

/-- A change that leaves the inodes on the disk and the addresses of the other ones. -/
theorem Pending.step (h : sb.Pending disk inum ip) (hsb : sb.Sane) (hinodes : ∀ c, sb.IsInodes c → disk' c = disk c)
    (hacc : sb.Accounts disk' (sb.refsWith disk' inum ip'))
    (hother : ∀ q, q ≠ inum → ∀ s, sb.refsWith disk' inum ip' (q, s) = sb.refsWith disk inum ip (q, s)) :
    sb.Pending disk' inum ip' where
  lt := h.lt
  accounts := hacc
  mapped := by
    intro k hk hne ht
    have hdin : sb.dinodes disk' k = sb.dinodes disk k := dinodes_congr (hinodes _ (hsb.isInodes_iblock hk).2)
    have ht' : (sb.dinodes disk k).type ≠ 0 := hdin ▸ ht
    rw [hdin]
    refine (h.mapped k hk hne ht').congr fun s => ?_
    have := hother k hne s
    rwa [refsWith_other hk hne ht, refsWith_other hk hne ht', hdin] at this

theorem refsWith_eq_zero (hne : k ≠ inum) (h : ¬ (k < sb.ninodes ∧ (sb.dinodes disk k).type ≠ 0)) (s : Slot) :
    sb.refsWith disk inum ip (k, s) = 0 :=
  refs_eq_of_not_alloc (by rwa [Function.update_of_ne hne]) s

/-- The inodes on the disk are the same for the addresses. -/
theorem refsWith_congr (hsb : sb.Sane) (hinodes : ∀ c, sb.IsInodes c → disk' c = disk c) :
    sb.refsWith disk' inum ip = sb.refs disk' (Function.update (sb.dinodes disk) inum ip) := by
  apply refs_congr
  intro q hq
  by_cases hqi : q = inum
  · rw [hqi, Function.update_self, Function.update_self]
  · rw [Function.update_of_ne hqi, Function.update_of_ne hqi, dinodes_congr (hinodes _ (hsb.isInodes_iblock hq).2)]

/-- The addresses of other inodes change only with their indirect blocks. -/
theorem refsWith_of_ne (hsb : sb.Sane) (hinodes : ∀ c, sb.IsInodes c → disk' c = disk c) {q : UInt32} (hq : q ≠ inum)
    (hind : sb.refsWith disk inum ip (q, .indirect) ≠ 0 →
      disk' (sb.refsWith disk inum ip (q, .indirect)) = disk (sb.refsWith disk inum ip (q, .indirect))) (s : Slot) :
    sb.refsWith disk' inum ip' (q, s) = sb.refsWith disk inum ip (q, s) := by
  by_cases halloc : q < sb.ninodes ∧ (sb.dinodes disk q).type ≠ 0
  · obtain ⟨hlt, htype⟩ := halloc
    have hdin : sb.dinodes disk' q = sb.dinodes disk q := dinodes_congr (hinodes _ (hsb.isInodes_iblock hlt).2)
    rw [refsWith_other hlt hq htype] at hind
    rw [refsWith_other hlt hq (hdin ▸ htype), refsWith_other hlt hq htype, hdin]
    exact Dinode.slot_congr hind s
  · rw [refsWith_eq_zero hq halloc, refsWith_eq_zero hq]
    rintro ⟨hlt, htype⟩
    rw [dinodes_congr (hinodes _ (hsb.isInodes_iblock hlt).2)] at htype
    exact halloc ⟨hlt, htype⟩

/-- A change of one place of the inode, which leaves the indirect blocks of the other ones. -/
theorem refsWith_update (hsb : sb.Sane) (hi : inum < sb.ninodes) (ht : ip.type ≠ 0)
    (ht' : ip'.type ≠ 0) (hinodes : ∀ c, sb.IsInodes c → disk' c = disk c)
    (hind : ∀ q, q ≠ inum → sb.refsWith disk inum ip (q, .indirect) ≠ 0 →
      disk' (sb.refsWith disk inum ip (q, .indirect)) = disk (sb.refsWith disk inum ip (q, .indirect)))
    (h : ip'.slot disk' = Function.update (ip.slot disk) s b) :
    sb.refsWith disk' inum ip' = Function.update (sb.refsWith disk inum ip) (inum, s) b := by
  funext ⟨q, t⟩
  by_cases hq : q = inum
  · subst hq
    rw [refsWith_self hi ht', h]
    by_cases hts : t = s
    · subst hts
      rw [Function.update_self, Function.update_self]
    · have : (q, t) ≠ (q, s) := fun heq => hts (Prod.ext_iff.mp heq).2
      rw [Function.update_of_ne hts, Function.update_of_ne this, refsWith_self hi ht]
  · have hne : (q, t) ≠ (inum, s) := fun heq => hq (Prod.ext_iff.mp heq).1
    rw [Function.update_of_ne hne]
    exact refsWith_of_ne hsb hinodes hq (hind q hq) t

/-- Of the inode, only the type and the addresses matter. -/
theorem Pending.congr (h : sb.Pending disk inum ip) (ht : ip'.type = ip.type) (haddrs : ip'.addrs = ip.addrs) :
    sb.Pending disk inum ip' where
  lt := h.lt
  accounts := by
    have hslot : ip'.slot disk = ip.slot disk := Dinode.slot_of_addrs haddrs
    have : sb.refsWith disk inum ip' = sb.refsWith disk inum ip := by
      funext ⟨q, s⟩
      by_cases hq : q = inum
      · subst hq
        simp only [refsWith, refs, Function.update_self, ht, hslot]
      · simp only [refsWith, refs, Function.update_of_ne hq]
    rw [this]
    exact h.accounts
  mapped := h.mapped

theorem dinodes_iupdate (hsb : sb.Sane) (hi : inum < sb.ninodes) (hk : k < sb.ninodes) :
    sb.dinodes (iupdate sb disk inum ip) k = Function.update (sb.dinodes disk) inum ip k :=
  hsb.dinodes_setDinode hi hk

/-- The inode in memory is written to the disk. -/
theorem Pending.iupdate (h : sb.Pending disk inum ip) (hsb : sb.Sane)
    (hm : ip.type ≠ 0 → ip.Mapped disk ip.size.toNat) : sb.WellFormed (iupdate sb disk inum ip) := by
  have hregion := (hsb.isInodes_iblock h.lt).2
  have hsame (c : UInt32) (hc : ¬ sb.IsInodes c) : Fs.iupdate sb disk inum ip c = disk c :=
    Function.update_of_ne (by rintro rfl; exact hc hregion) ..
  have hdin (k : UInt32) (hk : k < sb.ninodes) :
      sb.dinodes (Fs.iupdate sb disk inum ip) k = Function.update (sb.dinodes disk) inum ip k :=
    dinodes_iupdate hsb h.lt hk
  have hind (q : UInt32) (hq : sb.refsWith disk inum ip (q, .indirect) ≠ 0) :
      Fs.iupdate sb disk inum ip (sb.refsWith disk inum ip (q, .indirect)) =
        disk (sb.refsWith disk inum ip (q, .indirect)) :=
    hsame _ fun hin => hsb.not_isData_of_isInodes hin (h.accounts.owns.inUse _ hq).1
  have hrefs : sb.refs (Fs.iupdate sb disk inum ip) (sb.dinodes (Fs.iupdate sb disk inum ip)) =
      sb.refsWith disk inum ip := by rw [refs_congr hdin, refs_congr_disk hind]
  refine ⟨hsb, ?_, ?_⟩
  · rw [hrefs]
    exact h.accounts.congr_disk hsb fun c hc => hsame c fun hin => hin.not_isBitmap hc
  · intro k hk ht
    rw [hdin k hk] at ht ⊢
    have hslot (s : Slot) : (Function.update (sb.dinodes disk) inum ip k).slot (Fs.iupdate sb disk inum ip) s =
        (Function.update (sb.dinodes disk) inum ip k).slot disk s := by
      have := congrFun hrefs (k, s)
      rwa [refs_of_alloc ⟨hk, by rwa [hdin k hk]⟩, refsWith, refs_of_alloc ⟨hk, ht⟩, hdin k hk] at this
    by_cases hki : k = inum
    · subst hki
      rw [Function.update_self] at ht hslot ⊢
      exact (hm ht).congr hslot
    · rw [Function.update_of_ne hki] at ht hslot ⊢
      exact (h.mapped k hk hki ht).congr hslot

end Superblock

variable {sb : Superblock} {disk disk' : Disk} {inum : UInt32} {ip ip' : Dinode}

/-- All addresses are kept, in the inode and elsewhere, and there may be new ones in the inode. The blocks of other
inodes are kept. -/
structure Grows (sb : Superblock) (inum : UInt32) (disk : Disk) (ip : Dinode) (disk' : Disk) (ip' : Dinode) : Prop where
  pending : sb.Pending disk' inum ip'
  type : ip'.type = ip.type
  size : ip'.size = ip.size
  inodes : ∀ c, sb.IsInodes c → disk' c = disk c
  keep : ∀ p, sb.refsWith disk inum ip p ≠ 0 → sb.refsWith disk' inum ip' p = sb.refsWith disk inum ip p
  others : ∀ p, p.1 ≠ inum → sb.refsWith disk inum ip p ≠ 0 →
    disk' (sb.refsWith disk inum ip p) = disk (sb.refsWith disk inum ip p)

/-- In addition, all blocks that have addresses are kept but for the indirect block of the inode. -/
structure Maps (sb : Superblock) (inum : UInt32) (disk : Disk) (ip : Dinode) (disk' : Disk) (ip' : Dinode) : Prop
    extends Grows sb inum disk ip disk' ip' where
  data : ∀ p, sb.refsWith disk inum ip p ≠ 0 → p ≠ (inum, .indirect) →
    disk' (sb.refsWith disk inum ip p) = disk (sb.refsWith disk inum ip p)

theorem Grows.refl (h : sb.Pending disk inum ip) : Grows sb inum disk ip disk ip :=
  ⟨h, rfl, rfl, fun _ _ => rfl, fun _ _ => rfl, fun _ _ _ => rfl⟩

theorem Grows.trans {disk'' : Disk} {ip'' : Dinode} (h : Grows sb inum disk ip disk' ip')
    (h' : Grows sb inum disk' ip' disk'' ip'') : Grows sb inum disk ip disk'' ip'' where
  pending := h'.pending
  type := h'.type.trans h.type
  size := h'.size.trans h.size
  inodes := fun c hc => (h'.inodes c hc).trans (h.inodes c hc)
  keep := fun p hp => (h'.keep p (by rwa [h.keep p hp])).trans (h.keep p hp)
  others := by
    intro p hne hp
    have hk := h.keep p hp
    have := h'.others p hne (by rwa [hk])
    rw [hk] at this
    exact this.trans (h.others p hne hp)

theorem Maps.refl (h : sb.Pending disk inum ip) : Maps sb inum disk ip disk ip := ⟨.refl h, fun _ _ _ => rfl⟩

theorem Maps.trans {disk'' : Disk} {ip'' : Dinode} (h : Maps sb inum disk ip disk' ip')
    (h' : Maps sb inum disk' ip' disk'' ip'') : Maps sb inum disk ip disk'' ip'' where
  toGrows := h.toGrows.trans h'.toGrows
  data := by
    intro p hp hne
    have hk := h.keep p hp
    have := h'.data p (by rwa [hk]) hne
    rw [hk] at this
    exact this.trans (h.data p hp hne)

section

variable (h : Grows sb inum disk ip disk' ip')
include h

theorem Grows.slot (ht : ip.type ≠ 0) (hs : ip.slot disk s ≠ 0) :
    ip'.slot disk' s = ip.slot disk s := by
  have hlt := h.pending.lt
  have := h.keep (inum, s)
  rw [Superblock.refsWith_self hlt ht, Superblock.refsWith_self hlt (h.type ▸ ht)] at this
  exact this hs

theorem Grows.blockAt (ht : ip.type ≠ 0)
    (hbn : ip.blockAt disk bn ≠ 0) : ip'.blockAt disk' bn = ip.blockAt disk bn := by
  unfold Dinode.blockAt at hbn ⊢
  cases hs : Slot.ofIndex bn with
  | none => rfl
  | some s =>
      rw [hs] at hbn
      exact h.slot ht hbn

theorem Grows.blockAt_ne (ht : ip.type ≠ 0)
    (hbn : ip.blockAt disk bn ≠ 0) : ip'.blockAt disk' bn ≠ 0 := by rwa [h.blockAt ht hbn]

theorem Grows.mapped (ht : ip.type ≠ 0) {size : Nat} (hm : ip.Mapped disk size) :
    ip'.Mapped disk' size := by
  intro bn hbn
  rw [h.blockAt ht (hm bn hbn)]
  exact hm bn hbn

end

/-! ## Allocation -/

/-- Nothing that has an address is in a block that was free. -/
theorem Fresh.refsWith_same (hf : Fresh sb disk (sb.refsWith disk inum ip) b disk')
    (h : sb.Pending disk inum ip) (p : UInt32 × Slot) (hp : sb.refsWith disk inum ip p ≠ 0) :
    disk' (sb.refsWith disk inum ip p) = disk (sb.refsWith disk inum ip p) :=
  hf.same _ (h.accounts.owns.ne_of_not_used hp hf.free) (h.accounts.owns.inUse p hp).1.not_isBitmap

theorem Fresh.inodes_same {ref : UInt32 × Slot → UInt32} {c : UInt32} (hf : Fresh sb disk ref b disk') (hsb : sb.Sane)
    (hc : sb.IsInodes c) : disk' c = disk c := by
  refine hf.same c ?_ hc.not_isBitmap
  rintro rfl
  exact hsb.not_isData_of_isInodes hc hf.isData

/-- A free block gets the empty place `s` of the inode, by a change of the inode or of its indirect block. -/
theorem Grows.take (hsb : sb.Sane) (h : sb.Pending disk inum ip) {disk₁ : Disk}
    (ht : ip.type ≠ 0) (hf : Fresh sb disk (sb.refsWith disk inum ip) b disk₁) (hs : ip.slot disk s = 0)
    (ht' : ip'.type = ip.type) (hsize : ip'.size = ip.size)
    (hmap : ∀ c, sb.IsBitmap c → disk' c = disk₁ c) (hinodes : ∀ c, sb.IsInodes c → disk' c = disk c)
    (hothers : ∀ p, p.1 ≠ inum → sb.refsWith disk inum ip p ≠ 0 →
      disk' (sb.refsWith disk inum ip p) = disk (sb.refsWith disk inum ip p))
    (hslot : ip'.slot disk' = Function.update (ip.slot disk) s b) : Grows sb inum disk ip disk' ip' := by
  have hrefs := Superblock.refsWith_update hsb h.lt ht (ht' ▸ ht) hinodes (fun q => hothers (q, .indirect)) hslot
  have hempty : sb.refsWith disk inum ip (inum, s) = 0 := by rwa [Superblock.refsWith_self h.lt ht]
  refine ⟨h.step hsb hinodes ?_ ?_, ht', hsize, hinodes, ?_, hothers⟩
  · rw [hrefs]
    exact (hf.accounts _ hempty).congr_disk hsb hmap
  · intro q hq t
    rw [hrefs]
    exact Function.update_of_ne (fun heq => hq (Prod.ext_iff.mp heq).1) ..
  · intro p hp
    have : p ≠ (inum, s) := by rintro rfl; exact hp hempty
    rw [hrefs, Function.update_of_ne this]

theorem addrOrAllocLogged_val (sb : Superblock) (disk : Disk) (ip : Dinode) (i : Fin (NDIRECT + 1)) :
    (addrOrAllocLogged sb disk ip i).val = addrOrAlloc sb disk ip i := rfl

/-- The address is the one in `addrs[i]` afterwards; it is 0 if there is still none. -/
theorem addrOrAlloc_spec (hsb : sb.Sane) (h : sb.Pending disk inum ip) (ht : ip.type ≠ 0) (i : Fin (NDIRECT + 1)) :
    ∃ addr disk' ip', addrOrAlloc sb disk ip i = (addr, disk', ip') ∧ Maps sb inum disk ip disk' ip' ∧
      ip'.addrs i = addr ∧ (∀ s, s ≠ .ofAddr i → ip'.slot disk' s = ip.slot disk s) ∧ (addr = 0 → sb.Full disk') := by
  unfold addrOrAlloc addrOrAllocLogged
  by_cases h0 : ip.addrs i = 0
  · rw [if_pos h0, Logged.val_bind, ballocLogged_val]
    rcases balloc_spec hsb h.accounts with ⟨hnone, hfull⟩ | ⟨b, disk', hb, hne, hf⟩
    · rw [hnone]
      exact ⟨0, disk, ip, by simp, .refl h, h0, fun _ _ => rfl, fun _ => hfull⟩
    · have hs : ip.slot disk (.ofAddr i) = 0 := by rw [Dinode.slot_ofAddr, h0]
      have hsame (s : Slot) : ip.slot disk' s = ip.slot disk s := by
        apply Dinode.slot_congr
        intro hind
        have := hf.refsWith_same h (inum, .indirect)
        rw [Superblock.refsWith_self h.lt ht] at this
        exact this hind
      have hslot : (ip.setAddr i b).slot disk' = Function.update (ip.slot disk) (.ofAddr i) b := by
        rw [← funext hsame]
        apply Dinode.slot_setAddr
        rintro rfl
        exact ⟨h0, fun j => by rw [hf.zero, Block.word_zero]⟩
      rw [hb]
      refine ⟨b, disk', ip.setAddr i b, by simp [hne], ⟨?_, fun p hp _ => hf.refsWith_same h p hp⟩, by simp,
        fun s hs => by rw [hslot, Function.update_of_ne hs], fun he => absurd he hne⟩
      exact .take hsb h ht hf hs rfl rfl (fun _ _ => rfl) (fun c => hf.inodes_same hsb)
        (fun p _ => hf.refsWith_same h p) hslot
  · rw [if_neg h0]
    exact ⟨ip.addrs i, disk, ip, rfl, .refl h, rfl, fun _ _ => rfl, fun he => absurd he h0⟩

/-- A free block gets an entry of the indirect block. -/
theorem Maps.setWord (hsb : sb.Sane) (h : sb.Pending disk inum ip) (ht : ip.type ≠ 0)
    (hind : ip.indirect ≠ 0) (j : Fin NINDIRECT) (hf : Fresh sb disk (sb.refsWith disk inum ip) b disk')
    (hj : (disk ip.indirect).word j = 0) :
    let disk'' := Function.update disk' ip.indirect ((disk' ip.indirect).setWord j b)
    Maps sb inum disk ip disk'' ip ∧ ip.slot disk'' = Function.update (ip.slot disk) (.entry j) b := by
  intro disk''
  have hself (s : Slot) : sb.refsWith disk inum ip (inum, s) = ip.slot disk s := Superblock.refsWith_self h.lt ht s
  have hne0 : sb.refsWith disk inum ip (inum, .indirect) ≠ 0 := by rwa [hself]
  have huse := h.accounts.owns.inUse (inum, .indirect) hne0
  rw [hself] at huse
  have hsame : disk' ip.indirect = disk ip.indirect := by
    have := hf.refsWith_same h (inum, .indirect) hne0
    rwa [hself] at this
  have hother (c : UInt32) (hc : c ≠ ip.indirect) : disk'' c = disk' c := Function.update_of_ne hc ..
  have hdata (p : UInt32 × Slot) (hp : sb.refsWith disk inum ip p ≠ 0) (hne : p ≠ (inum, .indirect)) :
      disk'' (sb.refsWith disk inum ip p) = disk (sb.refsWith disk inum ip p) := by
    have := h.accounts.owns.ne_of_ne hne0 hne.symm
    rw [hself] at this
    rw [hother _ this, hf.refsWith_same h p hp]
  have hs : ip.slot disk (.entry j) = 0 := by simp only [Dinode.slot, if_neg hind, hj]
  have hslot : ip.slot disk'' = Function.update (ip.slot disk) (.entry j) b := by
    funext t
    cases t with
    | direct i => rfl
    | indirect => rfl
    | entry k =>
        have hk : (disk'' ip.indirect).word k = ((disk ip.indirect).setWord j b).word k := by
          simp only [disk'', Function.update_self, hsame]
        by_cases hkj : k = j
        · subst hkj
          rw [Function.update_self, Dinode.slot, if_neg hind, hk, Block.word_setWord_self k.isLt]
        · have hne : k.val ≠ j.val := fun heq => hkj (Fin.ext heq)
          have : Slot.entry k ≠ .entry j := fun heq => hkj (Slot.entry.inj heq)
          rw [Function.update_of_ne this, Dinode.slot, if_neg hind, hk, Block.word_setWord_of_ne hne, Dinode.slot,
            if_neg hind]
  refine ⟨⟨.take hsb h ht hf hs rfl rfl (fun c hc => ?_) (fun c hc => ?_) (fun p hp hne => ?_) hslot, hdata⟩, hslot⟩
  · exact hother c (by rintro rfl; exact huse.1.not_isBitmap hc)
  · rw [hother c (by rintro rfl; exact hsb.not_isData_of_isInodes hc huse.1), hf.inodes_same hsb hc]
  · exact hdata p hne (by rintro rfl; exact hp rfl)

theorem Slot.ofIndex_of_lt (h : bn < NDIRECT) : Slot.ofIndex bn = some (.direct ⟨bn, h⟩) := dif_pos h

theorem Slot.ofIndex_of_ge (h : ¬ bn < NDIRECT) (hi : bn - NDIRECT < NINDIRECT) :
    Slot.ofIndex bn = some (.entry ⟨bn - NDIRECT, hi⟩) := by
  rw [Slot.ofIndex, dif_neg h, dif_pos hi]

/-- What `bmap` returned and did for block `bn`. -/
structure Bmapped (sb : Superblock) (inum : UInt32) (disk : Disk) (ip : Dinode) (bn : Nat) (addr : UInt32) (disk' : Disk)
    (ip' : Dinode) : Prop extends Maps sb inum disk ip disk' ip' where
  full : addr = 0 → sb.Full disk'
  addr : addr ≠ 0 → ip'.blockAt disk' bn = addr
  other : ∀ s, s ≠ .indirect → Slot.ofIndex bn ≠ some s → ip'.slot disk' s = ip.slot disk s
  indirect : bn < NDIRECT → ip'.indirect = ip.indirect

theorem bmap_spec (hsb : sb.Sane) (h : sb.Pending disk inum ip) (ht : ip.type ≠ 0) (hbn : bn < MAXFILE) :
    ∃ addr disk' ip', bmap sb disk ip bn = .ok (addr, disk', ip') ∧ Bmapped sb inum disk ip bn addr disk' ip' := by
  rw [bmap, bmapLogged]
  by_cases hd : bn < NDIRECT
  · rw [dif_pos hd]
    obtain ⟨addr, disk', ip', heq, hm, haddr, hother, hfull⟩ := addrOrAlloc_spec hsb h ht ⟨bn, Nat.lt_succ_of_lt hd⟩
    have hof : Slot.ofAddr ⟨bn, Nat.lt_succ_of_lt hd⟩ = .direct ⟨bn, hd⟩ := Slot.ofAddr_castSucc ⟨bn, hd⟩
    rw [hof] at hother
    refine ⟨addr, disk', ip', by rw [Logged.val_bind, addrOrAllocLogged_val, heq]; rfl, hm, hfull, fun _ => ?_, fun s _ hs => hother s ?_,
      fun _ => hother .indirect nofun⟩
    · rw [← haddr, Dinode.blockAt, Slot.ofIndex_of_lt hd]
      rfl
    · rintro rfl
      exact hs (Slot.ofIndex_of_lt hd)
  · have hi : bn - NDIRECT < NINDIRECT := by simp only [MAXFILE] at hbn; omega
    have hat (d : Disk) (p : Dinode) : p.blockAt d bn = p.slot d (.entry ⟨bn - NDIRECT, hi⟩) := by
      rw [Dinode.blockAt, Slot.ofIndex_of_ge hd hi]; rfl
    rw [dif_neg hd]
    simp only [if_pos hi]
    obtain ⟨bp, disk₁, ip₁, heq, hm, haddr, hother, hfull⟩ := addrOrAlloc_spec hsb h ht (Fin.last NDIRECT)
    rw [Slot.ofAddr_last] at hother
    have ht₁ : ip₁.type ≠ 0 := hm.type ▸ ht
    rw [Logged.val_bind, addrOrAllocLogged_val, heq]
    by_cases h0 : bp = 0
    · exact ⟨0, disk₁, ip₁, by simp [h0], hm, fun _ => hfull h0, fun hne => absurd rfl hne, fun s hs _ => hother s hs,
        fun h => absurd h hd⟩
    · have hind : ip₁.indirect = bp := haddr
      have hind0 : ip₁.indirect ≠ 0 := by rwa [hind]
      simp only [if_neg h0]
      by_cases hw : (disk₁ bp).word (bn - NDIRECT) = 0
      · rw [if_pos hw, Logged.val_bind, ballocLogged_val]
        rcases balloc_spec hsb hm.pending.accounts with ⟨hnone, hfull⟩ | ⟨b, disk₂, hb, hne, hf⟩
        · rw [hnone]
          exact ⟨0, disk₁, ip₁, by simp, hm, fun _ => hfull, fun hne => absurd rfl hne, fun s hs _ => hother s hs,
            fun h => absurd h hd⟩
        · obtain ⟨hm₂, hslot⟩ := Maps.setWord hsb hm.pending ht₁ hind0 ⟨bn - NDIRECT, hi⟩ hf (by rwa [hind])
          rw [hb]
          rw [hind] at hm₂ hslot
          refine ⟨b, _, ip₁, by simp [hne], hm.trans hm₂, fun he => absurd he hne, fun _ => ?_, fun s hs hne => ?_,
            fun h => absurd h hd⟩
          · rw [hat, hslot, Function.update_self]
          · have : s ≠ .entry ⟨bn - NDIRECT, hi⟩ := by
              rintro rfl
              exact hne (Slot.ofIndex_of_ge hd hi)
            rw [hslot, Function.update_of_ne this, hother s hs]
      · rw [if_neg hw]
        refine ⟨_, disk₁, ip₁, rfl, hm, fun he => absurd he hw, fun _ => ?_, fun s hs _ => hother s hs, fun h => absurd h hd⟩
        rw [hat, Dinode.slot, if_neg hind0, hind]

end Xv6Net.Fs
