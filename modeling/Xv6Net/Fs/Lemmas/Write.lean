import Xv6Net.Fs.Lemmas.Bmap

/-! `writei` keeps a file system well formed, wherever it stops. -/

namespace Xv6Net.Fs

open Lib

variable {sb : Superblock} {disk disk' : Disk} {inum : UInt32} {ip ip' : Dinode} {bn : Nat}

theorem Slot.ofIndex_ne_indirect {s : Slot} (h : Slot.ofIndex bn = some s) : s ≠ .indirect := by
  unfold Slot.ofIndex at h
  split at h
  · cases h; exact nofun
  · split at h
    · cases h; exact nofun
    · cases h

/-- The place of a block of the file. -/
theorem Dinode.exists_slot (h : ip.blockAt disk bn ≠ 0) :
    ∃ s, Slot.ofIndex bn = some s ∧ ip.blockAt disk bn = ip.slot disk s := by
  unfold Dinode.blockAt at h ⊢
  cases hs : Slot.ofIndex bn with
  | none => simp [hs] at h
  | some s => exact ⟨s, rfl, rfl⟩

/-- A block of the file holds no addresses, and no inode or bit. -/
structure FileBlock (sb : Superblock) (disk : Disk) (inum : UInt32) (ip : Dinode) (addr : UInt32) : Prop where
  isData : sb.IsData addr
  inUse : sb.InUse disk addr
  refs : ∀ data, sb.refsWith (Function.update disk addr data) inum ip = sb.refsWith disk inum ip
  others : ∀ p, p.1 ≠ inum → sb.refsWith disk inum ip p ≠ addr

theorem Superblock.Pending.fileBlock (hsb : sb.Sane) (h : sb.Pending disk inum ip) (ht : ip.type ≠ 0)
    (hbn : ip.blockAt disk bn ≠ 0) : FileBlock sb disk inum ip (ip.blockAt disk bn) := by
  obtain ⟨s, hs, heq⟩ := Dinode.exists_slot hbn
  have hself : sb.refsWith disk inum ip (inum, s) = ip.blockAt disk bn := by
    rw [heq]; exact Superblock.refsWith_self h.lt ht s
  have hne0 : sb.refsWith disk inum ip (inum, s) ≠ 0 := by rwa [hself]
  have huse := h.accounts.owns.inUse _ hne0
  have hother (p : UInt32 × Slot) (hp : p ≠ (inum, s)) : sb.refsWith disk inum ip p ≠ ip.blockAt disk bn := by
    have := h.accounts.owns.ne_of_ne hne0 hp.symm
    rwa [hself] at this
  rw [hself] at huse
  refine ⟨huse.1, huse, fun data => ?_, fun p hp => hother p (by rintro rfl; exact hp rfl)⟩
  rw [Superblock.refsWith_congr hsb fun c hc => Function.update_of_ne
    (by rintro rfl; exact hsb.not_isData_of_isInodes hc huse.1) ..]
  refine Superblock.refs_congr_disk fun q _ => Function.update_of_ne (hother (q, .indirect) fun heq => ?_) ..
  exact Slot.ofIndex_ne_indirect hs (Prod.ext_iff.mp heq).2.symm

theorem FileBlock.slot {addr : UInt32} (hb : FileBlock sb disk inum ip addr) (hi : inum < sb.ninodes) (ht : ip.type ≠ 0)
    (data : Block) (s : Slot) : ip.slot (Function.update disk addr data) s = ip.slot disk s := by
  have := congrFun (hb.refs data) (inum, s)
  rwa [Superblock.refsWith_self hi ht, Superblock.refsWith_self hi ht] at this

/-- The contents of a block of the file do not matter for the account. -/
theorem Grows.writeData (hsb : sb.Sane) (h : sb.Pending disk inum ip) (ht : ip.type ≠ 0)
    (hbn : ip.blockAt disk bn ≠ 0) (data : Block) :
    Grows sb inum disk ip (Function.update disk (ip.blockAt disk bn) data) ip := by
  have hb := h.fileBlock hsb ht hbn
  have hsame (c : UInt32) (hc : c ≠ ip.blockAt disk bn) :
      Function.update disk (ip.blockAt disk bn) data c = disk c := Function.update_of_ne hc ..
  have hinodes (c : UInt32) (hc : sb.IsInodes c) : Function.update disk (ip.blockAt disk bn) data c = disk c :=
    hsame c (by rintro rfl; exact hsb.not_isData_of_isInodes hc hb.isData)
  have hrefs := hb.refs data
  refine ⟨h.step hsb hinodes ?_ fun q _ t => by rw [hrefs], rfl, rfl, hinodes, fun p _ => by rw [hrefs],
    fun p hp _ => hsame _ (hb.others p hp)⟩
  rw [hrefs]
  exact h.accounts.congr_disk hsb fun c hc => hsame c (by rintro rfl; exact hb.isData.not_isBitmap hc)

/-- One more block, at the end or before it. -/
theorem Dinode.Mapped.extend {size off off' : Nat} (hm : ip.Mapped disk (max size off))
    (hbn : ip.blockAt disk (off / BSIZE) ≠ 0) (hoff : off' ≤ (off / BSIZE + 1) * BSIZE) : ip.Mapped disk (max size off') := by
  intro bn h
  by_cases heq : bn = off / BSIZE
  · rwa [heq]
  · refine hm bn ?_
    simp only [BSIZE] at h hoff heq ⊢
    omega

theorem Dinode.Mapped.mono {size size' : Nat} (hm : ip.Mapped disk size) (h : size' ≤ size) : ip.Mapped disk size' := by
  intro bn hbn
  refine hm bn (Nat.lt_of_lt_of_le hbn ?_)
  exact Nat.div_le_div_right (by omega)

theorem piece_le (n tot off : Nat) : off + min (n - tot) (BSIZE - off % BSIZE) ≤ (off / BSIZE + 1) * BSIZE := by
  have := Nat.min_le_right (n - tot) (BSIZE - off % BSIZE)
  simp only [BSIZE] at this ⊢
  omega

/-- All blocks below the size and below the offset that the loop has come to have addresses. -/
theorem writeLoop_spec (hsb : sb.Sane) (copyin : Copyin) (n : Nat) :
    ∀ (fuel tot off : Nat) (disk : Disk) (ip : Dinode), sb.Pending disk inum ip → ip.type ≠ 0 →
      ip.Mapped disk (max ip.size.toNat off) → off + (n - tot) ≤ MAXFILE * BSIZE →
      ∃ why tot' off' disk' ip', (writeLoopLogged sb copyin n fuel tot off disk ip).val = .ok (why, tot', off', disk', ip') ∧
        Grows sb inum disk ip disk' ip' ∧ off' ≤ MAXFILE * BSIZE ∧ ip'.Mapped disk' (max ip.size.toNat off') := by
  intro fuel
  induction fuel with
  | zero => exact fun tot off disk ip h _ hm hfit => ⟨.done, tot, off, disk, ip, rfl, .refl h, by omega, hm⟩
  | succ fuel ih =>
      intro tot off disk ip h ht hm hfit
      rw [writeLoopLogged]
      by_cases htot : tot < n
      · have hbn : off / BSIZE < MAXFILE := by
          rw [Nat.div_lt_iff_lt_mul (by decide)]; omega
        obtain ⟨addr, disk₁, ip₁, heq, hmaps⟩ := bmap_spec hsb h ht hbn
        have ht₁ : ip₁.type ≠ 0 := hmaps.type ▸ ht
        have hm₁ := hmaps.mapped ht hm
        rw [if_pos htot, Logged.andThen_ok heq]
        dsimp only
        by_cases h0 : addr = 0
        · rw [if_pos h0]
          exact ⟨.full, tot, off, disk₁, ip₁, rfl, hmaps.toGrows, by omega, hm₁⟩
        · have hat := hmaps.addr h0
          have hne : ip₁.blockAt disk₁ (off / BSIZE) ≠ 0 := by rwa [hat]
          generalize hb : copyin tot (min (n - tot) (BSIZE - off % BSIZE)) = r
          obtain ⟨bytes, ok⟩ := r
          have hw := Grows.writeData hsb hmaps.pending ht₁ hne
            ((disk₁ addr).store (off % BSIZE) (bytes.take (min (n - tot) (BSIZE - off % BSIZE))))
          rw [hat] at hw
          have hm₂ := hw.mapped ht₁ hm₁
          rw [if_neg h0]
          cases ok with
          | false => exact ⟨.fault, tot, off, _, ip₁, rfl, hmaps.toGrows.trans hw, by omega, hm₂⟩
          | true =>
              have hsize : ip₁.size = ip.size := hmaps.size
              have hne₂ := hw.blockAt_ne ht₁ hne
              have hm₃ := hm₂.extend hne₂ (piece_le n tot off)
              rw [← hsize] at hm₃
              obtain ⟨why, tot', off', disk', ip', hrun, hg, hoff, hm'⟩ :=
                ih (tot + min (n - tot) (BSIZE - off % BSIZE)) (off + min (n - tot) (BSIZE - off % BSIZE)) _ ip₁
                  hw.pending ht₁ hm₃ (by omega)
              rw [hsize] at hm'
              exact ⟨why, tot', off', disk', ip', hrun, (hmaps.toGrows.trans hw).trans hg, hoff, hm'⟩
      · rw [if_neg htot]
        exact ⟨.done, tot, off, disk, ip, rfl, .refl h, by omega, hm⟩

/-- The inode on the disk is the one in memory after a call, and the other ones are as before. -/
structure Written (sb : Superblock) (disk : Disk) (inum : UInt32) (disk' : Disk) (ip' : Dinode) : Prop where
  wellFormed : sb.WellFormed disk'
  self : sb.dinodes disk' inum = ip'
  others : ∀ k < sb.ninodes, k ≠ inum → sb.dinodes disk' k = sb.dinodes disk k

/-- A write back after changes that left the inodes on the disk. -/
theorem Written.iupdate (hsb : sb.Sane) (h : sb.Pending disk' inum ip') (hm : ip'.type ≠ 0 → ip'.Mapped disk' ip'.size.toNat)
    (hinodes : ∀ c, sb.IsInodes c → disk' c = disk c) : Written sb disk inum (iupdate sb disk' inum ip') ip' where
  wellFormed := h.iupdate hsb hm
  self := by rw [Superblock.dinodes_iupdate hsb h.lt h.lt, Function.update_self]
  others := by
    intro k hk hne
    rw [Superblock.dinodes_iupdate hsb h.lt hk, Function.update_of_ne hne]
    exact Superblock.dinodes_congr (hinodes _ (hsb.isInodes_iblock hk).2)

theorem writei_spec (h : sb.WellFormed disk) (hi : inum < sb.ninodes) (ht : (sb.dinodes disk inum).type ≠ 0)
    (copyin : Copyin) (off n : UInt32) :
    ∃ tot disk' ip', writei sb disk inum (sb.dinodes disk inum) copyin off n = .ok (tot, disk', ip') ∧
      ip'.type ≠ 0 ∧ Written sb disk inum disk' ip' := by
  have hnone : Written sb disk inum disk (sb.dinodes disk inum) := ⟨h, rfl, fun _ _ _ => rfl⟩
  unfold writei writeiLogged
  split
  · exact ⟨-1, disk, _, rfl, ht, hnone⟩
  · split
    · exact ⟨-1, disk, _, rfl, ht, hnone⟩
    · rename_i hchecks hmax
      simp only [not_or, UInt32.not_lt, UInt32.le_iff_toNat_le] at hchecks
      obtain ⟨hoff, hwrap⟩ := hchecks
      have hm : (sb.dinodes disk inum).Mapped disk (max (sb.dinodes disk inum).size.toNat off.toNat) := by
        rw [Nat.max_eq_left hoff]
        exact h.mapped inum hi ht
      have hfit : off.toNat + (n.toNat - 0) ≤ MAXFILE * BSIZE := by
        have := off.toNat_lt
        have := n.toNat_lt
        rw [UInt32.toNat_add] at hwrap hmax
        omega
      obtain ⟨why, tot, off', disk', ip', hrun, hg, hend, hm⟩ :=
        writeLoop_spec h.sane copyin n.toNat (n.toNat + 1) 0 off.toNat disk _ (h.pending hi) ht hm hfit
      have ht' : ip'.type ≠ 0 := hg.type ▸ ht
      rw [Logged.andThen_ok hrun]
      dsimp only [Logged.use, Except.map]
      by_cases hgrow : ip'.size.toNat < off'
      · have hend' : (UInt32.ofNat off').toNat = off' := by
          simp only [MAXFILE, NDIRECT, NINDIRECT, BSIZE] at hend
          rw [UInt32.toNat_ofNat']; omega
        rw [if_pos hgrow]
        refine ⟨tot, _, _, rfl, ht', .iupdate h.sane (hg.pending.congr rfl rfl) (fun _ => ?_) hg.inodes⟩
        exact (hm.mono (show (UInt32.ofNat off').toNat ≤ _ by omega)).congr fun s => rfl
      · rw [if_neg hgrow]
        refine ⟨tot, _, _, rfl, ht', .iupdate h.sane hg.pending (fun _ => ?_) hg.inodes⟩
        rw [hg.size]
        exact hm.mono (Nat.le_max_left ..)

end Xv6Net.Fs
