import Xv6Net.Fs.Lemmas.Commit
import Xv6Net.Fs.Lemmas.Wrote
import Xv6Net.Vm.Lemmas.UserCopy

/-!
# A bad buffer in the middle of a write

The block in which `either_copyin` fails has the bytes that were copied in the cache, and on the disk those of before if
nothing else logs it.
-/

namespace Xv6Net.Fs

open Kernel Lib

/-! ## Sources in user memory -/

theorem toNat_add_ofNat {a : UInt64} {i : Nat} (h : a.toNat + i < 2 ^ 64) : (a + .ofNat i).toNat = a.toNat + i := by
  rw [UInt64.toNat_add, UInt64.toNat_ofNat']
  omega

theorem userSource_add {pt : Vm.PageTable} {mem : Vm.Memory} {src : UInt64} {tot i : Nat}
    (h : (src + .ofNat tot).toNat + i < 2 ^ 64) :
    userSource pt mem src (tot + i) = Vm.userByte pt mem ((src + .ofNat tot).toNat + i) := by
  rw [userSource, UInt64.ofNat_add, ← UInt64.add_assoc, toNat_add_ofNat h]

theorem copyUser_feeds (pt : Vm.PageTable) (mem : Vm.Memory) (src : UInt64) {tot m : Nat} (hm : m < 2 ^ 32) :
    Feeds (copyUser pt mem src) (userSource pt mem src) tot m := by
  have hlen : (UInt64.ofNat m).toNat = m := by
    rw [UInt64.toNat_ofNat']
    omega
  have hcopied : Vm.CopiedFrom pt mem (src + .ofNat tot).toNat m (Vm.copyin pt mem (src + .ofNat tot) (.ofNat m)) := by
    rw [Vm.copyin_eq, hlen]
    exact Vm.copyinFrom_copied ..
  have hmax {i : Nat} (hi : i < (copyUser pt mem src tot m).1.length) : (src + .ofNat tot).toNat + i < Vm.MAXVA := by
    obtain ⟨a, ha, -⟩ := hcopied.bytes i hi
    by_contra hle
    rw [Vm.userAddr_maxva pt (by omega)] at ha
    cases ha
  refine ⟨fun i hi => ?_, hcopied.done, fun hres => ?_⟩
  · obtain ⟨a, ha, hbyte⟩ := hcopied.bytes i hi
    rw [userSource_add (Nat.lt_trans (hmax hi) (by decide)), Vm.userByte, ha, List.getElem?_eq_getElem hi]
    exact congrArg some hbyte
  · obtain ⟨hlt, hnone⟩ := hcopied.stopped hres
    have hwrap : (src + .ofNat tot).toNat + (copyUser pt mem src tot m).1.length < 2 ^ 64 := by
      have := (src + .ofNat tot).toNat_lt
      cases hl : (copyUser pt mem src tot m).1.length with
      | zero => exact this
      | succ l =>
          have := @hmax l (by omega)
          simp only [Vm.MAXVA] at this
          omega
    refine ⟨hlt, ?_⟩
    rw [userSource_add hwrap, Vm.userByte, Option.map_eq_none_iff]
    exact hnone

/-! ## What the failed copy has changed -/

variable {sb : Superblock} {disk disk₁ : Disk} {inum : UInt32} {ip₁ : Dinode} {copyin : Copyin} {src : Nat → Option UInt8}
  {n tot off off' : Nat} {log : List UInt32}

/-- A block of the file is not the one of its addresses. -/
theorem Superblock.Pending.blockAt_ne_indirect {ip : Dinode} (h : sb.Pending disk inum ip) (ht : ip.type ≠ 0) {bn : Nat}
    (hbn : ip.blockAt disk bn ≠ 0) : ip.slot disk .indirect ≠ ip.blockAt disk bn := by
  obtain ⟨s, hs, heq⟩ := Dinode.exists_slot hbn
  have hself (s : Slot) : sb.refsWith disk inum ip (inum, s) = ip.slot disk s := Superblock.refsWith_self h.lt ht s
  intro hind
  have := h.accounts.owns.inj (inum, s) (inum, .indirect) (by rwa [hself, ← heq]) (by rw [hself, hself, ← heq, hind])
  exact Slot.ofIndex_ne_indirect hs (Prod.ext_iff.mp this).2

namespace Wrote

/-- The bytes that the failed copy has stored below the end are those that were there. -/
def Harmless (sb : Superblock) (disk : Disk) (inum : UInt32) (off' p : Nat) (disk₁ : Disk) (ip₁ : Dinode) : Prop :=
  ∀ k, off' ≤ k → k < off' + p → k < (sb.dinodes disk inum).size.toNat →
    ip₁.byte disk₁ k = (sb.dinodes disk inum).byte disk k

variable (hw : Wrote sb inum copyin src n 0 off disk (sb.dinodes disk inum) log .fault tot off' disk₁ ip₁)
include hw

/-- The first byte that is not there is the one behind what was copied. -/
theorem eq_of_first {u : Nat} (hbefore : ∀ i < u, (src i).isSome) (hnone : src u = none) :
    u = tot + partialLen copyin n .fault tot off' := by
  have hcount := hw.count
  have hstop := (hw.fault rfl).stopped
  by_contra hne
  rcases Nat.lt_or_gt_of_ne hne with hlt | hgt
  · have := hw.new (off + u) (by omega) (by omega)
    rw [Nat.zero_add, Nat.add_sub_cancel_left, hnone] at this
    cases this
  · have := hbefore _ hgt
    rw [hstop] at this
    cases this

theorem sameUntilFault_iff : SameUntilFault src disk (sb.dinodes disk inum) off ↔
    Harmless sb disk inum off' (partialLen copyin n .fault tot off') disk₁ ip₁ := by
  obtain ⟨-, -, hoff⟩ := hw.count
  obtain ⟨hlt, hshort, hstop⟩ := hw.fault rfl
  have haligned := hw.aligned
  have hmod : off' % BSIZE < BSIZE := Nat.mod_lt _ (by decide)
  constructor
  · intro h k hlo hhi hk
    have hnew := hw.new k (by omega) hhi
    have hbefore (i : Nat) (hi : i < tot + partialLen copyin n .fault tot off') : (src i).isSome := by
      have := hw.new (off + i) (by omega) (by omega)
      rw [Nat.zero_add, Nat.add_sub_cancel_left] at this
      rw [this]
      rfl
    have hblock : (off + (k - off)) / BSIZE = (off + (tot + partialLen copyin n .fault tot off')) / BSIZE := by
      simp only [BSIZE] at hshort ⊢
      omega
    have := h _ hbefore hstop (k - off) (by omega) hblock (by omega)
    rw [Nat.zero_add, this, show off + (k - off) = k by omega] at hnew
    exact (Option.some.inj hnew).symm
  · intro h u hbefore hnone i hi hblock hk
    obtain rfl := hw.eq_of_first hbefore hnone
    -- bytes of the same block are not before the block
    have hlo : off' ≤ off + i := by
      simp only [BSIZE] at hshort hblock haligned
      omega
    have hnew := hw.new (off + i) (by omega) (by omega)
    rw [Nat.zero_add, Nat.add_sub_cancel_left] at hnew
    rw [hnew, h (off + i) hlo (by omega) hk]

variable (h : sb.WellFormed disk) (hi : inum < sb.ninodes) (ht : (sb.dinodes disk inum).type ≠ 0)
  (hmax : off + n ≤ MAXFILE * BSIZE)
include h hi ht hmax

theorem contents_iff (hoff : off ≤ (sb.dinodes disk inum).size.toNat) :
    (ip₁.grown off').contents (iupdate sb disk₁ inum (ip₁.grown off')) =
        splice ((sb.dinodes disk inum).contents disk) off (slice (fun i => (src i).getD 0) 0 tot) ↔
      Harmless sb disk inum off' (partialLen copyin n .fault tot off') disk₁ ip₁ := by
  have hstored := hw.stored h hi ht hmax
  obtain ⟨-, -, hoff'⟩ := hw.count
  have hsize : (ip₁.grown off').size.toNat =
      max (sb.dinodes disk inum).size.toNat (off + (slice (fun i => (src i).getD 0) 0 tot).length) := by
    rw [hstored.size, length_slice]; omega
  have hold {k : Nat} (hk : k < (sb.dinodes disk inum).size.toNat) :
      (sb.dinodes disk inum).blockAt disk (k / BSIZE) ≠ 0 := h.mapped inum hi ht _ (by simp only [BSIZE]; omega)
  constructor
  · intro heq k hlo hhi hk
    have hbyte := congrArg (byteAt · k) heq
    rw [byteAt_splice_of_ge (by rw [Dinode.contents, length_slice]; exact hoff) (by rw [length_slice]; omega),
      Dinode.contents, byteAt_slice (by omega), Dinode.contents, byteAt_slice hk, Nat.zero_add] at hbyte
    rw [← hbyte, hstored.byte k (by omega)]
  · intro hharm
    rw [Dinode.contents, hsize, Dinode.contents]
    apply slice_splice hoff
    · intro k hk hout
      rw [length_slice] at hout
      rw [hstored.byte k (by omega)]
      by_cases hin : off' ≤ k ∧ k < off' + partialLen copyin n .fault tot off'
      · exact hharm k hin.1 hin.2 hk
      · exact hw.keep k (hold hk) (by omega)
    · intro k hk
      rw [length_slice] at hk
      have hnew := hw.new (off + k) (by omega) (by omega)
      rw [Nat.zero_add, Nat.add_sub_cancel_left] at hnew
      rw [hstored.byte _ (by rw [hstored.size]; omega), byteAt_slice hk, Nat.zero_add, hnew]
      rfl

/-- A disk with the same blocks but for the one of the failed copy, which may be as before. -/
theorem contents_onDisk (hharm : Harmless sb disk inum off' (partialLen copyin n .fault tot off') disk₁ ip₁) {com : Disk}
    (hinode : com (sb.iblock inum) = iupdate sb disk₁ inum (ip₁.grown off') (sb.iblock inum))
    (hcom : ∀ b, sb.IsData b → com b = disk₁ b ∨
      b = ip₁.blockAt disk₁ (off' / BSIZE) ∧ com b = disk b ∧ b ∉ log) :
    (sb.dinodes com inum).contents com =
      (ip₁.grown off').contents (iupdate sb disk₁ inum (ip₁.grown off')) := by
  have hstored := hw.stored h hi ht hmax
  obtain ⟨-, -, hoff'⟩ := hw.count
  obtain ⟨hlt, hshort, -⟩ := hw.fault rfl
  have haligned := hw.aligned
  obtain ⟨hne, hfresh⟩ := hw.fresh rfl
  have ht₁ : ip₁.type ≠ 0 := hw.grows.type ▸ ht
  have hpending := hw.grows.pending
  have hdin : sb.dinodes com inum = ip₁.grown off' := by
    rw [← hstored.written.self]
    exact Superblock.dinodes_congr hinode
  have hslot₁ (d : Disk) (s : Slot) : (ip₁.grown off').slot d s = ip₁.slot d s :=
    congrFun (Dinode.slot_of_addrs Dinode.addrs_grown) s
  have hslot (s : Slot) : (ip₁.grown off').slot com s = ip₁.slot disk₁ s := by
    rw [hslot₁]
    refine Dinode.slot_congr (fun hind => ?_) s
    rcases hcom _ (hpending.inUse_slot ht₁ (s := .indirect) hind).1 with heq | ⟨heq, -⟩
    · exact heq
    · exact absurd heq (hpending.blockAt_ne_indirect ht₁ hne)
  have hmapped : ip₁.Mapped disk₁ (ip₁.grown off').size.toNat := hstored.size ▸ hw.mapped
  rw [hdin, Dinode.contents, Dinode.contents]
  apply slice_congr
  intro k hk
  rw [Nat.zero_add, hstored.byte k hk, Dinode.byte, Dinode.blockAt_congr hslot]
  have hk₁ : ip₁.blockAt disk₁ (k / BSIZE) ≠ 0 := hmapped _ (by simp only [BSIZE]; omega)
  have hdata : sb.IsData (ip₁.blockAt disk₁ (k / BSIZE)) := (hpending.fileBlock h.sane ht₁ hk₁).isData
  rcases hcom _ hdata with heq | ⟨heq, hsame, hlog⟩
  · rw [heq, Dinode.byte]
  · -- the block of the failed copy, which is one that the file had
    have hblock := hpending.blockAt_inj ht₁ hk₁ heq
    have hold : (sb.dinodes disk inum).blockAt disk (k / BSIZE) ≠ 0 := by
      rw [heq] at hlog
      rw [hblock]
      exact fun h0 => hlog (hfresh h0)
    rw [hsame, hw.grows.blockAt ht hold, ← Dinode.byte]
    have hsize := hstored.size
    by_cases hin : off' ≤ k ∧ k < off' + partialLen copyin n .fault tot off'
    · exact (hharm k hin.1 hin.2 (by omega)).symm
    · refine (hw.keep k hold ?_).symm
      simp only [BSIZE] at haligned hblock
      omega

omit ht hmax

/-- After the commit, the blocks are as in the cache but for the one of the failed copy, if it is not in the log. -/
theorem committed {ip' : Dinode} {lg lg' : Log} (hfits : lg.Fits) (hout : ∀ b, sb.InFs b → lg.Outside b)
    (hlog : logWrites lg (log ++ [sb.iblock inum]) = .ok lg') {dev : Dev}
    (hread : dev.bread = iupdate sb disk₁ inum ip') (hdisk : ∀ b ∉ lg.lh, dev.disk b = disk b) :
    (commit lg' dev).2.disk (sb.iblock inum) = iupdate sb disk₁ inum ip' (sb.iblock inum) ∧
      ∀ b, sb.IsData b → (commit lg' dev).2.disk b = disk₁ b ∨
        b = ip₁.blockAt disk₁ (off' / BSIZE) ∧ (commit lg' dev).2.disk b = disk b ∧ b ∉ log := by
  obtain ⟨hstart, hsize, -, hmem⟩ := logWrites_eq_ok hlog
  have hinode : sb.InFs (sb.iblock inum) := h.sane.inFs_of_isInodes (h.sane.isInodes_iblock hi).2
  have harea (b : UInt32) (hb : b ∈ log ++ [sb.iblock inum]) : sb.InFs b := by
    rcases List.mem_append.mp hb with hb | hb
    · exact hw.area b hb
    · rw [List.mem_singleton.mp hb]
      exact hinode
  have hhome := commit_home (hfits.logWrites (fun b hb => hout b (harea b hb)) hlog) dev
  have hafter {b : UInt32} (hb : sb.InFs b) : (commit lg' dev).2.disk b = lg'.after dev.disk dev.bread b := by
    refine hhome b ?_
    rw [Log.Outside, hstart, hsize]
    exact hout b hb
  constructor
  · rw [hafter hinode, Log.after, if_pos ((hmem _).mpr (.inl (by simp))), hread]
  · intro b hb
    rw [hafter (h.sane.inFs_of_isData hb), Log.after]
    split
    · rw [hread, iupdate_of_inUse h.sane hi hb]
      exact .inl rfl
    · rename_i hnot
      rw [hmem, not_or, List.mem_append, not_or] at hnot
      rw [hdisk b hnot.2]
      by_cases hsame : disk₁ b = disk b
      · exact .inl hsame.symm
      · rcases hw.logged b hsame with hin | ⟨-, hfail⟩
        · exact absurd hin hnot.1.1
        · exact .inr ⟨hfail, rfl, hnot.1.1⟩

end Wrote

end Xv6Net.Fs
