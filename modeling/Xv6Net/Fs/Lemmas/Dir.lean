import Xv6Net.Fs.Dir
import Xv6Net.Fs.Lemmas.Wrote

/-!
# Directories are maps

`strncmp` and `strncpy` agree on what a name is. The entries of a directory are slots for names, and each store of an
entry is a store to a slot.
-/

namespace Xv6Net.Fs

open Lib

variable {sb : Superblock} {n i j : Nat} {b de name : List UInt8}

/-! ## Names -/

theorem take_takeWhile_succ (n : Nat) (p : List UInt8) :
    (p.takeWhile (· != 0)).take (n + 1) =
      if byteAt p 0 = 0 then [] else byteAt p 0 :: (p.tail.takeWhile (· != 0)).take n := by
  cases p with
  | nil => rfl
  | cons x p =>
      have hx : byteAt (x :: p) 0 = x := rfl
      rw [hx, List.takeWhile_cons]
      by_cases h0 : x = 0
      · simp [h0]
      · simp [h0]

theorem strncmp_eq_zero_iff (n : Nat) (p q : List UInt8) :
    strncmp n p q = 0 ↔ (p.takeWhile (· != 0)).take n = (q.takeWhile (· != 0)).take n := by
  induction n generalizing p q with
  | zero => simp [strncmp]
  | succ n ih =>
      rw [strncmp, take_takeWhile_succ, take_takeWhile_succ]
      split
      · rename_i h
        rw [ih, if_neg h.1, if_neg (h.2 ▸ h.1), h.2]
        simp
      · rename_i h
        have hsub : ((byteAt p 0).toNat : Int) - (byteAt q 0).toNat = 0 ↔ byteAt p 0 = byteAt q 0 := by
          rw [← UInt8.toNat_inj]
          omega
        rw [hsub]
        by_cases hp : byteAt p 0 = 0
        · rw [if_pos hp, hp]
          by_cases hq : byteAt q 0 = 0
          · simp [hq]
          · simp [hq, Ne.symm hq]
        · have hne : byteAt p 0 ≠ byteAt q 0 := fun he => h ⟨hp, he⟩
          rw [if_neg hp]
          by_cases hq : byteAt q 0 = 0
          · simp [hq, hp]
          · simp [hq, hne]

theorem namecmp_eq_zero_iff (s t : List UInt8) : namecmp s t = 0 ↔ nameOf s = nameOf t := strncmp_eq_zero_iff ..

theorem length_strncpy (n : Nat) (t : List UInt8) : (strncpy n t).length = n := by
  induction n generalizing t with
  | zero => rfl
  | succ n ih =>
      rw [strncpy]
      split
      · simp
      · simp [ih]

theorem take_takeWhile_strncpy (n : Nat) (t : List UInt8) :
    ((strncpy n t).takeWhile (· != 0)).take n = (t.takeWhile (· != 0)).take n := by
  induction n generalizing t with
  | zero => simp
  | succ n ih =>
      rw [take_takeWhile_succ, take_takeWhile_succ, strncpy]
      by_cases h0 : byteAt t 0 = 0
      · rw [if_pos h0, if_pos h0]
        rfl
      · rw [if_neg h0, if_neg h0]
        have hx : byteAt (byteAt t 0 :: strncpy n t.tail) 0 = byteAt t 0 := rfl
        rw [hx, if_neg h0, List.tail_cons, ih]

theorem nameOf_strncpy (name : List UInt8) : nameOf (strncpy DIRSIZ name) = nameOf name := take_takeWhile_strncpy ..

/-! ## Entries -/

theorem direntOf_link (name : List UInt8) (hpos : 0 < inum.toNat) (hlt : inum.toNat < 65536) :
    direntOf (bytes16 inum.toUInt16 ++ strncpy DIRSIZ name) = some (nameOf name, inum) := by
  have hinum : direntInum (bytes16 inum.toUInt16 ++ strncpy DIRSIZ name) = inum.toUInt16 :=
    load16_append_bytes16 [] inum.toUInt16 _
  have hname : direntName (bytes16 inum.toUInt16 ++ strncpy DIRSIZ name) = strncpy DIRSIZ name := rfl
  have hnat : inum.toUInt16.toNat = inum.toNat := by
    rw [UInt32.toNat_toUInt16]
    omega
  have hne : inum.toUInt16 ≠ 0 := by
    intro h0
    rw [h0] at hnat
    have : (0 : UInt16).toNat = 0 := rfl
    omega
  have hback : inum.toUInt16.toUInt32 = inum := by
    rw [← UInt32.toNat_inj, UInt16.toNat_toUInt32, hnat]
  rw [direntOf, hinum, if_neg hne, hname, nameOf_strncpy, hback]

theorem direntOf_zero : direntOf (.replicate DIRENT_SIZE 0) = none := by decide

theorem direntOf_eq_some :
    direntOf de = some (name, inum) ↔
      direntInum de ≠ 0 ∧ nameOf (direntName de) = name ∧ (direntInum de).toUInt32 = inum := by
  unfold direntOf
  split
  · rename_i h0
    simp [h0]
  · rename_i h0
    simp [h0]

theorem getElem?_direntsOf (b : List UInt8) (i : Nat) :
    (direntsOf b)[i]? = if i < b.length / DIRENT_SIZE then some (direntOf (direntAt b i)) else none := by
  rw [direntsOf, List.getElem?_map]
  split
  · rename_i h
    rw [List.getElem?_range h]
    rfl
  · rename_i h
    rw [List.getElem?_eq_none (by simpa using h)]
    rfl

theorem holds_direntsOf :
    Slots.Holds (direntsOf b) i name inum ↔ i < b.length / DIRENT_SIZE ∧ direntOf (direntAt b i) = some (name, inum) := by
  rw [Slots.Holds, getElem?_direntsOf]
  split
  · rename_i h
    simp [h]
  · rename_i h
    simp [h]

theorem direntAt_splice_self (hde : de.length = DIRENT_SIZE) (hi : DIRENT_SIZE * i ≤ b.length) :
    direntAt (splice b (DIRENT_SIZE * i) de) i = de := by
  have hlen : (b.take (DIRENT_SIZE * i)).length = DIRENT_SIZE * i := by
    rw [List.length_take]; omega
  rw [direntAt, splice, List.append_assoc, List.drop_append_of_le_length hlen.ge, List.drop_of_length_le hlen.le,
    List.nil_append, List.take_append_of_le_length hde.ge, List.take_of_length_le hde.le]

theorem direntAt_splice_of_ne (hde : de.length = DIRENT_SIZE) (hi : DIRENT_SIZE * i ≤ b.length)
    (hj : j ≠ i) : direntAt (splice b (DIRENT_SIZE * i) de) j = direntAt b j := by
  rw [direntAt, direntAt]
  rcases Nat.lt_or_gt_of_ne hj with hlt | hgt
  · exact take_drop_splice_of_le hi (by simp only [DIRENT_SIZE]; omega)
  · rw [drop_splice_of_ge hi (by rw [hde]; simp only [DIRENT_SIZE]; omega)]

/-- The store of an entry at its place or behind the last one. -/
theorem direntsOf_splice (hde : de.length = DIRENT_SIZE) (hb : DIRENT_SIZE ∣ b.length)
    (hi : DIRENT_SIZE * i ≤ b.length) :
    Slots.Stores (direntsOf b) i (direntOf de) (direntsOf (splice b (DIRENT_SIZE * i) de)) := by
  intro j
  have hlen : (splice b (DIRENT_SIZE * i) de).length = max b.length (DIRENT_SIZE * i + DIRENT_SIZE) := by
    rw [length_splice hi, hde]
  rw [getElem?_direntsOf, getElem?_direntsOf, hlen]
  by_cases hj : j = i
  · rw [if_pos hj, hj, direntAt_splice_self hde hi, if_pos (by simp only [DIRENT_SIZE]; omega)]
  · have hiff : j < max b.length (DIRENT_SIZE * i + DIRENT_SIZE) / DIRENT_SIZE ↔ j < b.length / DIRENT_SIZE := by
      simp only [DIRENT_SIZE] at hi hb ⊢
      omega
    simp only [if_neg hj, direntAt_splice_of_ne hde hi hj, hiff]

/-! ## The loops over the entries -/

/-- No file is larger than its blocks allow. -/
theorem Dinode.Mapped.le_max {disk : Disk} {ip : Dinode} {size : Nat} (hm : ip.Mapped disk size) :
    size ≤ MAXFILE * BSIZE := by
  by_contra hlt
  have hbn : MAXFILE < (size + BSIZE - 1) / BSIZE := by
    simp only [MAXFILE, NDIRECT, NINDIRECT, BSIZE] at hlt ⊢
    omega
  obtain ⟨s, hs, -⟩ := Dinode.exists_slot (hm MAXFILE hbn)
  cases hs

section Scan

variable {disk : Disk} {dp : Dinode} (hm : dp.Mapped disk dp.size.toNat)
include hm

theorem toNat_direntOff (hi : i ≤ dp.size.toNat / DIRENT_SIZE) : (UInt32.ofNat (DIRENT_SIZE * i)).toNat = DIRENT_SIZE * i := by
  have hmax := hm.le_max
  simp only [MAXFILE, NDIRECT, NINDIRECT, BSIZE, DIRENT_SIZE] at hmax hi ⊢
  rw [UInt32.toNat_ofNat']
  omega

theorem readi_dirent (hi : i < dp.size.toNat / DIRENT_SIZE) :
    readi sb disk dp (fun _ => true) (.ofNat (DIRENT_SIZE * i)) (.ofNat DIRENT_SIZE) =
      .ok (DIRENT_SIZE, direntAt (dp.contents disk) i, disk, dp) := by
  have hmax := hm.le_max
  have hoff := toNat_direntOff hm hi.le
  have hn : (UInt32.ofNat DIRENT_SIZE).toNat = DIRENT_SIZE := rfl
  have hlen : (direntAt (dp.contents disk) i).length = DIRENT_SIZE := by
    rw [direntAt, List.length_take, List.length_drop, Dinode.contents, length_slice]
    simp only [DIRENT_SIZE] at hi ⊢
    omega
  have hwrap : (UInt32.ofNat (DIRENT_SIZE * i)).toNat + (UInt32.ofNat DIRENT_SIZE).toNat < 2 ^ 32 := by
    rw [hoff, hn]
    simp only [MAXFILE, NDIRECT, NINDIRECT, BSIZE, DIRENT_SIZE] at hmax hi ⊢
    omega
  rw [readi_spec hm hwrap, hoff, hn, ← direntAt, hlen]

variable (hwhole : DIRENT_SIZE ∣ dp.size.toNat) (err : DirStop) (stop : List UInt8 → Bool)
include hwhole

/-- The loop from entry `i` on ends with the first one for which it stops, or behind the last one. -/
theorem scanEntries_spec : ∀ fuel i, i ≤ dp.size.toNat / DIRENT_SIZE → dp.size.toNat / DIRENT_SIZE - i < fuel →
    ∃ l, (∀ m, i ≤ m → m < l → stop (direntAt (dp.contents disk) m) = false) ∧
      (l < dp.size.toNat / DIRENT_SIZE ∧ stop (direntAt (dp.contents disk) l) = true ∧
          scanEntries sb err stop fuel (.ofNat (DIRENT_SIZE * i)) disk dp =
            .ok (.ofNat (DIRENT_SIZE * l), some (direntAt (dp.contents disk) l), disk, dp) ∨
        l = dp.size.toNat / DIRENT_SIZE ∧
          scanEntries sb err stop fuel (.ofNat (DIRENT_SIZE * i)) disk dp =
            .ok (.ofNat (DIRENT_SIZE * l), none, disk, dp)) := by
  intro fuel
  induction fuel with
  | zero => exact fun i _ hfuel => absurd hfuel (Nat.not_lt_zero _)
  | succ fuel ih =>
      intro i hi hfuel
      have hoff := toNat_direntOff hm hi
      rw [scanEntries]
      by_cases hend : i = dp.size.toNat / DIRENT_SIZE
      · have hge : ¬ UInt32.ofNat (DIRENT_SIZE * i) < dp.size := by
          rw [UInt32.lt_iff_toNat_lt, hoff, hend, Nat.mul_div_cancel' hwhole]
          exact Nat.lt_irrefl _
        exact ⟨i, fun m h h' => absurd h (by omega), .inr ⟨hend, by rw [if_neg hge]⟩⟩
      · have hlt : UInt32.ofNat (DIRENT_SIZE * i) < dp.size := by
          rw [UInt32.lt_iff_toNat_lt, hoff]
          simp only [DIRENT_SIZE] at hi hend ⊢
          omega
        have hi' : i < dp.size.toNat / DIRENT_SIZE := by omega
        simp only [if_pos hlt, readi_dirent hm hi', Except.mapError, bind, Except.bind, ne_eq, not_true_eq_false, if_false]
        cases hstop : stop (direntAt (dp.contents disk) i) with
        | true => exact ⟨i, fun m h h' => absurd h (by omega), .inl ⟨hi', hstop, rfl⟩⟩
        | false =>
            have hnext : UInt32.ofNat (DIRENT_SIZE * i) + .ofNat DIRENT_SIZE = .ofNat (DIRENT_SIZE * (i + 1)) := by
              rw [Nat.mul_succ, UInt32.ofNat_add]
            rw [hnext]
            obtain ⟨l, hbefore, hres⟩ := ih (i + 1) hi' (by omega)
            refine ⟨l, fun m h h' => ?_, hres⟩
            by_cases hmi : m = i
            · rw [hmi, hstop]
            · exact hbefore m (by omega) h'

end Scan

/-! ## References -/

namespace InodeSys

variable {s t : InodeSys} {dp ip : Fin NINODE} {inum : UInt32}

theorem setInode_self (s : InodeSys) (ip : Fin NINODE) : s.setInode ip (s.itable ip) = s := by
  rw [setInode, Function.update_eq_self]

/-- `iget` has made the entry `x` of the table the entry `y`. -/
structure Got (inum : UInt32) (x y : Inode) : Prop where
  inum : y.inum = inum
  counted : y.ref = x.ref + 1
  fresh : 0 < x.ref ∧ y = { x with ref := x.ref + 1 } ∨ x.ref = 0 ∧ y.valid = false

theorem iget_got (hroom : ∃ ip, (s.itable ip).ref = 0) (inum : UInt32) :
    ∃ ip y, s.iget inum = .ok (ip, s.setInode ip y) ∧ Got inum (s.itable ip) y := by
  unfold iget
  split
  · rename_i ip hfound
    have := List.find?_some hfound
    simp only [Bool.and_eq_true, decide_eq_true_eq, beq_iff_eq] at this
    exact ⟨ip, _, rfl, this.2, rfl, .inl ⟨this.1, rfl⟩⟩
  · split
    · rename_i hnone
      obtain ⟨ip, hip⟩ := hroom
      have := List.find?_eq_none.mp hnone ip (List.mem_finRange ip)
      simp [hip] at this
    · rename_i ip hfound
      have hzero : (s.itable ip).ref = 0 := by simpa using List.find?_some hfound
      exact ⟨ip, _, rfl, rfl, by simp [hzero], .inr ⟨hzero, rfl⟩⟩

/-- The copy of the directory in the table is the same, and so is the disk. -/
structure SameDir (dp : Fin NINODE) (s t : InodeSys) : Prop where
  disk : t.disk = s.disk
  inum : (t.itable dp).inum = (s.itable dp).inum
  din : (t.itable dp).din = (s.itable dp).din

namespace SameDir

variable {u : InodeSys}

theorem trans (h : SameDir dp s t) (h' : SameDir dp t u) : SameDir dp s u :=
  ⟨h'.disk.trans h.disk, h'.inum.trans h.inum, h'.din.trans h.din⟩

theorem contents (h : SameDir dp s t) : t.contents dp = s.contents dp := by
  rw [InodeSys.contents, h.din, h.disk]
  rfl

theorem setRef (dp : Fin NINODE) (s : InodeSys) (ip : Fin NINODE) (ref : Nat) :
    SameDir dp s (s.setInode ip { s.itable ip with ref := ref }) := by
  by_cases hp : dp = ip
  · constructor <;> simp [setInode, hp]
  · constructor <;> simp [setInode, hp]

end SameDir

/-- `iget` does not take the entry of a directory with references for another inode. -/
theorem Got.sameDir {y : Inode} (h : Got inum (s.itable ip) y) (href : 0 < (s.itable dp).ref) :
    SameDir dp s (s.setInode ip y) := by
  by_cases hp : dp = ip
  · rcases h.fresh with ⟨-, heq⟩ | ⟨hzero, -⟩
    · rw [heq]
      exact .setRef dp s ip _
    · rw [hp, hzero] at href
      cases href
  · constructor <;> simp [setInode, hp]

/-- The entries of the table have the references that they had. -/
def SameRefs (s t : InodeSys) : Prop :=
  ∀ j, (t.itable j).ref = (s.itable j).ref ∧ (t.itable j).valid = (s.itable j).valid

/-- The reference that `iget` returned is not the last one of a valid inode, so that `iput` only gives it back. -/
theorem Got.iput (sb : Superblock) {y : Inode} (hgot : Got inum (s.itable ip) y) (hrefs : SameRefs (s.setInode ip y) t) :
    t.iput sb ip = .ok (t.setInode ip { t.itable ip with ref := (s.itable ip).ref }) ∧
      ∀ j, ((t.setInode ip { t.itable ip with ref := (s.itable ip).ref }).itable j).ref = (s.itable j).ref := by
  obtain ⟨href, hvalid⟩ := hrefs ip
  simp only [setInode, Function.update_self] at href hvalid
  have hcounted := hgot.counted
  have hkeep : ¬ ((t.itable ip).ref = 1 ∧ (t.itable ip).valid ∧ (t.itable ip).din.nlink = 0) := by
    rintro ⟨hone, hv, -⟩
    rcases hgot.fresh with ⟨hpos, -⟩ | ⟨-, hnot⟩
    · omega
    · rw [hvalid, hnot] at hv
      cases hv
  have hsub : (t.itable ip).ref - 1 = (s.itable ip).ref := by
    rw [href, hcounted, Nat.add_sub_cancel]
  refine ⟨by simp only [InodeSys.iput, if_neg hkeep, bind, Except.bind, hsub], fun j => ?_⟩
  by_cases hj : j = ip
  · simp [setInode, hj]
  · have := (hrefs j).1
    simpa [setInode, hj] using this

/-! ## What the calls do to a directory -/

theorem length_contents (s : InodeSys) (dp : Fin NINODE) : (s.contents dp).length = (s.itable dp).din.size.toNat :=
  length_slice ..

/-- The state with the blocks and the inode in memory that `writei` on the directory leaves. -/
def stored (s : InodeSys) (dp : Fin NINODE) (disk' : Disk) (din' : Dinode) : InodeSys :=
  { s.setInode dp { s.itable dp with din := din' } with disk := disk' }

theorem stored_self (s : InodeSys) (dp : Fin NINODE) : s.stored dp s.disk (s.itable dp).din = s := s.setInode_self dp

theorem contents_stored (s : InodeSys) (dp : Fin NINODE) (disk' : Disk) (din' : Dinode) :
    (s.stored dp disk' din').contents dp = din'.contents disk' := by
  simp [InodeSys.contents, stored, setInode]

theorem sameRefs_stored (s : InodeSys) (dp : Fin NINODE) (disk' : Disk) (din' : Dinode) :
    SameRefs s (s.stored dp disk' din') := by
  intro j
  by_cases hj : j = dp
  · simp [stored, setInode, hj]
  · simp [stored, setInode, hj]

theorem writeDirent_eq {off : UInt32} {r : Int} {disk' : Disk} {din' : Dinode}
    (h : writei sb s.disk (s.itable dp).inum (s.itable dp).din (copyFrom de) off (.ofNat DIRENT_SIZE) =
      .ok (r, disk', din')) : s.writeDirent sb dp de off = .ok (r, s.stored dp disk' din') := by
  simp only [writeDirent, h, bind, Except.bind, Except.mapError, stored]

namespace DirInode

section

variable (h : DirInode sb dp s)
include h

theorem type_ne : (sb.dinodes s.disk (s.itable dp).inum).type ≠ 0 := by
  rw [← h.din, h.type]
  decide

theorem mapped : (s.itable dp).din.Mapped s.disk (s.itable dp).din.size.toNat := by
  have := h.wellFormed.mapped _ h.lt h.type_ne
  rwa [← h.din] at this

theorem scan_spec (err : DirStop) (stop : List UInt8 → Bool) :
    ∃ l, (∀ m < l, stop (direntAt (s.contents dp) m) = false) ∧
      (l < (s.contents dp).length / DIRENT_SIZE ∧ stop (direntAt (s.contents dp) l) = true ∧
          s.scan sb dp err stop = .ok (.ofNat (DIRENT_SIZE * l), some (direntAt (s.contents dp) l), s) ∨
        l = (s.contents dp).length / DIRENT_SIZE ∧ s.scan sb dp err stop = .ok (.ofNat (DIRENT_SIZE * l), none, s)) := by
  have hself : ({ s.setInode dp { s.itable dp with din := (s.itable dp).din } with disk := s.disk } : InodeSys) = s :=
    s.stored_self dp
  have h0 : UInt32.ofNat (DIRENT_SIZE * 0) = 0 := rfl
  obtain ⟨l, hbefore, hres⟩ := @scanEntries_spec sb _ _ h.mapped h.whole err stop
    ((s.itable dp).din.size.toNat / DIRENT_SIZE + 1) 0 (Nat.zero_le _) (Nat.lt_succ_of_le (Nat.sub_le ..))
  rw [h0] at hres
  rw [length_contents]
  refine ⟨l, fun m hml => hbefore m (Nat.zero_le _) hml, hres.imp ?_ ?_⟩
  · rintro ⟨hl, hstop, hrun⟩
    refine ⟨hl, hstop, ?_⟩
    simp only [scan, hrun, bind, Except.bind, hself]
    rfl
  · rintro ⟨hl, hrun⟩
    refine ⟨hl, ?_⟩
    simp only [scan, hrun, bind, Except.bind, hself]

/-- The entry that `dirlookup` finds. -/
theorem dirlookup_spec (hroom : ∃ ip, (s.itable ip).ref = 0) (name : List UInt8) :
    (∃ l inum ip y, Slots.Holds (s.dirents dp) l (nameOf name) inum ∧ Got inum (s.itable ip) y ∧
        s.dirlookup sb dp name = .ok (some (ip, .ofNat (DIRENT_SIZE * l)), s.setInode ip y)) ∨
      Slots.lookup (s.dirents dp) (nameOf name) = none ∧ s.dirlookup sb dp name = .ok (none, s) := by
  have hstop (de : List UInt8) : (direntInum de != 0 && namecmp name (direntName de) == 0) = true ↔
      direntOf de = some (nameOf name, (direntInum de).toUInt32) := by
    rw [direntOf_eq_some]
    simp only [Bool.and_eq_true, bne_iff_ne, beq_iff_eq, namecmp_eq_zero_iff, and_true]
    exact and_congr_right fun _ => eq_comm
  obtain ⟨l, hbefore, hres⟩ := h.scan_spec .dirlookupRead fun de => direntInum de != 0 && namecmp name (direntName de) == 0
  unfold dirlookup
  rw [if_neg (by simp [h.type])]
  rcases hres with ⟨hl, hfound, hrun⟩ | ⟨hl, hrun⟩
  · obtain ⟨ip, y, hget, hgot⟩ := iget_got hroom (direntInum (direntAt (s.contents dp) l)).toUInt32
    refine .inl ⟨l, _, ip, y, holds_direntsOf.mpr ⟨hl, (hstop _).mp hfound⟩, hgot, ?_⟩
    simp only [hrun, bind, Except.bind, hget, Except.mapError]
  · refine .inr ⟨Slots.lookup_eq_none_iff.mpr fun m inum hm => ?_, ?_⟩
    · obtain ⟨hlt, hde⟩ := holds_direntsOf.mp hm
      have hno := hbefore m (hl ▸ hlt)
      have hinum := (direntOf_eq_some.mp hde).2.2
      rw [(hstop _).mpr (by rw [hde, hinum])] at hno
      cases hno
    · simp only [hrun, bind, Except.bind]

/-- A state in which only the bytes of the directory may be different. -/
theorem of_stored {disk' : Disk} {din' : Dinode} (hwf : sb.WellFormed disk')
    (hdin : sb.dinodes disk' (s.itable dp).inum = din') (htype : din'.type = (s.itable dp).din.type)
    (hwhole : DIRENT_SIZE ∣ din'.size.toNat) : DirInode sb dp (s.stored dp disk' din') := by
  constructor
  all_goals simp only [stored, setInode, Function.update_self]
  · exact hwf
  · exact h.lt
  · exact hdin.symm
  · rw [htype, h.type]
  · exact hwhole

/-- `writei` of an entry stores all of it or, if it is behind the last one, may store nothing. -/
theorem writeDirent_spec (hde : de.length = DIRENT_SIZE) {l : Nat} (hl : l ≤ (s.contents dp).length / DIRENT_SIZE) :
    ∃ r u, s.writeDirent sb dp de (.ofNat (DIRENT_SIZE * l)) = .ok (r, u) ∧ DirInode sb dp u ∧ SameRefs s u ∧
      (r = DIRENT_SIZE ∧ u.contents dp = splice (s.contents dp) (DIRENT_SIZE * l) de ∨
        r ≠ DIRENT_SIZE ∧ l = (s.contents dp).length / DIRENT_SIZE ∧ u.contents dp = s.contents dp ∧ NoSpace sb dp u) := by
  have hlen : de.length = (UInt32.ofNat DIRENT_SIZE).toNat := hde
  have hmax := h.mapped.le_max
  have hwhole := h.whole
  have hoff := toNat_direntOff h.mapped (length_contents s dp ▸ hl)
  have hn : (UInt32.ofNat DIRENT_SIZE).toNat = DIRENT_SIZE := rfl
  have hle : DIRENT_SIZE * l ≤ (s.contents dp).length := by
    simp only [DIRENT_SIZE] at hl ⊢
    omega
  rw [← length_contents] at hmax hwhole
  have hspec := @writei_copyFrom sb s.disk _ de h.wellFormed h.lt h.type_ne (.ofNat (DIRENT_SIZE * l)) _ hlen
  rw [← h.din, hoff, hn] at hspec
  rcases hspec with ⟨hmay, heq⟩ | ⟨-, m, disk', din', hm, heq, hw, hfull⟩
  · refine ⟨-1, s, ?_, h, fun j => ⟨rfl, rfl⟩, .inr ⟨by decide, ?_⟩⟩
    · rw [writeDirent_eq heq, stored_self]
    · -- the entry does not fit, so that it is behind the last one and the file has the largest size
      rw [Dinode.MayWrite, hoff, hn, ← length_contents] at hmay
      simp only [DIRENT_SIZE, MAXFILE, NDIRECT, NINDIRECT, BSIZE] at hmay hl hle hmax hwhole
      refine ⟨?_, rfl, .inr ?_⟩
      · simp only [DIRENT_SIZE]
        omega
      · simp only [MAXFILE, NDIRECT, NINDIRECT, BSIZE]
        omega
  · have hcontents : din'.contents disk' = splice (s.contents dp) (DIRENT_SIZE * l) (de.take m) := by
      rw [hw.contents, ← h.din]
      rfl
    have hsize : din'.size.toNat = (splice (s.contents dp) (DIRENT_SIZE * l) (de.take m)).length := by
      rw [← hcontents, Dinode.contents, length_slice]
    have hrun := writeDirent_eq heq
    have hrefs := s.sameRefs_stored dp disk' din'
    have hnew := s.contents_stored dp disk' din'
    have hstored := h.of_stored hw.wellFormed hw.self (by rw [hw.type, h.din])
    by_cases hlt : m < DIRENT_SIZE
    · -- no block for the entry, and entries do not cross the end of a block
      obtain ⟨hfull, hzero, haligned⟩ := hfull hlt
      have hm0 : m = 0 := by
        simp only [DIRENT_SIZE, BSIZE] at hlt haligned
        omega
      rw [hm0, List.take_zero, splice_nil] at hcontents hsize
      refine ⟨m, _, hrun, hstored (hsize ▸ hwhole), hrefs, .inr ⟨?_, ?_, hnew.trans hcontents, .inl hfull⟩⟩
      · rw [hm0]
        decide
      · by_contra hne
        apply h.mapped _ _ hzero
        rw [← length_contents]
        simp only [DIRENT_SIZE, BSIZE] at hl hne hle ⊢
        omega
    · have hall : m = DIRENT_SIZE := by omega
      rw [hall, List.take_of_length_le hde.le] at hcontents hsize
      refine ⟨m, _, hrun, hstored ?_, hrefs, .inl ⟨by rw [hall], hnew.trans hcontents⟩⟩
      rw [hsize, length_splice hle, hde]
      simp only [DIRENT_SIZE] at hwhole ⊢
      omega

/-- The place that `dirlink` takes: an entry that is not in use, or the one behind the last one. -/
theorem scan_free :
    ∃ l de, l ≤ (s.contents dp).length / DIRENT_SIZE ∧ (∀ k a, ¬ Slots.Holds (s.dirents dp) l k a) ∧
      s.scan sb dp .dirlinkRead (fun de => direntInum de == 0) = .ok (.ofNat (DIRENT_SIZE * l), de, s) := by
  obtain ⟨l, -, ⟨hl, hstop, hrun⟩ | ⟨hl, hrun⟩⟩ := h.scan_spec .dirlinkRead fun de => direntInum de == 0
  · refine ⟨l, _, hl.le, fun k a hholds => ?_, hrun⟩
    exact (direntOf_eq_some.mp (holds_direntsOf.mp hholds).2).1 (by simpa using hstop)
  · exact ⟨l, _, hl.le, fun k a hholds => absurd (holds_direntsOf.mp hholds).1 hl.not_lt, hrun⟩

theorem stores (hde : de.length = DIRENT_SIZE) {l : Nat}
    (hl : l ≤ (s.contents dp).length / DIRENT_SIZE) (ht : t.contents dp = splice (s.contents dp) (DIRENT_SIZE * l) de) :
    Slots.Stores (s.dirents dp) l (direntOf de) (t.dirents dp) := by
  rw [dirents, dirents, ht]
  exact direntsOf_splice hde (length_contents s dp ▸ h.whole) ((Nat.mul_le_mul_left _ hl).trans (Nat.mul_div_le ..))

/-- A change of the table that does not concern the copy of the directory. -/
theorem of_same (hsame : SameDir dp s t) : DirInode sb dp t := by
  obtain ⟨hdisk, hinum, hdin⟩ := hsame
  constructor
  · rw [hdisk]; exact h.wellFormed
  · rw [hinum]; exact h.lt
  · rw [hdin, hdisk, hinum]; exact h.din
  · rw [hdin]; exact h.type
  · rw [hdin]; exact h.whole

end

end DirInode

namespace Directory

section

variable (h : Directory sb dp s)
include h

theorem of_dirInode (ht : DirInode sb dp t)
    (href : ∀ j, (t.itable j).ref = (s.itable j).ref) (hunique : Slots.Unique (t.dirents dp)) : Directory sb dp t := by
  obtain ⟨ip, hip⟩ := h.room
  exact { ht with ref := by rw [href]; exact h.ref, unique := hunique, room := ⟨ip, by rw [href, hip]⟩ }

theorem finds (name : List UInt8) : Finds sb dp s name (s.inumOf dp name) := by
  rcases h.dirlookup_spec h.room name with ⟨l, inum, ip, y, hholds, hgot, hrun⟩ | ⟨hnone, hrun⟩
  · refine ⟨_, _, hrun, ?_⟩
    rw [inumOf, h.unique.lookup_eq_some_iff.mpr ⟨l, hholds⟩]
    simp [setInode, hgot.inum]
  · exact ⟨_, _, hrun, hnone.symm⟩

theorem dirlink_present (inum : UInt32) (hpresent : s.inumOf dp name ≠ none) :
    ∃ s', s.dirlink sb dp name inum = .ok (-1, s') ∧ Directory sb dp s' ∧ s'.disk = s.disk ∧
      s'.contents dp = s.contents dp := by
  rcases h.dirlookup_spec h.room name with ⟨l, i, ip, y, hholds, hgot, hrun⟩ | ⟨hnone, -⟩
  · obtain ⟨hput, hrefs⟩ := hgot.iput sb fun j => ⟨rfl, rfl⟩
    have hsame := (hgot.sameDir h.ref).trans (.setRef dp _ ip (s.itable ip).ref)
    refine ⟨_, ?_, h.of_dirInode (h.of_same hsame) hrefs ?_, hsame.disk, hsame.contents⟩
    · simp only [dirlink, hrun, bind, Except.bind, hput, Except.mapError]
    · rw [dirents, hsame.contents]
      exact h.unique
  · exact absurd hnone hpresent

theorem dirlink_absent (hpos : 0 < inum.toNat) (hlt : inum.toNat < 65536) (habsent : s.inumOf dp name = none) :
    ∃ r s', s.dirlink sb dp name inum = .ok (r, s') ∧ Directory sb dp s' ∧
      (r = 0 ∧ (∀ name', s'.inumOf dp name' = if nameOf name' = nameOf name then some inum else s.inumOf dp name') ∨
        r = -1 ∧ s'.contents dp = s.contents dp ∧ NoSpace sb dp s') := by
  rcases h.dirlookup_spec h.room name with ⟨l, i, ip, y, hholds, -⟩ | ⟨-, hrun⟩
  · exact absurd habsent (Slots.lookup_ne_none hholds)
  · obtain ⟨l, de, hle, hempty, hscan⟩ := h.scan_free
    have hlen : (bytes16 inum.toUInt16 ++ strncpy DIRSIZ name).length = DIRENT_SIZE := by
      rw [List.length_append, length_strncpy]
      rfl
    obtain ⟨r, u, hwrite, hu, hrefs, hres⟩ := h.writeDirent_spec hlen hle
    rcases hres with ⟨hr, hcontents⟩ | ⟨hr, -, hcontents, hspace⟩
    · have hstores := h.stores hlen hle hcontents
      rw [direntOf_link name hpos hlt] at hstores
      obtain ⟨hunique, hlookup⟩ := h.unique.insert hstores hempty habsent
      refine ⟨0, u, ?_, h.of_dirInode hu (fun j => (hrefs j).1) hunique, .inl ⟨rfl, fun _ => hlookup _⟩⟩
      simp only [dirlink, hrun, bind, Except.bind, hscan, hwrite, hr, ne_eq, not_true_eq_false, if_false]
    · refine ⟨-1, u, ?_, h.of_dirInode hu (fun j => (hrefs j).1) ?_, .inr ⟨rfl, hcontents, hspace⟩⟩
      · simp only [dirlink, hrun, bind, Except.bind, hscan, hwrite, if_pos hr]
      · rw [dirents, hcontents]
        exact h.unique

theorem clearEntry_present (hpresent : s.inumOf dp name ≠ none) :
    ∃ s', s.clearEntry sb dp name = .ok (0, s') ∧ Directory sb dp s' ∧
      ∀ name', s'.inumOf dp name' = if nameOf name' = nameOf name then none else s.inumOf dp name' := by
  rcases h.dirlookup_spec h.room name with ⟨l, i, ip, y, hholds, hgot, hrun⟩ | ⟨hnone, -⟩
  · have hsame := hgot.sameDir h.ref
    have hl := (holds_direntsOf.mp hholds).1
    have hlen : (List.replicate DIRENT_SIZE (0 : UInt8)).length = DIRENT_SIZE := List.length_replicate
    -- the entry is not behind the last one, so that all of it is written
    obtain ⟨r, u, hwrite, hu, hrefs, ⟨hr, hcontents⟩ | ⟨-, hlast, -⟩⟩ :=
      (h.of_same hsame).writeDirent_spec hlen (hsame.contents ▸ hl.le)
    · obtain ⟨hput, hback⟩ := hgot.iput sb hrefs
      have hsame' := SameDir.setRef dp u ip (s.itable ip).ref
      have hstores := h.stores hlen hl.le (hsame'.contents.trans (hsame.contents ▸ hcontents))
      rw [direntOf_zero] at hstores
      obtain ⟨hunique, hlookup⟩ := h.unique.erase hstores hholds
      refine ⟨_, ?_, h.of_dirInode (hu.of_same hsame') hback hunique, fun _ => hlookup _⟩
      simp only [clearEntry, hrun, bind, Except.bind, hwrite, hr, ne_eq, not_true_eq_false, if_false, hput, Except.mapError]
    · rw [hsame.contents] at hlast
      exact absurd hlast hl.ne
  · exact absurd hnone hpresent

theorem clearEntry_absent (habsent : s.inumOf dp name = none) : s.clearEntry sb dp name = .ok (-1, s) := by
  rcases h.dirlookup_spec h.room name with ⟨l, i, ip, y, hholds, -⟩ | ⟨-, hrun⟩
  · exact absurd habsent (Slots.lookup_ne_none hholds)
  · simp only [clearEntry, hrun, bind, Except.bind]

theorem step {c : DirCall} (hs : c.step sb dp s = some t) : Directory sb dp t := by
  unfold DirCall.step at hs
  split at hs
  · rename_i hok
    cases c with
    | dirlink name inum =>
        by_cases hname : s.inumOf dp name = none
        · obtain ⟨r, s', hrun, hdir, -⟩ := h.dirlink_absent hok.1 hok.2 hname
          simp only [hrun, Except.toOption, Option.map_some, Option.some.injEq] at hs
          exact hs ▸ hdir
        · obtain ⟨s', hrun, hdir, -⟩ := h.dirlink_present inum hname
          simp only [hrun, Except.toOption, Option.map_some, Option.some.injEq] at hs
          exact hs ▸ hdir
    | clearEntry name =>
        by_cases hname : s.inumOf dp name = none
        · simp only [h.clearEntry_absent hname, Except.toOption, Option.map_some, Option.some.injEq] at hs
          exact hs ▸ h
        · obtain ⟨s', hrun, hdir, -⟩ := h.clearEntry_present hname
          simp only [hrun, Except.toOption, Option.map_some, Option.some.injEq] at hs
          exact hs ▸ hdir
  · cases hs

end

end Directory

end InodeSys

end Xv6Net.Fs
