import Xv6Net.Fs.Lemmas.Iappend
import Xv6Net.Fs.Lemmas.Trunc

/-! The image that `mkfs` writes, as a file system of the kernel with the files that it was given. -/

namespace Xv6Net.Fs.Mkfs

open Lib

variable {disk : Disk} {hosts : List HostFile} {bytes : List UInt8} {k : Nat}

/-! ## Inodes of the image -/

variable {image : Disk} {freeblock : Nat} {inum : UInt32} {din : Dinode}

theorem iblock_ne_bmapstart (hi : inum < sb.ninodes) : sb.iblock inum ≠ sb.bmapstart := by
  have := (sb_sane.isInodes_iblock hi).2
  intro heq
  rw [heq] at this
  exact absurd this.2 (Nat.lt_irrefl _)

theorem rinode_eq (freeblock : Nat) (hi : inum < sb.ninodes) :
    rinode image inum = sb.dinodes (marked image freeblock) inum := by
  rw [rinode, Superblock.dinodes, marked_of_ne (iblock_ne_bmapstart hi)]

theorem marked_winode (hi : inum < sb.ninodes) :
    marked (winode image inum din) freeblock = iupdate sb (marked image freeblock) inum din := by
  have hne := iblock_ne_bmapstart hi
  rw [iupdate, marked_of_ne hne, winode, marked, Function.update_comm hne, marked]

theorem winode_of_ge (hi : inum < sb.ninodes) {b : UInt32} (hb : nmeta ≤ b.toNat) : winode image inum din b = image b := by
  have hregion := (sb_sane.isInodes_iblock hi).2
  refine Function.update_of_ne ?_ ..
  rintro rfl
  exact absurd (Nat.lt_of_lt_of_le hregion.2 (by decide)) (Nat.not_lt.mpr hb)

theorem winode_superblock (hi : inum < sb.ninodes) : winode image inum din 1 = image 1 := by
  have hregion := (sb_sane.isInodes_iblock hi).2
  refine Function.update_of_ne ?_ ..
  intro heq
  rw [← heq] at hregion
  exact absurd hregion.1 (by decide)

/-! ## The files on the image -/

/-- Inode `inum` is a file with the given bytes, and has no block more than it needs. -/
structure FileIs (disk : Disk) (inum : UInt32) (bytes : List UInt8) : Prop where
  type : (sb.dinodes disk inum).type ≠ 0
  contents : (sb.dinodes disk inum).contents disk = bytes
  exact : Exact disk (sb.dinodes disk inum) bytes.length

theorem FileIs.size (h : FileIs disk inum bytes) : (sb.dinodes disk inum).size.toNat = bytes.length := by
  rw [← h.contents, Dinode.contents, length_slice]

theorem Exact.congr {disk' : Disk} {din' : Dinode} {size : Nat} (h : Exact disk din size)
    (hslot : ∀ s, din'.slot disk' s = din.slot disk s) : Exact disk' din' size where
  blocks := fun bn => by rw [Dinode.blockAt_congr hslot]; exact h.blocks bn
  indirect := by rw [show din'.indirect = din.indirect from hslot .indirect]; exact h.indirect

theorem FileIs.of_same {disk' : Disk} (h : FileIs disk inum bytes) (hwf : sb.WellFormed disk)
    (hi : inum < sb.ninodes) (hsame : SameFile sb disk disk' inum) : FileIs disk' inum bytes where
  type := by rw [hsame.din]; exact h.type
  contents := by rw [hsame.contents (hwf.mapped inum hi h.type), h.contents]
  exact := by rw [hsame.din]; exact h.exact.congr hsame.slot

/-- The sum of the blocks of files with the given bytes. -/
def total (files : List (List UInt8)) : Nat := nmeta + (files.map fun f => blocksFor f.length).sum

/-- The state when the inodes from 1 on are files with the given bytes. -/
structure State.Inv (m : State) (files : List (List UInt8)) : Prop where
  wellFormed : sb.WellFormed (marked m.image m.freeblock)
  zeroed : Zeroed m.image m.freeblock
  freeinode : m.freeinode = .ofNat (files.length + 1)
  count : m.freeblock = total files
  free : ∀ inum < sb.ninodes, inum = 0 ∨ files.length < inum.toNat →
    sb.dinodes (marked m.image m.freeblock) inum = .zero
  file : ∀ k bytes, files[k]? = some bytes → FileIs (marked m.image m.freeblock) (.ofNat (k + 1)) bytes
  superblock : m.image 1 = format.image 1
  length : files.length < NINODES

theorem inum_lt (hk : k < NINODES) : UInt32.ofNat k < sb.ninodes ∧ (UInt32.ofNat k).toNat = k := by
  have hn : sb.ninodes.toNat = NINODES := by decide
  have hnat : (UInt32.ofNat k).toNat = k := by
    simp only [NINODES] at hk
    rw [UInt32.toNat_ofNat']; omega
  exact ⟨by rw [UInt32.lt_iff_toNat_lt, hnat, hn]; exact hk, hnat⟩

theorem inum_ne {j : Nat} (hj : j < NINODES) (hk : k < NINODES) (h : j ≠ k) : UInt32.ofNat j ≠ .ofNat k := by
  intro heq
  have := congrArg UInt32.toNat heq
  rw [(inum_lt hj).2, (inum_lt hk).2] at this
  exact h this

variable {m : State} {files : List (List UInt8)}

theorem State.Inv.nmeta_le (h : m.Inv files) : nmeta ≤ m.freeblock := by
  rw [h.count]
  exact Nat.le_add_right ..

/-- An inode with type 0 has never been written. -/
theorem State.Inv.free_of_type (h : m.Inv files) (hi : inum < sb.ninodes)
    (ht : (sb.dinodes (marked m.image m.freeblock) inum).type = 0) : sb.dinodes (marked m.image m.freeblock) inum = .zero := by
  refine h.free inum hi ?_
  by_contra hno
  have hne : inum.toNat ≠ 0 := fun h0 => hno (.inl (UInt32.toNat_inj.mp h0))
  have hk : inum.toNat - 1 < files.length := by omega
  have hfile := h.file _ _ (List.getElem?_eq_getElem hk)
  rw [Nat.sub_add_cancel (by omega), UInt32.ofNat_toNat] at hfile
  exact hfile.type ht

/-! ## New files -/

theorem exact_zero (h : ∀ i, din.addrs i = 0) : Exact disk din 0 where
  blocks := by
    intro bn
    have hslot (s : Slot) : din.slot disk s = 0 := by
      cases s with
      | direct i => exact h _
      | indirect => exact h _
      | entry j => exact if_pos (h _)
    have : din.blockAt disk bn = 0 := by
      rw [Dinode.blockAt]
      cases Slot.ofIndex bn with
      | none => rfl
      | some s => exact hslot s
    simp [this]
  indirect := by simp [Dinode.indirect, h]

/-- One file is new or has other bytes, and the others are as before. -/
theorem State.Inv.change (h : m.Inv files) {m' : State} {files' : List (List UInt8)} {ip' : Dinode}
    (hle : files.length ≤ files'.length) (hlen : files'.length < NINODES)
    (hget : ∀ j, files'[j]? = if j = k then some bytes else files[j]?)
    (hw : Written sb (marked m.image m.freeblock) (.ofNat (k + 1)) (marked m'.image m'.freeblock) ip')
    (hsame : ∀ q < sb.ninodes, q ≠ .ofNat (k + 1) → (sb.dinodes (marked m.image m.freeblock) q).type ≠ 0 →
      SameFile sb (marked m.image m.freeblock) (marked m'.image m'.freeblock) q)
    (hfile : FileIs (marked m'.image m'.freeblock) (.ofNat (k + 1)) bytes) (hz : Zeroed m'.image m'.freeblock)
    (hinode : m'.freeinode = .ofNat (files'.length + 1)) (hcount : m'.freeblock = total files')
    (hsuper : m'.image 1 = m.image 1) : m'.Inv files' := by
  have hkl : k < files'.length := by
    have := hget k
    rw [if_pos rfl] at this
    exact (List.getElem?_eq_some_iff.mp this).1
  have hk : k + 1 < NINODES := by omega
  refine ⟨hw.wellFormed, hz, hinode, hcount, fun inum hi hor => ?_, fun j bytes' hj => ?_, hsuper.trans h.superblock, hlen⟩
  · have hne : inum ≠ .ofNat (k + 1) := by
      rintro rfl
      rw [(inum_lt hk).2] at hor
      refine hor.elim (fun h0 => ?_) (by omega)
      exact inum_ne hk (by decide) (Nat.succ_ne_zero k) h0
    rw [hw.others inum hi hne]
    exact h.free inum hi (hor.imp_right (by omega))
  · rw [hget] at hj
    by_cases hjk : j = k
    · rw [if_pos hjk] at hj
      obtain rfl := Option.some.inj hj
      rwa [hjk]
    · rw [if_neg hjk] at hj
      obtain ⟨hjl, -⟩ := List.getElem?_eq_some_iff.mp hj
      have hj' : j + 1 < NINODES := by omega
      have hold := h.file j bytes' hj
      exact hold.of_same h.wellFormed (inum_lt hj').1
        (hsame _ (inum_lt hj').1 (inum_ne hj' hk (by omega)) hold.type)

/-- An inode with no blocks at the first free place. -/
theorem State.Inv.create (h : m.Inv files) (hlen : files.length + 1 < NINODES) (ht : din.type ≠ 0) (hsize : din.size = 0)
    (haddrs : ∀ i, din.addrs i = 0) :
    State.Inv ⟨winode m.image (.ofNat (files.length + 1)) din, .ofNat (files.length + 1 + 1), m.freeblock⟩ (files ++ [[]]) := by
  obtain ⟨hlt, hnat⟩ := inum_lt hlen
  have hfree := congrArg Dinode.type (h.free _ hlt (.inr (by omega)))
  have hp₀ := h.wellFormed.pending hlt
  have hp : sb.Pending (marked m.image m.freeblock) (.ofNat (files.length + 1)) din := hp₀.of_empty (.inl hfree) (.inr haddrs)
  have hw : Written sb (marked m.image m.freeblock) (.ofNat (files.length + 1)) _ _ :=
    .iupdate sb_sane hp (fun _ bn hbn => by simp [hsize, BSIZE] at hbn) fun _ _ => rfl
  have hsame (q : UInt32) (hq : q < sb.ninodes) (hne : q ≠ .ofNat (files.length + 1)) (htq) :
      SameFile sb (marked m.image m.freeblock) (iupdate sb (marked m.image m.freeblock) (.ofNat (files.length + 1)) din) q :=
    (Grows.refl hp₀).sameFile sb_sane hp₀ hq hne htq
  rw [← marked_winode hlt] at hw hsame
  have hfile : FileIs (marked (winode m.image (.ofNat (files.length + 1)) din) m.freeblock) (.ofNat (files.length + 1)) [] := by
    refine ⟨?_, ?_, ?_⟩ <;> rw [hw.self]
    · exact ht
    · rw [Dinode.contents, hsize]; rfl
    · exact exact_zero haddrs
  have hget (j : Nat) : (files ++ [[]])[j]? = if j = files.length then some [] else files[j]? := by grind
  refine h.change (by simp) (by simpa using hlen) hget hw hsame hfile (fun b hb => ?_) (by simp) ?_ (winode_superblock hlt)
  · exact (winode_of_ge hlt (Nat.le_trans h.nmeta_le hb)).trans (h.zeroed b hb)
  · rw [h.count, total, total, List.map_append, List.sum_append]
    rfl

theorem State.Inv.ialloc (h : m.Inv files) (hlen : files.length + 1 < NINODES) {type : UInt16} (ht : type ≠ 0) :
    (Mkfs.ialloc m type).1 = .ofNat (files.length + 1) ∧ (Mkfs.ialloc m type).2.Inv (files ++ [[]]) := by
  refine ⟨h.freeinode, ?_⟩
  have hnext : m.freeinode + 1 = .ofNat (files.length + 1 + 1) := by rw [UInt32.ofNat_add (files.length + 1), h.freeinode]; rfl
  rw [Mkfs.ialloc, hnext, h.freeinode]
  exact h.create hlen ht rfl fun _ => rfl

/-! ## Appending to a file -/

theorem total_set (hk : files[k]? = some bytes) (bytes' : List UInt8) :
    total (files.set k bytes') + blocksFor bytes.length = total files + blocksFor bytes'.length := by
  suffices hsum : ((files.set k bytes').map fun f => blocksFor f.length).sum + blocksFor bytes.length =
      (files.map fun f => blocksFor f.length).sum + blocksFor bytes'.length by
    simp only [total]; omega
  induction files generalizing k with
  | nil => simp at hk
  | cons f files ih =>
      cases k with
      | zero =>
          obtain rfl : f = bytes := by simpa using hk
          simp only [List.set_cons_zero, List.map_cons, List.sum_cons]; omega
      | succ k =>
          have := ih (k := k) (by simpa using hk)
          simp only [List.set_cons_succ, List.map_cons, List.sum_cons]; omega

theorem State.Inv.iappend (h : m.Inv files) {data : List UInt8} (hk : files[k]? = some bytes)
    (hmax : bytes.length + data.length ≤ MAXFILE * BSIZE) (hfit : total (files.set k (bytes ++ data)) ≤ FSSIZE) :
    ∃ m', Mkfs.iappend m (.ofNat (k + 1)) data = .ok m' ∧ m'.Inv (files.set k (bytes ++ data)) := by
  have hkl := (List.getElem?_eq_some_iff.mp hk).1
  have hk' : k + 1 < NINODES := by have := h.length; omega
  obtain ⟨hlt, hnat⟩ := inum_lt hk'
  have hfile := h.file k bytes hk
  have hsize := hfile.size
  have hset := total_set hk (bytes ++ data)
  rw [List.length_append] at hset
  obtain ⟨image', freeblock', din', ha⟩ := appendLoop_spec data (data.length + 1) 0 bytes.length m.image m.freeblock _
    ⟨h.wellFormed.pending hlt, hfile.type, h.nmeta_le, h.zeroed, hfile.exact⟩ (Nat.zero_le _) (by omega)
    (by simpa using hmax) (by rw [Nat.sub_zero, h.count]; omega)
  have happend := ha.append
  have hwrite := ha.write
  have hexact := ha.exact
  have hcount := ha.count
  simp only [List.drop_zero, Nat.sub_zero] at happend hwrite hexact hcount
  rw [← hsize] at hwrite
  obtain ⟨hw, ht, hslot, hcontents, hsame⟩ := writeLoop_append h.wellFormed hlt hfile.type (by rwa [hsize]) hwrite
  rw [hsize] at hw ht hslot hcontents hsame
  generalize hd : ({ din' with size := .ofNat (bytes.length + data.length) } : Dinode) = d at hw ht hslot hcontents hsame
  rw [← marked_winode hlt] at hw hslot hcontents hsame
  have hfile' : FileIs (marked (winode image' (.ofNat (k + 1)) d) freeblock') (.ofNat (k + 1)) (bytes ++ data) := by
    refine ⟨?_, ?_, ?_⟩ <;> rw [hw.self]
    · exact ht
    · rw [hcontents, hfile.contents]
    · rw [List.length_append]
      exact hexact.congr hslot
  have hget (j : Nat) : (files.set k (bytes ++ data))[j]? = if j = k then some (bytes ++ data) else files[j]? := by grind
  refine ⟨⟨winode image' (.ofNat (k + 1)) d, m.freeinode, freeblock'⟩, ?_, ?_⟩
  · rw [Mkfs.iappend, rinode_eq m.freeblock hlt, hsize, happend, ← hd]
    rfl
  · have hfree := h.count
    refine h.change (by simp) (by simpa using h.length) hget hw hsame hfile' (fun b hb => ?_) (by simpa using h.freeinode) ?_ ?_
    · have hlo : nmeta ≤ freeblock' := by
        have := h.nmeta_le
        have := blocksFor_mono (Nat.le_add_right bytes.length data.length)
        omega
      exact (winode_of_ge hlt (Nat.le_trans hlo hb)).trans (ha.zeroed b hb)
    · show freeblock' = _
      omega
    · exact (winode_superblock hlt).trans (ha.low 1 (by decide))

/-- Appending what is read from a host file. -/
theorem State.Inv.iappend_reads (h : m.Inv files) (hk : files[k]? = some bytes)
    (reads : List (List UInt8)) (hmax : bytes.length + reads.flatten.length ≤ MAXFILE * BSIZE)
    (hfit : total (files.set k (bytes ++ reads.flatten)) ≤ FSSIZE) :
    ∃ m', reads.foldlM (fun m buf => Mkfs.iappend m (.ofNat (k + 1)) buf) m = .ok m' ∧
      m'.Inv (files.set k (bytes ++ reads.flatten)) := by
  induction reads generalizing m files bytes with
  | nil =>
      refine ⟨m, rfl, ?_⟩
      obtain ⟨hkl, rfl⟩ := List.getElem?_eq_some_iff.mp hk
      simpa using h
  | cons buf reads ih =>
      simp only [List.flatten_cons, List.length_append, ← List.append_assoc] at hmax hfit ⊢
      have hset := total_set hk (bytes ++ buf)
      have hset' := total_set hk (bytes ++ buf ++ reads.flatten)
      have hmono : blocksFor (bytes ++ buf).length ≤ blocksFor (bytes ++ buf ++ reads.flatten).length :=
        blocksFor_mono (by simp)
      obtain ⟨m₁, hrun, h₁⟩ := h.iappend hk (by omega) (show total (files.set k (bytes ++ buf)) ≤ FSSIZE by omega)
      have hkl := (List.getElem?_eq_some_iff.mp hk).1
      have hk₁ : (files.set k (bytes ++ buf))[k]? = some (bytes ++ buf) := by simp [hkl]
      obtain ⟨m', hruns, h'⟩ := ih h₁ hk₁ (by rw [List.length_append]; omega) (by simpa using hfit)
      refine ⟨m', ?_, by simpa using h'⟩
      rw [List.foldlM_cons, hrun]
      exact hruns

/-! ## The whole program -/

theorem length_dirent (inum : UInt16) (name : List UInt8) : (dirent inum name).length = 16 := by
  simp only [dirent, List.length_append, length_bytes16, List.length_take, List.length_replicate, DIRSIZ]
  omega

/-- The bytes of the directory do not matter for the number of blocks. -/
theorem total_cons_le {dir dir' : List UInt8} {rest rest' : List (List UInt8)} (hdir : dir.length ≤ dir'.length)
    (hrest : (rest.map fun f => blocksFor f.length).sum ≤ (rest'.map fun f => blocksFor f.length).sum) :
    total (dir :: rest) ≤ total (dir' :: rest') := by
  have := blocksFor_mono hdir
  simp only [total, List.map_cons, List.sum_cons]
  omega

/-- One of the arguments. -/
theorem State.Inv.addFile {dir : List UInt8} {rest : List (List UInt8)} (h : m.Inv (dir :: rest)) {f : HostFile}
    (hname : 47 ∉ shortname f.path) (hlen : rest.length + 2 < NINODES) (hdir : dir.length + 16 ≤ MAXFILE * BSIZE)
    (hsize : f.bytes.length ≤ MAXFILE * BSIZE)
    (hfit : ∀ dir' : List UInt8, dir'.length = dir.length + 16 → total (dir' :: (rest ++ [f.bytes])) ≤ FSSIZE) :
    ∃ m' dir', Mkfs.addFile m f = .ok m' ∧ dir'.length = dir.length + 16 ∧ m'.Inv (dir' :: (rest ++ [f.bytes])) := by
  obtain ⟨hinum, h₁⟩ := h.ialloc (by simpa using hlen) (show T_FILE ≠ 0 by decide)
  generalize hentry : dirent (UInt32.ofNat (rest.length + 1 + 1)).toUInt16 (skipUnderscore (shortname f.path)) = entry
  have hentryLen : entry.length = 16 := hentry ▸ length_dirent ..
  have hdirLen : (dir ++ entry).length = dir.length + 16 := by rw [List.length_append, hentryLen]
  have hfit₁ : total ((dir ++ entry) :: (rest ++ [[]])) ≤ FSSIZE :=
    Nat.le_trans (total_cons_le (Nat.le_refl _) (by simp [show blocksFor 0 = 0 by decide])) (hfit _ hdirLen)
  have hroot : ((dir :: rest) ++ [[]])[0]? = some dir := rfl
  obtain ⟨m₂, hrun₂, h₂⟩ := h₁.iappend hroot (by omega) hfit₁
  have hk : ((dir ++ entry) :: (rest ++ [[]]))[rest.length + 1]? = some [] := by simp
  have hset : ((dir ++ entry) :: (rest ++ [[]])).set (rest.length + 1) ([] ++ f.bytes) =
      (dir ++ entry) :: (rest ++ [f.bytes]) := by simp
  obtain ⟨m₃, hrun₃, h₃⟩ := State.Inv.iappend_reads h₂ hk f.reads (by rwa [List.length_nil, Nat.zero_add])
    (hset ▸ hfit _ hdirLen)
  refine ⟨m₃, _, ?_, hdirLen, hset ▸ h₃⟩
  rw [Mkfs.addFile, if_neg hname]
  simp only [hinum]
  rw [List.length_cons, hentry, show ROOTINO = .ofNat (0 + 1) from rfl, hrun₂]
  exact hrun₃

theorem State.Inv.addFiles (hosts : List HostFile) :
    ∀ {m : State} {dir : List UInt8} {rest : List (List UInt8)}, m.Inv (dir :: rest) →
      rest.length + hosts.length + 1 < NINODES → dir.length + 16 * hosts.length ≤ MAXFILE * BSIZE →
      (∀ f ∈ hosts, f.bytes.length ≤ MAXFILE * BSIZE) →
      (∀ dir' : List UInt8, dir'.length = dir.length + 16 * hosts.length →
        total (dir' :: (rest ++ hosts.map HostFile.bytes)) ≤ FSSIZE) →
      (hosts.foldlM Mkfs.addFile m = .error .slash ∧ ∃ f ∈ hosts, 47 ∈ shortname f.path) ∨
      ∃ m' dir', hosts.foldlM Mkfs.addFile m = .ok m' ∧ dir'.length = dir.length + 16 * hosts.length ∧
        m'.Inv (dir' :: (rest ++ hosts.map HostFile.bytes)) := by
  induction hosts with
  | nil => exact fun {m dir _} h _ _ _ _ => .inr ⟨m, dir, rfl, rfl, by simpa using h⟩
  | cons f hosts ih =>
      intro m dir rest h hlen hdir hsize hfit
      rw [List.length_cons] at hlen hdir hfit
      by_cases hname : 47 ∈ shortname f.path
      · refine .inl ⟨?_, f, List.mem_cons_self, hname⟩
        rw [List.foldlM_cons, Mkfs.addFile, if_pos hname]
        rfl
      · have hfit₁ (dir' : List UInt8) (hdir' : dir'.length = dir.length + 16) :
            total (dir' :: (rest ++ [f.bytes])) ≤ FSSIZE := by
          refine Nat.le_trans (total_cons_le ?_ ?_)
            (hfit (dir' ++ .replicate (16 * hosts.length) 0) (by simp [hdir']; omega))
          · simp
          · simp
        obtain ⟨m₁, dir₁, hrun, hdir₁, h₁⟩ := h.addFile hname (by omega) (by omega) (hsize f List.mem_cons_self) hfit₁
        have hconcat : rest ++ [f.bytes] ++ hosts.map HostFile.bytes = rest ++ (f :: hosts).map HostFile.bytes := by simp
        have := ih h₁ (by simp; omega) (by omega) (fun g hg => hsize g (List.mem_cons_of_mem _ hg)) (by
          intro dir' hdir'
          rw [hconcat]
          exact hfit dir' (by omega))
        rw [hconcat] at this
        rw [List.foldlM_cons, hrun]
        rcases this with ⟨hslash, g, hg, hmem⟩ | ⟨m', dir', hruns, hlen', h'⟩
        · exact .inl ⟨hslash, g, List.mem_cons_of_mem _ hg, hmem⟩
        · exact .inr ⟨m', dir', hruns, by rw [List.length_cons]; omega, h'⟩

theorem format_image {b : UInt32} (hb : b ≠ 1) : format.image b = .zero := by
  simp only [format, Function.update_of_ne hb]

theorem format_inv : format.Inv [] := by
  have hdin (inum : UInt32) (hi : inum < sb.ninodes) : sb.dinodes (marked format.image nmeta) inum = .zero := by
    have hregion := (sb_sane.isInodes_iblock hi).2
    have hne : sb.iblock inum ≠ 1 := by
      intro heq
      rw [heq] at hregion
      exact absurd hregion.1 (by decide)
    rw [← rinode_eq nmeta hi, rinode, format_image hne, Block.dinode_zero]
  refine ⟨?_, fun b hb => format_image ?_, rfl, rfl, fun inum hi _ => hdin inum hi, by simp, rfl, by decide⟩
  · have hsize : sb.size.toNat = FSSIZE := by decide
    have hstart : sb.datastart = nmeta := by decide
    refine sb_sane.wellFormed_empty (fun inum hi => congrArg Dinode.type (hdin inum hi)) fun b hb => ?_
    rw [hstart]
    exact bit_marked (by decide) (hsize ▸ hb)
  · rintro rfl
    exact absurd hb (by decide)

/-- The files in the order of the arguments, behind the root directory. -/
theorem populate_spec (hcount : hosts.length ≤ 198)
    (hsize : ∀ f ∈ hosts, f.bytes.length ≤ MAXFILE * BSIZE) (hfit : blocksNeeded hosts ≤ FSSIZE) :
    (populate hosts = .error .slash ∧ ∃ f ∈ hosts, 47 ∈ shortname f.path) ∨
    ∃ m dir, populate hosts = .ok m ∧ dir.length = 16 * (hosts.length + 2) ∧ m.freeblock ≤ FSSIZE ∧
      m.Inv (dir :: hosts.map HostFile.bytes) := by
  have hfit' (dir' : List UInt8) (hdir : dir'.length ≤ 16 * (hosts.length + 2)) :
      total (dir' :: hosts.map HostFile.bytes) ≤ FSSIZE := by
    refine Nat.le_trans ?_ hfit
    have := blocksFor_mono hdir
    simp only [total, blocksNeeded, List.map_cons, List.sum_cons, List.map_map, Function.comp_def]
    omega
  have hfit₀ (dir' : List UInt8) (hdir : dir'.length ≤ 32) : total [dir'] ≤ FSSIZE :=
    Nat.le_trans (total_cons_le (Nat.le_refl _) (by simp)) (hfit' dir' (by omega))
  obtain ⟨hinum, h₁⟩ := format_inv.ialloc (by decide) (show T_DIR ≠ 0 by decide)
  generalize hdot : dirent (1 : UInt32).toUInt16 [46] = dot
  generalize hdotdot : dirent (1 : UInt32).toUInt16 [46, 46] = dotdot
  have hdotLen : dot.length = 16 := hdot ▸ length_dirent ..
  have hdotdotLen : dotdot.length = 16 := hdotdot ▸ length_dirent ..
  have hmax : 32 ≤ MAXFILE * BSIZE := by decide
  have hroot : ([] ++ [[]] : List (List UInt8))[0]? = some [] := rfl
  obtain ⟨m₂, hrun₂, h₂⟩ := h₁.iappend hroot (by rw [List.length_nil, hdotLen]; omega)
    (hfit₀ ([] ++ dot) (by rw [List.nil_append]; omega))
  have hroot₂ : (([] ++ [[]] : List (List UInt8)).set 0 ([] ++ dot))[0]? = some dot := rfl
  obtain ⟨m₃, hrun₃, h₃⟩ := h₂.iappend hroot₂ (by omega) (hfit₀ (dot ++ dotdot) (by rw [List.length_append]; omega))
  have h₃ : m₃.Inv [dot ++ dotdot] := h₃
  have hdir : (dot ++ dotdot).length = 32 := by rw [List.length_append, hdotLen, hdotdotLen]
  have hpopulate : populate hosts = hosts.foldlM Mkfs.addFile m₃ := by
    have hinum : (Mkfs.ialloc format T_DIR).1 = 1 := hinum
    have hone : UInt32.ofNat (0 + 1) = 1 := rfl
    rw [hone] at hrun₂ hrun₃
    simp only [populate, hinum, hdot, hdotdot, if_pos (show (1 : UInt32) = ROOTINO from rfl), hrun₂, bind, Except.bind, hrun₃]
  have hbound : 32 + 16 * 198 ≤ MAXFILE * BSIZE := by decide
  have := State.Inv.addFiles hosts h₃ (by simp only [NINODES, List.length_nil]; omega) (by omega) hsize
    fun dir' hdir' => hfit' dir' (by omega)
  rw [hpopulate]
  exact this.imp_right fun ⟨m, dir, hrun, hlen, h⟩ =>
    ⟨m, dir, hrun, by omega, h.count ▸ hfit' dir (by omega), h⟩

/-! ## The finished image -/

theorem fsinit_of_superblock (h : disk 1 = format.image 1) : fsinit disk = .ok sb := by
  have hdecode : Superblock.decode (format.image 1) = sb := by decide
  simp only [fsinit, h, hdecode]
  rfl

/-- What `main` does after the arguments. -/
def finish (m : State) : State := { fixRoot m with image := marked (fixRoot m).image m.freeblock }

theorem main_eq (hrun : populate hosts = .ok m) (hfb : m.freeblock ≤ FSSIZE) : main hosts = .ok (finish m) := by
  have : m.freeblock < BSIZE * 8 := Nat.lt_of_le_of_lt hfb (by decide)
  simp only [main, hrun, bind, Except.bind, balloc, fixRoot]
  exact if_pos this

theorem main_eq_error {e : Abort} (hrun : populate hosts = .error e) : main hosts = .error e := by
  rw [main, hrun]
  rfl

/-- The inode of the root directory with the size that it gets in the end. -/
def fixedRoot (m : State) (len : Nat) : Dinode :=
  { sb.dinodes (marked m.image m.freeblock) ROOTINO with size := .ofNat ((len / BSIZE + 1) * BSIZE) }

section Finish

variable {dir : List UInt8} {rest : List (List UInt8)}

theorem rootino_lt : ROOTINO < sb.ninodes := by decide

theorem State.Inv.root (h : m.Inv (dir :: rest)) : FileIs (marked m.image m.freeblock) ROOTINO dir := h.file 0 dir rfl

theorem State.Inv.finish_image (h : m.Inv (dir :: rest)) :
    (finish m).image = iupdate sb (marked m.image m.freeblock) ROOTINO (fixedRoot m dir.length) := by
  simp only [finish, fixRoot, marked_winode rootino_lt, rinode_eq m.freeblock rootino_lt, h.root.size]
  rfl

theorem State.Inv.finish_root (h : m.Inv (dir :: rest)) : sb.dinodes (finish m).image ROOTINO = fixedRoot m dir.length := by
  rw [h.finish_image, Superblock.dinodes_iupdate sb_sane rootino_lt rootino_lt, Function.update_self]

theorem toNat_fixedRoot_size (hlen : dir.length ≤ MAXFILE * BSIZE) :
    (fixedRoot m dir.length).size.toNat = (dir.length / BSIZE + 1) * BSIZE := by
  simp only [MAXFILE, NDIRECT, NINDIRECT, BSIZE] at hlen ⊢
  simp only [fixedRoot, BSIZE, UInt32.toNat_ofNat']
  omega

/-- The root directory has no blocks but those for its entries. -/
theorem State.Inv.finish_blockAt (h : m.Inv (dir :: rest)) (bn : Nat) :
    (fixedRoot m dir.length).blockAt (finish m).image bn ≠ 0 ↔ bn * BSIZE < dir.length := by
  have hslot (s : Slot) : (fixedRoot m dir.length).slot (finish m).image s =
      (sb.dinodes (marked m.image m.freeblock) ROOTINO).slot (marked m.image m.freeblock) s := by
    rw [h.finish_image]
    exact (h.wellFormed.pending rootino_lt).slot_iupdate sb_sane h.root.type _ s
  rw [← h.root.exact.blocks, Dinode.blockAt_congr hslot]

/-- A directory whose last block is not full has all of its blocks. -/
theorem State.Inv.finish_written (h : m.Inv (dir :: rest)) (hlen : dir.length ≤ MAXFILE * BSIZE) (hdvd : ¬ BSIZE ∣ dir.length) :
    Written sb (marked m.image m.freeblock) ROOTINO (finish m).image (fixedRoot m dir.length) := by
  rw [h.finish_image]
  have hp : sb.Pending (marked m.image m.freeblock) ROOTINO (fixedRoot m dir.length) :=
    (h.wellFormed.pending rootino_lt).congr rfl rfl
  refine .iupdate sb_sane hp (fun _ bn hbn => ?_) fun _ _ => rfl
  rw [toNat_fixedRoot_size hlen] at hbn
  have hblock : (fixedRoot m dir.length).blockAt (marked m.image m.freeblock) bn =
      (sb.dinodes (marked m.image m.freeblock) ROOTINO).blockAt (marked m.image m.freeblock) bn :=
    Dinode.blockAt_congr (congrFun (Dinode.slot_of_addrs rfl)) bn
  rw [hblock, h.root.exact.blocks]
  simp only [BSIZE] at hbn hdvd ⊢
  omega

theorem State.Inv.finish_agrees (h : m.Inv (dir :: hosts.map HostFile.bytes)) (hfb : m.freeblock ≤ FSSIZE)
    (hw : Written sb (marked m.image m.freeblock) ROOTINO (finish m).image (fixedRoot m dir.length)) :
    ImageAgrees hosts (finish m) where
  superblock := by
    have : marked (fixRoot m).image m.freeblock 1 = (fixRoot m).image 1 := marked_of_ne (by decide)
    have hfix : (fixRoot m).image 1 = m.image 1 := by
      simp only [fixRoot, winode_superblock rootino_lt]
    exact fsinit_of_superblock (this.trans (hfix.trans h.superblock))
  contents := by
    intro k f hk off n hwrap
    have hk' : (dir :: hosts.map HostFile.bytes)[k + 1]? = some f.bytes := by simp [hk]
    have hlt : k + 1 + 1 < NINODES := by
      have := (List.getElem?_eq_some_iff.mp hk').1
      have := h.length
      omega
    have hfile := h.file (k + 1) f.bytes hk'
    obtain ⟨hi, -⟩ := inum_lt hlt
    have hp := h.wellFormed.pending rootino_lt
    have hne : UInt32.ofNat (k + 1 + 1) ≠ .ofNat 1 := inum_ne hlt (by decide) (by omega)
    have hsame : SameFile sb (marked m.image m.freeblock) (finish m).image (.ofNat (k + 1 + 1)) := by
      rw [h.finish_image]
      exact (Grows.refl hp).sameFile sb_sane hp hi hne hfile.type
    have hfile' := hfile.of_same h.wellFormed hi hsame
    have hread : readi sb (finish m).image _ (fun _ => true) off n = _ :=
      readi_spec (hw.wellFormed.mapped _ hi hfile'.type) hwrap
    rwa [hfile'.contents] at hread
  bitmap := by
    intro b hb
    have : sb.bit (finish m).image b = decide (b.toNat < m.freeblock) := bit_marked hfb hb
    rw [this, decide_eq_true_eq]
    exact Iff.rfl
  once := by
    intro b hlo hhi
    have hhi : b.toNat < m.freeblock := hhi
    have hne : b ≠ 0 := by
      rintro rfl
      exact absurd hlo (by decide)
    have huse : sb.InUse (finish m).image b := by
      refine ⟨isData_iff.mpr ⟨hlo, by omega⟩, ?_⟩
      exact (bit_marked hfb (by omega)).trans (decide_eq_true hhi)
    have howns := hw.wellFormed.accounts.owns
    obtain ⟨p, hp⟩ := howns.held b hne huse
    exact ⟨p, hp, fun q hq => howns.inj q p (by rwa [hq]) (hq.trans hp.symm)⟩
  mapped := by
    intro inum hi bn hbn
    by_cases ht : (sb.dinodes (finish m).image inum).type = 0
    · have hroot : inum ≠ ROOTINO := by
        rintro rfl
        rw [hw.self] at ht
        exact h.root.type ht
      rw [hw.others inum hi hroot] at ht hbn
      have hfree := h.free_of_type hi ht
      rw [hfree] at hbn
      exact absurd hbn (by simp [Dinode.zero, BSIZE])
    · have hne := hw.wellFormed.mapped inum hi ht bn hbn
      obtain ⟨s, -, hs⟩ := Dinode.exists_slot hne
      rw [hs] at hne ⊢
      exact ⟨hne, (hw.wellFormed.pending hi).inUse_slot ht hne⟩

/-- The directory has a block for each part of its size if and only if its last block is not full. -/
theorem State.Inv.finish_agrees_iff (h : m.Inv (dir :: hosts.map HostFile.bytes))
    (hfb : m.freeblock ≤ FSSIZE) (hlen : dir.length ≤ MAXFILE * BSIZE) :
    ImageAgrees hosts (finish m) ↔ ¬ BSIZE ∣ dir.length := by
  refine ⟨fun hagree hdvd => ?_, fun hdvd => h.finish_agrees hfb (h.finish_written hlen hdvd)⟩
  have hmapped := hagree.mapped ROOTINO rootino_lt (dir.length / BSIZE)
  rw [h.finish_root, toNat_fixedRoot_size hlen] at hmapped
  have := (hmapped (by simp only [BSIZE]; omega)).1
  rw [h.finish_blockAt, Nat.div_mul_cancel hdvd] at this
  exact Nat.lt_irrefl _ this

theorem main_spec (hcount : hosts.length ≤ 198)
    (hsize : ∀ f ∈ hosts, f.bytes.length ≤ MAXFILE * BSIZE) (hfit : blocksNeeded hosts ≤ FSSIZE) :
    (main hosts = .error .slash ∧ ∃ f ∈ hosts, 47 ∈ shortname f.path) ∨
    ∃ m, main hosts = .ok m ∧ (ImageAgrees hosts m ↔ ¬ 64 ∣ hosts.length + 2) := by
  rcases populate_spec hcount hsize hfit with ⟨hrun, hslash⟩ | ⟨m, dir, hrun, hlen, hfb, h⟩
  · exact .inl ⟨main_eq_error hrun, hslash⟩
  · refine .inr ⟨finish m, main_eq hrun hfb, ?_⟩
    have hbound : 16 * (198 + 2) ≤ MAXFILE * BSIZE := by decide
    rw [h.finish_agrees_iff hfb (by omega), hlen, BSIZE]
    omega

end Finish

end Xv6Net.Fs.Mkfs
