import Xv6Net.Fs.Lemmas.Bio
import Xv6Net.Fs.Lemmas.Dir
import Xv6Net.Fs.Lemmas.Fault
import Xv6Net.Fs.Lemmas.Itable
import Xv6Net.Fs.Lemmas.Log
import Xv6Net.Fs.Lemmas.Mkfs

/-! The main results about the file system. -/

namespace Xv6Net.Fs

open Kernel Lib
open Vm (onePage)

/-! ## The log -/

/-- A transaction is atomic: after a crash between any two writes of `commit`, any number of starts that crash between
two writes of `recover_from_log` and one that does not, the log is empty, and the home blocks have all the old contents
or all the contents of the transaction. They have the latter if the first write of the header reached the disk. -/
theorem log_crash_atomic {log₀ log : Log} {blocks : List UInt32} {disk : Disk} {cache : UInt32 → Option Block}
    (hlog₀ : log₀.lh = []) (hlog : logWrites log₀ blocks = .ok log)
    (hlen : (log.lh.length : Int) ≤ min (LOGSIZE : Int) (log.size - 1)) (hout : ∀ b ∈ blocks, log.Outside b)
    (hempty : log.HeadEmpty disk) (k : Nat) (ks : List Nat) :
    let before : Dev := ⟨disk, [], cache⟩
    let d := (commit log before).2
    let new : Disk := fun b => if b ∈ blocks then before.bread b else disk b
    ∃ disk' log' d', initlogs log.start log.size (d.crash k) ks = .ok disk' ∧
      initlog log.start log.size disk' = .ok (log', d') ∧ log.HeadEmpty d'.disk ∧
      (log.Home d'.disk disk ∨ log.Home d'.disk new) ∧
      (log.start ∈ (d.writes.take k).map Prod.fst → log.Home d'.disk new) := by
  intro before d new
  obtain ⟨-, -, hnodup, hmem⟩ := logWrites_eq_ok hlog
  have hmem (b : UInt32) : b ∈ log.lh ↔ b ∈ blocks := by simp [hmem, hlog₀]
  have hfits : log.Fits := {
    nodup := hnodup (by simp [hlog₀])
    logsize := by omega
    size := by omega
    out := fun b hb => hout b ((hmem b).mp hb) }
  have hnew : log.after disk before.bread = new := by
    funext b; simp only [Log.after, hmem, new]
  rcases commit_crash hfits ⟨hempty, fun _ _ => rfl⟩ k with ⟨hold, hreached⟩ | hready | hdone
  · obtain ⟨disk', log', d', h, h', hlast⟩ := recovers_settled hfits ks hold
    exact ⟨disk', log', d', h, h', hlast.empty, .inl hlast.home, fun hr => absurd hr hreached⟩
  · obtain ⟨disk', log', d', h, h', hlast⟩ := recovers_ready hfits ks hready
    rw [hnew] at hlast
    exact ⟨disk', log', d', h, h', hlast.empty, .inr hlast.home, fun _ => hlast.home⟩
  · obtain ⟨disk', log', d', h, h', hlast⟩ := recovers_settled hfits ks hdone
    rw [hnew] at hlast
    exact ⟨disk', log', d', h, h', hlast.empty, .inr hlast.home, fun _ => hlast.home⟩

/-- Blocks 50 and 51 with new contents in the cache, on a disk with zeros. -/
theorem log_crash_atomic_two :
    let log : Log := ⟨2, 30, 1, false, [50, 51]⟩
    let cache : UInt32 → Option Block := fun b => if b = 50 ∨ b = 51 then some fun _ => 1 else none
    let d := (commit log ⟨fun _ => .zero, [], cache⟩).2
    ∃ disk' log' d', initlogs 2 30 (d.crash 4) [1] = .ok disk' ∧ initlog 2 30 disk' = .ok (log', d') ∧
      d'.disk 51 = fun _ => 1 := by
  intro log cache d
  have hout : ∀ b ∈ [50, 51, 50], log.Outside b := by
    intro b hb i hi heq
    have hi : i < 30 := by simp [log] at hi; omega
    have hne : ∀ i : Fin 30, (50 : UInt32) ≠ 2 + .ofNat i ∧ (51 : UInt32) ≠ 2 + .ofNat i := by decide
    obtain ⟨h50, h51⟩ := hne ⟨i, hi⟩
    simp only [List.mem_cons, List.not_mem_nil, or_false] at hb
    rcases hb with rfl | rfl | rfl
    · exact h50 heq
    · exact h51 heq
    · exact h50 heq
  have hlog : logWrites ⟨2, 30, 1, false, []⟩ [50, 51, 50] = .ok log := by decide
  have hempty : log.HeadEmpty fun _ => .zero := by decide
  obtain ⟨disk', log', d', h, h', -, -, hnew⟩ :=
    @log_crash_atomic _ _ _ _ cache rfl hlog (by decide) hout hempty 4 [1]
  refine ⟨disk', log', d', h, h', ?_⟩
  rw [hnew (by decide) 51 (hout 51 (by decide))]
  rfl

/-- In every order of the steps of any number of operations that keep to their allowance, on a disk that `mkfs` wrote,
a call of `log_write` does not stop the kernel exactly if operations logged less than `nlog - 1` different blocks since
the last commit. Every logged block has its own place in the log, and there are `LOGSIZE` entries for what operations
have logged and may log yet. -/
theorem log_admission_iff {as : List LogAct} {s : LogSys} (hs : run logStep .start as = some s) :
    (∀ op b, s.MayLog op b → ((∃ log, logWrite s.log b = .ok log) ↔ s.logged.card < nlog - 1)) ∧ s.OwnSlots ∧
      s.logged.card + s.allowance ≤ LOGSIZE := by
  have h : LogInv s := run_keeps' (fun _ _ _ hi ht => LogInv.step hi ht) LogInv.start hs
  refine ⟨fun op b hmay => h.logWrite_iff hmay, h.ownSlots, ?_⟩
  rw [h.card]; exact h.room

def twoLogged : Sample logStep .start [.beginOp, .logWrite 0 50, .beginOp, .logWrite 1 51] (fun _ _ => True)
    (fun s => s.MayLog 1 52 ∧ s.logged.card < nlog - 1) := .eval (by decide +kernel)

theorem log_admission_iff_two :
    ∃ s, run logStep .start [.beginOp, .logWrite 0 50, .beginOp, .logWrite 1 51] = some s ∧ s.MayLog 1 52 ∧
      (∃ log, logWrite s.log 52 = .ok log) ∧ s.OwnSlots := by
  obtain ⟨s, -, hs, hmay, hlt⟩ := twoLogged
  obtain ⟨hiff, hown, -⟩ := log_admission_iff hs
  exact ⟨s, hs, hmay, (hiff 1 52 hmay).mpr hlt, hown⟩

/-- Three operations, with 29 different blocks. -/
def threeFull : List LogAct :=
  List.replicate 3 .beginOp ++ (List.range 29).map fun i => .logWrite (i / MAXOPBLOCKS) (.ofNat (100 + i))

def threeAdmitted : Sample logStep .start threeFull (fun _ _ => True)
    (fun s => s.MayLog 2 129 ∧ logWrite s.log 129 = .error (.panic "too big a transaction")) :=
  .eval (by decide +kernel)

/-- The tenth block of the third operation is one too many. -/
theorem log_admission_fails :
    ∃ s, run logStep .start threeFull = some s ∧ s.MayLog 2 129 ∧
      logWrite s.log 129 = .error (.panic "too big a transaction") :=
  ⟨threeAdmitted.last, threeAdmitted.runs, threeAdmitted.holds⟩

/-! ## The buffer cache -/

/-- In every state that `bread`, `brelse`, `bpin` and `bunpin` of any number of processes reach, the list has every
buffer once in both directions, no block is in two buffers in use, no step takes a buffer with references for another
block, and all references for a block are to one buffer, which has the block. -/
theorem buffer_cache_coherent {as : List BioAct} {s : BioSys} (hs : run bioStep .start as = some s) :
    s.cache.Listed ∧ s.cache.Coherent ∧ s.KeepsUsed ∧ s.SameBuffer := by
  obtain ⟨order, h⟩ : ∃ order, BioInv s order := run_keeps' (I := fun s => ∃ order, BioInv s order)
    (fun _ _ _ ⟨_, hi⟩ ht => (hi.step ht).1) ⟨_, .start⟩ hs
  exact ⟨h.listed, h.firsts.coherent, fun _ _ ht => (h.step ht).2, h.sameBuffer⟩

/-- Two processes have block 7 in turn, and it is pinned by the first one. -/
def pinsAndReleases : List BioAct :=
  [.bget 1 7, .bget 1 7, .acquiresleep 0, .fill 0, .bpin 0, .releasesleep 0, .brelse 0, .bget 1 8, .acquiresleep 0,
    .fill 0]

def pinned : Sample bioStep .start pinsAndReleases (fun _ _ => True)
    (fun s => (s.refs.map fun u => (u.blockno, u.kind)) = [(7, .holding), (7, .pinned), (8, .waiting)]) :=
  .eval (by decide +kernel)

theorem buffer_cache_coherent_pinned :
    ∃ s, run bioStep .start pinsAndReleases = some s ∧
      (s.refs.map fun u => (u.blockno, u.kind)) = [(7, .holding), (7, .pinned), (8, .waiting)] ∧ s.SameBuffer :=
  ⟨pinned.last, pinned.runs, pinned.holds, (buffer_cache_coherent pinned.runs).2.2.2⟩

/-! ## Inodes and blocks -/

/-- In every run of calls from a well-formed file system, wherever they stop for lack of blocks or because of a bad
buffer: what an allocated inode has an address of is a data block that is marked in the bitmap, no block has two
addresses, each data block that is marked has one, and files have all their blocks. Valid inodes in the table are as
on the disk, and no call frees a free block or goes beyond the largest file. -/
theorem block_ownership {sb : Superblock} {s₀ s : InodeSys} {cs : List InodeCall} (hwf : sb.WellFormed s₀.disk)
    (hstart : ∀ ip, (s₀.itable ip).ref = 0) (hs : run (InodeSys.step sb) s₀ cs = some s) :
    let ref := sb.refs s.disk (sb.dinodes s.disk)
    (∀ p, ref p ≠ 0 → sb.IsData (ref p) ∧ sb.bit s.disk (ref p)) ∧
      (∀ p q, ref p ≠ 0 → ref p = ref q → p = q) ∧
      (∀ b, sb.IsData b → sb.bit s.disk b → ∃ p, ref p = b) ∧
      (∀ inum < sb.ninodes, (sb.dinodes s.disk inum).type ≠ 0 →
        ∀ bn < ((sb.dinodes s.disk inum).size.toNat + BSIZE - 1) / BSIZE, (sb.dinodes s.disk inum).blockAt s.disk bn ≠ 0) ∧
      (∀ ip, 0 < (s.itable ip).ref → (s.itable ip).valid → (s.itable ip).din = sb.dinodes s.disk (s.itable ip).inum) ∧
      ∀ c, s.MayCall sb c → s.call sb c ≠ .error .freeingFreeBlock ∧ s.call sb c ≠ .error .bmapOutOfRange := by
  have h : s.Inv sb := run_keeps' (fun _ _ _ hi ht => hi.step ht) (.of_unused hwf hstart) hs
  have howns := h.wellFormed.accounts.owns
  refine ⟨howns.inUse, howns.inj, fun b hb hbit => ?_, h.wellFormed.mapped, fun ip hr hv => (h.cached ip hr hv).1, ?_⟩
  · exact howns.held b (h.wellFormed.sane.isData_ne_zero hb) ⟨hb, hbit⟩
  · intro c hc
    have hpanic := (h.call hc).1
    constructor
    · exact fun he => absurd (hpanic _ he) (by decide)
    · exact fun he => absurd (hpanic _ he) (by decide)

/-- A layout with 16 inodes and 3 data blocks. -/
def Superblock.sample : Superblock := ⟨FSMAGIC, 20, 3, 16, 0, 2, 2, 3⟩

/-- No inode is allocated, and the blocks before the data blocks are marked in the bitmap. -/
def emptyDisk : Disk := fun b => if b = 3 then Block.zero.store 0 [0xFF, 0xFF, 1] else .zero

theorem emptyDisk_wellFormed : Superblock.sample.WellFormed emptyDisk := by
  refine Superblock.Sane.wellFormed_blank ⟨by decide, by decide, by decide⟩ (fun i => ?_) (by decide)
  have hblock : ∀ i : Fin 16, Superblock.sample.iblock (.ofNat i) = 2 := by decide
  rw [hblock i]
  rfl

def inode0 : Fin NINODE := ⟨0, by decide⟩

def inode1 : Fin NINODE := ⟨1, by decide⟩

/-- The first file fills the disk before its write is complete, the buffer for the second one is bad from the second
block on, and the first file is freed in between. -/
def twoFiles : List InodeCall :=
  [.ialloc 2, .writei inode0 (fun _ m => (.replicate m 7, true)) 0 4000, .ialloc 2,
    .writei inode1 (fun _ m => (.replicate m 8, true)) 0 10, .iput inode0,
    .writei inode1 (fun tot m => (.replicate m 8, tot == 0)) 0 2000]

def writesTwoFiles : Sample (InodeSys.step .sample) ⟨emptyDisk, fun _ => ⟨0, 0, false, .zero⟩⟩ twoFiles (fun _ _ => True)
    (fun s => (Superblock.sample.dinodes s.disk 2).size = 1024 ∧ Superblock.sample.bit s.disk 18 ∧
      ¬ Superblock.sample.bit s.disk 19) := .eval (by decide +kernel)

/-- The block that was allocated for the part that could not be copied belongs to the second file as well. -/
theorem block_ownership_two :
    ∃ s, run (InodeSys.step .sample) ⟨emptyDisk, fun _ => ⟨0, 0, false, .zero⟩⟩ twoFiles = some s ∧
      (Superblock.sample.dinodes s.disk 2).size = 1024 ∧
      ∃ p, Superblock.sample.refs s.disk (Superblock.sample.dinodes s.disk) p = 18 := by
  obtain ⟨s, -, hs, hsize, hbit, -⟩ := writesTwoFiles
  exact ⟨s, hs, hsize, (block_ownership emptyDisk_wellFormed (fun _ => rfl) hs).2.2.1 18 (by decide) hbit⟩

/-! ## The bytes of a file -/

/-- A file is a sequence of bytes: `writei` from a kernel buffer returns -1 and changes nothing exactly if the range
starts behind the end, exceeds 32 bits or exceeds the largest file. Else the bytes that it counts, all of them unless no
block is left, are in place of the old ones and the other files are as before. `readi` into a kernel buffer returns the
bytes of the range that are there. -/
theorem inode_refines_bytes {sb : Superblock} {disk : Disk} {inum : UInt32} (h : sb.WellFormed disk)
    (hi : inum < sb.ninodes) (ht : (sb.dinodes disk inum).type ≠ 0) :
    let ip := sb.dinodes disk inum
    (∀ (off n : UInt32) (data : List UInt8), data.length = n.toNat →
      ∃ r disk' ip', writei sb disk inum ip (copyFrom data) off n = .ok (r, disk', ip') ∧
        (r = -1 ↔ ip.size.toNat < off.toNat ∨ 2 ^ 32 ≤ off.toNat + n.toNat ∨
          MAXFILE * BSIZE < off.toNat + n.toNat) ∧
        (r = -1 → disk' = disk ∧ ip' = ip) ∧
        (r ≠ -1 → ∃ m : Nat, r = m ∧ m ≤ n.toNat ∧ (m < n.toNat → sb.Full disk') ∧
          FileWritten sb disk inum off.toNat (data.take m) disk' ip')) ∧
      ∀ off n : UInt32, off.toNat + n.toNat < 2 ^ 32 →
        let bytes := ((ip.contents disk).drop off.toNat).take n.toNat
        readi sb disk ip (fun _ => true) off n = .ok (bytes.length, bytes, disk, ip) := by
  refine ⟨fun off n data hlen => ?_, fun off n hwrap => readi_spec (h.mapped inum hi ht) hwrap⟩
  rcases writei_copyFrom h hi ht hlen with ⟨hmay, heq⟩ | ⟨hmay, m, disk', ip', hm, heq, hwritten, hfull⟩
  · refine ⟨-1, disk, _, heq, ⟨fun _ => ?_, fun _ => rfl⟩, fun _ => ⟨rfl, rfl⟩, fun hne => absurd rfl hne⟩
    unfold Dinode.MayWrite at hmay
    omega
  · obtain ⟨hoff, hwrap, hmax⟩ := hmay
    refine ⟨m, disk', ip', heq, ⟨fun hr => absurd hr (by omega), fun hr => absurd hr (by omega)⟩,
      fun hr => absurd hr (by omega), fun _ => ⟨m, rfl, hm, fun hlt => (hfull hlt).1, hwritten⟩⟩

def wroteTwoFiles : Sample (InodeSys.step .sample) ⟨emptyDisk, fun _ => ⟨0, 0, false, .zero⟩⟩ twoFiles (fun _ _ => True)
    (fun s => (Superblock.sample.dinodes s.disk 2).type ≠ 0 ∧ (Superblock.sample.dinodes s.disk 2).size = 1024) :=
  .eval (by decide +kernel)

/-- Three bytes over the end of the second of the two files. -/
theorem inode_refines_bytes_three :
    ∃ disk disk' : Disk, ∃ m : Nat, ∃ ip' : Dinode,
      writei .sample disk 2 (Superblock.sample.dinodes disk 2) (copyFrom [1, 2, 3]) 1022 3 = .ok (m, disk', ip') ∧
      ip'.contents disk' =
        splice ((Superblock.sample.dinodes disk 2).contents disk) 1022 (List.take m [1, 2, 3]) := by
  obtain ⟨s, -, hs, ht, hsize⟩ := wroteTwoFiles
  have hinv : s.Inv .sample :=
    run_keeps' (fun _ _ _ hi ht => hi.step ht) (.of_unused emptyDisk_wellFormed fun _ => rfl) hs
  obtain ⟨r, disk', ip', heq, hiff, -, hok⟩ :=
    (inode_refines_bytes hinv.wellFormed (by decide) ht).1 1022 3 [1, 2, 3] rfl
  have hr : r ≠ -1 := by
    rw [Ne, hiff, hsize]
    decide
  obtain ⟨m, rfl, -, -, hw⟩ := hok hr
  exact ⟨s.disk, disk', m, ip', heq, hw.contents⟩

/-- A write of which `either_copyin` from the user fails in a block, in a file system behind the log. After it reads
return the bytes that it counts and around them those of before, and the disk after the commit has them as well, exactly if
the bytes that were copied into this block below the end of the file are those that were there. -/
theorem faulting_write_iff {sb : Superblock} {disk : Disk} {inum : UInt32} (h : sb.WellFormed disk)
    (hi : inum < sb.ninodes) (ht : (sb.dinodes disk inum).type ≠ 0) {pt : Vm.PageTable} {mem : Vm.Memory} {src : UInt64}
    {off n : UInt32} {m : Nat} {disk' : Disk} {ip' : Dinode}
    (hw : (writeiLogged sb disk inum (sb.dinodes disk inum) (copyUser pt mem src) off n).val =
      .ok (some .fault, m, disk', ip'))
    {log log' : Log} (hfits : log.Fits) (hout : ∀ b, sb.InFs b → log.Outside b)
    (hlog : logWrites log (writeiLogged sb disk inum (sb.dinodes disk inum) (copyUser pt mem src) off n).log = .ok log')
    {dev : Dev} (hread : dev.bread = disk') (hdisk : ∀ b ∉ log.lh, dev.disk b = disk b) :
    Contained sb disk inum off.toNat (slice (fun i => (userSource pt mem src i).getD 0) 0 m) disk' ip'
        (commit log' dev).2.disk ↔
      SameUntilFault (userSource pt mem src) disk (sb.dinodes disk inum) off.toNat := by
  have hfeeds (tot m : Nat) (hle : tot + m ≤ n.toNat) : Feeds (copyUser pt mem src) (userSource pt mem src) tot m :=
    copyUser_feeds pt mem src (by have := n.toNat_lt; omega)
  rcases writeiLogged_spec h hi ht off hfeeds with
    ⟨-, heq⟩ | ⟨hmay, log₁, why, tot, off', disk₁, ip₁, hwrote, heq⟩
  · rw [heq] at hw
    cases hw
  · rw [heq] at hw hlog
    obtain ⟨rfl, hm, rfl, rfl⟩ : _ ∧ _ ∧ _ ∧ _ := by
      simpa only [Except.ok.injEq, Prod.mk.injEq, Option.some.injEq] using hw
    obtain rfl : tot = m := by exact_mod_cast hm
    have hstored := hwrote.stored h hi ht hmay.2.2
    have hlen : (splice ((sb.dinodes disk inum).contents disk) off.toNat
        (slice (fun i => (userSource pt mem src i).getD 0) 0 tot)).length = (ip₁.grown off').size.toNat := by
      have hcount := hwrote.count
      rw [length_splice (by rw [Dinode.contents, length_slice]; exact hmay.1), hstored.size, Dinode.contents,
        length_slice, length_slice]
      omega
    have hself := hstored.written.self
    have hmapped := hstored.written.wellFormed.mapped inum hi (by rw [hself]; exact hstored.type)
    rw [hself] at hmapped
    have hcontents := hwrote.contents_iff h hi ht hmay.2.2 hmay.1
    rw [hwrote.sameUntilFault_iff]
    constructor
    · intro hc
      exact hcontents.mp ((readi_iff hmapped hlen).mp hc.reads)
    · intro hharm
      obtain ⟨hinode, hcom⟩ := hwrote.committed h hi hfits hout hlog hread hdisk
      refine ⟨(readi_iff hmapped hlen).mpr (hcontents.mpr hharm), ?_⟩
      rw [hwrote.contents_onDisk h hi ht hmay.2.2 hharm hinode hcom, hcontents.mpr hharm]

/-- A layout with a log of 30 blocks, 16 inodes and 3 data blocks. -/
def Superblock.logged : Superblock := ⟨FSMAGIC, 60, 3, 16, 30, 2, 32, 33⟩

def emptyLogged : Disk := fun b => if b = 33 then Block.zero.store 0 [0xFF, 0xFF, 0xFF, 0xFF, 0xFF, 0xFF, 0xFF, 1] else .zero

theorem emptyLogged_wellFormed : Superblock.logged.WellFormed emptyLogged := by
  refine Superblock.Sane.wellFormed_blank ⟨by decide, by decide, by decide⟩ (fun i => ?_) (by decide)
  have hblock : ∀ i : Fin 16, Superblock.logged.iblock (.ofNat i) = 32 := by decide
  rw [hblock i]
  rfl

/-- A file of ten bytes, and a write of five bytes to its start of which only the first three are mapped. -/
def tenBytes : List InodeCall := [.ialloc 2, .writei inode0 (copyFrom (.replicate 10 8)) 0 10]

/-- The loop ends at once because of the buffer. A read of the first byte returns `x` then, and the block of the inode is
logged. -/
def faultsAtStart (disk : Disk) (x : UInt8) : Bool :=
  let w := writeiLogged .logged disk 1 (Superblock.logged.dinodes disk 1) (copyUser onePage (fun _ => x) 4093) 0 5
  match w.val with
  | .ok (some .fault, 0, disk', ip') =>
      ((readi .logged disk' ip' (fun _ => true) 0 1).toOption.map fun r => r.2.1) == some [x] && w.log == [32]
  | _ => false

theorem faultsAtStart_spec {disk : Disk} {x : UInt8} (h : faultsAtStart disk x = true) :
    let w := writeiLogged .logged disk 1 (Superblock.logged.dinodes disk 1) (copyUser onePage (fun _ => x) 4093) 0 5
    ∃ disk' ip', w.val = .ok (some .fault, (0 : Nat), disk', ip') ∧ w.log = [32] ∧
      (readi .logged disk' ip' (fun _ => true) 0 1).toOption.map (fun r => r.2.1) = some [x] := by
  intro w
  unfold faultsAtStart at h
  dsimp only at h
  split at h
  · rename_i disk' ip' hval
    rw [Bool.and_eq_true, beq_iff_eq, beq_iff_eq] at h
    exact ⟨disk', ip', hval, h.2, h.1⟩
  · cases h

def wroteTenBytes : Sample (InodeSys.step .logged) ⟨emptyLogged, fun _ => ⟨0, 0, false, .zero⟩⟩ tenBytes (fun _ _ => True)
    (fun s => (Superblock.logged.dinodes s.disk 1).type ≠ 0 ∧ (Superblock.logged.dinodes s.disk 1).size = 10 ∧
      (∀ k : Fin 10, (Superblock.logged.dinodes s.disk 1).byte s.disk k = 8) ∧ faultsAtStart s.disk 8 ∧
      faultsAtStart s.disk 7) := .eval (by decide +kernel)

/-- The three bytes are those of the file. -/
theorem faulting_write_iff_same :
    ∃ disk disk' committed : Disk, ∃ ip' : Dinode,
      SameUntilFault (userSource onePage (fun _ => 8) 4093) disk (Superblock.logged.dinodes disk 1) 0 ∧
      Contained .logged disk 1 0 [] disk' ip' committed := by
  obtain ⟨s, -, hs, ht, hsize, hbyte, hfault, -⟩ := wroteTenBytes
  have hinv : s.Inv .logged :=
    run_keeps' (fun _ _ _ hi ht => hi.step ht) (.of_unused emptyLogged_wellFormed fun _ => rfl) hs
  obtain ⟨disk', ip', hval, hlog, -⟩ := faultsAtStart_spec hfault
  have hsame : SameUntilFault (userSource onePage (fun _ => 8) 4093) s.disk (Superblock.logged.dinodes s.disk 1) 0 := by
    intro u hbefore _ i hi _ hk
    rw [Nat.zero_add] at hk ⊢
    rw [hsize] at hk
    rw [hbyte ⟨i, hk⟩]
    obtain ⟨a, ha⟩ := Option.isSome_iff_exists.mp (hbefore i hi)
    obtain ⟨_, -, rfl⟩ := Option.map_eq_some_iff.mp ha
    exact ha
  have hout (b : UInt32) (hb : Superblock.logged.InFs b) : (⟨2, 30, 1, false, []⟩ : Log).Outside b := by
    intro i hi heq
    have hbefore : ∀ i : Fin 30, (2 + UInt32.ofNat i).toNat < 32 := by decide
    have hi : i < 30 := by simpa using hi
    have hb : 32 ≤ b.toNat := hb.1
    rw [heq] at hb
    exact absurd hb (Nat.not_le.mpr (hbefore ⟨i, hi⟩))
  have hwrites : logWrites ⟨2, 30, 1, false, []⟩ (writeiLogged .logged s.disk 1 (Superblock.logged.dinodes s.disk 1)
      (copyUser onePage (fun _ => 8) 4093) 0 5).log = .ok ⟨2, 30, 1, false, [32]⟩ := by
    rw [hlog]; decide
  have hread : (⟨s.disk, [], fun b => some (disk' b)⟩ : Dev).bread = disk' := rfl
  have hiff := faulting_write_iff hinv.wellFormed (by decide) ht hval ⟨by simp, by simp, by simp, by simp⟩ hout hwrites
    hread fun _ _ => rfl
  exact ⟨s.disk, disk', _, ip', hsame, hiff.mpr hsame⟩

/-- With other bytes, `writei` returns 0 and a read returns one of them. -/
theorem faulting_write_leaks :
    ∃ disk disk' : Disk, ∃ ip' : Dinode, Superblock.logged.WellFormed disk ∧
      (writeiLogged .logged disk 1 (Superblock.logged.dinodes disk 1) (copyUser onePage (fun _ => 7) 4093) 0 5).val =
        .ok (some .fault, (0 : Nat), disk', ip') ∧
      (Superblock.logged.dinodes disk 1).byte disk 0 = 8 ∧
      (readi .logged disk' ip' (fun _ => true) 0 1).toOption.map (fun r => r.2.1) = some [7] ∧
      ∀ committed, ¬ Contained .logged disk 1 0 [] disk' ip' committed := by
  obtain ⟨s, -, hs, ht, hsize, hbyte, -, hfault⟩ := wroteTenBytes
  have hinv : s.Inv .logged :=
    run_keeps' (fun _ _ _ hi ht => hi.step ht) (.of_unused emptyLogged_wellFormed fun _ => rfl) hs
  obtain ⟨disk', ip', hval, -, hread⟩ := faultsAtStart_spec hfault
  refine ⟨s.disk, disk', ip', hinv.wellFormed, hval, hbyte 0, hread, fun committed hc => ?_⟩
  rw [hc.reads 0 1 (by decide)] at hread
  have hcontents : (Superblock.logged.dinodes s.disk 1).contents s.disk = .replicate 10 8 := by
    rw [Dinode.contents, hsize, List.eq_replicate_iff]
    refine ⟨length_slice .., fun x hx => ?_⟩
    obtain ⟨i, hi, rfl⟩ := List.mem_map.mp hx
    rw [Nat.zero_add]
    exact hbyte ⟨i, List.mem_range.mp hi⟩
  have hbytes : ((splice ((Superblock.logged.dinodes s.disk 1).contents s.disk) 0 []).drop 0).take 1 = [7] :=
    Option.some.inj hread
  rw [hcontents] at hbytes
  exact absurd hbytes (by decide)

/-! ## Directories -/

/-- A directory is a finite map on names cut to `DIRSIZ` characters. After any calls no two entries in use have the same
name, and `dirlookup` finds under each name what stands under it. `dirlink` fails and changes nothing if there is an entry
for the name. Else it adds the name to the map, or it fails and changes nothing because there is no space. Clearing an entry
that was found removes its name and no other one. -/
theorem directory_is_map {sb : Superblock} {dp : Fin NINODE} {s₀ s : InodeSys} {cs : List DirCall}
    (h₀ : InodeSys.Directory sb dp s₀) (hs : run (DirCall.step sb dp) s₀ cs = some s) :
    Slots.Unique (s.dirents dp) ∧ (∀ name, InodeSys.Finds sb dp s name (s.inumOf dp name)) ∧
      (∀ name inum, 0 < inum.toNat → inum.toNat < 65536 →
        ∃ r s', s.dirlink sb dp name inum = .ok (r, s') ∧
          (s.inumOf dp name ≠ none → r = -1 ∧ s'.contents dp = s.contents dp) ∧
          (s.inumOf dp name = none →
            r = 0 ∧ (∀ name', InodeSys.Finds sb dp s' name'
              (if nameOf name' = nameOf name then some inum else s.inumOf dp name')) ∨
            r = -1 ∧ s'.contents dp = s.contents dp ∧ InodeSys.NoSpace sb dp s')) ∧
      ∀ name, ∃ r s', s.clearEntry sb dp name = .ok (r, s') ∧ (s.inumOf dp name = none → r = -1 ∧ s' = s) ∧
        (s.inumOf dp name ≠ none → r = 0 ∧ ∀ name', InodeSys.Finds sb dp s' name'
          (if nameOf name' = nameOf name then none else s.inumOf dp name')) := by
  have h : InodeSys.Directory sb dp s := run_keeps' (fun _ _ _ hi ht => hi.step ht) h₀ hs
  refine ⟨h.unique, h.finds, fun name inum hpos hlt => ?_, fun name => ?_⟩
  · by_cases hname : s.inumOf dp name = none
    · obtain ⟨r, s', hrun, hdir, hres⟩ := h.dirlink_absent hpos hlt hname
      refine ⟨r, s', hrun, fun hne => absurd hname hne, fun _ => hres.imp_left ?_⟩
      rintro ⟨hr, hlookup⟩
      exact ⟨hr, fun name' => hlookup name' ▸ hdir.finds name'⟩
    · obtain ⟨s', hrun, -, -, hcontents⟩ := h.dirlink_present inum hname
      exact ⟨-1, s', hrun, fun _ => ⟨rfl, hcontents⟩, fun hnone => absurd hnone hname⟩
  · by_cases hname : s.inumOf dp name = none
    · exact ⟨-1, s, h.clearEntry_absent hname, fun _ => ⟨rfl, rfl⟩, fun hne => absurd hname hne⟩
    · obtain ⟨s', hrun, hdir, hlookup⟩ := h.clearEntry_present hname
      exact ⟨0, s', hrun, fun hnone => absurd hnone hname, fun _ => ⟨rfl, fun name' => hlookup name' ▸ hdir.finds name'⟩⟩

/-- Two links, and the first of them is cleared. -/
def threeDirCalls : List DirCall := [.dirlink [97, 98] 1, .dirlink [99] 2, .clearEntry [97, 98]]

def emptyDirectory : Sample (InodeSys.step .sample) ⟨emptyDisk, fun _ => ⟨0, 0, false, .zero⟩⟩
    [.ialloc T_DIR, .iupdate inode0 0 0 1] (fun _ _ => True)
    (fun s => ((s.itable inode0).din.type = T_DIR ∧ (s.itable inode0).din.size = 0 ∧ (s.itable inode0).valid ∧
      (s.itable inode0).ref = 1 ∧ (s.itable inode1).ref = 0) ∧
      (run (DirCall.step .sample inode0) s threeDirCalls).map (fun t =>
        (t.inumOf inode0 [97, 98], t.inumOf inode0 [99])) = some (none, some 2)) :=
  .eval (by decide +kernel)

theorem directory_is_map_three :
    ∃ s₀ s, run (DirCall.step .sample inode0) s₀ threeDirCalls = some s ∧
      InodeSys.Finds .sample inode0 s [97, 98] none ∧ InodeSys.Finds .sample inode0 s [99] (some 2) := by
  obtain ⟨s₀, -, hs₀, ⟨htype, hsize, hvalid, href, hfree⟩, hrun⟩ := emptyDirectory
  have hinv : s₀.Inv .sample :=
    run_keeps' (fun _ _ _ hi ht => hi.step ht) (.of_unused emptyDisk_wellFormed fun _ => rfl) hs₀
  have hpos : 0 < (s₀.itable inode0).ref := by omega
  have hempty : s₀.dirents inode0 = [] := by
    have hlen : (s₀.contents inode0).length = 0 := by
      rw [InodeSys.length_contents, hsize]
      rfl
    rw [InodeSys.dirents, List.eq_nil_of_length_eq_zero hlen]
    rfl
  have hdir : InodeSys.Directory .sample inode0 s₀ :=
    ⟨⟨hinv.wellFormed, hinv.lt _ hpos, (hinv.cached _ hpos hvalid).1, htype, hsize ▸ Nat.dvd_zero _⟩, hpos,
      hempty ▸ fun _ _ _ _ _ hi => by simp [Slots.Holds] at hi, inode1, hfree⟩
  obtain ⟨s, hs, heq⟩ := Option.map_eq_some_iff.mp hrun
  obtain ⟨hfirst, hsecond⟩ := Prod.mk.injEq .. ▸ heq
  have hfinds := (directory_is_map hdir hs).2.1
  exact ⟨s₀, s, hs, hfirst ▸ hfinds [97, 98], hsecond ▸ hfinds [99]⟩

/-! ## Images made by `mkfs` -/

/-- `mkfs` makes an image that the kernel agrees with, except that the root directory gets a block too much in its size
when its entries fill the last block. -/
theorem mkfs_image_iff (files : List HostFile) (hcount : files.length ≤ 198)
    (hsize : ∀ f ∈ files, f.bytes.length ≤ MAXFILE * BSIZE) (hfit : Mkfs.blocksNeeded files ≤ Mkfs.FSSIZE) :
    ((∀ f ∈ files, 47 ∉ Mkfs.shortname f.path) → ∃ m, Mkfs.main files = .ok m) ∧
      ∀ m, Mkfs.main files = .ok m → (Mkfs.ImageAgrees files m ↔ ¬ 64 ∣ files.length + 2) := by
  rcases Mkfs.main_spec hcount hsize hfit with ⟨hrun, f, hf, hslash⟩ | ⟨m, hrun, hiff⟩
  · refine ⟨fun hname => absurd hslash (hname f hf), fun m hm => ?_⟩
    rw [hrun] at hm
    cases hm
  · refine ⟨fun _ => ⟨m, hrun⟩, fun m' hm' => ?_⟩
    rw [hrun] at hm'
    cases hm'
    exact hiff

/-- A file `a` with three bytes. -/
def HostFile.sample : HostFile := ⟨[97], [[1, 2, 3]], by decide⟩

theorem mkfs_image_iff_one : ∃ m, Mkfs.main [HostFile.sample] = .ok m ∧ Mkfs.ImageAgrees [HostFile.sample] m := by
  obtain ⟨hok, hiff⟩ := mkfs_image_iff [HostFile.sample] (by decide) (by decide) (by decide)
  obtain ⟨m, hm⟩ := hok (by decide)
  exact ⟨m, hm, (hiff m hm).mpr (by decide)⟩

/-- With 62 files, the 64 entries of the root directory fill its first block. -/
theorem mkfs_image_fails :
    ∃ m, Mkfs.main (.replicate 62 HostFile.sample) = .ok m ∧ ¬ Mkfs.ImageAgrees (.replicate 62 HostFile.sample) m := by
  have hmem (f : HostFile) (hf : f ∈ List.replicate 62 HostFile.sample) : f = HostFile.sample := List.eq_of_mem_replicate hf
  have hsize (f : HostFile) (hf : f ∈ List.replicate 62 HostFile.sample) : f.bytes.length ≤ MAXFILE * BSIZE := by
    rw [hmem f hf]
    decide
  rcases Mkfs.main_spec (by decide) hsize (by decide) with ⟨-, f, hf, hslash⟩ | ⟨m, hrun, hiff⟩
  · rw [hmem f hf] at hslash
    exact absurd hslash (by decide)
  · exact ⟨m, hrun, fun h => hiff.mp h (by decide)⟩

end Xv6Net.Fs
