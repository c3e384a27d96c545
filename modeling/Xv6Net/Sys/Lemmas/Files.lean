import Mathlib.Data.Fintype.Prod
import Mathlib.Logic.Relation
import Xv6Net.Lib.Ensures
import Xv6Net.Lib.Pointers
import Xv6Net.Sys.Socket

/-!
# What the calls on descriptors do to the file table

Every call is a sequence of moves of five kinds, and the invariant of the file table is shown once, for the moves.
`G` is a condition on the type and the flags of an entry in use.
-/

namespace Xv6Net.Sys

open Kernel Net Procs Lib Relation

variable {x : File} {g : Fin NFILE} {i : Fin NOFILE} {fd n : Int} {q : Slot}

/-! ## Single entries and descriptors -/

section

variable (t : Files)

theorem Files.setFile_setFile (f : Fin NFILE) (x y : File) :
    (t.setFile f x).setFile f y = t.setFile f y := by simp [Files.setFile]

theorem Files.setFile_comm (h : f ≠ g) (x y : File) :
    (t.setFile f x).setFile g y = (t.setFile g y).setFile f x := by simp [Files.setFile, Function.update_comm h]

@[simp] theorem Files.setFile_self (f : Fin NFILE) (x : File) : (t.setFile f x).ftable f = x := by
  simp [Files.setFile]

theorem Files.setFile_eq_self (f : Fin NFILE) : t.setFile f (t.ftable f) = t := by
  simp only [Files.setFile, Function.update_eq_self]

theorem Files.setFile_of_ne (h : g ≠ f) (x : File) :
    (t.setFile f x).ftable g = t.ftable g := by simp [Files.setFile, h]

/-- Two entries that were stored are stored again. -/
theorem Files.refill (h : f ≠ g) (a b x y : File) :
    (((t.setFile f a).setFile g b).setFile f x).setFile g y = (t.setFile f x).setFile g y := by
  rw [setFile_comm _ h.symm, setFile_setFile, setFile_setFile]

@[simp] theorem Files.setFd_self (p : Slot) (fd : Fin NOFILE) (f : Option (Fin NFILE)) :
    (t.setFd p fd f).ofile p fd = f := by simp [Files.setFd]

@[simp] theorem Files.setFd_ftable (p : Slot) (fd : Fin NOFILE) (f : Option (Fin NFILE)) :
    (t.setFd p fd f).ftable = t.ftable := rfl

theorem Files.setFd_of_ne {p : Slot} (h : q ≠ p) (fd : Fin NOFILE) (f : Option (Fin NFILE)) :
    (t.setFd p fd f).ofile q = t.ofile q := by simp [Files.setFd, h]

theorem Files.setFd_of_ne' (p : Slot) {fd : Fin NOFILE} (h : i ≠ fd) (f : Option (Fin NFILE)) :
    (t.setFd p fd f).ofile p i = t.ofile p i := by simp [Files.setFd, h]

theorem Files.setFd_setFile (p : Slot) (fd : Fin NOFILE) (v : Option (Fin NFILE)) (f : Fin NFILE) (x : File) :
    (t.setFd p fd v).setFile f x = (t.setFile f x).setFd p fd v := rfl

/-- A descriptor that was null is set and cleared again. -/
theorem Files.setFd_undo {p : Slot} {fd : Fin NOFILE} (h : t.ofile p fd = none) (f : Option (Fin NFILE)) :
    (t.setFd p fd f).setFd p fd none = t := by
  simp only [Files.setFd, Function.update_self, Function.update_idem, ← h, Function.update_eq_self]

theorem Files.setFd_comm (p : Slot) {fd : Fin NOFILE} (h : fd ≠ i) (v w : Option (Fin NFILE)) :
    (t.setFd p fd v).setFd p i w = (t.setFd p i w).setFd p fd v := by
  simp only [Files.setFd, Function.update_self, Function.update_idem, Function.update_comm h]

@[simp] theorem Files.slots_setFile (f : Fin NFILE) (x : File) : (t.setFile f x).slots = t.slots := rfl

theorem Files.slots_setFd (p : Slot) (fd : Fin NOFILE) (f : Option (Fin NFILE)) :
    (t.setFd p fd f).slots = Function.update t.slots (p, fd) f := by
  funext ⟨q, i⟩
  by_cases hq : q = p
  · by_cases hi : i = fd
    · subst hq hi; simp [Files.slots]
    · subst hq
      rw [Function.update_of_ne (fun he => hi (congrArg Prod.snd he))]
      exact t.setFd_of_ne' q hi f
  · rw [Function.update_of_ne (fun he => hq (congrArg Prod.fst he))]
    exact congrFun (t.setFd_of_ne hq fd f) i

end

/-! ## Moves -/

/-- What one step of a call of process `p` does to the files. -/
inductive Move (G : FileType → Bool → Bool → Prop) (p : Slot) (t : Files) : Files → Prop
  | install {f : Fin NFILE} {fd : Fin NOFILE} {x : File} (hfree : (t.ftable f).ref = 0) (hfd : t.ofile p fd = none)
      (href : x.ref = 1) (hgood : G x.type x.readable x.writable) :
      Move G p t ((t.setFile f x).setFd p fd (some f))
  | dup {f : Fin NFILE} {fd : Fin NOFILE} (href : 0 < (t.ftable f).ref) (hfd : t.ofile p fd = none) :
      Move G p t ((t.setFile f { t.ftable f with ref := (t.ftable f).ref + 1 }).setFd p fd (some f))
  | drop {f : Fin NFILE} {fd : Fin NOFILE} (href : 0 < (t.ftable f).ref) (hfd : t.ofile p fd = some f) :
      Move G p t ((t.setFile f (t.ftable f).released).setFd p fd none)
  -- an entry that no descriptor points to is taken and given back
  | scrap {f : Fin NFILE} {x : File} (hfree : (t.ftable f).ref = 0) (href : x.ref = 0) : Move G p t (t.setFile f x)
  | seek (f : Fin NFILE) (off : UInt32) : Move G p t (t.setFile f { t.ftable f with off := off })

abbrev Moves (G : FileType → Bool → Bool → Prop) (p : Slot) : Files → Files → Prop := ReflTransGen (Move G p)

/-- The counts are right, and every entry in use meets `G`. -/
structure FilesInv (G : FileType → Bool → Bool → Prop) (t : Files) : Prop where
  refs : ∀ f, (t.ftable f).ref = pointers t.slots f
  good : ∀ f, 0 < (t.ftable f).ref → G (t.ftable f).type (t.ftable f).readable (t.ftable f).writable

section

variable {G : FileType → Bool → Bool → Prop} {p : Slot} {t t' : Files}

theorem File.released_ref (h : 0 < x.ref) : x.released.ref + 1 = x.ref := by
  unfold File.released; split
  · exact Nat.sub_add_cancel h
  · simp only; omega

theorem File.released_eq (h : 0 < x.released.ref) :
    x.released.type = x.type ∧ x.released.readable = x.readable ∧ x.released.writable = x.writable := by
  unfold File.released at h ⊢
  split at h
  · rename_i hr; rw [if_pos hr]; exact ⟨rfl, rfl, rfl⟩
  · cases h

/-- An entry gets new contents and one place is set or cleared, so that its count is right again. -/
theorem FilesInv.update (h : FilesInv G t) (htable : t'.ftable = Function.update t.ftable f x)
    (hself : x.ref = pointers t'.slots f) (hother : ∀ g, g ≠ f → pointers t'.slots g = pointers t.slots g)
    (hgood : 0 < x.ref → G x.type x.readable x.writable) : FilesInv G t' := by
  constructor
  · intro g
    by_cases hg : g = f
    · rw [htable, hg, Function.update_self]; exact hself
    · rw [htable, Function.update_of_ne hg, hother g hg]; exact h.refs g
  · intro g hpos
    by_cases hg : g = f
    · rw [htable, hg, Function.update_self] at hpos ⊢
      exact hgood hpos
    · rw [htable, Function.update_of_ne hg] at hpos ⊢
      exact h.good g hpos

theorem Move.inv (h : FilesInv G t) (hm : Move G p t t') : FilesInv G t' := by
  cases hm with
  | @install f fd x hfree hfd href hgood =>
      have hslot : t.slots (p, fd) = none := hfd
      refine h.update rfl ?_ (fun g hg => ?_) fun _ => hgood
      · rw [Files.slots_setFd, Files.slots_setFile, pointers_set hslot, ← h.refs f, hfree, href]
      · rw [Files.slots_setFd, Files.slots_setFile, pointers_set_of_ne hslot hg]
  | @dup f fd href hfd =>
      have hslot : t.slots (p, fd) = none := hfd
      refine h.update rfl ?_ (fun g hg => ?_) fun _ => h.good f href
      · rw [Files.slots_setFd, Files.slots_setFile, pointers_set hslot, ← h.refs f]
      · rw [Files.slots_setFd, Files.slots_setFile, pointers_set_of_ne hslot hg]
  | @drop f fd href hfd =>
      have hslot : t.slots (p, fd) = some f := hfd
      refine h.update rfl ?_ (fun g hg => ?_) fun hpos => ?_
      · have hrel := File.released_ref href
        rw [h.refs f, ← pointers_clear hslot] at hrel
        rw [Files.slots_setFd, Files.slots_setFile]
        exact Nat.add_right_cancel hrel
      · rw [Files.slots_setFd, Files.slots_setFile, pointers_clear_of_ne hslot hg]
      · obtain ⟨h1, h2, h3⟩ := File.released_eq hpos
        rw [h1, h2, h3]; exact h.good f href
  | @scrap f x hfree href =>
      refine h.update rfl ?_ (fun _ _ => rfl) fun hpos => absurd href (Nat.ne_of_gt hpos)
      rw [href, ← hfree]; exact h.refs f
  | seek f off => exact h.update rfl (h.refs f) (fun _ _ => rfl) (h.good f)

theorem Moves.inv (hm : Moves G p t t') (h : FilesInv G t) : FilesInv G t' := by
  induction hm with
  | refl => exact h
  | tail _ hm ih => exact hm.inv ih

/-- The descriptors of the other processes stay. -/
theorem Move.other (hm : Move G p t t') (hq : q ≠ p) : t'.ofile q = t.ofile q := by
  cases hm with
  | install => exact Files.setFd_of_ne _ hq _ _
  | dup => exact Files.setFd_of_ne _ hq _ _
  | drop => exact Files.setFd_of_ne _ hq _ _
  | scrap => rfl
  | seek => rfl

theorem Moves.other (hm : Moves G p t t') (hq : q ≠ p) : t'.ofile q = t.ofile q := by
  induction hm with
  | refl => rfl
  | tail _ hm ih => exact (hm.other hq).trans ih

theorem FilesInv.opened (h : FilesInv G t) {fd : Fin NOFILE} (hfd : t.ofile p fd = some f) : 0 < (t.ftable f).ref := by
  rw [h.refs f]; exact pointers_pos (t := t.slots) (i := (p, fd)) hfd

end

/-! ## The functions on files -/

/-- The two states differ in the files, the pipes and the allocator only. -/
structure Frame (s t : State) : Prop where
  used : t.used = s.used
  rest : t.rest = s.rest
  lists : t.sockList = s.sockList ∧ t.tcpSockList = s.tcpSockList ∧ t.udpSockList = s.udpSockList
  host : ∃ k, t.host = { s.host with kmem := k }

theorem Frame.refl (s : State) : Frame s s := ⟨rfl, rfl, ⟨rfl, rfl, rfl⟩, s.host.kmem, rfl⟩

theorem Frame.trans {s t u : State} (h : Frame s t) (h' : Frame t u) : Frame s u := by
  obtain ⟨k, hk⟩ := h.host
  obtain ⟨k', hk'⟩ := h'.host
  exact ⟨h'.used.trans h.used, h'.rest.trans h.rest,
    ⟨h'.lists.1.trans h.lists.1, h'.lists.2.1.trans h.lists.2.1, h'.lists.2.2.trans h.lists.2.2⟩,
    k', by rw [hk', hk]⟩

theorem Frame.setFile (s : State) (f : Fin NFILE) (x : File) : Frame s (s.setFile f x) :=
  ⟨rfl, rfl, ⟨rfl, rfl, rfl⟩, s.host.kmem, rfl⟩

theorem Frame.setFd (s : State) (p : Slot) (fd : Fin NOFILE) (f : Option (Fin NFILE)) : Frame s (s.setFd p fd f) :=
  ⟨rfl, rfl, ⟨rfl, rfl, rfl⟩, s.host.kmem, rfl⟩

theorem Frame.setPipe (s : State) (pi : Nat) (x : Pipe) : Frame s (s.setPipe pi x) :=
  ⟨rfl, rfl, ⟨rfl, rfl, rfl⟩, s.host.kmem, rfl⟩

theorem Frame.setKmem (s : State) (k : Kmem) : Frame s (s.setKmem k) := ⟨rfl, rfl, ⟨rfl, rfl, rfl⟩, k, rfl⟩

variable {s t : State} {p : Slot} {f : Fin NFILE}

theorem filealloc_eq_some (h : filealloc s = some (f, t)) :
    (s.ftable f).ref = 0 ∧ t = s.setFile f { s.ftable f with ref := 1 } := by
  obtain ⟨g, hg, he⟩ := Option.map_eq_some_iff.mp h
  cases he
  exact ⟨by simpa using List.find?_some hg, rfl⟩

theorem fdalloc_eq_some {fd : Fin NOFILE} (h : fdalloc s p f = some (fd, t)) :
    s.ofile p fd = none ∧ t = s.setFd p fd (some f) := by
  obtain ⟨i, hi, he⟩ := Option.map_eq_some_iff.mp h
  cases he
  exact ⟨by simpa using List.find?_some hi, rfl⟩

theorem argfd_eq_some (h : argfd s p fd = some (i, f)) : s.ofile p i = some f := by
  obtain ⟨j, -, hj⟩ := Option.bind_eq_some_iff.mp h
  obtain ⟨g, hg, he⟩ := Option.map_eq_some_iff.mp hj
  cases he; exact hg

theorem filedup_ok (h : filedup s f = .ok t) :
    0 < (s.ftable f).ref ∧ t = s.setFile f { s.ftable f with ref := (s.ftable f).ref + 1 } := by
  unfold filedup at h
  split at h
  · cases h
  · cases h; exact ⟨by omega, rfl⟩

theorem pipeclose_ok {pi : Nat} {w : Bool} (h : pipeclose s pi w = .ok t) : t.toFiles = s.toFiles ∧ Frame s t := by
  unfold pipeclose at h
  simp only [bind, Except.bind] at h
  split at h
  · split at h
    · cases h
    · cases h; exact ⟨rfl, (Frame.setPipe ..).trans (.setKmem ..)⟩
  · cases h; exact ⟨rfl, .setPipe ..⟩

theorem fileclose_ok (h : fileclose s f = .ok t) :
    0 < (s.ftable f).ref ∧ t.toFiles = s.toFiles.setFile f (s.ftable f).released ∧ Frame s t := by
  unfold fileclose at h
  dsimp only at h
  split at h
  · cases h
  · rename_i href
    refine ⟨by omega, ?_⟩
    split at h
    · cases h; exact ⟨rfl, .setFile ..⟩
    · split at h
      · obtain ⟨he, hf⟩ := pipeclose_ok h
        exact ⟨he, (Frame.setFile ..).trans hf⟩
      · cases ho : (s.setFile f (s.ftable f).released).ops (s.ftable f).sock with
        | error e => rw [ho] at h; cases h
        | ok o => rw [ho] at h; cases h; exact ⟨rfl, .setFile ..⟩
      all_goals cases h; exact ⟨rfl, .setFile ..⟩

theorem File.released_one (h : x.ref = 1) : x.released = { x with ref := 0, type := .none } := by
  unfold File.released; rw [if_neg (by omega)]

/-- Closing an entry that was never filled in. -/
theorem fileclose_unfilled (href : (s.ftable f).ref = 1) (hty : (s.ftable f).type = .none) :
    fileclose s f = .ok (s.setFile f { s.ftable f with ref := 0 }) := by
  have hone : ¬ 1 < 1 := by decide
  have hrel : (s.ftable f).released = { s.ftable f with ref := 0 } := by rw [File.released_one href, ← hty]
  simp only [fileclose, href, if_neg hone, hrel]
  rw [hty]

theorem closeBoth_ok {f0 f1 : Fin NFILE} (hne : f0 ≠ f1) (h : closeBoth s f0 f1 = .ok t) :
    t.toFiles = (s.toFiles.setFile f0 (s.ftable f0).released).setFile f1 (s.ftable f1).released ∧ Frame s t := by
  unfold closeBoth at h
  simp only [bind, Except.bind] at h
  split at h
  · cases h
  · rename_i u hu
    obtain ⟨-, he, hf⟩ := fileclose_ok hu
    obtain ⟨-, he', hf'⟩ := fileclose_ok h
    refine ⟨?_, hf.trans hf'⟩
    rw [he', he, Files.setFile_of_ne _ hne.symm]

/-! ## The calls -/

variable {G : FileType → Bool → Bool → Prop} {r : Option Int}

theorem sysDup_moves (h : sysDup s p fd = .ok (r, t)) : Moves G p s.toFiles t.toFiles ∧ Frame s t := by
  unfold sysDup at h
  split at h
  · cases h; exact ⟨.refl, .refl s⟩
  · rename_i f _
    split at h
    · cases h; exact ⟨.refl, .refl s⟩
    · rename_i i s₁ ha
      obtain ⟨hfd, rfl⟩ := fdalloc_eq_some ha
      simp only [bind, Except.bind] at h
      split at h
      · cases h
      · rename_i u hu
        obtain ⟨href, rfl⟩ := filedup_ok hu
        cases h
        exact ⟨.single (.dup href hfd), (Frame.setFd ..).trans (.setFile ..)⟩

theorem sysClose_moves (h : sysClose s p fd = .ok (r, t)) : Moves G p s.toFiles t.toFiles ∧ Frame s t := by
  unfold sysClose at h
  split at h
  · cases h; exact ⟨.refl, .refl s⟩
  · rename_i i f ha
    simp only [bind, Except.bind] at h
    split at h
    · cases h
    · rename_i u hu
      obtain ⟨href, he, hf⟩ := fileclose_ok hu
      cases h
      refine ⟨.single ?_, (Frame.setFd ..).trans hf⟩
      rw [he]
      exact .drop href (argfd_eq_some ha)

theorem sysOpen_moves (hg : ∀ ty r w, ty = .inode ∨ ty = .device → G ty r w) {lookup : Option Inode} {omode : UInt32}
    (h : sysOpen s p lookup omode = .ok (r, t)) : Moves G p s.toFiles t.toFiles ∧ Frame s t := by
  unfold sysOpen at h
  split at h
  · cases h; exact ⟨.refl, .refl s⟩
  · rename_i ip
    split at h
    · cases h; exact ⟨.refl, .refl s⟩
    · split at h
      · cases h; exact ⟨.refl, .refl s⟩
      · split at h
        · cases h; exact ⟨.refl, .refl s⟩
        · rename_i f s₁ ha
          obtain ⟨hfree, rfl⟩ := filealloc_eq_some ha
          split at h
          · -- no descriptor: the entry is given back
            simp only [bind, Except.bind] at h
            split at h
            · cases h
            · rename_i u hu
              obtain ⟨-, he, hf⟩ := fileclose_ok hu
              cases h
              refine ⟨.single ?_, (Frame.setFile ..).trans hf⟩
              rw [he]
              simp only [State.setFile, Files.setFile_setFile, Files.setFile_self]
              exact .scrap hfree (by rw [File.released_one rfl])
          · rename_i fd s₂ hd
            obtain ⟨hfd, rfl⟩ := fdalloc_eq_some hd
            cases h
            refine ⟨.single ?_, (Frame.setFile ..).trans ((Frame.setFd ..).trans (.setFile ..))⟩
            have hx : ∀ x : File, (x.opened ip omode).ref = x.ref ∧
                ((x.opened ip omode).type = .inode ∨ (x.opened ip omode).type = .device) := fun x => by
              unfold File.opened; dsimp only; split <;> simp
            simp only [State.setFile, State.setFd, Files.setFd_setFile, Files.setFile_setFile]
            exact .install hfree hfd (by rw [(hx _).1]; exact congrArg File.ref (Files.setFile_self ..)) (hg _ _ _ (hx _).2)

/-- Two entries that were free are taken and given back. -/
theorem closeBoth_scraps {t₀ : Files} {f0 f1 : Fin NFILE} {x0 x1 : File} (hne : f0 ≠ f1)
    (h0 : (t₀.ftable f0).ref = 0) (h1 : (t₀.ftable f1).ref = 0) (hx0 : x0.ref = 1) (hx1 : x1.ref = 1)
    (hs : s.toFiles = (t₀.setFile f0 x0).setFile f1 x1) (h : closeBoth s f0 f1 = .ok t) :
    Moves G p t₀ t.toFiles ∧ Frame s t := by
  obtain ⟨he, hf⟩ := closeBoth_ok hne h
  refine ⟨?_, hf⟩
  have hf0 : s.ftable f0 = x0 := by rw [hs, Files.setFile_of_ne _ hne, Files.setFile_self]
  have hf1 : s.ftable f1 = x1 := by rw [hs, Files.setFile_self]
  rw [he, hf0, hf1, hs, Files.refill _ hne]
  have hm₀ : Move G p t₀ (t₀.setFile f0 x0.released) := .scrap h0 (by rw [File.released_one hx0])
  have hm₁ : Move G p (t₀.setFile f0 x0.released) ((t₀.setFile f0 x0.released).setFile f1 x1.released) :=
    .scrap (by rw [Files.setFile_of_ne _ hne.symm]; exact h1) (by rw [File.released_one hx1])
  exact (ReflTransGen.single hm₀).tail hm₁

/-- What `pipealloc` leaves: everything as it was, or two entries filled in that no descriptor points to yet. -/
structure PipeMade (s t : State) (f0 f1 : Fin NFILE) : Prop where
  ne : f0 ≠ f1
  free0 : (s.ftable f0).ref = 0
  free1 : (s.ftable f1).ref = 0
  files : ∃ x0 x1, x0.ref = 1 ∧ x1.ref = 1 ∧ x0.type = .pipe ∧ x1.type = .pipe ∧
    t.toFiles = (s.toFiles.setFile f0 x0).setFile f1 x1

theorem pipealloc_ok {res : Option (Fin NFILE × Fin NFILE)} (h : pipealloc s = .ok (res, t)) :
    Frame s t ∧ match res with
      | none => Moves G p s.toFiles t.toFiles
      | some (f0, f1) => PipeMade s t f0 f1 := by
  unfold pipealloc at h
  split at h
  · cases h; exact ⟨.refl s, .refl⟩
  · rename_i f0 s₁ ha
    obtain ⟨h0, rfl⟩ := filealloc_eq_some ha
    split at h
    · simp only [bind, Except.bind] at h
      split at h
      · cases h
      · rename_i u hu
        obtain ⟨-, he, hf⟩ := fileclose_ok hu
        cases h
        refine ⟨(Frame.setFile ..).trans hf, .single ?_⟩
        rw [he]
        simp only [State.setFile, Files.setFile_setFile, Files.setFile_self]
        exact .scrap h0 (by rw [File.released_one rfl])
    · rename_i f1 s₂ hb
      obtain ⟨h1, rfl⟩ := filealloc_eq_some hb
      have hne : f0 ≠ f1 := by
        rintro rfl
        simp [State.setFile] at h1
      have h1' : (s.ftable f1).ref = 0 := by
        rw [← Files.setFile_of_ne s.toFiles hne.symm]; exact h1
      split at h
      · rename_i k _
        simp only [bind, Except.bind] at h
        split at h
        · cases h
        · rename_i u hu
          cases h
          have hs : (((s.setFile f0 { s.ftable f0 with ref := 1 }).setFile f1
              { (s.setFile f0 { s.ftable f0 with ref := 1 }).ftable f1 with ref := 1 }).setKmem k).toFiles =
            (s.toFiles.setFile f0 { s.ftable f0 with ref := 1 }).setFile f1
              { (s.setFile f0 { s.ftable f0 with ref := 1 }).ftable f1 with ref := 1 } := rfl
          obtain ⟨hm, hf⟩ := closeBoth_scraps (G := G) (p := p) hne h0 h1' rfl rfl hs hu
          exact ⟨(Frame.setFile ..).trans ((Frame.setFile ..).trans ((Frame.setKmem ..).trans hf)), hm⟩
      · rename_i pi k _
        cases h
        refine ⟨(Frame.setFile ..).trans ((Frame.setFile ..).trans ((Frame.setKmem ..).trans
          ((Frame.setPipe ..).trans ((Frame.setFile ..).trans (.setFile ..))))), hne, h0, h1', ?_⟩
        refine ⟨({ s.ftable f0 with ref := 1 } : File).pipeEnd pi false, ({ s.ftable f1 with ref := 1 } : File).pipeEnd pi true,
          rfl, rfl, rfl, rfl, ?_⟩
        simp only [State.setFile, State.setKmem, State.setPipe, Files.refill _ hne, Files.setFile_of_ne _ hne,
          Files.setFile_of_ne _ hne.symm, Files.setFile_self]

theorem sysPipe_moves (hg : ∀ r w, G .pipe r w) {mapped : Bool} (h : sysPipe s p mapped = .ok (r, t)) :
    Moves G p s.toFiles t.toFiles ∧ Frame s t := by
  unfold sysPipe at h
  simp only [bind, Except.bind] at h
  split at h
  · cases h
  · rename_i res hres
    obtain ⟨res, s₁⟩ := res
    obtain ⟨hf, hm⟩ := pipealloc_ok (G := G) (p := p) hres
    cases res with
    | none => cases h; exact ⟨hm, hf⟩
    | some fs =>
        obtain ⟨rf, wf⟩ := fs
        obtain ⟨hne, h0, h1, x0, x1, hx0, hx1, ht0, ht1, hs₁⟩ := hm
        have hofile : s₁.ofile = s.ofile := by rw [hs₁]; rfl
        -- every failure clears the descriptors it has set and closes both files
        have hback : ∀ {u v : State}, u.toFiles = s₁.toFiles → Frame s₁ u → closeBoth u rf wf = .ok v →
            Moves G p s.toFiles v.toFiles ∧ Frame s v := fun hu hfu hv => by
          obtain ⟨hm, hfv⟩ := closeBoth_scraps hne h0 h1 hx0 hx1 (hu.trans hs₁) hv
          exact ⟨hm, hf.trans (hfu.trans hfv)⟩
        dsimp only at h
        split at h
        · split at h
          · cases h
          · rename_i v hv
            cases h; exact hback rfl (.refl _) hv
        · rename_i fd0 s₂ ha
          obtain ⟨hfd0, rfl⟩ := fdalloc_eq_some ha
          split at h
          · split at h
            · cases h
            · rename_i v hv
              cases h
              exact hback (Files.setFd_undo _ hfd0 _) ((Frame.setFd ..).trans (.setFd ..)) hv
          · rename_i fd1 s₃ hb
            obtain ⟨hfd1, rfl⟩ := fdalloc_eq_some hb
            have hfds : fd0 ≠ fd1 := by
              rintro rfl
              simp [State.setFd] at hfd1
            have hfd1' : s₁.ofile p fd1 = none := by
              rw [← Files.setFd_of_ne' s₁.toFiles p hfds.symm]; exact hfd1
            split at h
            · cases h
              refine ⟨?_, hf.trans ((Frame.setFd ..).trans (.setFd ..))⟩
              have hm₀ : Move G p s.toFiles ((s.toFiles.setFile rf x0).setFd p fd0 (some rf)) :=
                .install h0 (by rw [← hofile]; exact hfd0) hx0 (by rw [ht0]; exact hg _ _)
              refine (ReflTransGen.single hm₀).tail ?_
              simp only [State.setFd, hs₁]
              refine .install ?_ ?_ hx1 (by rw [ht1]; exact hg _ _)
              · rw [← Files.setFile_of_ne s.toFiles hne.symm x0] at h1; exact h1
              · rw [Files.setFd_of_ne' _ _ hfds.symm]
                exact (congrFun (congrFun hofile p) fd1).symm.trans hfd1'
            · split at h
              · cases h
              · rename_i v hv
                cases h
                refine hback ?_ ((Frame.setFd ..).trans ((Frame.setFd ..).trans ((Frame.setFd ..).trans (.setFd ..)))) hv
                simp only [State.setFd]
                rw [Files.setFd_comm _ _ hfds.symm, Files.setFd_undo _ hfd0]
                exact Files.setFd_undo _ hfd1' _

theorem fileread_moves {env : ReadEnv} (h : fileread s f n env = .ok (r, t)) :
    Moves G p s.toFiles t.toFiles ∧ Frame s t := by
  unfold fileread at h
  dsimp only at h
  split at h
  · cases h; exact ⟨.refl, .refl s⟩
  · split at h
    · split at h
      · cases h; exact ⟨.refl, .refl s⟩
      · cases h; exact ⟨.refl, .setPipe ..⟩
    · split at h <;> cases h <;> exact ⟨.refl, .refl s⟩
    · cases h
      split
      · exact ⟨.single (.seek f _), .setFile ..⟩
      · exact ⟨.refl, .refl s⟩
    all_goals cases h

theorem filewrite_moves {env : WriteEnv} (h : filewrite s f n env = .ok (r, t)) :
    Moves G p s.toFiles t.toFiles ∧ Frame s t := by
  unfold filewrite at h
  dsimp only at h
  split at h
  · cases h; exact ⟨.refl, .refl s⟩
  · split at h
    · split at h <;> cases h <;> exact ⟨.refl, .setPipe ..⟩
    · split at h <;> cases h <;> exact ⟨.refl, .refl s⟩
    · cases h; exact ⟨.single (.seek f _), .setFile ..⟩
    all_goals cases h

theorem sysRead_moves {env : ReadEnv} (h : sysRead s p fd n env = .ok (r, t)) :
    Moves G p s.toFiles t.toFiles ∧ Frame s t := by
  unfold sysRead at h
  split at h
  · cases h; exact ⟨.refl, .refl s⟩
  · exact fileread_moves h

theorem sysWrite_moves {env : WriteEnv} (h : sysWrite s p fd n env = .ok (r, t)) :
    Moves G p s.toFiles t.toFiles ∧ Frame s t := by
  unfold sysWrite at h
  split at h
  · cases h; exact ⟨.refl, .refl s⟩
  · exact filewrite_moves h

/-- `fork`: the child gets the descriptors of its parent one by one, and had none. -/
theorem dupFiles_moves {np : Slot} (hnp : ∀ i, s.ofile np i = none) :
    Ensures (dupFiles s p np) fun t => Moves G np s.toFiles t.toFiles ∧ Frame s t := by
  refine (Ensures.foldlM (fun as u => as.Nodup ∧ (∀ i ∈ as, u.ofile np i = none) ∧
    Moves G np s.toFiles u.toFiles ∧ Frame s u) ?_ ⟨List.nodup_finRange _, fun i _ => hnp i, .refl, .refl s⟩).mono
    fun t ht => ht.2.2
  rintro u i as ⟨hnd, hnull, hm, hf⟩
  obtain ⟨hi, hnd'⟩ := List.nodup_cons.mp hnd
  split
  · exact .ok ⟨hnd', fun j hj => hnull j (List.mem_cons_of_mem i hj), hm, hf⟩
  · rename_i f hfd
    refine Ensures.bind (P := fun v => 0 < (u.ftable f).ref ∧
      v = u.setFile f { u.ftable f with ref := (u.ftable f).ref + 1 }) (fun v hv => filedup_ok hv) ?_
    rintro v ⟨href, rfl⟩
    refine .ok ⟨hnd', fun j hj => ?_, hm.tail (.dup href (hnull i List.mem_cons_self)),
      hf.trans ((Frame.setFile ..).trans (.setFd ..))⟩
    have hji : j ≠ i := by rintro rfl; exact hi hj
    exact (Files.setFd_of_ne' _ np hji _).trans (hnull j (List.mem_cons_of_mem i hj))

theorem dupFiles_frame {np : Slot} : Ensures (dupFiles s p np) (Frame s) := by
  refine Ensures.foldlM (fun _ u => Frame s u) (fun u i as hf => ?_) (.refl s)
  split
  · exact .ok hf
  · refine Ensures.bind (fun v hv => filedup_ok hv) ?_
    rintro v ⟨-, rfl⟩
    exact .ok (hf.trans ((Frame.setFile ..).trans (.setFd ..)))

/-- `exit`: after the loop every descriptor is null. -/
theorem closeFiles_moves : Ensures (closeFiles s p) fun t =>
    (∀ i, t.ofile p i = none) ∧ Moves G p s.toFiles t.toFiles ∧ Frame s t := by
  refine (Ensures.foldlM (fun as u => (∀ i, i ∉ as → u.ofile p i = none) ∧ Moves G p s.toFiles u.toFiles ∧ Frame s u)
    ?_ ⟨fun i hi => absurd (List.mem_finRange i) hi, .refl, .refl s⟩).mono fun t ht => ⟨fun i => ht.1 i List.not_mem_nil, ht.2⟩
  rintro u fd as ⟨hnull, hm, hf⟩
  split
  · rename_i hfd
    refine .ok ⟨fun i hi => ?_, hm, hf⟩
    by_cases he : i = fd
    · rw [he]; exact hfd
    · exact hnull i (fun hmem => (List.mem_cons.mp hmem).elim he hi)
  · rename_i f hfd
    refine Ensures.bind (fun v hv => fileclose_ok hv) ?_
    rintro v ⟨href, hv, hfv⟩
    have hofile : v.ofile = u.ofile := by rw [hv]; rfl
    refine .ok ⟨fun i hi => ?_, hm.tail ?_, hf.trans (hfv.trans (.setFd ..))⟩
    · by_cases he : i = fd
      · rw [he]; exact Files.setFd_self ..
      · refine (Files.setFd_of_ne' _ p he _).trans ?_
        rw [hofile]
        exact hnull i (fun hmem => (List.mem_cons.mp hmem).elim he hi)
    · simp only [State.setFd, hv]
      exact .drop href hfd

/-! ## Sockets and packets -/

theorem onDescriptor_result {call : Nat → Except Stop (Option Int × State)}
    (hc : ∀ sock r t, call sock = .ok (r, t) → ∃ h, t = s.withHost h)
    (h : (onDescriptor s p fd call).result = .ok (r, t)) : ∃ h, t = s.withHost h := by
  unfold onDescriptor at h
  split at h
  · cases h
  · split at h
    · cases h; exact ⟨s.host, rfl⟩
    · split at h
      · cases h; exact ⟨s.host, rfl⟩
      · exact hc _ _ _ h

theorem onListed_result {call : Nat → Except Stop (Option Int × State)}
    (hc : ∀ sock r t, call sock = .ok (r, t) → ∃ h, t = s.withHost h)
    (h : (onListed s fd call).result = .ok (r, t)) : ∃ h, t = s.withHost h := by
  unfold onListed at h
  split at h
  · cases h
  · cases h; exact ⟨s.host, rfl⟩
  · exact hc _ _ _ h

end Xv6Net.Sys
