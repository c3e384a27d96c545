import Xv6Net.Proc.Lemmas.Created
import Xv6Net.Sys.Lemmas.Runs
import Xv6Net.Sys.World

/-!
# The file table under all calls that make or end processes

The counts are right because every call is a sequence of moves, and because a slot without a process has no
descriptors. What `filedup` and `fileclose` are called with is open: a descriptor refers to it, or the call itself has
just allocated it.
-/

namespace Xv6Net.Sys

open Kernel Net Procs Lib Relation

variable {s t : State} {p : Slot} {f : Fin NFILE}

/-! ## The panics of `filedup` and `fileclose` -/

/-- An error other than the panics about a count. -/
def NotRef (e : Stop) : Prop := e ≠ .panic "filedup" ∧ e ≠ .panic "fileclose"

theorem kfree_raises {k : Kmem} {pa : Nat} : Raises (kfree k pa) NotRef := by
  unfold kfree
  split
  · exact .error ⟨by decide, by decide⟩
  · split <;> exact .ok

theorem pipeclose_raises {pi : Nat} {writable : Bool} : Raises (pipeclose s pi writable) NotRef := by
  unfold pipeclose
  dsimp only
  split
  · exact kfree_raises.bind fun _ _ => .ok
  · exact .ok

theorem filedup_raises (h : 0 < (s.ftable f).ref) : Raises (filedup s f) NotRef := by
  rw [filedup, if_neg (by omega)]
  exact .ok

theorem ops_raises {sock : Nat} : Raises (s.ops sock) NotRef := by
  unfold State.ops
  split
  · exact .error ⟨by decide, by decide⟩
  · rename_i x _
    cases x.ops with
    | none => exact .error ⟨by decide, by decide⟩
    | some o => exact .ok

theorem fileclose_raises (h : 0 < (s.ftable f).ref) : Raises (fileclose s f) NotRef := by
  unfold fileclose
  dsimp only
  rw [if_neg (by omega)]
  split
  · exact .ok
  · split
    · exact pipeclose_raises
    · intro e he
      cases ho : (s.setFile f (s.ftable f).released).ops (s.ftable f).sock with
      | error e' =>
          rw [ho] at he
          cases he
          exact ops_raises _ ho
      | ok o => rw [ho] at he; cases he
    all_goals exact .ok

theorem closeBoth_raises {f0 f1 : Fin NFILE} (hne : f0 ≠ f1) (h0 : 0 < (s.ftable f0).ref) (h1 : 0 < (s.ftable f1).ref) :
    Raises (closeBoth s f0 f1) NotRef := by
  refine (fileclose_raises h0).bind fun u hu => fileclose_raises ?_
  obtain ⟨-, hfiles, -⟩ := fileclose_ok hu
  rw [hfiles, Files.setFile_of_ne _ hne.symm]
  exact h1

section

variable {G : FileType → Bool → Bool → Prop} (hi : FilesInv G s.toFiles)
include hi

theorem sysDup_raises {fd : Int} : Raises (sysDup s p fd) NotRef := by
  unfold sysDup
  split
  · exact .ok
  · rename_i i f hfd
    have hpos := hi.opened (argfd_eq_some hfd)
    split
    · exact .ok
    · rename_i j u hu
      obtain ⟨-, rfl⟩ := fdalloc_eq_some hu
      exact Raises.bind (filedup_raises hpos) fun _ _ => .ok

theorem sysClose_raises {fd : Int} : Raises (sysClose s p fd) NotRef := by
  unfold sysClose
  split
  · exact .ok
  · rename_i i f hfd
    have hpos := hi.opened (argfd_eq_some hfd)
    exact Raises.bind (fileclose_raises hpos) fun _ _ => .ok

/-- The descriptors of a maker stay open while they are copied. -/
theorem dupFiles_raises {np : Slot} (hne : p ≠ np) : Raises (dupFiles s p np) NotRef := by
  refine Raises.foldlM (fun u => ∀ j f, u.ofile p j = some f → 0 < (u.ftable f).ref) ?_ ?_ fun j f => hi.opened
  · intro u i hu
    split
    · exact .ok hu
    · rename_i f _
      refine Ensures.bind (fun v hv => filedup_ok hv) ?_
      rintro v ⟨hpos, rfl⟩
      refine .ok fun j g hj => ?_
      have hold : u.ofile p j = some g := by
        rw [← hj]; exact (congrFun (Files.setFd_of_ne _ hne _ _) j).symm
      by_cases hg : g = f
      · subst hg
        simp [State.setFd, State.setFile]
      · simpa [State.setFd, State.setFile, Files.setFile_of_ne _ hg] using hu j g hold
  · intro u i hu
    split
    · exact .ok
    · exact (filedup_raises (hu i _ ‹_›)).bind fun _ _ => .ok

theorem closeFiles_raises : Raises (closeFiles s p) NotRef := by
  refine Raises.foldlM (fun u => FilesInv G u.toFiles) ?_ ?_ hi
  · intro u fd hu
    split
    · exact .ok hu
    · rename_i f hfd
      refine Ensures.bind (fun v hv => fileclose_ok hv) ?_
      rintro v ⟨hpos, hv, -⟩
      refine .ok (Move.inv (p := p) hu ?_)
      simp only [State.setFd, hv]
      exact .drop hpos hfd
  · intro u fd hu
    split
    · exact .ok
    · exact (fileclose_raises (hu.opened ‹_›)).bind fun _ _ => .ok

end

/-- The entry that `filealloc` returns has one reference. -/
theorem filealloc_ref (h : filealloc s = some (f, t)) : (t.ftable f).ref = 1 := by
  obtain ⟨-, rfl⟩ := filealloc_eq_some h
  simp [State.setFile]

theorem sysOpen_raises {lookup : Option Inode} {omode : UInt32} : Raises (sysOpen s p lookup omode) NotRef := by
  unfold sysOpen
  split
  · exact .ok
  · split
    · exact .ok
    · split
      · exact .ok
      · split
        · exact .ok
        · rename_i f u hu
          split
          · exact (fileclose_raises (by rw [filealloc_ref hu]; decide)).bind fun _ _ => .ok
          · exact .ok

theorem pipealloc_raises : Raises (pipealloc s) NotRef := by
  unfold pipealloc
  split
  · exact .ok
  · rename_i f0 s₁ h0
    split
    · exact (fileclose_raises (by rw [filealloc_ref h0]; decide)).bind fun _ _ => .ok
    · rename_i f1 s₂ h1
      split
      · obtain ⟨hfree, hs₂⟩ := filealloc_eq_some h1
        have hne : f0 ≠ f1 := by
          rintro rfl
          rw [filealloc_ref h0] at hfree
          cases hfree
        refine (closeBoth_raises hne ?_ ?_).bind fun _ _ => .ok
        · simp [State.setKmem, hs₂, State.setFile, Files.setFile_of_ne _ hne, filealloc_ref h0]
        · simp [State.setKmem, filealloc_ref h1]
      · exact .ok

theorem sysPipe_raises {mapped : Bool} : Raises (sysPipe s p mapped) NotRef := by
  unfold sysPipe
  refine pipealloc_raises.bind fun (res, s₁) hres => ?_
  cases res with
  | none => exact .ok
  | some fs =>
      obtain ⟨rf, wf⟩ := fs
      obtain ⟨-, hne, -, -, x0, x1, hx0, hx1, -, -, hs₁⟩ := pipealloc_ok (G := Any) (p := p) hres
      have hrf : 0 < (s₁.ftable rf).ref := by
        rw [hs₁, Files.setFile_of_ne _ hne, Files.setFile_self, hx0]; decide
      have hwf : 0 < (s₁.ftable wf).ref := by
        rw [hs₁, Files.setFile_self, hx1]; decide
      dsimp only
      split
      · exact (closeBoth_raises hne hrf hwf).bind fun _ _ => .ok
      · rename_i fd0 s₂ h0
        obtain ⟨-, rfl⟩ := fdalloc_eq_some h0
        split
        · exact Raises.bind (closeBoth_raises hne hrf hwf) fun _ _ => .ok
        · rename_i fd1 s₃ h1
          obtain ⟨-, rfl⟩ := fdalloc_eq_some h1
          split
          · exact .ok
          · exact Raises.bind (closeBoth_raises hne hrf hwf) fun _ _ => .ok

theorem freeSocket_raises {sock : Nat} : Raises (freeSocket s sock) NotRef :=
  kfree_raises.bind fun _ _ => .ok

theorem sysSocket_raises {family type protocol : Int} : Raises (sysSocket s p family type protocol) NotRef := by
  unfold sysSocket
  split
  · exact .ok
  · dsimp only
    split
    · exact freeSocket_raises
    · rename_i f u hu
      split
      · exact (fileclose_raises (by rw [filealloc_ref hu]; decide)).bind fun _ _ => freeSocket_raises
      · exact .ok

/-! ## The invariant -/

/-- The counts are right, and only slots with a process have descriptors. -/
structure WorldInv (w : World) : Prop where
  files : FilesInv Any w.sys.toFiles
  idle : ∀ q, ¬ (w.proc q).state.Live → ∀ i, w.sys.ofile q i = none

variable {w : World}

theorem World.Fresh.inv (h : w.Fresh) : WorldInv w where
  files := {
    refs := by
      intro f
      have hnone : ∀ q, w.sys.slots q = none := fun q => h.2 q.1 q.2
      rw [h.1 f, pointers_eq_zero hnone]
      rfl
    good := fun _ _ => trivial }
  idle := fun q _ i => h.2 q i

/-- An error of the code for files is not one of the two panics. -/
def Halt.NotRef (h : Halt) : Prop := ∀ e, h = .file e → Sys.NotRef e

theorem raises_file {α : Type} {x : Except Stop α} (h : Raises x NotRef) : Raises (x.mapError Halt.file) Halt.NotRef :=
  h.mapError fun _ he _ hfile => Halt.file.inj hfile ▸ he

theorem raises_proc {α : Type} (x : Except Stop α) : Raises (x.mapError Halt.proc) Halt.NotRef :=
  Raises.mapError (E := fun _ => True) (fun _ _ => trivial) fun _ _ => nofun

namespace WorldInv

variable (h : WorldInv w)
include h

theorem onFiles {x : Except Stop (Option Int × State)} (hp : (w.proc p).state.Live)
    (hm : Ensures x fun (_, t) => Moves Any p w.sys.toFiles t.toFiles) :
    Ensures (w.onFiles x) fun (_, w') => WorldInv w' := by
  refine Ensures.bind (Ensures.mapError hm) fun (r, t) hm => .ok ⟨hm.inv h.files, fun q hq i => ?_⟩
  have hqp : q ≠ p := by rintro rfl; exact hq hp
  rw [hm.other hqp]
  exact h.idle q hq i

/-- No process was made. -/
theorem notMade {m : Machine} (hm : NotMade w.machine m) : WorldInv (w.put m) := by
  refine ⟨h.files, fun q hq i => h.idle q (fun hlive => hq ?_) i⟩
  have hproc : (w.put m).proc q = m.proc q := rfl
  rcases hm.reset q with heq | ⟨hunused, -⟩
  · rw [hproc, heq]; exact hlive
  · exact absurd hunused hlive.1

theorem spawn {make : Machine → Slot → Except Stop (Int × Machine)}
    (hmake : Ensures (make w.machine p) fun (r, m) => Spawned w.machine m r) :
    Ensures (w.spawn p make) fun (_, w') => WorldInv w' := by
  refine Ensures.bind (Ensures.mapError hmake) fun (r, m) hr => ?_
  cases hslot : unusedSlot w.machine with
  | none =>
      rcases hr with ⟨-, hm⟩ | ⟨-, np, hnp, -⟩
      · exact .ok (h.notMade hm)
      · rw [hslot] at hnp; cases hnp
  | some np =>
      rcases hr with ⟨rfl, hm⟩ | ⟨hpid, np', hnp, hrun, hothers⟩
      · exact .ok (h.notMade hm)
      · obtain rfl : np = np' := Option.some.inj (hslot.symm.trans hnp)
        have hfree : ∀ i, (w.put m).sys.ofile np i = none :=
          h.idle np fun hlive => hlive.1 (unusedSlot_state hslot)
        dsimp only
        rw [if_neg (by omega)]
        refine Ensures.bind (Ensures.mapError (dupFiles_moves (G := Any) hfree)) fun t ht => .ok ?_
        refine ⟨ht.1.inv h.files, fun q hq i => ?_⟩
        have hqnp : q ≠ np := by
          rintro rfl
          exact hq (by rw [show (w.put m).proc q = m.proc q from rfl, hrun]; exact ⟨nofun, nofun⟩)
        rw [ht.1.other hqnp]
        refine h.idle q (fun hlive => hq ?_) i
        rw [show (w.put m).proc q = m.proc q from rfl, hothers q hqnp]
        exact hlive

theorem leave {finish : Machine → Slot → Except Stop Machine}
    (hfinish : ∀ m, m.proc = w.proc → Ensures (finish m p) fun m' => ∀ q, q ≠ p → (m'.proc q).state = (w.proc q).state) :
    Ensures (w.leave p finish) fun (_, w') => WorldInv w' := by
  refine Ensures.bind (Ensures.mapError (closeFiles_moves (G := Any))) fun t ⟨hnone, hm, _⟩ => ?_
  refine Ensures.bind (Ensures.mapError (hfinish _ rfl)) fun m hstate => .ok ⟨hm.inv h.files, fun q hq i => ?_⟩
  by_cases hqp : q = p
  · subst hqp; exact hnone i
  · refine (congrFun (hm.other hqp) i).trans (h.idle q (fun hlive => hq ?_) i)
    rw [World.put, hstate q hqp]
    exact hlive

end WorldInv

/-! ## All calls -/

theorem threadExit_state {m : Machine} {status : Int} :
    Ensures (Procs.threadExit m p status) fun m' => ∀ q, q ≠ p → (m'.proc q).state = (m.proc q).state := by
  refine threadExit_proc.mono fun m' ⟨_, h⟩ q hq => ?_
  rw [h q]
  simp [Proc.afterExit, hq]

theorem wait_spares {m : Machine} {addr : Nat} :
    Ensures (Procs.wait m p addr) fun (_, m') => ∀ q, (m'.proc q).state = (m.proc q).state ∨ (m.proc q).state = .zombie := by
  unfold Procs.wait
  split
  · rename_i c hc
    have hzombie : (m.proc c).state = .zombie := by
      have := List.find?_some hc
      simp only [decide_eq_true_eq] at this
      exact this.2
    split
    · exact .error
    · split
      · exact .ok fun q => .inl rfl
      · refine freeproc_proc.bind fun m' ⟨_, hm⟩ => .ok fun q => ?_
        by_cases hq : q = c
        · exact .inr (hq ▸ hzombie)
        · exact .inl (by rw [hm, Function.update_of_ne hq])
  · split <;> exact .ok fun q => .inl rfl

theorem WorldInv.call (h : WorldInv w) {c : WorldCall} (hc : w.MayCall p c) :
    Ensures (worldCall w p c) fun (_, w') => WorldInv w' := by
  cases c with
  | openFile lookup omode => exact h.onFiles hc.1 fun _ ht => (sysOpen_moves (fun _ _ _ _ => trivial) ht).1
  | dup fd => exact h.onFiles hc.1 fun _ ht => (sysDup_moves ht).1
  | close fd => exact h.onFiles hc.1 fun _ ht => (sysClose_moves ht).1
  | pipe mapped => exact h.onFiles hc.1 fun _ ht => (sysPipe_moves (fun _ _ => trivial) ht).1
  | socket family type protocol =>
      exact h.onFiles hc.1 fun _ ht => (sysSocket_moves (fun _ _ _ _ => trivial) ht).1
  | fork => exact h.spawn fork_spawned
  | createThread => exact h.spawn createThread_spawned
  | threadExit status =>
      rw [worldCall]
      refine h.leave fun m hm => ?_
      rw [← hm]; exact threadExit_state
  | exit status =>
      rw [worldCall]
      refine h.leave fun m hm => ?_
      rw [Procs.exit, hm, hc.2 status rfl, if_neg nofun, ← hm]
      exact threadExit_state
  | wait addr =>
      refine Ensures.bind (Ensures.mapError wait_spares) fun (r, m) hm => .ok ⟨h.files, fun q hq i => ?_⟩
      refine h.idle q (fun hlive => hq ?_) i
      rcases hm q with heq | hz
      · rw [World.put, heq]; exact hlive
      · exact absurd hz hlive.2

theorem WorldInv.spawn_raises (h : WorldInv w) (hp : (w.proc p).state.Live)
    {make : Machine → Slot → Except Stop (Int × Machine)} : Raises (w.spawn p make) Halt.NotRef := by
  refine (raises_proc _).bind fun (r, m) _ => ?_
  cases hslot : unusedSlot w.machine with
  | none => exact .ok
  | some np =>
      have hne : p ≠ np := by
        rintro rfl
        exact hp.1 (unusedSlot_state hslot)
      have hfiles : FilesInv Any (w.put m).sys.toFiles := h.files
      dsimp only
      split
      · exact .ok
      · exact (raises_file (dupFiles_raises hfiles hne)).bind fun _ _ => .ok

theorem WorldInv.raises (h : WorldInv w) {c : WorldCall} (hc : w.MayCall p c) : Raises (worldCall w p c) Halt.NotRef := by
  have hfiles {x : Except Stop (Option Int × State)} (hx : Raises x NotRef) : Raises (w.onFiles x) Halt.NotRef :=
    (raises_file hx).bind fun _ _ => .ok
  cases c with
  | openFile lookup omode => exact hfiles sysOpen_raises
  | dup fd => exact hfiles (sysDup_raises h.files)
  | close fd => exact hfiles (sysClose_raises h.files)
  | pipe mapped => exact hfiles sysPipe_raises
  | socket family type protocol => exact hfiles sysSocket_raises
  | fork => exact h.spawn_raises hc.1
  | createThread => exact h.spawn_raises hc.1
  | threadExit status =>
      exact (raises_file (closeFiles_raises h.files)).bind fun _ _ => (raises_proc _).bind fun _ _ => .ok
  | exit status =>
      exact (raises_file (closeFiles_raises h.files)).bind fun _ _ => (raises_proc _).bind fun _ _ => .ok
  | wait addr => exact (raises_proc _).bind fun _ _ => .ok

theorem WorldInv.step {a : Slot × WorldCall} {w' : World} (h : WorldInv w) (hs : worldStep w a = some w') :
    WorldInv w' := by
  simp only [worldStep] at hs
  split at hs
  · rename_i hc
    cases hx : worldCall w a.1 a.2 with
    | error e => rw [hx] at hs; cases hs
    | ok x =>
        rw [hx] at hs
        cases hs
        exact h.call hc x hx
  · cases hs

end Xv6Net.Sys
