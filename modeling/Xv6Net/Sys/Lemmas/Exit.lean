import Mathlib.Data.List.Nodup
import Xv6Net.Sys.Exit

/-!
# What `exit` gives up

A member of a group gives up its files and then its directory. The loops of `exit` get through exactly if each time the
directory is there, which is so for members that come once and have not ended before.
-/

namespace Xv6Net.Sys

open Kernel Procs Lib

variable {t t' : Tasks} {p q : Slot} {status : Int} {l : List Slot}

/-! ## One member -/

/-- The calls for the files of `p`, in the order of its descriptors. -/
def Tasks.closes (t : Tasks) (p : Slot) (fds : List (Fin NOFILE)) : List Release :=
  fds.filterMap fun fd => (t.ofile p fd).map (.fileclose p fd)

def Tasks.releases (t : Tasks) (p : Slot) : List Release :=
  t.closes p (List.finRange NOFILE) ++ [.iput p (t.machine.proc p).cwd]

/-- `p` without files and directory. -/
def Tasks.strip (t : Tasks) (p : Slot) : Tasks where
  machine := t.machine.setProc p { t.machine.proc p with cwd := false }
  ofile := Function.update t.ofile p fun _ => none

theorem closeFd_log (t : Tasks) (p : Slot) (fd : Fin NOFILE) :
    (closeFd p t fd).log = ((t.ofile p fd).map (.fileclose p fd)).toList := by
  unfold closeFd
  split <;> simp [*]

/-- A descriptor that was not open stays as it is. -/
theorem closeFd_val (t : Tasks) (p : Slot) (fd : Fin NOFILE) : (closeFd p t fd).val = t.setFd p fd none := by
  unfold closeFd
  split
  · next hnone => simp [Tasks.setFd, ← hnone]
  · rfl

theorem closeFds_val (fds : List (Fin NOFILE)) : (fds.foldlM (closeFd p) t).val =
    { t with ofile := Function.update t.ofile p fun fd => if fd ∈ fds then none else t.ofile p fd } := by
  induction fds generalizing t with
  | nil => simp
  | cons fd fds ih =>
      rw [List.foldlM_cons, Logged.val_bind, ih, closeFd_val]
      simp only [Tasks.setFd, Function.update_idem, Function.update_self, List.mem_cons]
      congr 2
      funext a
      by_cases ha : a = fd
      · simp [ha]
      · simp [ha]

theorem closeFds_log {fds : List (Fin NOFILE)} (hfds : fds.Nodup) : (fds.foldlM (closeFd p) t).log = t.closes p fds := by
  induction fds generalizing t with
  | nil => rfl
  | cons fd fds ih =>
      obtain ⟨hnot, hfds⟩ := List.nodup_cons.mp hfds
      have hrest : (t.setFd p fd none).closes p fds = t.closes p fds := by
        refine List.filterMap_congr fun a ha => ?_
        have hne : a ≠ fd := fun h => hnot (h ▸ ha)
        simp [Tasks.setFd, hne]
      rw [List.foldlM_cons, Logged.log_bind, closeFd_log, closeFd_val, ih hfds, hrest]
      cases hf : t.ofile p fd <;> simp [Tasks.closes, hf]

theorem giveUp_log (t : Tasks) (p : Slot) : (giveUp t p).log = t.releases p := by
  simp only [giveUp, Logged.log_bind, Logged.log_use, closeFds_log (List.nodup_finRange NOFILE), closeFds_val]
  rfl

theorem giveUp_val (t : Tasks) (p : Slot) :
    (giveUp t p).val = if (t.machine.proc p).cwd then .ok (t.strip p) else .error .fault := by
  simp only [giveUp, Logged.val_bind, Logged.val_use, closeFds_val, iputCwd]
  split <;> simp [bind, Except.bind, Tasks.strip]

/-! ## The threads of the parent -/

/-- What the loop leaves of the members that it has passed. -/
def Tasks.endAll (t : Tasks) (status : Int) : List Slot → Tasks
  | [] => t
  | p :: rest => ((t.strip p).setZombie p status).endAll status rest

theorem strip_setZombie_proc (t : Tasks) (p q : Slot) (status : Int) : ((t.strip p).setZombie p status).machine.proc q =
    if q = p then { t.machine.proc p with cwd := false, xstate := status, state := .zombie } else t.machine.proc q := by
  by_cases hq : q = p
  · simp [hq, Tasks.strip, Tasks.setZombie, Machine.setProc]
  · simp [hq, Tasks.strip, Tasks.setZombie, Machine.setProc]

theorem endAll_proc (l : List Slot) (t : Tasks) (q : Slot) (status : Int) : (t.endAll status l).machine.proc q =
    if q ∈ l then { t.machine.proc q with cwd := false, xstate := status, state := .zombie } else t.machine.proc q := by
  induction l generalizing t with
  | nil => simp [Tasks.endAll]
  | cons p l ih =>
      rw [Tasks.endAll, ih, strip_setZombie_proc]
      by_cases hq : q = p
      · simp [hq]
      · simp [hq]

theorem endAll_ofile {l : List Slot} (hq : q ∉ l) (t : Tasks) (status : Int) : (t.endAll status l).ofile q = t.ofile q := by
  induction l generalizing t with
  | nil => rfl
  | cons p l ih =>
      rw [List.mem_cons, not_or] at hq
      obtain ⟨hne, hq⟩ := hq
      rw [Tasks.endAll, ih hq]
      exact Function.update_of_ne hne ..

theorem releases_congr {t t' : Tasks} (hproc : t'.machine.proc p = t.machine.proc p) (hofile : t'.ofile p = t.ofile p) :
    t'.releases p = t.releases p := by
  simp only [Tasks.releases, Tasks.closes, hproc, hofile]

theorem endAll_initproc (l : List Slot) (t : Tasks) (status : Int) :
    (t.endAll status l).machine.initproc = t.machine.initproc := by
  induction l generalizing t with
  | nil => rfl
  | cons p l ih => exact ih _

theorem exitInfantsLogged_cons (hcwd : (t.machine.proc p).cwd = true) (status : Int) (l : List Slot) :
    exitInfantsLogged t status (p :: l) =
      ⟨t.releases p ++ (exitInfantsLogged ((t.strip p).setZombie p status) status l).log,
        (exitInfantsLogged ((t.strip p).setZombie p status) status l).val⟩ := by
  have hval : (giveUp t p).val = .ok (t.strip p) := by rw [giveUp_val, if_pos hcwd]
  rw [exitInfantsLogged, Logged.andThen_ok hval, giveUp_log]

theorem exitInfantsLogged_null (hcwd : (t.machine.proc p).cwd ≠ true) (status : Int) (l : List Slot) :
    (exitInfantsLogged t status (p :: l)).val = .error .fault := by
  have hval : (giveUp t p).val = .error .fault := by rw [giveUp_val, if_neg hcwd]
  rw [exitInfantsLogged, Logged.andThen_error hval]

/-- The loop gets through exactly if no directory is missing, which includes that no member comes twice. -/
theorem exitInfantsLogged_val (t : Tasks) (status : Int) (l : List Slot) : (exitInfantsLogged t status l).val =
    if l.Nodup ∧ ∀ p ∈ l, (t.machine.proc p).cwd = true then .ok (t.endAll status l) else .error .fault := by
  induction l generalizing t with
  | nil => simp [exitInfantsLogged, Tasks.endAll]
  | cons p l ih =>
      by_cases hcwd : (t.machine.proc p).cwd = true
      · rw [exitInfantsLogged_cons hcwd, ih, Tasks.endAll]
        congr 1
        simp only [strip_setZombie_proc, List.nodup_cons, List.forall_mem_cons, hcwd, true_and, eq_iff_iff]
        constructor
        · rintro ⟨hnodup, hall⟩
          have hnot : p ∉ l := fun hp => by simpa using hall p hp
          refine ⟨⟨hnot, hnodup⟩, fun r hr => ?_⟩
          have hne : r ≠ p := fun h => hnot (h ▸ hr)
          simpa [hne] using hall r hr
        · rintro ⟨⟨hnot, hnodup⟩, hall⟩
          refine ⟨hnodup, fun r hr => ?_⟩
          have hne : r ≠ p := fun h => hnot (h ▸ hr)
          simpa [hne] using hall r hr
      · rw [exitInfantsLogged_null hcwd, if_neg fun h => hcwd (h.2 p List.mem_cons_self)]

theorem exitInfantsLogged_log (hnodup : l.Nodup) (hcwd : ∀ p ∈ l, (t.machine.proc p).cwd = true) :
    (exitInfantsLogged t status l).log = l.flatMap t.releases := by
  induction l generalizing t with
  | nil => rfl
  | cons p l ih =>
      obtain ⟨hnot, hnodup⟩ := List.nodup_cons.mp hnodup
      obtain ⟨hp, hrest⟩ := List.forall_mem_cons.mp hcwd
      have hsame : ∀ r ∈ l, ((t.strip p).setZombie p status).machine.proc r = t.machine.proc r ∧
          ((t.strip p).setZombie p status).ofile r = t.ofile r := by
        intro r hr
        have hne : r ≠ p := fun h => hnot (h ▸ hr)
        exact ⟨by rw [strip_setZombie_proc, if_neg hne], Function.update_of_ne hne ..⟩
      rw [exitInfantsLogged_cons hp, ih hnodup fun r hr => by rw [(hsame r hr).1]; exact hrest r hr, List.flatMap_cons]
      refine congrArg (t.releases p ++ ·) ?_
      exact List.flatMap_congr fun r hr => releases_congr (hsame r hr).1 (hsame r hr).2

/-! ## The caller -/

theorem threadExitLogged_ok (hinit : p ≠ t.machine.initproc) (hcwd : (t.machine.proc p).cwd = true) (status : Int) :
    threadExitLogged t p status =
      ⟨t.releases p, .ok ({ t.strip p with machine := reparent (t.strip p).machine p }.setZombie p status)⟩ := by
  have hval : (giveUp t p).val = .ok (t.strip p) := by rw [giveUp_val, if_pos hcwd]
  rw [threadExitLogged, if_neg hinit, Logged.andThen_ok hval, giveUp_log, Logged.log_pure, List.append_nil, Logged.val_pure]

theorem threadExitLogged_ok_iff (t : Tasks) (p : Slot) (status : Int) :
    (∃ t', (threadExitLogged t p status).val = .ok t') ↔ p ≠ t.machine.initproc ∧ (t.machine.proc p).cwd = true := by
  constructor
  · rintro ⟨t', hok⟩
    rw [threadExitLogged] at hok
    split at hok
    · cases hok
    · next hinit =>
      refine ⟨hinit, ?_⟩
      by_contra hcwd
      have hval : (giveUp t p).val = .error .fault := by rw [giveUp_val, if_neg hcwd]
      rw [Logged.andThen_error hval] at hok
      cases hok
  · rintro ⟨hinit, hcwd⟩
    exact ⟨_, congrArg Logged.val (threadExitLogged_ok hinit hcwd status)⟩

theorem threadExit_proc_fields (t : Tasks) (p r : Slot) (status : Int) :
    let t' := { t.strip p with machine := reparent (t.strip p).machine p }.setZombie p status
    (t'.machine.proc r).state = (if r = p then .zombie else (t.machine.proc r).state) ∧
      (t'.machine.proc r).xstate = if r = p then status else (t.machine.proc r).xstate := by
  by_cases hr : r = p
  · simp [hr, Tasks.setZombie, Machine.setProc]
  · simp only [Tasks.setZombie, Machine.setProc, Function.update_of_ne hr, reparent, Tasks.strip, if_neg hr]
    split <;> exact ⟨rfl, rfl⟩

/-! ## The group -/

theorem nodup_group {t : Tasks} {q p : Slot} :
    (t.group q p).Nodup ↔ p ∉ t.machine.infants q ∧ (t.machine.infants q).Nodup := by
  rw [Tasks.group, List.nodup_append_comm, List.singleton_append, List.nodup_cons]

theorem forall_mem_group {t : Tasks} {q p : Slot} {P : Slot → Prop} :
    (∀ r ∈ t.group q p, P r) ↔ (∀ r ∈ t.machine.infants q, P r) ∧ P p := by
  simp [Tasks.group, or_imp, forall_and]

section

variable (hthread : (t.machine.proc p).isThread = true) (hparent : (t.machine.proc p).parent = some q)
include hthread hparent

theorem exitLogged_thread (status : Int) : exitLogged t p status =
    (exitInfantsLogged t status (t.machine.infants q)).andThen fun t => threadExitLogged t p status := by
  simp only [exitLogged, hthread, if_true, hparent]

/-- `exit` of a thread gets to its end exactly if no member of the group comes twice, the caller included, and all have
their directory. -/
theorem exitLogged_ok_iff (status : Int) : (∃ t', (exitLogged t p status).val = .ok t') ↔
    (t.group q p).Nodup ∧ (∀ r ∈ t.group q p, (t.machine.proc r).cwd = true) ∧ p ≠ t.machine.initproc := by
  rw [exitLogged_thread hthread hparent, Logged.val_andThen, exitInfantsLogged_val, nodup_group, forall_mem_group]
  by_cases hloop : (t.machine.infants q).Nodup ∧ ∀ r ∈ t.machine.infants q, (t.machine.proc r).cwd = true
  · rw [if_pos hloop]
    refine (threadExitLogged_ok_iff (t.endAll status (t.machine.infants q)) p status).trans ?_
    rw [endAll_initproc, endAll_proc]
    by_cases hmem : p ∈ t.machine.infants q
    · simp [hmem]
    · rw [if_neg hmem]
      constructor
      · rintro ⟨hinit, hcwd⟩
        exact ⟨⟨hmem, hloop.1⟩, ⟨hloop.2, hcwd⟩, hinit⟩
      · rintro ⟨-, ⟨-, hcwd⟩, hinit⟩
        exact ⟨hinit, hcwd⟩
  · rw [if_neg hloop]
    constructor
    · rintro ⟨t', hok⟩
      cases hok
    · rintro ⟨⟨-, hnodup⟩, ⟨hcwd, -⟩, -⟩
      exact absurd ⟨hnodup, hcwd⟩ hloop

/-- What `exit` then gives up, in order, and how the members end. -/
theorem exitLogged_log (hnodup : (t.group q p).Nodup) (hcwd : ∀ r ∈ t.group q p, (t.machine.proc r).cwd = true)
    (hinit : p ≠ t.machine.initproc) (status : Int) :
    ∃ t', exitLogged t p status = ⟨(t.group q p).flatMap t.releases, .ok t'⟩ ∧
      ∀ r ∈ t.group q p, (t'.machine.proc r).state = .zombie ∧ (t'.machine.proc r).xstate = status := by
  obtain ⟨hnot, hinfants⟩ := nodup_group.mp hnodup
  obtain ⟨hcwds, hp⟩ := forall_mem_group.mp hcwd
  have hval : (exitInfantsLogged t status (t.machine.infants q)).val = .ok (t.endAll status (t.machine.infants q)) := by
    rw [exitInfantsLogged_val, if_pos ⟨hinfants, hcwds⟩]
  have hsame : (t.endAll status (t.machine.infants q)).machine.proc p = t.machine.proc p := by
    rw [endAll_proc, if_neg hnot]
  rw [exitLogged_thread hthread hparent, Logged.andThen_ok hval, exitInfantsLogged_log hinfants hcwds,
    threadExitLogged_ok (by rw [endAll_initproc]; exact hinit) (by rw [hsame]; exact hp),
    releases_congr hsame (endAll_ofile hnot t status)]
  refine ⟨_, by rw [Tasks.group, List.flatMap_append, List.flatMap_singleton], ?_⟩
  intro r hr
  obtain ⟨hstate, hxstate⟩ := threadExit_proc_fields (t.endAll status (t.machine.infants q)) p r status
  rw [hstate, hxstate, endAll_proc]
  by_cases hrp : r = p
  · simp [hrp]
  · have hmem : r ∈ t.machine.infants q := by simpa [Tasks.group, hrp] using hr
    simp [hrp, hmem]

end

/-! ## Once -/

def Release.owner : Release → Slot
  | .fileclose p _ _ => p
  | .iput p _ => p

theorem owner_of_mem_releases {e : Release} (he : e ∈ t.releases p) : e.owner = p := by
  rcases List.mem_append.mp he with he | he
  · obtain ⟨fd, -, hfd⟩ := List.mem_filterMap.mp he
    obtain ⟨f, -, rfl⟩ := Option.map_eq_some_iff.mp hfd
    rfl
  · rw [List.mem_singleton.mp he]
    rfl

theorem nodup_releases (t : Tasks) (p : Slot) : (t.releases p).Nodup := by
  refine List.nodup_append.mpr ⟨?_, List.nodup_singleton _, ?_⟩
  · refine List.Nodup.filterMap (fun fd fd' e he he' => ?_) (List.nodup_finRange NOFILE)
    obtain ⟨f, -, rfl⟩ := Option.map_eq_some_iff.mp he
    obtain ⟨f', -, heq⟩ := Option.map_eq_some_iff.mp he'
    cases heq
    rfl
  · rintro e he e' he' rfl
    obtain ⟨fd, -, hfd⟩ := List.mem_filterMap.mp he
    obtain ⟨f, -, rfl⟩ := Option.map_eq_some_iff.mp hfd
    cases List.mem_singleton.mp he'

theorem nodup_flatMap_releases (t : Tasks) (hl : l.Nodup) : (l.flatMap t.releases).Nodup := by
  refine List.nodup_flatMap.mpr ⟨fun p _ => nodup_releases t p, ?_⟩
  refine hl.imp fun hne e he he' => hne ?_
  rw [← owner_of_mem_releases he, owner_of_mem_releases he']

theorem releasedOnce_iff (hthread : (t.machine.proc p).isThread = true) (hparent : (t.machine.proc p).parent = some q) :
    ReleasedOnce t (t.group q p) status (exitLogged t p status) ↔
      (t.group q p).Nodup ∧ (∀ r ∈ t.group q p, (t.machine.proc r).cwd = true) ∧ p ≠ t.machine.initproc := by
  constructor
  · intro h
    obtain ⟨t', hok, -⟩ := h.ended
    exact (exitLogged_ok_iff hthread hparent status).mp ⟨t', hok⟩
  · rintro ⟨hnodup, hcwd, hinit⟩
    obtain ⟨t', heq, hended⟩ := exitLogged_log hthread hparent hnodup hcwd hinit status
    have hlog := nodup_flatMap_releases t hnodup
    rw [heq]
    refine ⟨fun r hr hdir => ?_, fun r hr => ?_, fun r hr fd f hf => ?_, t', rfl, hended⟩
    · refine List.count_eq_one_of_mem hlog (List.mem_flatMap.mpr ⟨r, hr, ?_⟩)
      simp [Tasks.releases, hdir]
    · obtain ⟨r', hr', hmem⟩ := List.mem_flatMap.mp hr
      rcases List.mem_append.mp hmem with hmem | hmem
      · obtain ⟨fd, -, hfd⟩ := List.mem_filterMap.mp hmem
        obtain ⟨f, -, heq⟩ := Option.map_eq_some_iff.mp hfd
        cases heq
      · simp [hcwd r' hr'] at hmem
    · refine List.count_eq_one_of_mem hlog (List.mem_flatMap.mpr ⟨r, hr, List.mem_append_left _ ?_⟩)
      exact List.mem_filterMap.mpr ⟨fd, List.mem_finRange fd, by simp [Option.mem_def.mp hf]⟩

/-! ## Without the log -/

theorem map_machine_bind {x : Except Stop Tasks} {y : Except Stop Machine} {f : Tasks → Except Stop Tasks}
    {g : Machine → Except Stop Machine} (hx : x.map Tasks.machine = y)
    (hfg : ∀ t, (f t).map Tasks.machine = g t.machine) : (x.bind f).map Tasks.machine = y.bind g := by
  subst hx
  cases x with
  | error e => rfl
  | ok t => exact hfg t

theorem giveUp_machine (t : Tasks) (p : Slot) : (giveUp t p).val.map Tasks.machine = iputCwd t.machine p := by
  rw [giveUp_val, iputCwd]
  split <;> rfl

theorem exitInfantsLogged_machine (t : Tasks) (status : Int) (l : List Slot) :
    (exitInfantsLogged t status l).val.map Tasks.machine = exitInfants t.machine status l := by
  induction l generalizing t with
  | nil => rfl
  | cons p l ih =>
      rw [exitInfantsLogged, Logged.val_andThen]
      exact map_machine_bind (giveUp_machine t p) fun t => ih (t.setZombie p status)

theorem threadExitLogged_machine (t : Tasks) (p : Slot) (status : Int) :
    (threadExitLogged t p status).val.map Tasks.machine = threadExit t.machine p status := by
  rw [threadExitLogged, threadExit]
  split
  · rfl
  · rw [Logged.val_andThen]
    exact map_machine_bind (giveUp_machine t p) fun _ => rfl

/-- Without its log `exitLogged` is `exit`. -/
theorem exitLogged_machine (t : Tasks) (p : Slot) (status : Int) :
    (exitLogged t p status).val.map Tasks.machine = exit t.machine p status := by
  rw [exitLogged, exit]
  split
  · cases (t.machine.proc p).parent with
    | none => rfl
    | some q =>
        rw [Logged.val_andThen]
        exact map_machine_bind (exitInfantsLogged_machine t status _) fun t => threadExitLogged_machine t p status
  · exact threadExitLogged_machine t p status

end Xv6Net.Sys
