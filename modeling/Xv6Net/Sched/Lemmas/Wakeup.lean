import Xv6Net.Sched.Lemmas.Watched

/-!
# No wakeup is lost

The other operations keep the invariant of locks and channels, and so does every run.
-/

namespace Xv6Net.Sched

open Procs (ProcState NPROC)

variable {K L V : Type} [DecidableEq K] {D : Discipline K L} {M : Monitor K L V} {P : Program K L V} {s s' : Sys K L V}
  {maker : Nat → Nat} {c d i j n p : Nat} {k k' : List (Op K L)} {lk : Lock K} {ch : Chan}

section Ops

variable (h : Inv D s maker) (w : Watched M s)

include h

/-! ## Calls -/

theorem stands_readProc {u : Use K L} (hcode : (s.cpus c).code = .readProc u :: k) (hlk : lk.Monitored)
    (ho : (s.locks lk).cpu = some c) (hs : M.Stands s lk ∅ (.readProc u :: k)) :
    M.Stands s lk ∅ (afterMyproc P c u (s.cpus c).proc ++ k) := by
  have hu := h.op hcode
  have hidle : ∀ {q : Prop}, (s.loc c).Idle → q := fun hl => absurd ho (hl.notMem lk)
  rw [h.me c (Sys.readsMe hu)]
  cases u with
  | sleep chan lk' =>
      obtain ⟨⟨p, hp⟩, -, hl, -⟩ := hu
      obtain rfl := hl.eq_of_mem ho
      simp only [Monitor.Stands, ↓reduceIte] at hs
      simp only [hp, Flow.me, afterMyproc, forProc, List.append_assoc, List.cons_append, List.nil_append]
      rw [stands_acquire]
      simp only [release, List.cons_append, List.nil_append, Monitor.Stands, ↓reduceIte, dozes]
      refine ⟨hs.1, ?_⟩
      rintro j ch ⟨⟩
      exact hs.2
  | wakeup chan i =>
      have hwake : M.Stands s lk ∅ (acquire (.proc i) ++ .wakeTest chan i :: (release (.proc i) ++ .wakeupFrom chan (i + 1) :: k)) :=
        stands_acquire.mpr ((stands_wakeTest hlk).mpr hs)
      cases hf : (s.cpus c).stack with
      | scheduler c' => simpa [Flow.me, afterMyproc] using hwake
      | proc p =>
          by_cases hpi : p = i
          · -- the process of the CPU is left out of the loop; it does not sleep
            subst hpi
            simp only [Flow.me, afterMyproc, forProc, ↓reduceIte, List.nil_append, List.cons_append]
            refine stands_wakeNext .refl ?_ hs
            rintro ⟨-, ⟨hst, -⟩ | ⟨d, hd⟩⟩
            · rw [(Sys.normal_iff hf).mp hu.2.1.mode] at hst; cases hst
            · obtain rfl := h.alone d c p (typed_dozes (h.flow d).typed hd).1 hf
              simp [hcode] at hd
          · simpa [Flow.me, afterMyproc, forProc, hpi] using hwake
  | killed yes no =>
      obtain ⟨-, -, ⟨p, hp⟩, -⟩ := hu
      simp only [hp, Flow.me, afterMyproc, forProc]
      exact hs
  | sched =>
      obtain ⟨p, st, -, hl, -⟩ := hu
      exact absurd ho (hl.unmonitored hlk)
  | forkret =>
      obtain ⟨p, -, hl, -⟩ := hu
      exact absurd ho (hl.unmonitored hlk)
  | preempt => exact hidle hu.1
  | yield | fork | wait | exit | syscall | fault | usertrapret | userInterrupt => first | exact hidle hu.2 | exact hidle hu.2.1

include w

theorem Watched.readKilled {u : KilledUse L} (hcode : (s.cpus c).code = .readKilled i u :: k) :
    Watched M (exec P s c n k (.readKilled i u)) := by
  obtain ⟨hd, hg⟩ := w.op hcode
  have hk : dozes k = none := by cases u <;> exact hd
  obtain ⟨hafter, hguard⟩ := guarded_afterKilled (p := i) (b := (s.procs i).killed) (w := u) hk hg
  have hu := h.op hcode
  simp only [exec, List.append_assoc]
  refine w.goto hcode ⟨rfl, (guarded_release hafter).mpr hguard⟩ fun lk hlk ho hs => ?_
  have hne : Lock.proc i ≠ lk := by rintro rfl; exact hlk
  rw [stands_release_of_ne hne]
  cases u with
  | exit => exact absurd ho (hu.1.unmonitored hlk)
  | client yes no =>
      cases (s.procs i).killed with
      | true => exact hs.1
      | false => exact hs.2
  | wait =>
      obtain rfl := hu.2.1.eq_of_mem ⟨ho, Ne.symm hne⟩
      obtain ⟨hr, hz⟩ := hs rfl
      cases (s.procs i).killed with
      | true => exact (stands_release hk).mpr hr
      | false =>
          simp only [afterKilled, sleep, Monitor.Stands, List.cons_append, List.nil_append, Bool.false_eq_true, ↓reduceIte]
          refine ⟨hr, rfl, ?_⟩
          rintro ⟨j, hj, hzj⟩
          exact hz j hj hzj

/-! ## `exit` and `wait` -/

theorem Watched.waitFrom {havekids : Bool} (hcode : (s.cpus c).code = .waitFrom p i havekids :: k) :
    Watched M (exec P s c n k (.waitFrom p i havekids)) := by
  obtain ⟨hk, hg⟩ := w.op hcode
  simp only [exec]
  split
  · split
    · exact w.goto hcode ⟨rfl, guarded_acquire.mpr ⟨rfl, by simp, hk, hg⟩⟩ fun _ _ _ => id
    · rename_i hpar
      refine w.goto hcode ⟨rfl, hk, hg⟩ fun lk _ _ hs hw => ?_
      exact ⟨(hs hw).1, Nat.forall_lt_succ_right.mpr ⟨(hs hw).2, fun hz => hpar hz.1⟩⟩
  · rename_i hi
    split
    · refine w.goto hcode ⟨rfl, guarded_acquire.mpr ⟨rfl, by simp, hk, hg⟩⟩ fun lk _ _ hs hw => ?_
      exact ⟨(hs hw).1, fun j hj => (hs hw).2 j (Nat.lt_of_lt_of_le hj (Nat.le_of_not_lt hi))⟩
    · refine w.goto hcode ⟨rfl, (guarded_release hk).mpr hg⟩ fun lk _ ho hs => ?_
      obtain rfl := (h.op hcode).2.1.eq_of_mem ho
      exact (stands_release hk).mpr (hs rfl).1

theorem Watched.waitTest (hcode : (s.cpus c).code = .waitTest p i :: k) : Watched M (exec P s c n k (.waitTest p i)) := by
  obtain ⟨hk, hg⟩ := w.op hcode
  have hk : dozes k = none := hk
  obtain ⟨-, -, hl, -⟩ := h.op hcode
  have hleave : ∀ {s' : Sys K L V} {lk : Lock K}, lk.Monitored → (s.locks lk).cpu = some c → Calm M s s' lk ∅ ∅ →
      M.Stands s lk ∅ (.waitTest p i :: k) → M.Stands s' lk ∅ (release (.proc i) ++ (release .wait ++ k)) := fun {s' lk} hlk ho hcalm hs => by
    obtain rfl := hl.eq_of_mem ⟨ho, by rintro rfl; exact hlk⟩
    exact (stands_release_of_ne (by simp)).mpr ((stands_release hk).mpr (hcalm.rests (hs rfl).1))
  have hguard : Guarded M (release (.proc i) ++ (release .wait ++ k)) :=
    (guarded_release rfl).mpr ((guarded_release hk).mpr hg)
  simp only [exec, List.append_assoc]
  split
  · split
    · exact w.goto hcode ⟨rfl, hguard⟩ fun lk hlk ho => hleave hlk ho .refl
    · exact w.setProc hcode ⟨rfl, hguard⟩ (w.context i) (by simp [freeproc]) (by simp [freeproc]) (.inr rfl) fun lk hlk ho hcalm =>
        hleave hlk ho hcalm
  · rename_i hz
    refine w.goto hcode ⟨rfl, (guarded_release rfl).mpr ⟨hk, hg⟩⟩ fun lk hlk ho hs => ?_
    refine (stands_release_of_ne (by rintro rfl; exact hlk)).mpr fun hw => ?_
    exact ⟨(hs hw).1, Nat.forall_lt_succ_right.mpr ⟨(hs hw).2, fun hj => hz hj.2⟩⟩

/-! ## Scheduling, `kill` and `fork` -/

omit h in
/-- A context is saved and another one loaded, by a CPU that holds no lock but that of a process. -/
theorem Watched.switch (hcpus : ∀ d, d ≠ c → s'.cpus d = s.cpus d) (hlocks : s'.locks = s.locks) (hdata : s'.data = s.data)
    (hcode : dozes (s'.cpus c).code = none ∧ Guarded M (s'.cpus c).code)
    (hcontext : ∀ p, (s'.procs p).context = (s.procs p).context ∨ dozes (s'.procs p).context = none ∧ Guarded M (s'.procs p).context)
    (hsched : ∀ d, s'.scheds d = s.scheds d ∨ dozes (s'.scheds d) = none ∧ Guarded M (s'.scheds d))
    (hprocs : ∀ p, (s'.procs p).parent = (s.procs p).parent ∧ (s'.procs p).chan = (s.procs p).chan ∧
      ((s'.procs p).state = (s.procs p).state ∨ (s'.procs p).state = .running))
    (hl : ∀ lk ∈ (s.loc c).held, ¬ lk.Monitored) : Watched M s' := by
  have hstate : ∀ {p st}, st ≠ .running → (s'.procs p).state = st → (s.procs p).state = st := fun {p st} hne hp => by
    rcases (hprocs p).2.2 with h | h
    · rw [← h, hp]
    · rw [h] at hp; exact absurd hp.symm hne
  have hcalm : ∀ lk, Calm M s s' lk ∅ ∅ := fun lk => by
    refine ⟨fun _ _ => by rw [hdata], fun _ p i hz => ⟨(hprocs i).1 ▸ hz.1, hstate (by simp) hz.2⟩, fun _ i q hq => (hprocs i).1 ▸ hq,
      fun ch _ j hj => ?_, fun _ hX => hX.elim⟩
    refine (hj.back hcpus fun h1 h2 => .inl ⟨hstate (by simp) h1, (hprocs j).2.1 ▸ h2⟩).resolve_right (by simp [hcode.1])
  refine ⟨fun d => ?_, fun p => ?_, fun d => ?_, fun lk hlk => ?_⟩
  · by_cases hd : d = c
    · subst hd; exact hcode.2
    · rw [hcpus d hd]; exact w.guarded d
  · rcases hcontext p with hx | hx
    · rw [hx]; exact w.context p
    · exact hx
  · rcases hsched d with hx | hx
    · rw [hx]; exact w.sched d
    · exact hx
  · exact (w.kept lk hlk).calm (hcalm lk) (by rw [hlocks]) hcpus fun ho _ => absurd hlk (hl lk ho)

theorem Watched.swtch (hcode : (s.cpus c).code = .swtch i :: k) : Watched M (exec P s c n k (.swtch i)) := by
  obtain ⟨hk, hg⟩ := w.op hcode
  obtain ⟨-, st, hl, -⟩ := h.op hcode
  refine w.switch (c := c) (fun d hd => by simp [exec, hd]) rfl rfl (by simpa [exec] using w.sched c) (fun p => ?_) (fun _ => .inl rfl)
    (fun p => ?_) fun lk hm hlk => hl.unmonitored hlk hm
  · by_cases hp : p = i
    · subst hp
      refine .inr ?_
      simp only [exec, Sys.setCpu_procs, Sys.setProc_self]
      exact ⟨rfl, hk, hg⟩
    · exact .inl (by simp [exec, hp])
  · rcases eq_or_ne p i with rfl | hp <;> simp [exec, *]

theorem Watched.scheduleTest (hcode : (s.cpus c).code = .scheduleTest i :: k) : Watched M (exec P s c n k (.scheduleTest i)) := by
  obtain ⟨hk, hg⟩ := w.op hcode
  obtain ⟨-, hl, -⟩ := h.op hcode
  simp only [exec]
  split
  · refine w.switch (c := c) (fun d hd => by simp [hd, Sys.setProc]) rfl rfl (by simpa using w.context i) (fun p => ?_) (fun d => ?_)
      (fun p => ?_) fun lk hm hlk => hl.unmonitored hlk hm
    · rcases eq_or_ne p i with rfl | hp <;> simp [Sys.setProc, *]
    · by_cases hd : d = c
      · subst hd
        refine .inr ?_
        simp only [Sys.setCpu_scheds, Function.update_self]
        exact ⟨rfl, hk, hg⟩
      · simp [hd]
    · rcases eq_or_ne p i with rfl | hp <;> simp [Sys.setProc, *]
  · exact w.goto hcode ⟨hk, hg⟩ fun lk hlk ho _ => absurd ho (hl.unmonitored hlk)

omit h in
theorem Watched.killTest {pid : Nat} (hcode : (s.cpus c).code = .killTest pid i :: k) : Watched M (exec P s c n k (.killTest pid i)) := by
  obtain ⟨hk, hg⟩ := w.op hcode
  have hne : ∀ {lk : Lock K}, lk.Monitored → Lock.proc i ≠ lk := by rintro lk hlk rfl; exact hlk
  simp only [exec]
  split
  · refine w.setProc hcode ⟨rfl, (guarded_release hk).mpr hg⟩ (w.context i) (fun hs => ?_) (fun hs => ?_) (.inl rfl) fun lk hlk _ hcalm hs => ?_
    · split at hs
      · cases hs
      · exact .inl ⟨hs, rfl⟩
    · split at hs
      · cases hs
      · exact hs
    · exact (stands_release_of_ne (hne hlk)).mpr (hcalm.stands hs)
  · refine w.goto hcode ⟨rfl, (guarded_release rfl).mpr ⟨hk, hg⟩⟩ fun lk hlk _ hs => ?_
    exact (stands_release_of_ne (hne hlk)).mpr hs

theorem Watched.allocMem {pid : Nat} (hcode : (s.cpus c).code = .allocMem i p pid :: k) : Watched M (exec P s c n k (.allocMem i p pid)) := by
  obtain ⟨hk, hg⟩ := w.op hcode
  obtain ⟨-, hl, -⟩ := h.op hcode
  have hst := ((h.flow c).making i (by rw [hcode]; exact .inl rfl)).2.1
  have hno : ∀ {q : Lock K → Prop} lk, lk.Monitored → (s.locks lk).cpu = some c → q lk := fun _ hlk ho =>
    absurd ho (hl.unmonitored hlk)
  simp only [exec, List.append_assoc, List.cons_append, List.nil_append]
  split
  · exact w.setProc hcode ⟨rfl, (guarded_release hk).mpr hg⟩ (w.context i) (by simp [freeproc]) (by simp [freeproc]) (.inr rfl) hno
  · have hstart : Guarded M (acquire (.proc i) ++ .start i :: (release (.proc i) ++ k)) :=
      guarded_acquire.mpr ⟨rfl, by simp, rfl, (guarded_release hk).mpr hg⟩
    have hparent : Guarded M (acquire .wait ++ .setParent i p :: (release .wait ++ (acquire (.proc i) ++ .start i ::
        (release (.proc i) ++ k)))) :=
      guarded_acquire.mpr ⟨rfl, fun _ s hr => (stands_release (k := acquire (.proc i) ++ .start i :: (release (.proc i) ++ k)) rfl).mpr hr,
        .inr ⟨.inl rfl, _, rfl, rfl⟩, (guarded_release rfl).mpr hstart⟩
    exact w.setProc hcode ⟨rfl, (guarded_release rfl).mpr hparent⟩ (w.context i) (by simp [hst]) (by simp [hst]) (.inl rfl) hno

end Ops

/-! ## The rest of the kernel -/

section Client

variable {pc next : L} {x : K}

omit [DecidableEq K] in
theorem Monitor.Carries.at (hc : M.Carries x pc next) {X : Set Chan} (hs : M.At s (.other x) X pc) : M.At s (.other x) X next := by
  rintro y ⟨⟩
  exact ⟨hc.1 _ (hs x rfl).1, fun n hn => ((hs x rfl).2 n hn).imp_left (hc.2 n hn)⟩

omit [DecidableEq K] in
theorem Monitor.Closes.rests (hc : M.Closes x pc) (hs : M.At s (.other x) ∅ pc) : M.Rests s (.other x) ∅ := by
  refine ⟨hc.1 _ (hs x rfl).1, fun ch hch => ?_⟩
  cases ch with
  | null | proc => cases hch
  | other n =>
      have hn : M.lockOf n = x := Lock.other.inj hch
      exact ((hs x rfl).2 n hn).resolve_left (hc.2 n hn)

theorem enters_client (ho : ∀ v, M.inv x v → M.asserts next x v) : M.Enters (.other x) (.client next :: k) := by
  rintro s hr y ⟨⟩
  refine ⟨ho _ hr.1, fun n hn => .inr (hr.2 _ ?_)⟩
  rw [Monitor.chanLock, hn]

/-- A step on the data of a lock. -/
theorem Watched.act (w : Watched M s) {f : Option Caller → V → V × L} (hheld : (s.locks (.other x)).cpu = some c)
    (hmem : ∀ lk, (s.locks lk).cpu = some c → ∃ y ∈ D.held pc, lk = .other y) (hcode : (s.cpus c).code = .client pc :: k)
    (hS : M.Allows D pc (.act x f)) :
    Watched M (({ s with data := Function.update s.data x (f (s.caller c) (s.data x)).1 } : Sys K L V).goto c
      (.client (f (s.caller c) (s.data x)).2 :: k)) := by
  obtain ⟨hd, hg⟩ := w.op hcode
  have hpc := (w.kept (.other x) trivial).stands c hheld
  rw [hcode] at hpc
  obtain ⟨hnext, hcond, hcarries⟩ := hS (s.caller c) (s.data x) (hpc x rfl).1
  refine w.protected (.other x) hcode (fun d hd => by simp [hd]) rfl (by simpa using ⟨hd, hg⟩) (fun p => ⟨rfl, fun h => ⟨h, rfl⟩⟩)
    rfl hheld (fun y hy => ?_) (fun _ => rfl) (fun lk hlk _ ho hs => ?_) fun _ hsleepy _ => ?_
  · have : y ≠ x := fun he => hy (he ▸ rfl)
    simp [Sys.goto, Sys.setCpu, this]
  · obtain ⟨y, hy, rfl⟩ := hmem lk ho
    simp only [Sys.goto_self]
    exact (hcarries y hy fun he => hlk (he ▸ rfl)).at hs
  · simp only [Sys.goto_self]
    rintro y ⟨⟩
    refine ⟨by simpa [Sys.goto, Sys.setCpu] using hnext, fun n hn => ?_⟩
    rcases hcond n hn with ho | ⟨hno, himp⟩
    · exact .inl ho
    · refine .inr (.inr fun j hj hc => ?_)
      have hq := (((hpc x rfl).2 n hn).resolve_left hno).resolve_left (Set.notMem_empty _)
      refine hq j (hsleepy j _ hj) ?_
      simp only [Monitor.Cond, hn, Sys.goto, Sys.setCpu, Function.update_self] at hc ⊢
      exact himp hc

theorem Watched.client (SD : D.Sound P) (S : M.Sound D P) (h : Inv D s maker) (w : Watched M s)
    (hcode : (s.cpus c).code = .client pc :: k) : Watched M (exec P s c n k (.client pc)) := by
  obtain ⟨hk, hg⟩ := w.op hcode
  have hk : dozes k = none := hk
  obtain ⟨ha, -⟩ := h.op hcode
  have hS := S pc
  have hallows := SD.allows pc
  have hmem : ∀ lk, (s.locks lk).cpu = some c → ∃ x ∈ D.held pc, lk = .other x := fun lk ho => by
    have hm : lk ∈ (s.loc c).held := ho
    rwa [ha.held] at hm
  -- what is known at the label of the locks that are held there
  have hgoto : ∀ {k'}, dozes k' = none ∧ Guarded M k' → (∀ x ∈ D.held pc, M.At s (.other x) ∅ pc → M.Stands s (.other x) ∅ k') →
      Watched M (s.goto c k') := fun hk' hst => w.goto hcode hk' fun lk hlk ho hs => by
    obtain ⟨x, hx, rfl⟩ := hmem lk ho
    exact hst x hx hs
  have hnone : ∀ {q : Prop} {x : K}, D.held pc = [] → x ∈ D.held pc → q := fun hh hx => by
    rw [hh] at hx; cases hx
  have hnext : ∀ next, Guarded M (.client next :: k) := fun next => ⟨hk, hg⟩
  cases hI : P.instr pc <;> simp only [hI, Monitor.Allows] at hS <;> simp only [hI, Discipline.Allows] at hallows <;> simp only [exec, hI]
  case acquire x next =>
    exact hgoto ⟨rfl, guarded_acquire.mpr ⟨rfl, fun _ => enters_client hS.1, hnext next⟩⟩ fun y hy hs => (hS.2 y hy).at hs
  case release x next =>
    refine hgoto ⟨rfl, (guarded_release rfl).mpr (hnext next)⟩ fun y hy hs => ?_
    by_cases hxy : y = x
    · subst hxy
      exact (stands_release rfl).mpr (hS.1.rests hs)
    · exact (stands_release_of_ne (by simp [Ne.symm hxy])).mpr ((hS.2 y hy hxy).at hs)
  case act x f => exact w.act (ha.mem hallows.1) hmem hcode hS
  case choose next => exact hgoto ⟨rfl, hnext _⟩ fun y hy hs => (hS n y hy).at hs
  case sleep chan x next =>
    obtain ⟨hlock, hclose, hcond, hopen⟩ := hS
    refine hgoto ⟨rfl, ⟨rfl, trivial, enters_client hopen⟩, hnext next⟩ fun y hy hs => ?_
    obtain rfl : y = x := by simpa [hallows.1] using hy
    simp only [sleep, Monitor.Stands, List.cons_append, ↓reduceIte]
    refine ⟨hclose.rests hs, by simp [Monitor.chanLock, hlock], ?_⟩
    simpa only [Monitor.Cond, hlock] using hcond _ (hs y rfl).1
  case wakeup chan next =>
    refine hgoto ⟨rfl, rfl, hnext next⟩ fun y hy hs => ⟨fun _ => .inr (by simp), ?_⟩
    rintro z ⟨⟩
    refine ⟨(hS y hy).1 _ (hs y rfl).1, fun m hm => ?_⟩
    rcases (hs y rfl).2 m hm with ho | ho
    · exact ((hS y hy).2 m hm ho).elim (fun he => .inr (.inl (he ▸ Set.mem_insert ..))) .inl
    · exact .inr (ho.imp_left (Set.mem_insert_of_mem _))
  case kill pid next => exact hgoto ⟨rfl, rfl, hnext next⟩ fun y hy hs => (hS y hy).at hs
  case killed yes no => exact hgoto ⟨rfl, hk, hg⟩ fun y hy hs => ⟨(hS y hy).1.at hs, (hS y hy).2.at hs⟩
  case fork next | wait next => exact hgoto ⟨rfl, rfl, hnext next⟩ fun y hy => hnone hallows.1 hy
  case exit => exact hgoto ⟨rfl, hk, hg⟩ fun y hy => hnone hallows.1 hy
  case ret => exact hgoto ⟨hk, hg⟩ fun y hy => hnone hallows hy
  case panic => exact w

end Client

/-! ## Every operation -/

theorem Watched.exec (SD : D.Sound P) (S : M.Sound D P) (h : Inv D s maker) (w : Watched M s) {op : Op K L}
    (hcode : (s.cpus c).code = op :: k) : Watched M (exec P s c n k op) := by
  obtain ⟨hd, hg⟩ := w.op hcode
  have hown : ∀ {i : Nat} {q : Lock K → Prop}, (s.loc c).Only (.proc i) → ∀ lk, lk.Monitored → (s.locks lk).cpu = some c → q lk :=
    fun hl lk hlk ho => absurd ho (hl.unmonitored hlk)
  have hidle : ∀ {q : Lock K → Prop}, (s.loc c).Idle → ∀ lk, lk.Monitored → (s.locks lk).cpu = some c → q lk :=
    fun hl lk _ ho => absurd ho (hl.notMem lk)
  cases op with
  | popOff =>
      simp only [Sched.exec]
      split
      · exact w.panic _
      split
      · exact w.panic _
      · exact w.setCpu hcode (.inr rfl) hg fun _ _ _ => id
  | swap lk => exact w.swap h hcode
  | unlock lk => exact w.unlock h hcode
  | readProc u => exact w.goto hcode (guarded_afterMyproc hd hg) fun lk hlk ho => stands_readProc h hcode hlk ho
  | schedChecks i =>
      simp only [Sched.exec]
      split
      · exact w.panic _
      split
      · exact w.panic _
      split
      · exact w.panic _
      · exact w.goto hcode ⟨hd, hg⟩ fun _ _ _ => id
  | swtch i => exact w.swtch h hcode
  | scheduleTest i => exact w.scheduleTest h hcode
  | readKilled i u => exact w.readKilled h hcode
  | setParent i q => exact w.setParent h hcode
  | wakeupFrom ch i =>
      simp only [Sched.exec]
      split
      · exact w.goto hcode ⟨rfl, hd, hg⟩ fun _ _ _ => id
      · rename_i hi
        refine w.goto hcode ⟨hd, hg⟩ fun lk _ _ hs => (Calm.woken_up fun hch j hj => ?_).stands hs.2
        exact (hs.1 hch).resolve_left (Set.notMem_empty ch) j (Nat.lt_of_lt_of_le hj.1 (Nat.le_of_not_lt hi)) hj
  | wakeTest ch i => exact w.wakeTest h hcode
  | killTest pid i => exact w.killTest hcode
  | allocTest i p =>
      have hl := (h.op hcode).2.1
      simp only [Sched.exec]
      split
      · exact w.setProc hcode ⟨rfl, guarded_acquire.mpr ⟨rfl, by simp, hd, hg⟩⟩ ⟨rfl, rfl, rfl, rfl, trivial⟩ (by simp) (by simp)
          (.inl rfl) (hown hl)
      · exact w.goto hcode ⟨rfl, (guarded_release rfl).mpr ⟨hd, hg⟩⟩ (hown hl)
  | allocMem i p pid => exact w.allocMem h hcode
  | threadTest p =>
      simp only [Sched.exec, h.threads p, Bool.false_eq_true, ↓reduceIte]
      exact w.goto hcode ⟨hd, hg⟩ fun _ _ _ => id
  | infantsFrom q j => exact (h.op hcode).elim
  | reparentFrom p i =>
      obtain ⟨k, rfl, hk⟩ := hd
      have hgo : Guarded M (.reparentFrom p (i + 1) :: .wakeParent p :: leave p k) := ⟨⟨k, rfl, hk⟩, hg⟩
      simp only [Sched.exec]
      split
      · split
        · exact w.goto hcode ⟨rfl, .inl ⟨_, _, _, rfl⟩, rfl, hgo⟩ fun lk _ _ hs => ⟨fun _ => .inr (by simp), fun hw =>
            ⟨(hs hw).1, fun ch hch => ((hs hw).2 ch hch).imp_left (Set.mem_insert_of_mem _)⟩⟩
        · exact w.goto hcode ⟨rfl, hgo⟩ fun _ _ _ => id
      · exact w.goto hcode ⟨rfl, hg⟩ fun _ _ _ => id
  | wakeParent p =>
      obtain ⟨k, rfl, hk⟩ := hd
      refine w.goto hcode ⟨rfl, rfl, hg⟩ fun lk _ ho hs => ?_
      obtain rfl := (h.op hcode).2.1.eq_of_mem ho
      refine ⟨fun _ => .inr (by simp),
        (stands_leave hk).mpr ⟨fun q hq => .inl ?_, (hs rfl).1, fun ch hch => ?_⟩⟩
      · rw [hq]; exact Set.mem_insert ..
      · exact ((hs rfl).2 ch hch).imp_left (Set.mem_insert_of_mem _)
  | waitFrom p i havekids => exact w.waitFrom h hcode
  | waitTest p i => exact w.waitTest h hcode
  | client pc => exact w.client SD S h hcode
  | panic msg => exact w
  | pushGet => exact w.goto hcode ⟨rfl, hd, hg⟩ fun _ _ _ => id
  | pushOff | setIntr | setIntena | clearProc => exact w.setCpu hcode (.inl hd) hg fun _ _ _ => id
  | holding a lk =>
      simp only [Sched.exec]
      split
      · exact w.goto hcode ⟨rfl, hd, hg⟩ fun _ _ _ => id
      · exact w.afterHolding hcode ⟨hd, hg⟩ fun _ => id
  | holdingCpu a lk => exact w.afterHolding hcode ⟨hd, hg⟩ fun _ => id
  | scheduleFrom i =>
      have hl := (h.op hcode).2
      simp only [Sched.exec, List.append_assoc, List.cons_append, List.nil_append]
      split
      · exact w.goto hcode ⟨rfl, guarded_acquire.mpr ⟨rfl, by simp, rfl, (guarded_release rfl).mpr ⟨hd, hg⟩⟩⟩ (hidle hl)
      · exact w.goto hcode ⟨rfl, rfl, hd, hg⟩ (hidle hl)
  | sleepOn i ch =>
      exact w.setProc hcode ⟨hd, hg⟩ (w.context i) (fun _ => .inr rfl) (by simp) (.inl rfl) (hown (h.op hcode).2.1)
  | park i st =>
      obtain ⟨-, -, -, rfl | ⟨rfl, -⟩, -⟩ := h.op hcode
      · exact w.setProc hcode ⟨hd, hg⟩ (w.context i) (by simp) (by simp) (.inl rfl) fun lk _ _ hcalm hs => hcalm.stands hs
      · exact w.parkZombie h hcode
  | clearChan i =>
      obtain ⟨hf, hl, -⟩ := h.op hcode
      have hst := (Sys.normal_iff hf).mp hl.mode
      exact w.setProc hcode ⟨hd, hg⟩ (w.context i) (by simp [hst]) (by simp [hst]) (.inl rfl) (hown hl)
  | setKilled i =>
      exact w.setProc hcode ⟨hd, hg⟩ (w.context i) (fun hs => .inl ⟨hs, rfl⟩) id (.inl rfl) fun lk _ _ hcalm hs => hcalm.stands hs
  | start i =>
      exact w.setProc hcode ⟨hd, hg⟩ (w.context i) (by simp) (by simp) (.inl rfl) (hown (h.op hcode).1)
  | preemptTest i =>
      have hl := (h.op hcode).2.1
      simp only [Sched.exec]
      split
      · exact w.goto hcode ⟨rfl, hd, hg⟩ (hidle hl)
      · exact w.goto hcode ⟨hd, hg⟩ (hidle hl)
  | killFrom | allocFrom =>
      simp only [Sched.exec]
      split
      · exact w.goto hcode ⟨rfl, guarded_acquire.mpr ⟨rfl, by simp, hd, hg⟩⟩ fun _ _ _ => id
      · exact w.goto hcode ⟨hd, hg⟩ fun _ _ _ => id
  | takePid i p =>
      refine w.code hcode (fun d hd => by simp [Sched.exec, hd]) rfl rfl rfl rfl (.inl (by simp [Sched.exec, release]))
        (by simp only [Sched.exec, Sys.goto_self]; exact (guarded_release rfl).mpr ⟨hd, hg⟩) fun lk hlk _ hs => ?_
      simp only [Sched.exec, Sys.goto_self]
      exact (stands_release_of_ne (by rintro rfl; exact hlk)).mpr hs
  | forkretInit =>
      have hl := (h.op hcode).2.1
      simp only [Sched.exec]
      split
      · exact w.code hcode (fun d hd => by simp [hd]) rfl rfl rfl rfl (.inl (by simp)) (by simpa using ⟨hd, hg⟩)
          (hidle hl)
      · exact w.goto hcode ⟨hd, hg⟩ (hidle hl)
  | user =>
      refine w.setCpu hcode (.inl ?_) ?_ (hidle (h.op hcode).2.1)
      · split <;> rfl
      · split <;> exact ⟨hd, hg⟩

/-! ## Every run -/

/-- All that is known of a state of the kernel. -/
structure SysOk (D : Discipline K L) (M : Monitor K L V) (s : Sys K L V) : Prop where
  safe : Safe D s
  watched : Watched M s

theorem SysOk.step (SD : D.Sound P) (S : M.Sound D P) (h : SysOk D M s) {a : Act} (hs : step P s a = some s') : SysOk D M s' := by
  refine ⟨h.safe.step SD hs, ?_⟩
  obtain ⟨⟨maker, h⟩, w⟩ := h
  rcases step_cases hs with ⟨c, n, op, k, -, hcode, rfl⟩ | ⟨c, irq, k, -, hon, hcode, rfl⟩ | ⟨c, irq, -, hon, rfl⟩
  · exact w.exec SD S h hcode
  · obtain ⟨hd, hg⟩ := w.op hcode
    exact w.setCpu hcode (.inl rfl) ⟨hd, hg⟩ fun lk hlk ho => absurd ho ((h.op hcode).2.1.notMem lk)
  · have hl := (h.idle hon).1
    -- an interrupt comes between calls of `sleep` and `acquire`
    have hk : dozes (s.cpus c).code = none := by
      refine Option.eq_none_iff_forall_ne_some.mpr ?_
      rintro ⟨j, ch⟩ hz
      exact hl.notMem _ (typed_dozes (h.flow c).typed hz).2
    have hg : dozes (kerneltrap P c irq ++ _) = none ∧ Guarded M (kerneltrap P c irq ++ _) := guarded_kerneltrap hk (w.guarded c)
    exact w.setCpu rfl (.inl hg.1) hg.2 fun lk hlk ho => absurd ho (hl.notMem lk)

theorem SysOk.boot {data : K → V} (hdata : ∀ x, M.inv x (data x)) : SysOk D M (boot data : Sys K L V) := by
  have hnobody : ∀ j ch, ¬ Sleepy (Sched.boot data : Sys K L V) j ch := by
    rintro j ch ⟨-, ⟨hs, -⟩ | ⟨c, hc⟩⟩
    · simp only [Sched.boot] at hs
      split at hs <;> cases hs
    · cases hc
  refine ⟨.boot data, fun c => ⟨rfl, rfl, rfl, trivial⟩, fun p => ?_, fun c => ⟨rfl, trivial⟩,
    fun lk _ => ⟨fun _ => ⟨?_, fun ch _ => .inr fun j hj => absurd hj (hnobody j ch)⟩, fun c hc => by cases hc⟩⟩
  · simp only [Sched.boot]
    split
    · exact ⟨rfl, rfl, rfl, rfl, trivial⟩
    · exact ⟨rfl, trivial⟩
  · cases lk with
    | other x => exact hdata x
    | _ => trivial

end Xv6Net.Sched
