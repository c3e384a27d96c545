import Xv6Net.Sched.Lemmas.Typed

/-!
# The invariant of the kernel's locks and processes

What a CPU holds can be read off the state. Every CPU's code is typed by it, and so are the contexts that nobody uses.
A step of one CPU keeps what the invariant says of the others, since it changes a process only under the lock of the
process.
-/

namespace Xv6Net.Sched

open Procs (ProcState NPROC)

variable {K L V : Type}

-- A process that has left RUNNING is still on the stack of a CPU until `swtch`.
def Sys.mode (s : Sys K L V) (c : Nat) : Mode :=
  match (s.cpus c).stack with
  | .proc p => if (s.procs p).state = .running then .normal else .parking (s.procs p).state
  | .scheduler _ => (s.cpus c).proc.elim .normal .back

def Sys.loc (s : Sys K L V) (c : Nat) : Loc K where
  held := {lk | (s.locks lk).cpu = some c}
  noff := (s.cpus c).noff
  base := if (s.cpus c).noff = 0 then (s.cpus c).intr else (s.cpus c).intena
  mode := s.mode c

/-- What the stack `f` has left to do. A process in the making is known to nobody but its maker. -/
structure FlowOk (D : Discipline K L) (s : Sys K L V) (maker : Nat → Nat) (f : Flow) (code : List (Op K L)) (l : Loc K) :
    Prop where
  typed : Typed D f code l
  making : ∀ i, Makes i code → f = .proc (maker i) ∧ (s.procs i).state = .used ∧ (s.procs i).context = forkret

structure CpuOk (s : Sys K L V) (c : Nat) : Prop where
  intr : 0 < (s.cpus c).noff → (s.cpus c).intr = false
  wf : (s.cpus c).noff = 0 → (s.loc c).held = ∅
  runs : ∀ p, (s.cpus c).stack = .proc p → (s.cpus c).proc = some p ∧ (s.procs p).state ≠ .used ∧
    ((s.procs p).state = .running ∨ .proc p ∈ (s.loc c).held)
  schedules : ∀ d, (s.cpus c).stack = .scheduler d → d = c ∧ ∀ i, (s.cpus c).proc = some i → .proc i ∈ (s.loc c).held

def ProcState.Resumable (st : ProcState) : Prop := st = .sleeping ∨ st = .runnable

structure Inv (D : Discipline K L) (s : Sys K L V) (maker : Nat → Nat) : Prop where
  lock : ∀ lk, (s.locks lk).locked = (s.locks lk).cpu.isSome
  cpu : ∀ c, CpuOk s c
  flow : ∀ c, FlowOk D s maker (s.cpus c).stack (s.cpus c).code (s.loc c)
  alone : ∀ c d p, (s.cpus c).stack = .proc p → (s.cpus d).stack = .proc p → c = d
  running : ∀ p, (s.procs p).state = .running → ∃ c, (s.cpus c).stack = .proc p
  saved : ∀ p, ProcState.Resumable (s.procs p).state → (∀ c, (s.cpus c).stack ≠ .proc p) →
    ∀ b, FlowOk D s maker (.proc p) (s.procs p).context (.parked p b)
  sched : ∀ c p, (s.cpus c).stack = .proc p →
    (∀ i, ¬ Makes i (s.scheds c)) ∧ ∀ b, Typed D (.scheduler c) (s.scheds c) (.backFrom p b)
  threads : ∀ p, (s.procs p).isThread = false

def Safe (D : Discipline K L) (s : Sys K L V) : Prop := ∃ maker, Inv D s maker

variable {D : Discipline K L} {P : Program K L V} {s s' : Sys K L V} {maker : Nat → Nat} {c d i n p : Nat} {k k' : List (Op K L)}

section Updates

variable (s) (c) (u : Cpu K L) (k) (q : Proc K L)

@[simp] theorem Sys.setCpu_self : (s.setCpu c u).cpus c = u := Function.update_self ..
@[simp] theorem Sys.setCpu_of_ne (h : d ≠ c) : (s.setCpu c u).cpus d = s.cpus d := Function.update_of_ne h ..
@[simp] theorem Sys.setCpu_procs : (s.setCpu c u).procs = s.procs := rfl
@[simp] theorem Sys.setCpu_locks : (s.setCpu c u).locks = s.locks := rfl
@[simp] theorem Sys.setCpu_scheds : (s.setCpu c u).scheds = s.scheds := rfl
@[simp] theorem Sys.goto_self : (s.goto c k).cpus c = { s.cpus c with code := k } := Function.update_self ..
@[simp] theorem Sys.goto_of_ne (h : d ≠ c) : (s.goto c k).cpus d = s.cpus d := Function.update_of_ne h ..
@[simp] theorem Sys.goto_procs : (s.goto c k).procs = s.procs := rfl
@[simp] theorem Sys.goto_locks : (s.goto c k).locks = s.locks := rfl
@[simp] theorem Sys.setProc_cpus : (s.setProc i q).cpus = s.cpus := rfl
@[simp] theorem Sys.setProc_self : (s.setProc i q).procs i = q := Function.update_self ..
@[simp] theorem Sys.setProc_of_ne (h : p ≠ i) : (s.setProc i q).procs p = s.procs p := Function.update_of_ne h ..
@[simp] theorem Sys.setProc_locks : (s.setProc i q).locks = s.locks := rfl

@[simp] theorem Sys.setCpu_held : ((s.setCpu c u).loc d).held = (s.loc d).held := rfl

variable [DecidableEq K] (lk : Lock K) (w : Spinlock)

@[simp] theorem Sys.setLock_cpus : (s.setLock lk w).cpus = s.cpus := rfl
@[simp] theorem Sys.setLock_self : (s.setLock lk w).locks lk = w := Function.update_self ..
@[simp] theorem Sys.setLock_of_ne {lk' : Lock K} (h : lk' ≠ lk) : (s.setLock lk w).locks lk' = s.locks lk' :=
  Function.update_of_ne h ..

end Updates

/-! ## What a CPU knows of its process -/

theorem Sys.normal_iff (hp : (s.cpus c).stack = .proc p) :
    (s.loc c).mode = .normal ↔ (s.procs p).state = .running := by
  simp only [Sys.loc, Sys.mode, hp]
  split <;> simp_all

theorem Sys.state_of_parking {st : ProcState} (hp : (s.cpus c).stack = .proc p) (hl : (s.loc c).mode = .parking st) :
    (s.procs p).state = st ∧ st ≠ .running := by
  simp only [Sys.loc, Sys.mode, hp] at hl
  split at hl
  · cases hl
  · cases hl; exact ⟨rfl, ‹_›⟩

theorem Sys.mode_of_scheduler (hp : (s.cpus c).stack = .scheduler d) :
    (s.loc c).mode = (s.cpus c).proc.elim .normal .back := by simp only [Sys.loc, Sys.mode, hp]

theorem Inv.me (h : Inv D s maker) (c : Nat) (hl : (s.loc c).mode = .normal ∨ ∃ p, (s.cpus c).stack = .proc p) :
    (s.cpus c).proc = (s.cpus c).stack.me := by
  cases hf : (s.cpus c).stack with
  | proc p => exact ((h.cpu c).runs p hf).1
  | scheduler d =>
      have hl := hl.resolve_right (by simp [hf])
      rw [Sys.mode_of_scheduler hf] at hl
      cases ho : (s.cpus c).proc with
      | none => rfl
      | some j => rw [ho] at hl; cases hl

/-- A process whose lock a CPU holds is on the stack of no other CPU, unless it is RUNNING. -/
theorem Inv.off_stack (h : Inv D s maker) (hc : .proc i ∈ (s.loc c).held) (hst : (s.procs i).state ≠ .running)
    (hd : d ≠ c) : (s.cpus d).stack ≠ .proc i := by
  intro hi
  have hd' : (s.locks (.proc i)).cpu = some d := ((h.cpu d).runs i hi).2.2.resolve_left hst
  exact hd (Option.some.inj (hd'.symm.trans hc))

/-! ## Steps of one CPU -/

/-- Nothing else of a process matters to the invariant. -/
structure SameProc (p q : Proc K L) : Prop where
  state : p.state = q.state
  context : p.context = q.context
  isThread : p.isThread = q.isThread

theorem SameProc.refl (p : Proc K L) : SameProc p p := ⟨rfl, rfl, rfl⟩

/-- A change of a process by `c`: no other CPU is on its stack, and one in the making is left to its maker. -/
structure Changed (D : Discipline K L) (s s' : Sys K L V) (maker : Nat → Nat) (c j : Nat) : Prop where
  off : ∀ d, d ≠ c → (s.cpus d).stack ≠ .proc j
  made : (s.procs j).state = .used → (s.cpus c).stack = .proc (maker j)
  running : (s'.procs j).state = .running → (s'.cpus c).stack = .proc j
  saved : ProcState.Resumable (s'.procs j).state → (s'.cpus c).stack ≠ .proc j →
    ∀ b, FlowOk D s' maker (.proc j) (s'.procs j).context (.parked j b)
  isThread : (s'.procs j).isThread = (s.procs j).isThread

theorem FlowOk.of_same {f : Flow} {l : Loc K} (h : FlowOk D s maker f k l)
    (hsame : ∀ j, f = .proc (maker j) → (s.procs j).state = .used → SameProc (s'.procs j) (s.procs j)) :
    FlowOk D s' maker f k l := by
  refine ⟨h.typed, fun j hj => ?_⟩
  obtain ⟨hf, hst, hx⟩ := h.making j hj
  exact ⟨hf, (hsame j hf hst).state.trans hst, (hsame j hf hst).context.trans hx⟩

theorem Sys.mode_eq (hstack : (s'.cpus d).stack = (s.cpus d).stack) (hproc : (s'.cpus d).proc = (s.cpus d).proc)
    (hst : ∀ p, (s.cpus d).stack = .proc p → (s'.procs p).state = (s.procs p).state) : s'.mode d = s.mode d := by
  simp only [Sys.mode, hstack, hproc]
  split
  · rename_i p hp; rw [hst p hp]
  · rfl

theorem Sys.loc_eq (hu : s'.cpus d = { s.cpus d with code := k }) (hlocks : ∀ lk, (s'.locks lk).cpu = some d ↔ (s.locks lk).cpu = some d)
    (hst : ∀ p, (s.cpus d).stack = .proc p → (s'.procs p).state = (s.procs p).state) : s'.loc d = s.loc d :=
  Loc.ext (Set.ext hlocks) (by simp [Sys.loc, hu]) (by simp [Sys.loc, hu]) (Sys.mode_eq (by rw [hu]) (by rw [hu]) hst)

theorem CpuOk.of_same (h : CpuOk s d) (hu : s'.cpus d = { s.cpus d with code := k }) (hloc : s'.loc d = s.loc d)
    (hst : ∀ p, (s.cpus d).stack = .proc p → (s'.procs p).state = (s.procs p).state) : CpuOk s' d := by
  refine ⟨?_, ?_, fun p hp => ?_, ?_⟩
  · rw [hu]; exact h.intr
  · rw [hu, hloc]; exact h.wf
  · rw [hu] at hp ⊢; rw [hloc, hst p hp]; exact h.runs p hp
  · rw [hu, hloc]; exact h.schedules

section

variable (h : Inv D s maker)
include h

theorem Inv.change (hcpus : ∀ d, d ≠ c → s'.cpus d = s.cpus d) (hscheds : ∀ d, d ≠ c → s'.scheds d = s.scheds d)
    (hheld : ∀ d, d ≠ c → ∀ lk, (s'.locks lk).cpu = some d ↔ (s.locks lk).cpu = some d)
    (hlock : ∀ lk, (s'.locks lk).locked = (s'.locks lk).cpu.isSome)
    (hprocs : ∀ j, SameProc (s'.procs j) (s.procs j) ∧ ((s'.cpus c).stack = .proc j ↔ (s.cpus c).stack = .proc j) ∨
      Changed D s s' maker c j)
    (hcpu : CpuOk s' c) (hflow : FlowOk D s' maker (s'.cpus c).stack (s'.cpus c).code (s'.loc c))
    (hsched : ∀ p, (s'.cpus c).stack = .proc p →
      (∀ i, ¬ Makes i (s'.scheds c)) ∧ ∀ b, Typed D (.scheduler c) (s'.scheds c) (.backFrom p b)) : Inv D s' maker := by
  have hst : ∀ d, d ≠ c → ∀ p, (s.cpus d).stack = .proc p → (s'.procs p).state = (s.procs p).state := fun d hd p hp =>
    (hprocs p).elim (fun hs => hs.1.state) fun hc => absurd hp (hc.off d hd)
  have hloc : ∀ d, d ≠ c → s'.loc d = s.loc d := fun d hd =>
    Sys.loc_eq (k := (s.cpus d).code) (hcpus d hd) (hheld d hd) (hst d hd)
  have halone : ∀ d p, d ≠ c → (s'.cpus c).stack = .proc p → (s.cpus d).stack ≠ .proc p := fun d p hd hp hdp =>
    (hprocs p).elim (fun hs => hd (h.alone d c p hdp (hs.2.mp hp))) fun hc => hc.off d hd hdp
  refine ⟨hlock, fun d => ?_, fun d => ?_, fun d e p hd he => ?_, fun p hp => ?_, fun p hp hoff => ?_, fun d p hp => ?_, fun p => ?_⟩
  · by_cases hd : d = c
    · subst hd; exact hcpu
    · exact (h.cpu d).of_same (k := (s.cpus d).code) (hcpus d hd) (hloc d hd) (hst d hd)
  · by_cases hd : d = c
    · subst hd; exact hflow
    · rw [hcpus d hd, hloc d hd]
      -- the maker is on the stack of `d`, so it is not `c` that changes the process
      exact (h.flow d).of_same fun j hj hu => (hprocs j).elim And.left fun hc => absurd (h.alone d c _ hj (hc.made hu)) hd
  · by_cases hdc : d = c <;> by_cases hec : e = c
    · rw [hdc, hec]
    · subst hdc; rw [hcpus e hec] at he; exact absurd he (halone e p hec hd)
    · subst hec; rw [hcpus d hdc] at hd; exact absurd hd (halone d p hdc he)
    · rw [hcpus d hdc] at hd; rw [hcpus e hec] at he; exact h.alone d e p hd he
  · rcases hprocs p with ⟨hs, hc⟩ | hc
    · obtain ⟨d, hd⟩ := h.running p (hs.state ▸ hp)
      by_cases hdc : d = c
      · subst hdc; exact ⟨d, hc.mpr hd⟩
      · exact ⟨d, by rw [hcpus d hdc]; exact hd⟩
    · exact ⟨c, hc.running hp⟩
  · rcases hprocs p with ⟨hs, hc⟩ | hc
    · have hold : ∀ d, (s.cpus d).stack ≠ .proc p := fun d hd => by
        by_cases hdc : d = c
        · subst hdc; exact hoff d (hc.mpr hd)
        · exact hoff d (by rw [hcpus d hdc]; exact hd)
      rw [hs.context]
      exact fun b => (h.saved p (hs.state ▸ hp) hold b).of_same fun j hj hu =>
        (hprocs j).elim And.left fun hc => absurd ((hc.made hu).trans hj.symm) (hold c)
    · exact hc.saved hp (hoff c)
  · by_cases hd : d = c
    · subst hd; exact hsched p hp
    · rw [hcpus d hd] at hp; rw [hscheds d hd]; exact h.sched d p hp
  · rw [(hprocs p).elim (·.1.isThread) (·.isThread)]; exact h.threads p

section

variable (hcode : (s.cpus c).code = k)
include hcode

/-- A step that stays on the stack and leaves every process as it was. -/
theorem Inv.own (hcpus : ∀ d, d ≠ c → s'.cpus d = s.cpus d) (hstack : (s'.cpus c).stack = (s.cpus c).stack)
    (hscheds : s'.scheds = s.scheds) (hheld : ∀ d, d ≠ c → ∀ lk, (s'.locks lk).cpu = some d ↔ (s.locks lk).cpu = some d)
    (hlock : ∀ lk, (s'.locks lk).locked = (s'.locks lk).cpu.isSome) (hprocs : ∀ j, SameProc (s'.procs j) (s.procs j))
    (hcpu : CpuOk s' c) (hmk : ∀ i, Makes i (s'.cpus c).code → Makes i k)
    (htyped : Typed D (s'.cpus c).stack (s'.cpus c).code (s'.loc c)) : Inv D s' maker := by
  have hm := ((h.flow c).of_same fun j _ _ => hprocs j).making
  rw [hcode] at hm
  refine h.change hcpus (fun d _ => by rw [hscheds]) hheld hlock (fun j => .inl ⟨hprocs j, by rw [hstack]⟩) hcpu
    ⟨htyped, fun i hi => by rw [hstack]; exact hm i (hmk i hi)⟩ fun p hp => ?_
  rw [hscheds]; exact h.sched c p (hstack ▸ hp)

/-- A step after which the CPU has other code left, and all else is as it was for the invariant. -/
theorem Inv.code (hcpus : ∀ d, d ≠ c → s'.cpus d = s.cpus d)
    (hc : s'.cpus c = { s.cpus c with code := k' }) (hscheds : s'.scheds = s.scheds) (hlocks : s'.locks = s.locks)
    (hprocs : ∀ j, SameProc (s'.procs j) (s.procs j)) (hmk : ∀ i, Makes i k' → Makes i k)
    (htyped : Typed D (s.cpus c).stack k' (s.loc c)) : Inv D s' maker := by
  have hloc : s'.loc c = s.loc c := Sys.loc_eq hc (by simp [hlocks]) fun p _ => (hprocs p).state
  refine h.own hcode hcpus (by rw [hc]) hscheds (by simp [hlocks]) (by rw [hlocks]; exact h.lock) hprocs
    ((h.cpu c).of_same hc hloc fun p _ => (hprocs p).state) (by rw [hc]; exact hmk) ?_
  rw [hloc, hc]; exact htyped

theorem Inv.goto (hmk : ∀ i, Makes i k' → Makes i k)
    (htyped : Typed D (s.cpus c).stack k' (s.loc c)) : Inv D (s.goto c k') maker :=
  h.code hcode (fun d hd => by simp [hd]) (by simp) rfl rfl (fun _ => .refl _) hmk htyped

/-- A field of a process is set that the invariant does not speak of. -/
theorem Inv.setField {q : Proc K L} (hq : SameProc q (s.procs i))
    (hmk : ∀ i, Makes i k' → Makes i k) (htyped : Typed D (s.cpus c).stack k' (s.loc c)) :
    Inv D ((s.setProc i q).goto c k') maker := by
  refine h.code hcode (fun d hd => by simp [hd]) (by simp) rfl rfl (fun j => ?_) hmk htyped
  by_cases hj : j = i
  · subst hj; simpa using hq
  · simpa [hj] using SameProc.refl (s.procs j)

/-- The CPU changes nothing but its own registers. -/
theorem Inv.setCpu {u : Cpu K L} (hstack : u.stack = (s.cpus c).stack) (hproc : u.proc = (s.cpus c).proc)
    (hintr : 0 < u.noff → u.intr = false) (hwf : u.noff = 0 → (s.loc c).held = ∅)
    (hmk : ∀ i, Makes i u.code → Makes i k)
    (htyped : Typed D (s.cpus c).stack u.code
      { s.loc c with noff := u.noff, base := if u.noff = 0 then u.intr else u.intena }) : Inv D (s.setCpu c u) maker := by
  have hmode : (s.setCpu c u).mode c = s.mode c :=
    Sys.mode_eq (by simp [hstack]) (by simp [hproc]) fun _ _ => rfl
  have hc := h.cpu c
  refine h.own hcode (fun d hd => by simp [hd]) (by simp [hstack]) rfl (fun d _ lk => Iff.rfl) h.lock (fun _ => .refl _)
    ⟨?_, ?_, ?_, ?_⟩ (by simpa using hmk) ?_
  · simpa using hintr
  · simpa using hwf
  · simpa [hstack, hproc] using hc.runs
  · simpa [hstack, hproc] using hc.schedules
  · have hloc : (s.setCpu c u).loc c = { s.loc c with noff := u.noff, base := if u.noff = 0 then u.intr else u.intena } :=
      Loc.ext rfl (by simp [Sys.loc]) (by simp [Sys.loc]) hmode
    rw [hloc, Sys.setCpu_self, hstack]; exact htyped

/-- The CPU takes or releases a lock. -/
theorem Inv.setLock [DecidableEq K] {lk : Lock K} {w : Spinlock} {H : Set (Lock K)}
    (hw : w.locked = w.cpu.isSome) (hother : ∀ d, d ≠ c → (s.locks lk).cpu ≠ some d ∧ w.cpu ≠ some d)
    (hH : ∀ lk', lk' ∈ H ↔ if lk' = lk then w.cpu = some c else lk' ∈ (s.loc c).held) (hpos : 0 < (s.cpus c).noff)
    (hmode : (s.loc c).mode = .normal ∨ (∀ i, lk ≠ .proc i) ∨ lk ∈ H)
    (hmk : ∀ i, Makes i k' → Makes i k) (htyped : Typed D (s.cpus c).stack k' { s.loc c with held := H }) :
    Inv D ((s.setLock lk w).goto c k') maker := by
  have hloc : ((s.setLock lk w).goto c k').loc c = { s.loc c with held := H } := by
    refine Loc.ext (Set.ext fun lk' => ?_) (by simp [Sys.loc]) (by simp [Sys.loc])
      (Sys.mode_eq (by simp) (by simp) fun _ _ => rfl)
    rw [hH]
    by_cases hl : lk' = lk
    · subst hl; simp [Sys.loc]
    · simp [Sys.loc, hl]
  -- a lock of a process is not released on the way through `swtch`
  have hkeep : (s.loc c).mode ≠ .normal → ∀ i, .proc i ∈ (s.loc c).held → .proc i ∈ H := fun hne i hi => by
    rcases hmode.resolve_left hne with hl | hl
    · simpa [hH, (hl i).symm] using hi
    · by_cases he : .proc i = lk
      · rwa [he]
      · simpa [hH, he] using hi
  have hc := h.cpu c
  refine h.own hcode (fun d hd => by simp [hd]) (by simp) rfl (fun d hd lk' => ?_) (fun lk' => ?_) (fun _ => .refl _)
    ⟨?_, fun h0 => ?_, fun p hp => ?_, fun d hd => ?_⟩ (by simpa using hmk) (by rw [hloc]; simpa using htyped)
  · by_cases hl : lk' = lk
    · subst hl; simp [(hother d hd).1, (hother d hd).2]
    · simp [hl]
  · by_cases hl : lk' = lk
    · subst hl; simpa using hw
    · simpa [hl] using h.lock lk'
  · simpa using hc.intr
  · simp only [Sys.goto_self, Sys.setLock_cpus] at h0; exact absurd h0 (Nat.ne_of_gt hpos)
  · simp only [Sys.goto_self, Sys.setLock_cpus] at hp
    obtain ⟨ho, hu, hr⟩ := hc.runs p hp
    rw [hloc]
    refine ⟨by simpa using ho, hu, ?_⟩
    by_cases hrun : (s.procs p).state = .running
    · exact .inl hrun
    · exact .inr (hkeep (fun hn => hrun ((Sys.normal_iff hp).mp hn)) p (hr.resolve_left hrun))
  · simp only [Sys.goto_self, Sys.setLock_cpus] at hd
    obtain ⟨rfl, ho⟩ := hc.schedules d hd
    rw [hloc]
    refine ⟨rfl, fun i hi => ?_⟩
    simp only [Sys.goto_self, Sys.setLock_cpus] at hi
    exact hkeep (by rw [Sys.mode_of_scheduler hd, hi]; exact Mode.noConfusion) i (ho i hi)

end

/-- The CPU changes the state of a process. -/
theorem Inv.setProc {q : Proc K L} (hoff : ∀ d, d ≠ c → (s.cpus d).stack ≠ .proc i)
    (hmaker : (s.procs i).state = .used → (s.cpus c).stack = .proc (maker i)) (hq : q.state ≠ .running)
    (hth : q.isThread = (s.procs i).isThread) (hcpu : CpuOk ((s.setProc i q).goto c k) c)
    (hmaking : ∀ j, Makes j k → Makes j (s.cpus c).code ∧ j ≠ i ∨
      j = i ∧ (s.cpus c).stack = .proc (maker i) ∧ q.state = .used ∧ q.context = forkret)
    (htyped : Typed D (s.cpus c).stack k (((s.setProc i q).goto c k).loc c))
    (hsaved : ProcState.Resumable q.state → (s.cpus c).stack ≠ .proc i →
      ∀ b, FlowOk D ((s.setProc i q).goto c k) maker (.proc i) q.context (.parked i b)) :
    Inv D ((s.setProc i q).goto c k) maker := by
  refine h.change (c := c) (fun d hd => by simp [hd]) (fun _ _ => rfl) (fun _ _ _ => Iff.rfl) h.lock (fun j => ?_) hcpu
    ⟨by simpa using htyped, fun j hj => ?_⟩ fun p hp => ?_
  · by_cases hj : j = i
    · subst hj
      exact .inr ⟨hoff, hmaker, fun hr => absurd (by simpa using hr) hq, by simpa using hsaved, by simpa using hth⟩
    · exact .inl ⟨by simpa [hj] using SameProc.refl (s.procs j), by simp⟩
  · rcases hmaking j (by simpa using hj) with ⟨hm, hne⟩ | ⟨rfl, hm⟩
    · simpa [hne] using (h.flow c).making j hm
    · simpa using hm
  · exact h.sched c p (by simpa using hp)

end

end Xv6Net.Sched
