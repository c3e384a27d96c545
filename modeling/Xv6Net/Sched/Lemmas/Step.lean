import Xv6Net.Sched.Lemmas.Invariant

/-!
# Every step keeps the invariant

One lemma for each operation, or for a few that are alike.
-/

namespace Xv6Net.Sched

open Procs (ProcState NPROC)

variable {K L V : Type} {D : Discipline K L} {P : Program K L V} {s s' : Sys K L V} {maker : Nat → Nat}
  {c d i n p : Nat} {k k' : List (Op K L)} {lk : Lock K} {q : Proc K L}

theorem Sys.readsMe {u : Use K L} (hu : OpTyped D (s.cpus c).stack k (Typed D (s.cpus c).stack k) (s.loc c) (.readProc u)) :
    (s.loc c).mode = .normal ∨ ∃ p, (s.cpus c).stack = .proc p := by
  cases u with
  | wakeup => exact .inl hu.2.1.mode
  | preempt => exact .inl hu.1.mode
  | killed => exact .inl hu.1.mode
  | sched => exact .inr ⟨_, hu.choose_spec.choose_spec.1⟩
  | forkret => exact .inr ⟨_, hu.choose_spec.1⟩
  | _ => exact .inr hu.1

section

variable (h : Inv D s maker)
include h

theorem Inv.op {op : Op K L} (hcode : (s.cpus c).code = op :: k) :
    OpTyped D (s.cpus c).stack k (Typed D (s.cpus c).stack k) (s.loc c) op := by
  have := (h.flow c).typed
  rwa [hcode] at this

/-- A CPU that takes interrupts holds no lock and is not switching. -/
theorem Inv.idle (hi : (s.cpus c).intr = true) : (s.loc c).Idle ∧ (s.loc c).base = true := by
  have hu := h.cpu c
  have h0 : (s.cpus c).noff = 0 := Nat.eq_zero_of_not_pos fun hpos => by simp [hu.intr hpos] at hi
  have hheld := hu.wf h0
  refine ⟨⟨hheld, h0, ?_⟩, by simp [Sys.loc, h0, hi]⟩
  cases hf : (s.cpus c).stack with
  | proc p =>
      refine (Sys.normal_iff hf).mpr ((hu.runs p hf).2.2.resolve_right ?_)
      simp [hheld]
  | scheduler d =>
      rw [Sys.mode_of_scheduler hf]
      cases ho : (s.cpus c).proc with
      | none => rfl
      | some j => simpa [hheld] using (hu.schedules d hf).2 j ho

/-- Interrupts are turned on or off outside of `push_off`. -/
theorem Inv.setIntr {b : Bool} (hcode : (s.cpus c).code = k) (hl : (s.loc c).Idle) (hmk : ∀ i, Makes i k' → Makes i k)
    (hk : Typed D (s.cpus c).stack k' ((s.loc c).setBase b)) :
    Inv D (s.setCpu c { s.cpus c with intr := b, code := k' }) maker := by
  have h0 : (s.cpus c).noff = 0 := hl.noff
  refine h.setCpu hcode rfl rfl (fun hpos => absurd h0 (Nat.ne_of_gt hpos)) (fun _ => hl.held) hmk ?_
  simpa [h0, Loc.setBase, Sys.loc] using hk

/-- A process that can be resumed, is on no stack, and whose lock is held. -/
theorem Inv.context (hheld : .proc i ∈ (s.loc c).held) (hstack : (s.cpus c).stack ≠ .proc i)
    (hst : ProcState.Resumable (s.procs i).state) (b : Bool) : FlowOk D s maker (.proc i) (s.procs i).context (.parked i b) := by
  refine h.saved i hst (fun d => ?_) b
  by_cases hd : d = c
  · rw [hd]; exact hstack
  · exact h.off_stack hheld (by rcases hst with hst | hst <;> simp [hst]) hd

/-- A process sets its own state. -/
theorem Inv.parks (hcode : (s.cpus c).code = k') (hf : (s.cpus c).stack = .proc i) (hl : .proc i ∈ (s.loc c).held ∧ (s.loc c).mode = .normal)
    (hq : q.state ≠ .running ∧ q.state ≠ .used) (hth : q.isThread = (s.procs i).isThread) (hmk : ∀ j, Makes j k → Makes j k')
    (hk : Typed D (s.cpus c).stack k ((s.loc c).setMode (.parking q.state))) : Inv D ((s.setProc i q).goto c k) maker := by
  subst hcode
  have hst := (Sys.normal_iff hf).mp hl.2
  have hc := h.cpu c
  have hloc : ((s.setProc i q).goto c k).loc c = (s.loc c).setMode (.parking q.state) :=
    Loc.ext rfl (by simp [Sys.loc, Loc.setMode]) (by simp [Sys.loc, Loc.setMode]) (by simp [Sys.loc, Sys.mode, hf, Loc.setMode, hq.1])
  refine h.setProc (fun d hd hdi => hd (h.alone d c i hdi hf)) (by simp [hst]) hq.1 hth ⟨?_, ?_, fun p hp => ?_, by simp [hf]⟩
    (fun j hj => .inl ⟨hmk j hj, ?_⟩) (by rwa [hloc]) fun _ hne => absurd hf hne
  · simpa using hc.intr
  · simpa [hloc, Loc.setMode] using hc.wf
  · obtain rfl : i = p := by simpa [hf] using hp
    rw [hloc]
    exact ⟨by simpa using (hc.runs i hf).1, by simpa using hq.2, .inr hl.1⟩
  · rintro rfl
    simp [((h.flow c).making _ (hmk _ hj)).2.1] at hst

/-- A process that nobody runs gets another state. -/
theorem Inv.changeOther (hheld : .proc i ∈ (s.loc c).held) (hl : (s.loc c).mode = .normal)
    (hst : (s.procs i).state ≠ .running) (hq : q.state ≠ .running) (hth : q.isThread = (s.procs i).isThread)
    (hmaker : (s.procs i).state = .used → (s.cpus c).stack = .proc (maker i))
    (hmaking : ∀ j, Makes j k → Makes j (s.cpus c).code ∧ j ≠ i ∨
      j = i ∧ (s.cpus c).stack = .proc (maker i) ∧ q.state = .used ∧ q.context = forkret)
    (hk : Typed D (s.cpus c).stack k (s.loc c))
    (hsaved : ProcState.Resumable q.state → ∀ b, FlowOk D ((s.setProc i q).goto c k) maker (.proc i) q.context (.parked i b)) :
    Inv D ((s.setProc i q).goto c k) maker := by
  have hsame : ∀ p, (s.cpus c).stack = .proc p → (((s.setProc i q).goto c k).procs p).state = (s.procs p).state := fun p hp => by
    have : p ≠ i := by rintro rfl; exact hst ((Sys.normal_iff hp).mp hl)
    simp [this]
  have hloc : ((s.setProc i q).goto c k).loc c = s.loc c := Sys.loc_eq (Sys.goto_self ..) (fun _ => Iff.rfl) hsame
  exact h.setProc (fun d hd => h.off_stack hheld hst hd) hmaker hq hth ((h.cpu c).of_same (Sys.goto_self ..) hloc hsame) hmaking
    (by rwa [hloc]) fun hr _ => hsaved hr

/-- A sleeping process is made RUNNABLE. -/
theorem Inv.wakes (hcode : (s.cpus c).code = k') (hheld : .proc i ∈ (s.loc c).held) (hl : (s.loc c).mode = .normal)
    (hst : (s.procs i).state = .sleeping) (hq : q.state = .runnable) (hx : q.context = (s.procs i).context)
    (hth : q.isThread = (s.procs i).isThread) (hmk : ∀ j, Makes j k → Makes j k') (hk : Typed D (s.cpus c).stack k (s.loc c)) :
    Inv D ((s.setProc i q).goto c k) maker := by
  subst hcode
  have hne : ∀ {j}, (s.procs j).state = .used → j ≠ i := fun hj => by rintro rfl; simp [hst] at hj
  refine h.changeOther hheld hl (by simp [hst]) (by simp [hq]) hth (by simp [hst])
    (fun j hj => .inl ⟨hmk j hj, hne ((h.flow c).making j (hmk j hj)).2.1⟩) hk fun _ b => ?_
  rw [hx]
  refine (h.context hheld (fun hf => ?_) (.inl hst) b).of_same fun j _ hj => ?_
  · rw [(Sys.normal_iff hf).mp hl] at hst; cases hst
  · simpa [hne hj] using SameProc.refl (s.procs j)

/-- A process that is not in the making gets another maker. -/
theorem Inv.setMaker (hst : (s.procs i).state = .unused) (p : Nat) : Inv D s (Function.update maker i p) := by
  have hflow : ∀ {f code l}, FlowOk D s maker f code l → FlowOk D s (Function.update maker i p) f code l := fun hf => by
    refine ⟨hf.typed, fun j hj => ?_⟩
    obtain ⟨hm, hu, hx⟩ := hf.making j hj
    have : j ≠ i := by rintro rfl; simp [hst] at hu
    exact ⟨by simpa [this] using hm, hu, hx⟩
  exact ⟨h.lock, h.cpu, fun c => hflow (h.flow c), h.alone, h.running, fun p hp ho b => hflow (h.saved p hp ho b), h.sched, h.threads⟩

end

variable [DecidableEq K]

section Ops

variable (h : Inv D s maker)
include h

/-! ## Registers and locks -/

theorem Inv.pushOff {old : Bool} (hcode : (s.cpus c).code = .pushOff old :: k) : Inv D (exec P s c n k (.pushOff old)) maker := by
  obtain ⟨hold, hk⟩ := h.op hcode
  refine h.setCpu hcode rfl rfl (fun _ => rfl) (fun h0 => absurd h0 (Nat.succ_ne_zero _)) (fun _ => id) ?_
  convert hk using 1
  refine Loc.ext rfl rfl ?_ rfl
  by_cases h0 : (s.cpus c).noff = 0
  · simpa [Sys.loc, Loc.push, h0] using hold h0
  · simp [Sys.loc, Loc.push, h0]

theorem Inv.popOff (hcode : (s.cpus c).code = .popOff :: k) : Inv D (exec P s c n k .popOff) maker := by
  obtain ⟨⟨hpos, hnone⟩, hk⟩ := h.op hcode
  have hpos : 0 < (s.cpus c).noff := hpos
  have hn : ¬ (s.cpus c).noff < 1 := by omega
  simp only [exec, (h.cpu c).intr hpos, Bool.false_eq_true, ↓reduceIte, hn]
  refine h.setCpu hcode rfl rfl (fun h0 => ?_) (fun h0 => hnone ?_) (fun _ => id) ?_
  · simp [Nat.ne_of_gt h0]
  · simp only at h0
    exact (by omega : (s.cpus c).noff = 1)
  · convert hk using 1
    refine Loc.ext rfl rfl ?_ rfl
    by_cases h1 : (s.cpus c).noff - 1 = 0 <;> simp [Sys.loc, Loc.pop, h1, Nat.ne_of_gt hpos]

theorem Inv.holding {w : Asker} (hcode : (s.cpus c).code = .holding w lk :: k) :
    Inv D (exec P s c n k (.holding w lk)) maker := by
  obtain ⟨hpos, hw, hk⟩ := h.op hcode
  simp only [exec]
  split
  · exact h.goto hcode (fun _ => id) ⟨hpos, hw, hk⟩
  · rename_i hfree
    have hlk : lk ∉ (s.loc c).held := fun (hm : (s.locks lk).cpu = some c) => hfree (by simp [h.lock, hm])
    have := not_not.mp fun hne => hlk (hw.mpr hne)
    subst this
    exact h.goto hcode (fun _ => id) hk

theorem Inv.holdingCpu {w : Asker} (hcode : (s.cpus c).code = .holdingCpu w lk :: k) :
    Inv D (exec P s c n k (.holdingCpu w lk)) maker := by
  obtain ⟨hpos, hw, hk⟩ := h.op hcode
  have hgo : afterHolding (decide ((s.locks lk).cpu = some c)) k w = k := by
    by_cases hm : lk ∈ (s.loc c).held
    · have hc : (s.locks lk).cpu = some c := hm
      cases w with
      | acquire => exact absurd rfl (hw.mp hm)
      | release | sched => simp [hc, afterHolding]
    · have hc : ¬ (s.locks lk).cpu = some c := hm
      have := not_not.mp fun hne => hm (hw.mpr hne)
      subst this
      simp [hc, afterHolding]
  simp only [exec, hgo]
  exact h.goto hcode (fun _ => id) hk

theorem Inv.swap (hcode : (s.cpus c).code = .swap lk :: k) : Inv D (exec P s c n k (.swap lk)) maker := by
  obtain ⟨hpos, -, hk⟩ := h.op hcode
  simp only [exec]
  split
  · exact h
  · rename_i hfree
    have hnone : (s.locks lk).cpu = none := by simpa [h.lock] using hfree
    refine h.setLock hcode (H := insert lk (s.loc c).held) rfl (fun d hd => by simp [hnone, hd.symm]) (fun lk' => ?_) hpos
      (.inr (.inr (Set.mem_insert ..))) (fun _ => id) hk
    by_cases hl : lk' = lk <;> simp [hl]

theorem Inv.unlock (hcode : (s.cpus c).code = .unlock lk :: k) : Inv D (exec P s c n k (.unlock lk)) maker := by
  obtain ⟨hpos, hheld, hmode, hk⟩ := h.op hcode
  have hc : (s.locks lk).cpu = some c := hheld
  refine h.setLock hcode (H := (s.loc c).held \ {lk}) rfl (fun d hd => by simp [hc, hd.symm]) (fun lk' => ?_) hpos
    (hmode.imp_right .inl) (fun _ => id) hk
  by_cases hl : lk' = lk <;> simp [hl]

/-! ## Context switches -/

theorem Inv.swtch (hcode : (s.cpus c).code = .swtch i :: k) : Inv D (exec P s c n k (.swtch i)) maker := by
  obtain ⟨hf, st, hl, hk⟩ := h.op hcode
  obtain ⟨ho, hused, -⟩ := (h.cpu c).runs i hf
  have h1 : (s.cpus c).noff = 1 := hl.noff
  have hst := Sys.state_of_parking hf hl.mode
  have hsched := h.sched c i hf
  have hloc : (exec P s c n k (.swtch i)).loc c = .backFrom i (s.loc c).base :=
    Loc.ext hl.held (by simp [exec, Sys.loc, h1, Loc.backFrom]) (by simp [exec, Sys.loc, Loc.backFrom])
      (by simp [exec, Sys.loc, Sys.mode, ho, Loc.backFrom])
  refine h.change (c := c) (fun d hd => by simp [exec, hd]) (fun _ _ => rfl) (fun _ _ _ => Iff.rfl) h.lock (fun j => ?_)
    ⟨?_, ?_, ?_, ?_⟩ ⟨?_, ?_⟩ ?_
  · by_cases hj : j = i
    · subst hj
      refine .inr ⟨fun d hd hdj => hd (h.alone d c j hdj hf), fun hu => absurd hu hused, fun hr => ?_,
        fun hr _ b => ⟨?_, fun j' hj' => ?_⟩, by simp [exec]⟩
      · simp [exec, hst.1, hst.2] at hr
      · simp only [exec, Sys.setCpu_procs, Sys.setProc_self] at hr ⊢
        refine ⟨Nat.one_pos, ?_⟩
        convert hk (by rintro rfl; simp [hst.1, ProcState.Resumable] at hr) using 1
        · exact hf.symm
        · exact Loc.ext hl.held.symm hl.noff.symm (by simp [Loc.setBase, Loc.setMode, Sys.loc, h1]) rfl
      · have hm := (h.flow c).making j' (by simpa [exec, hcode, Makes] using hj')
        have hne : j' ≠ j := by rintro rfl; exact hused hm.2.1
        simpa [exec, hne, hf] using hm
    · exact .inl ⟨by simpa [exec, hj] using SameProc.refl (s.procs j), by simp [exec, hf, Ne.symm hj]⟩
  · simpa [exec] using (h.cpu c).intr
  · simp [exec, h1]
  · simp [exec]
  · intro d hd
    simp only [exec, Sys.setCpu_self, Flow.scheduler.injEq] at hd
    rw [hloc]
    exact ⟨hd.symm, fun j hj => by simpa [exec, ho, Loc.backFrom, eq_comm] using hj⟩
  · rw [hloc]; simpa [exec] using hsched.2 _
  · simpa [exec] using fun j hj => absurd hj (hsched.1 j)
  · simp [exec]

theorem Inv.scheduleFrom (hcode : (s.cpus c).code = .scheduleFrom i :: k) : Inv D (exec P s c n k (.scheduleFrom i)) maker := by
  obtain ⟨hf, hl⟩ := h.op hcode
  simp only [exec]
  split
  · simp only [List.append_assoc, List.cons_append, List.nil_append]
    refine h.goto hcode (fun _ => id) (typed_acquire.mpr ⟨hl.takes _, hf, hl.take _, ‹_›, fun b => ?_⟩)
    have hb := (hl.take (.proc i)).setBase b
    exact (typed_release hb.drops).mpr ⟨hf, hb.drop⟩
  · exact h.goto hcode (fun _ => id) ⟨hl, hf, hl.setBase true⟩

theorem Inv.scheduleTest (hcode : (s.cpus c).code = .scheduleTest i :: k) : Inv D (exec P s c n k (.scheduleTest i)) maker := by
  obtain ⟨⟨c', hf⟩, hl, -, hk⟩ := h.op hcode
  obtain rfl := ((h.cpu c).schedules c' hf).1
  by_cases hst : (s.procs i).state = .runnable
  · have hx := h.context hl.mem (by simp [hf]) (.inr hst) (s.loc c').base
    have h1 : (s.cpus c').noff = 1 := hl.noff
    have hsame : ∀ j, j ≠ i → SameProc ((exec P s c' n k (.scheduleTest i)).procs j) (s.procs j) := fun j hj => by
      simpa [exec, hst, Sys.setProc, hj] using SameProc.refl (s.procs j)
    have hloc : (exec P s c' n k (.scheduleTest i)).loc c' = .parked i (s.loc c').base := by
      simp only [exec, hst, ↓reduceIte]
      exact Loc.ext hl.held (by simp [Sys.loc, h1, Loc.parked]) (by simp [Sys.loc, Loc.parked])
        (by simp [Sys.loc, Sys.mode, Sys.setProc, Loc.parked])
    have hx' : FlowOk D (exec P s c' n k (.scheduleTest i)) maker (.proc i) (s.procs i).context (.parked i (s.loc c').base) :=
      hx.of_same fun j _ hj => hsame j (by rintro rfl; simp [hst] at hj)
    simp only [exec, hst, ↓reduceIte] at hsame hloc hx' ⊢
    refine h.change (c := c') (fun d hd => by simp [hd, Sys.setProc]) (fun d hd => by simp [hd]) (fun _ _ _ => Iff.rfl) h.lock (fun j => ?_)
      ⟨?_, ?_, ?_, ?_⟩ ?_ fun p hp => ⟨fun j => ?_, fun b => ?_⟩
    · by_cases hj : j = i
      · subst hj
        exact .inr ⟨fun d hd => h.off_stack hl.mem (by simp [hst]) hd, by simp [hst], by simp,
          by simp [Sys.setProc, ProcState.Resumable], by simp [Sys.setProc]⟩
      · exact .inl ⟨hsame j hj, by simp [hf, Ne.symm hj]⟩
    · simpa using (h.cpu c').intr
    · simp [h1]
    · simp [Sys.setProc]
    · simp
    · rw [hloc]; simpa using hx'
    · have := (h.flow c').making j
      simpa [hcode, Makes, hf] using this
    · obtain rfl : i = p := by simpa using hp
      simp only [Sys.setCpu_scheds, Function.update_self]
      refine ⟨⟨c', rfl⟩, ?_⟩
      convert hk b using 1
      · exact hf.symm
      · exact Loc.ext hl.held.symm hl.noff.symm rfl hl.mode.symm
  · simp only [exec, hst, ↓reduceIte]
    refine h.goto hcode (fun _ => id) ?_
    exact hk (s.loc c').base

theorem Inv.clearProc (hcode : (s.cpus c).code = .clearProc :: k) : Inv D (exec P s c n k .clearProc) maker := by
  obtain ⟨⟨c', hf⟩, hk⟩ := h.op hcode
  have hc := h.cpu c
  have hloc : (exec P s c n k .clearProc).loc c = (s.loc c).setMode .normal :=
    Loc.ext rfl (by simp [exec, Sys.loc, Loc.setMode]) (by simp [exec, Sys.loc, Loc.setMode])
      (by simp [exec, Sys.loc, Sys.mode, hf, Loc.setMode])
  refine h.own hcode (fun d hd => by simp [exec, hd]) (by simp [exec]) rfl (fun _ _ _ => Iff.rfl) h.lock (fun _ => .refl _)
    ⟨?_, ?_, by simp [exec, hf], fun d hd => ⟨(hc.schedules d (by simpa [exec] using hd)).1, by simp [exec]⟩⟩
    (by simp only [exec, Sys.setCpu_self]; exact fun _ => id) ?_
  · simpa [exec] using hc.intr
  · simpa [exec] using hc.wf
  · rw [hloc]; simpa [exec] using hk

/-! ## The state of a process -/

theorem Inv.killTest {pid : Nat} (hcode : (s.cpus c).code = .killTest pid i :: k) :
    Inv D (exec P s c n k (.killTest pid i)) maker := by
  obtain ⟨hd, hl, hk⟩ := h.op hcode
  have hrel := (typed_release (D := D) (f := (s.cpus c).stack) hd).mpr hk
  simp only [exec]
  split
  · by_cases hst : (s.procs i).state = .sleeping
    · exact h.wakes hcode hd.mem hl.mode hst (by simp [hst]) rfl rfl (fun _ => id) hrel
    · exact h.setField hcode ⟨by simp [hst], rfl, rfl⟩ (fun _ => id) hrel
  · exact h.goto hcode (fun _ => id) ((typed_release hd).mpr ⟨hl, hk⟩)

/-! ## `fork` -/

theorem Inv.allocTest (hcode : (s.cpus c).code = .allocTest i p :: k) : Safe D (exec P s c n k (.allocTest i p)) := by
  obtain ⟨hf, hl, hk⟩ := h.op hcode
  simp only [exec]
  split
  · rename_i hst
    have hnew : ∀ j, Makes j k → Makes j (s.cpus c).code ∧ j ≠ i := fun j hj => by
      have hj : Makes j (s.cpus c).code := by rw [hcode]; exact hj
      exact ⟨hj, by rintro rfl; simp [((h.flow c).making _ hj).2.1] at hst⟩
    have hp : (.pid : Lock K) ∉ (s.loc c).held := by simp [hl.held]
    refine ⟨_, (h.setMaker hst p).changeOther hl.mem hl.mode (by simp [hst]) (by simp) rfl (by simp [hst]) (fun j hj => ?_)
      (typed_acquire.mpr ⟨hl.takes Nat.zero_lt_one, hf, ?_, Loc.drops_take hp (h.cpu c).wf (.inr (by simp)),
        fun hm => (hnew i hm).2 rfl, hk⟩) (by simp [ProcState.Resumable])⟩
    · obtain rfl | hj : i = j ∨ Makes j k := hj
      · exact .inr ⟨rfl, by simpa using hf, rfl, rfl⟩
      · exact .inl (hnew j hj)
    · rwa [Loc.drop_take hp]
  · exact ⟨maker, h.goto hcode (fun _ => id) ((typed_release hl.drops).mpr ⟨hf, hl.drop, by rwa [hl.drop_eq]⟩)⟩

theorem Inv.allocMem {pid : Nat} (hcode : (s.cpus c).code = .allocMem i p pid :: k) :
    Inv D (exec P s c n k (.allocMem i p pid)) maker := by
  obtain ⟨hf, hl, hnew, hk⟩ := h.op hcode
  have hd := hl.drop
  rw [← hl.drop_eq] at hk
  obtain ⟨hm, hst, hx⟩ := (h.flow c).making i (by rw [hcode]; exact .inl rfl)
  simp only [exec]
  split
  · refine h.changeOther hl.mem hl.mode (by simp [hst]) (by simp [freeproc]) rfl (fun _ => hm) (fun j hj => .inl ⟨?_, ?_⟩)
      ((typed_release hl.drops).mpr hk) (by simp [freeproc, ProcState.Resumable])
    · rw [hcode]; exact .inr hj
    · rintro rfl; exact hnew hj
  · have hw := hd.take .wait
    have ha := hd.take (.proc i)
    simp only [List.append_assoc, List.cons_append, List.nil_append]
    refine h.setField hcode ⟨rfl, rfl, rfl⟩ (fun _ => id) ((typed_release hl.drops).mpr (typed_acquire.mpr
      ⟨hd.takes _, hw.mem, (typed_release hw.drops).mpr ?_⟩))
    rw [Loc.drop_take (hd.notMem _)]
    refine typed_acquire.mpr ⟨hd.takes _, ha, hnew, (typed_release ha.drops).mpr ?_⟩
    rwa [Loc.drop_take (hd.notMem _)]

/-! ## `exit` and `wait` -/

theorem Inv.waitFrom {havekids : Bool} (hcode : (s.cpus c).code = .waitFrom p i havekids :: k) :
    Inv D (exec P s c n k (.waitFrom p i havekids)) maker := by
  obtain ⟨hf, hl, hk⟩ := h.op hcode
  have hno := hl.noProc_wait
  have hd : ∀ j, ((s.loc c).take (.proc j)).Drops (.proc j) := fun j => Loc.drops_take (hno.free j) (h.cpu c).wf (.inl hl.mode)
  simp only [exec]
  split
  · split
    · refine h.goto hcode (fun _ => id) (typed_acquire.mpr ⟨hno.takes i, hf, hd i, ?_, hk⟩)
      rwa [Loc.drop_take (hno.free i)]
    · exact h.goto hcode (fun _ => id) ⟨hf, hl, hk⟩
  · split
    · rw [killed, List.append_assoc]
      refine h.goto hcode (fun _ => id) (typed_acquire.mpr ⟨hno.takes p, hd p, ?_, hf, hk⟩)
      rwa [Loc.drop_take (hno.free p)]
    · refine h.goto hcode (fun _ => id) ((typed_release hl.drops).mpr ?_)
      rwa [hl.drop_eq]

theorem Inv.waitTest (hcode : (s.cpus c).code = .waitTest p i :: k) : Inv D (exec P s c n k (.waitTest p i)) maker := by
  obtain ⟨hf, hd, hl, hk⟩ := h.op hcode
  have hrel : Typed D (s.cpus c).stack (release (.proc i) ++ release .wait ++ k) (s.loc c) := by
    rw [List.append_assoc]
    refine (typed_release hd).mpr ((typed_release hl.drops).mpr ?_)
    rw [hl.drop_eq]; exact hk
  simp only [exec]
  split
  · rename_i hst
    split
    · exact h.goto hcode (fun _ => id) hrel
    · refine h.changeOther hd.mem hl.mode (by simp [hst]) (by simp [freeproc]) rfl (by simp [hst]) (fun j hj => .inl ?_) hrel
        (by simp [freeproc, ProcState.Resumable])
      have hj' : Makes j (s.cpus c).code := by rw [hcode]; exact hj
      exact ⟨hj', by rintro rfl; simp [((h.flow c).making _ hj').2.1] at hst⟩
  · exact h.goto hcode (fun _ => id) ((typed_release hd).mpr ⟨hf, hl, hk⟩)

end Ops

/-! ## The rest of the kernel -/

section Labels

omit [DecidableEq K]

variable {f : Flow} {l l' : Loc K} {pc next : L} {ks : List K}

/-- From one label of the program to the next. -/
theorem Loc.AtLabel.goes (h : l.AtLabel D f pc) (hg : D.Goes pc next ks) (hheld : l'.held = {lk | ∃ k ∈ ks, lk = .other k})
    (hnoff : l'.noff = ks.length) (hmode : l'.mode = l.mode) (hbase : l'.base = l.base) : l'.AtLabel D f next :=
  ⟨by rw [hg.1, hheld], by rw [hg.1, hnoff], hmode.trans h.mode, fun hi => hbase.trans (h.base (hg.2 ▸ hi)),
    fun hi => h.proc (hg.2 ▸ hi)⟩

theorem typed_goes (h : Typed D f (.client pc :: k) l) (hg : D.Goes pc next ks)
    (hheld : l'.held = {lk | ∃ k ∈ ks, lk = .other k}) (hnoff : l'.noff = ks.length) (hmode : l'.mode = l.mode)
    (hbase : l'.base = l.base) : Typed D f (.client next :: k) l' := by
  refine ⟨h.1.goes hg hheld hnoff hmode hbase, ?_⟩
  rw [show l'.clear = l.clear from Loc.ext rfl rfl hbase hmode]
  exact h.2

/-- The locks of the program come in the order of their heights. -/
theorem Loc.AtLabel.takes {x : K} (h : l.AtLabel D f pc) (hx : ∀ y ∈ D.held pc, D.height x < D.height y) :
    l.Takes D (.other x) := by
  intro lk hm
  rw [h.held] at hm
  obtain ⟨y, hy, rfl⟩ := hm
  exact Nat.add_lt_add_right (hx y hy) 2

end Labels

theorem Inv.client (S : D.Sound P) (h : Inv D s maker) {pc : L} (hcode : (s.cpus c).code = .client pc :: k) :
    Inv D (exec P s c n k (.client pc)) maker := by
  have ht := (h.flow c).typed
  rw [hcode] at ht
  obtain ⟨ha, hk⟩ := h.op hcode
  have hallows := S.allows pc
  -- most instructions only put code in front of the next label
  have hnext : ∀ {next}, D.Goes pc next (D.held pc) → Typed D (s.cpus c).stack (.client next :: k) (s.loc c) :=
    fun hg => typed_goes ht hg ha.held ha.noff rfl rfl
  cases hI : P.instr pc <;> simp only [hI, Discipline.Allows] at hallows <;> simp only [exec, hI]
  case acquire x next =>
    refine h.goto hcode (fun _ => id) (typed_acquire.mpr ⟨ha.takes hallows.1, typed_goes ht hallows.2 ?_ ?_ rfl rfl⟩)
    · ext lk; simp [Loc.take, Loc.add, Loc.push, ha.held]
    · simp [Loc.take, Loc.add, Loc.push, ha.noff]
  case release x next =>
    have hlen : (D.held pc).length = ((D.held pc).erase x).length + 1 := (List.length_erase_add_one hallows.1).symm
    have hheld : ((s.loc c).remove (.other x)).held = {lk | ∃ k ∈ (D.held pc).erase x, lk = .other k} := by
      ext lk
      simp only [Loc.remove, ha.held, (S.nodup pc).mem_erase_iff]
      aesop
    have hnoff : ((s.loc c).remove (.other x)).noff = (D.held pc).length := ha.noff
    have hdrops : (s.loc c).Drops (.other x) := ⟨ha.mem hallows.1, ⟨by omega, fun h1 => ?_⟩, .inl ha.mode⟩
    · exact h.goto hcode (fun _ => id) ((typed_release hdrops).mpr (typed_goes ht hallows.2 hheld
        (by simp only [Loc.drop, Loc.pop]; omega) rfl rfl))
    · rw [hheld, List.eq_nil_of_length_eq_zero (by omega : ((D.held pc).erase x).length = 0)]
      simp
  case act x f =>
    exact h.code hcode (fun d hd => by simp [hd]) (Sys.goto_self ..) rfl rfl (fun _ => .refl _)
      (fun _ => id) (hnext (hallows.2 _ _))
  case choose next => exact h.goto hcode (fun _ => id) (hnext (hallows n))
  case sleep chan x next =>
    obtain ⟨hh, hi, hg⟩ := hallows
    exact h.goto hcode (fun _ => id) ⟨ha.proc hi, Nat.lt_add_left _ Nat.one_lt_two, ha.only hh, hnext (hh ▸ hg)⟩
  case wakeup chan next => exact h.goto hcode (fun _ => id) ⟨ha.noProc, hnext hallows⟩
  case kill pid next => exact h.goto hcode (fun _ => id) ⟨ha.noProc, hnext hallows⟩
  case killed yes no =>
    obtain ⟨hi, hy, hn⟩ := hallows
    exact h.goto hcode (fun _ => id)
      ⟨ha.goes hy ha.held ha.noff rfl rfl, ha.goes hn ha.held ha.noff rfl rfl, ha.proc hi, hk⟩
  case fork next | wait next =>
    obtain ⟨hh, hi, hg⟩ := hallows
    exact h.goto hcode (fun _ => id) ⟨ha.proc hi, ha.idle hh, hnext (hh ▸ hg)⟩
  case exit => exact h.goto hcode (fun _ => id) ⟨ha.proc hallows.2, ha.idle hallows.1⟩
  case ret =>
    rw [(ha.idle hallows).clear] at hk
    exact h.goto hcode (fun _ => id) hk
  case panic => exact h

/-! ## Interrupts -/

theorem Inv.kerneltrap (S : D.Sound P) (h : Inv D s maker) {irq : Irq} (hi : (s.cpus c).intr = true) :
    Inv D (s.setCpu c { s.cpus c with intr := false, code := kerneltrap P c irq ++ (s.cpus c).code }) maker := by
  obtain ⟨hl, hb⟩ := h.idle hi
  have hoff := hl.setBase false
  -- `sret` turns interrupts on again
  have hret : Typed D (s.cpus c).stack (.setIntr true :: (s.cpus c).code) ((s.loc c).setBase false) := by
    refine ⟨hoff, ?_⟩
    convert (h.flow c).typed using 1
    exact Loc.ext rfl rfl hb.symm rfl
  refine h.setIntr rfl hl (fun _ => makes_kerneltrap) ?_
  rw [Sched.kerneltrap, List.append_assoc, List.append_assoc]
  refine typed_devintr S hoff rfl ?_
  split
  · exact ⟨hoff, hret⟩
  · exact hret

/-! ## Every run -/

theorem Inv.exec (S : D.Sound P) (h : Inv D s maker) {op : Op K L} (hcode : (s.cpus c).code = op :: k) :
    Safe D (exec P s c n k op) := by
  cases op with
  | pushGet => exact ⟨_, h.goto hcode (fun _ => id) ⟨fun h0 => (if_pos h0).symm, h.op hcode⟩⟩
  | pushOff old => exact ⟨_, h.pushOff hcode⟩
  | popOff => exact ⟨_, h.popOff hcode⟩
  | holding w lk => exact ⟨_, h.holding hcode⟩
  | holdingCpu w lk => exact ⟨_, h.holdingCpu hcode⟩
  | swap lk => exact ⟨_, h.swap hcode⟩
  | unlock lk => exact ⟨_, h.unlock hcode⟩
  | setIntr on => exact ⟨_, h.setIntr hcode (h.op hcode).1 (fun _ => id) (h.op hcode).2⟩
  | readProc u =>
      have ht := h.op hcode
      simp only [Sched.exec, h.me c (Sys.readsMe ht)]
      exact ⟨_, h.goto hcode (fun _ => makes_afterMyproc) (typed_afterMyproc S (h.cpu c).wf ht)⟩
  | schedChecks i =>
      obtain ⟨hf, st, hl, hk⟩ := h.op hcode
      have h1 : (s.cpus c).noff = 1 := hl.noff
      have hst := Sys.state_of_parking hf hl.mode
      simp only [Sched.exec, h1, hst.1, hst.2, (h.cpu c).intr (h1 ▸ Nat.one_pos), ne_eq, not_true_eq_false, Bool.false_eq_true, ↓reduceIte]
      exact ⟨_, h.goto hcode (fun _ => id) hk⟩
  | swtch i => exact ⟨_, h.swtch hcode⟩
  | setIntena b =>
      obtain ⟨hpos, hk⟩ := h.op hcode
      have hpos : 0 < (s.cpus c).noff := hpos
      refine ⟨_, h.setCpu hcode rfl rfl (h.cpu c).intr (h.cpu c).wf (fun _ => id) ?_⟩
      simpa [Nat.ne_of_gt hpos, Loc.setBase, Sys.loc] using hk
  | scheduleFrom i => exact ⟨_, h.scheduleFrom hcode⟩
  | scheduleTest i => exact ⟨_, h.scheduleTest hcode⟩
  | clearProc => exact ⟨_, h.clearProc hcode⟩
  | sleepOn i chan =>
      obtain ⟨hf, hl, hk⟩ := h.op hcode
      exact ⟨_, h.parks hcode hf ⟨hl.mem, hl.mode⟩ (by simp) rfl (fun _ => id) hk⟩
  | park i st =>
      obtain ⟨hf, hheld, hl, hst, hk⟩ := h.op hcode
      exact ⟨_, h.parks hcode hf ⟨hheld, hl⟩ (by rcases hst with rfl | ⟨rfl, -⟩ <;> simp) rfl (fun _ => id) hk⟩
  | clearChan i => exact ⟨_, h.setField hcode ⟨rfl, rfl, rfl⟩ (fun _ => id) (h.op hcode).2.2⟩
  | setKilled i | setParent i q => exact ⟨_, h.setField hcode ⟨rfl, rfl, rfl⟩ (fun _ => id) (h.op hcode).2⟩
  | readKilled i w =>
      simp only [Sched.exec, List.append_assoc]
      exact ⟨_, h.goto hcode (fun _ => makes_afterKilled) (typed_afterKilled (h.op hcode))⟩
  | preemptTest i =>
      obtain ⟨hf, hl, hk⟩ := h.op hcode
      simp only [Sched.exec]
      split
      · exact ⟨_, h.goto hcode (fun _ => id) ⟨⟨i, hf⟩, hl, hk⟩⟩
      · exact ⟨_, h.goto hcode (fun _ => id) hk⟩
  | wakeupFrom chan i =>
      obtain ⟨hl, hk⟩ := h.op hcode
      simp only [Sched.exec]
      split
      · exact ⟨_, h.goto hcode (fun _ => id) ⟨‹_›, hl, hk⟩⟩
      · exact ⟨_, h.goto hcode (fun _ => id) hk⟩
  | wakeTest chan i =>
      obtain ⟨-, hheld, -, hl, hk⟩ := h.op hcode
      simp only [Sched.exec]
      split
      · exact ⟨_, h.wakes hcode hheld hl (And.left ‹_›) rfl rfl rfl (fun _ => id) hk⟩
      · exact ⟨_, h.goto hcode (fun _ => id) hk⟩
  | killFrom pid i =>
      obtain ⟨hl, hk⟩ := h.op hcode
      simp only [Sched.exec]
      split
      · refine ⟨_, h.goto hcode (fun _ => id)
          (typed_acquire.mpr ⟨hl.takes i, Loc.drops_take (hl.free i) (h.cpu c).wf (.inl hl.mode), ?_⟩)⟩
        rw [Loc.drop_take (hl.free i)]
        exact ⟨hl, hk⟩
      · exact ⟨_, h.goto hcode (fun _ => id) hk⟩
  | killTest pid i => exact ⟨_, h.killTest hcode⟩
  | allocFrom i p =>
      obtain ⟨hf, hl, hk⟩ := h.op hcode
      simp only [Sched.exec]
      split
      · refine ⟨_, h.goto hcode (fun _ => id) (typed_acquire.mpr ⟨hl.takes _, hf, hl.take _, ?_⟩)⟩
        rwa [← (hl.take _).drop_eq, Loc.drop_take (hl.notMem _)]
      · exact ⟨_, h.goto hcode (fun _ => id) hk⟩
  | allocTest i p => exact h.allocTest hcode
  | takePid i p =>
      obtain ⟨hf, hl, hd, hnew, hk⟩ := h.op hcode
      exact ⟨_, h.code hcode (fun d hd => by simp [Sched.exec, hd]) (Sys.goto_self ..) rfl rfl (fun _ => .refl _) (fun _ => id)
        ((typed_release hd).mpr ⟨hf, hl, hnew, hk⟩)⟩
  | allocMem i p pid => exact ⟨_, h.allocMem hcode⟩
  | start i =>
      obtain ⟨hl, hnew, hk⟩ := h.op hcode
      obtain ⟨hm, hst, hx⟩ := (h.flow c).making i (by rw [hcode]; exact .inl rfl)
      refine ⟨_, h.changeOther hl.mem hl.mode (by simp [hst]) (by simp) (h.threads i).symm (fun _ => hm) (fun j hj => .inl ⟨?_, ?_⟩) hk fun _ b => ?_⟩
      · rw [hcode]; exact .inr hj
      · rintro rfl; exact hnew hj
      · simp only [hx]
        exact ⟨typed_forkret b, fun _ hj => hj.elim⟩
  | forkretInit =>
      obtain ⟨hf, hl, hk⟩ := h.op hcode
      simp only [Sched.exec]
      split
      · exact ⟨_, h.code hcode (fun d hd => by simp [hd]) (Sys.goto_self ..) rfl rfl (fun _ => .refl _) (fun _ => id)
          (typed_entry S.fsinit hl (fun hb => absurd hb Bool.false_ne_true) (fun _ => hf) hk)⟩
      · exact ⟨_, h.goto hcode (fun _ => id) hk⟩
  | threadTest p =>
      simp only [Sched.exec, h.threads p, Bool.false_eq_true, ↓reduceIte]
      exact ⟨_, h.goto hcode (fun _ => id) (h.op hcode).2⟩
  | infantsFrom q j => exact (h.op hcode).elim
  | reparentFrom p i =>
      obtain ⟨hf, hl, hk⟩ := h.op hcode
      simp only [Sched.exec]
      split
      · split
        · exact ⟨_, h.goto hcode (fun _ => id) ⟨hl.mem, hl.noProc_wait, hf, hl, hk⟩⟩
        · exact ⟨_, h.goto hcode (fun _ => id) ⟨hf, hl, hk⟩⟩
      · exact ⟨_, h.goto hcode (fun _ => id) hk⟩
  | wakeParent p =>
      obtain ⟨hf, hl, hk⟩ := h.op hcode
      exact ⟨_, h.goto hcode (fun _ => id) ⟨hl.noProc_wait, hk⟩⟩
  | waitFrom p i havekids => exact ⟨_, h.waitFrom hcode⟩
  | waitTest p i => exact ⟨_, h.waitTest hcode⟩
  | client pc => exact ⟨_, h.client S hcode⟩
  | user =>
      obtain ⟨hf, hl, hb⟩ := h.op hcode
      refine ⟨_, h.setIntr hcode hl ?_ ?_⟩
      · split <;> exact fun _ => id
      · split <;> exact ⟨hf, hl.setBase false⟩
  | panic msg => exact ⟨_, h⟩

/-- What a step is. -/
theorem step_cases {a : Act} (h : step P s a = some s') :
    (∃ c n op k, a = .run c n ∧ (s.cpus c).code = op :: k ∧ s' = exec P s c n k op) ∨
      (∃ c irq k, a = .interrupt c irq ∧ (s.cpus c).intr = true ∧ (s.cpus c).code = .user :: k ∧
        s' = s.setCpu c { s.cpus c with intr := false, code := .readProc (.userInterrupt irq) :: k }) ∨
      ∃ c irq, a = .interrupt c irq ∧ (s.cpus c).intr = true ∧
        s' = s.setCpu c { s.cpus c with intr := false, code := kerneltrap P c irq ++ (s.cpus c).code } := by
  cases a with
  | run c n =>
      simp only [step] at h
      split at h
      · cases h
      · rename_i op k hcode
        exact .inl ⟨c, n, op, k, rfl, hcode, (Option.some.inj h).symm⟩
  | interrupt c irq =>
      simp only [step] at h
      split at h
      · rename_i hi
        split at h
        · cases h
        · rename_i k hcode
          exact .inr (.inl ⟨c, irq, k, rfl, hi, hcode, (Option.some.inj h).symm⟩)
        · exact .inr (.inr ⟨c, irq, rfl, hi, (Option.some.inj h).symm⟩)
      · cases h

theorem Safe.step (S : D.Sound P) (h : Safe D s) {a : Act} (hs : step P s a = some s') : Safe D s' := by
  obtain ⟨maker, h⟩ := h
  rcases step_cases hs with ⟨c, n, op, k, -, hcode, rfl⟩ | ⟨c, irq, k, -, hi, hcode, rfl⟩ | ⟨c, irq, -, hi, rfl⟩
  · exact h.exec S hcode
  · obtain ⟨hf, hl, hb⟩ := h.op hcode
    exact ⟨_, h.setIntr hcode hl (fun _ => id) ⟨hf, hl.setBase false, rfl⟩⟩
  · exact ⟨_, h.kerneltrap S hi⟩

omit [DecidableEq K] in
theorem Safe.boot (data : K → V) : Safe D (boot data : Sys K L V) := by
  have hl : ∀ c, ((((Sched.boot data : Sys K L V).loc c).setMode .normal).setBase true).Idle := fun c =>
    ⟨Set.eq_empty_of_forall_notMem fun lk => by simp [Sched.boot, Sys.loc, Loc.setMode, Loc.setBase], rfl, rfl⟩
  refine ⟨fun _ => 0, fun _ => rfl, fun c => ⟨fun _ => rfl, fun _ => (hl c).held, fun p hp => (by cases hp), fun d hd => ?_⟩,
    fun c => ⟨⟨⟨c, rfl⟩, ⟨(hl c).held, rfl, rfl⟩, ⟨c, rfl⟩, hl c⟩, fun _ hj => hj.elim⟩, fun c d p hc => (by cases hc), fun p hp => ?_,
    fun p hp _ b => ?_, fun c p hp => (by cases hp), fun p => by simp only [Sched.boot]; split <;> rfl⟩
  · cases hd; exact ⟨rfl, by simp [Sched.boot]⟩
  · simp only [Sched.boot] at hp
    split at hp <;> cases hp
  · by_cases hpi : p = initproc
    · simp only [Sched.boot, hpi, ↓reduceIte]
      exact ⟨typed_forkret b, fun _ hj => hj.elim⟩
    · simp [Sched.boot, hpi, ProcState.Resumable] at hp

end Xv6Net.Sched
