import Mathlib.Logic.Relation
import Xv6Net.Sched.Lemmas.Step
import Xv6Net.Sched.Spec

/-!
# Who has a lock, and who has a stack

What the invariant says in the words of the source. Locks are taken in one order, so a CPU that has one of them waits, if
at all, for one further down; at the end of such a chain there is a CPU that does not wait, or has panicked.
-/

namespace Xv6Net.Sched

variable {K L V : Type} {D : Discipline K L} {P : Program K L V} {s s' : Sys K L V} {maker : Nat → Nat} {c d i n : Nat}
  {k : List (Op K L)} {lk : Lock K}

@[simp] theorem Sys.goto_nextpid : (s.goto c k).nextpid = s.nextpid := rfl
@[simp] theorem Sys.setCpu_nextpid {u : Cpu K L} : (s.setCpu c u).nextpid = s.nextpid := rfl
@[simp] theorem Sys.setProc_nextpid {q : Proc K L} : (s.setProc i q).nextpid = s.nextpid := rfl

namespace FieldsGuarded

theorem of_eq (hp : s'.procs = s.procs) (hn : s'.nextpid = s.nextpid) : FieldsGuarded s s' c :=
  ⟨fun i => .inr ⟨(s.procs i).parent, congrFun hp i, .inl rfl⟩, .inl hn⟩

theorem of_held (hi : (s.locks (.proc i)).cpu = some c) (hs : s'.nextpid = s.nextpid ∧ ∀ j ≠ i, s'.procs j = s.procs j) :
    FieldsGuarded s s' c := by
  refine ⟨fun j => ?_, .inl hs.1⟩
  by_cases hj : j = i
  · exact .inl (hj ▸ hi)
  · exact .inr ⟨_, hs.2 j hj, .inl rfl⟩

end FieldsGuarded

section

variable (h : Inv D s maker)
include h

theorem exec_guarded [DecidableEq K] {op : Op K L} (hcode : (s.cpus c).code = op :: k) :
    FieldsGuarded s (exec P s c n k op) c := by
  have ht := h.op hcode
  cases op with
  | swtch i =>
      obtain ⟨-, _, hl, -⟩ := ht
      exact .of_held (hl.held.ge rfl) (by simp +contextual [exec])
  | scheduleTest i | allocTest i | allocMem i =>
      refine .of_held (ht.2.1.held.ge rfl) ?_
      simp only [exec]
      split <;> simp +contextual
  | sleepOn i | clearChan i => exact .of_held (ht.2.1.held.ge rfl) (by simp +contextual [exec])
  | park i => exact .of_held ht.2.1 (by simp +contextual [exec])
  | setKilled i => exact .of_held ht.1 (by simp +contextual [exec])
  | start i => exact .of_held (ht.1.held.ge rfl) (by simp +contextual [exec])
  | wakeTest chan i =>
      refine .of_held ht.2.1 ?_
      simp only [exec]
      split <;> simp +contextual
  | killTest pid i =>
      refine .of_held ht.1.mem ?_
      simp only [exec]
      split <;> simp +contextual
  | waitTest p i =>
      refine .of_held ht.2.1.mem ?_
      simp only [exec]
      split_ifs <;> simp +contextual
  | setParent i q =>
      refine ⟨fun j => .inr ⟨((exec P s c n k (.setParent i q)).procs j).parent, ?_, .inr ht.1⟩, .inl rfl⟩
      by_cases hj : j = i
      · simp [exec, hj]
      · simp [exec, hj]
  | takePid i p => exact ⟨fun i => .inr ⟨_, rfl, .inl rfl⟩, .inr ht.2.2.1.mem⟩
  | _ =>
      simp only [exec]
      repeat' split
      all_goals exact .of_eq rfl rfl

theorem Inv.locksHeld [DecidableEq K] : LocksHeld D P s := by
  refine ⟨fun c pc k x hcode hx => ?_, fun c hi => ?_, fun lk hfree => by simpa [h.lock] using hfree,
    fun c n s' hs => ?_⟩
  · have ha := (h.op hcode).1
    have hc : (s.locks (.other x)).cpu = some c := ha.mem hx
    have hpos : 0 < (s.loc c).noff := by rw [ha.noff]; exact List.length_pos_of_mem hx
    exact ⟨congrArg₂ Spinlock.mk (by rw [h.lock, hc]; rfl) hc, (h.cpu c).intr hpos⟩
  · have hl := (h.idle hi).1
    exact ⟨hl.noff, hl.notMem⟩
  · simp only [step] at hs
    split at hs
    · cases hs
    · next op k hcode => exact Option.some.inj hs ▸ exec_guarded h hcode

theorem Inv.stacksOwned : StacksOwned s := by
  refine ⟨h.alone, fun c p hs => ((h.cpu c).runs p hs).1, fun p hfree => ⟨h.running p, ?_⟩, fun c k hcode => ?_⟩
  · rintro ⟨c, hc⟩
    refine ((h.cpu c).runs p hc).2.2.resolve_right fun (hheld : (s.locks (.proc p)).cpu = some c) => ?_
    simp [h.lock, hheld] at hfree
  · obtain ⟨⟨p, hp⟩, hl, -⟩ := h.op hcode
    exact ⟨p, hp, (Sys.normal_iff hp).mp hl.mode⟩

theorem Inv.code_ne_nil (c : Nat) : (s.cpus c).code ≠ [] := by
  intro hnil
  have ht := (h.flow c).typed
  rw [hnil] at ht
  exact ht

/-- The kernel's own calls panic only in `exit`. -/
theorem Inv.panicked {msg : String} (hp : s.panicked P c = some msg) :
    msg = "init exiting" ∨ ∃ pc k, (s.cpus c).code = .client pc :: k ∧ P.instr pc = .panic msg := by
  unfold Sys.panicked at hp
  split at hp
  · rename_i hcode
    cases hp; exact .inl (h.op hcode).1
  · rename_i pc k hcode
    split at hp
    · rename_i hI
      cases hp; exact .inr ⟨pc, k, hcode, hI⟩
    · cases hp
  · cases hp

/-- What a CPU that has a lock waits for comes further down. -/
theorem Inv.owner_goesOn (ho : (s.locks lk).cpu = some d) :
    (GoesOn P s d ∨ s.panicked P d ≠ none) ∨
      ∃ e lk', D.level lk' < D.level lk ∧ Waits s d e ∧ (s.locks lk').cpu = some e := by
  by_cases hw : ∃ e, Waits s d e
  · obtain ⟨e, lk', k, hcode, hl, he⟩ := hw
    exact .inr ⟨e, lk', (h.op hcode).2.1 lk ho, ⟨lk', k, hcode, hl, he⟩, he⟩
  · by_cases hp : s.panicked P d = none
    · exact .inl (.inl ⟨h.code_ne_nil d, hp, not_exists.mp hw⟩)
    · exact .inl (.inr hp)

/-- The chain of CPUs that wait for each other ends. -/
theorem Inv.chain (ho : (s.locks lk).cpu = some d) :
    ∃ e, Relation.ReflTransGen (Waits s) d e ∧ (GoesOn P s e ∨ s.panicked P e ≠ none) := by
  induction hl : D.level lk using Nat.strong_induction_on generalizing d lk with
  | _ l ih =>
      rcases h.owner_goesOn ho with hg | ⟨e, lk', hlt, hw, he⟩
      · exact ⟨d, .refl, hg⟩
      · obtain ⟨e', hr, hg⟩ := ih _ (hl ▸ hlt) he rfl
        exact ⟨e', .head hw hr, hg⟩

end

end Xv6Net.Sched
