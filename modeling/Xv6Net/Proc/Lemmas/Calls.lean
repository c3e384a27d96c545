import Xv6Net.Proc.Lemmas.Slots

/-!
# Every system call keeps the ledger of pages

The exceptions are the calls that `PagesCalm` excludes: a thread that adds or removes pages, and a `create_thread`
that fails halfway.
-/

namespace Xv6Net.Procs

open Kernel Vm Lib

variable {held : Nat → Prop} {m m' : Machine} {s np : Slot} {status : Int}

theorem MemInv.withKmem (hi : MemInv held m) (hl : Ledger held k m.userPages m.kernPages) :
    MemInv held { m with kmem := k } := ⟨hl, hi.trap, hi.size, hi.unused⟩

/-- Fields that are not about memory change. -/
theorem MemInv.setFields {p : Proc} (hi : MemInv held m) (hpt : p.pagetable = (m.proc s).pagetable)
    (htf : p.trapframe = (m.proc s).trapframe) (hsz : p.sz ≤ TRAPFRAME)
    (hst : p.state = .unused → (m.proc s).state = .unused) : MemInv held (m.setProc s p) := by
  refine hi.congr rfl fun t => ?_
  by_cases h : t = s
  · subst h; simp only [Machine.setProc, Function.update_self]; exact ⟨hpt, htf, hsz, hst⟩
  · simp only [Machine.setProc, Function.update_of_ne h]; exact ⟨trivial, trivial, hi.size t, id⟩

theorem MemInv.setInfant {i : Fin MAX_THREADS} (hi : MemInv held m) : MemInv held (setInfant m s i np) :=
  hi.setFields rfl rfl (hi.size s) id

/-! ## Creating -/

theorem Allocated.used (ha : Allocated m m' np) : (m'.proc np).state ≠ .unused := by
  obtain ⟨tf, pt, hp, -⟩ := ha.self
  rw [hp]; simp

theorem fork_memInv (hi : MemInv held m) : Ensures (fork m s) fun (_, m') => MemInv held m' := by
  unfold fork
  refine ((allocproc_memInv hi).and allocproc_result).bind fun (r, m₁) ⟨hi₁, hsome, _⟩ => ?_
  cases r with
  | none => exact .ok hi₁
  | some np =>
      have ha := hsome np rfl
      dsimp only
      split
      · exact .error
      · rename_i old hold
        refine (hi₁.onTable (Q := fun _ => True) ha.used fun pt hpt hacc =>
          (uvmcopy_accounted (hi₁.size s) hacc).mono fun _ h => ⟨h, trivial⟩).bind ?_
        rintro ⟨b, m₂⟩ ⟨hi₂, -, -⟩
        cases b with
        | false => exact (freeproc_memInv hi₂).bind fun m' h => .ok h
        | true =>
            dsimp only
            split
            · exact .ok (hi₂.setFields rfl rfl (hi₂.size s) (nomatch ·))
            · exact .error

/-- The pages of another process are in the ledger. -/
theorem mem_others {i : Nat} {pte : Pte} (hne : s ≠ np) (hpt : (m.proc s).pagetable = some pt)
    (h : pt.leaves.lookup i = some pte) (hlt : i < USER_PAGES) : pte.pa ∈ m.others np Proc.user := by
  refine Multiset.mem_sum.mpr ⟨s, Finset.mem_erase.mpr ⟨hne, Finset.mem_univ s⟩, ?_⟩
  rw [Proc.user, hpt]
  exact PageTable.mem_user h hlt

/-- A `create_thread` that does not run out of pages halfway fails, if at all, before the first page. -/
theorem Allocated.shareLoop_fails {m₁ : Machine} {old : PageTable} (ha : Allocated m m₁ np)
    (hne : s ≠ np) (htakes : m₁.kmem.freelist.length + 4 = m.kmem.freelist.length) (hdir : 0 ∉ pt.dirs)
    (hcalm : sharesWhole m s = true) :
    Ensures (shareLoop m₁.kmem old pt 0 (pagesBelow 0 (m₁.proc s).sz)) fun (b, j, _, _) => b = false → j = 0 := by
  rw [ha.others s hne]
  simp only [sharesWhole, decide_eq_true_eq] at hcalm
  rcases hcalm with h | h
  · exact shareLoop_short hdir (by omega)
  · have hroom : tablesBelow (0 + pagesBelow 0 (m.proc s).sz) ≤ m₁.kmem.freelist.length + tablesBelow 0 := by
      rw [Nat.zero_add]; omega
    refine (shareLoop_room (fun j hj => absurd hj (Nat.not_lt_zero j)) hroom).mono fun (b, j, k, pt) hb hf => ?_
    rw [hb.1] at hf
    cases hf

theorem createThread_memInv (hi : MemInv held m) (hrun : (m.proc s).state = .runnable)
    (hcalm : sharesWhole m s = true) : Ensures (createThread m s) fun (_, m') => MemInv held m' := by
  unfold createThread
  refine (((allocproc_memInv hi).and allocproc_result).and allocproc_takes).bind
    fun (r, m₁) ⟨⟨hi₁, hsome, _⟩, htakes⟩ => ?_
  cases r with
  | none => exact .ok hi₁
  | some np =>
      have ha := hsome np rfl
      have hne := ha.ne hrun
      obtain ⟨hfree, hdir⟩ := htakes np rfl
      dsimp only
      split
      · exact .error
      · rename_i old hold
        refine (hi₁.onTable (Q := fun _ => True) ha.used fun pt hpt hacc =>
          (uvmshare_accounted (hi₁.size s) (fun j pte hj hlt => mem_others hne hold hj hlt) ?_ hacc).mono
            fun _ h => ⟨h, trivial⟩).bind ?_
        · exact fun j k₁ pt₁ hloop => ha.shareLoop_fails hne hfree (hdir pt hpt) hcalm _ hloop rfl
        · rintro ⟨b, m₂⟩ ⟨hi₂, -, -⟩
          cases b with
          | false => exact (freeproc_memInv hi₂).bind fun m' h => .ok h
          | true =>
              dsimp only
              split
              · refine Ensures.bind_any fun q => ?_
                cases q with
                | none => exact .error
                | some p =>
                    refine .ok (MemInv.setInfant ?_)
                    exact hi₂.setFields rfl rfl (hi₂.size s) (nomatch ·)
              · exact .error

/-! ## Growing -/

theorem unmapThread_zero {va : Nat} {doFree : Bool} : unmapThread m s va 0 doFree = .ok m := rfl

theorem unmapThreads_memInv {newsz : Nat} (hsz : newsz ≤ TRAPFRAME) {l : List Slot} (hi : MemInv held m) :
    Ensures (unmapThreads m newsz 0 l) (MemInv held) := by
  induction l generalizing m with
  | nil => exact .ok hi
  | cons t l ih => exact ih (hi.setSz hsz)

/-- A thread that adds and removes no page only changes sizes. -/
theorem growThread_memInv {n : Int} (hi : MemInv held m) (hthread : (m.proc s).isThread = true)
    (hkeep : keepsPages (m.proc s).sz n = true) : Ensures (growproc m s n) fun (_, m') => MemInv held m' := by
  have hsz := hi.size s
  obtain ⟨-, hle, -, hup⟩ := pgRoundUp_spec hsz
  unfold keepsPages at hkeep
  unfold growproc
  dsimp only
  split
  · rename_i hn
    rw [if_pos hn, decide_eq_true_iff] at hkeep
    have halloc : growAlloc m s (grownSize (m.proc s).sz n) =
        .ok (max (m.proc s).sz (grownSize (m.proc s).sz n), m) := by
      simp only [growAlloc, hthread, if_true, uvmthreadedAlloc]
      split
      · rw [Nat.max_eq_left (by omega)]
      · have h0 : pagesBelow (pgRoundUp (m.proc s).sz) (grownSize (m.proc s).sz n) = 0 := by
          simp only [pagesBelow, PGSIZE]; omega
        rw [h0, Nat.max_eq_right (by omega)]
        rfl
    rw [halloc]
    refine Ensures.bind (fun r hr => hr) fun r hr => ?_
    obtain rfl := Except.ok.inj hr
    dsimp only
    split
    · exact .ok hi
    · exact .ok (hi.setSz (by omega))
  · rename_i hn
    rw [if_neg hn, decide_eq_true_iff] at hkeep
    split
    · have hdealloc : Ensures (growDealloc m s (grownSize (m.proc s).sz n)) fun r =>
          MemInv held r.2 ∧ r.1 ≤ TRAPFRAME := by
        simp only [growDealloc, hthread, if_true, uvmthreadedDealloc]
        split
        · exact .ok ⟨hi, hsz⟩
        · rename_i hlt
          have hnew : grownSize (m.proc s).sz n ≤ TRAPFRAME := by omega
          have h0 : (pgRoundUp (m.proc s).sz - pgRoundUp (grownSize (m.proc s).sz n)) / PGSIZE = 0 := by
            rw [hkeep.resolve_left hlt, Nat.sub_self, Nat.zero_div]
          split
          · exact .error
          · rw [h0]
            refine (unmapThreads_memInv hnew hi).bind fun m₁ hi₁ => ?_
            rw [unmapThread_zero]
            exact .ok ⟨hi₁.setSz hnew, hnew⟩
      exact hdealloc.bind fun r h => .ok (h.1.setSz h.2)
    · exact .ok hi

theorem growproc_memInv {n : Int} (hi : MemInv held m) (hrun : (m.proc s).state = .runnable)
    (hcalm : (m.proc s).isThread = true → keepsPages (m.proc s).sz n = true) :
    Ensures (growproc m s n) fun (_, m') => MemInv held m' := by
  cases hthread : (m.proc s).isThread with
  | true => exact growThread_memInv hi hthread (hcalm hthread)
  | false =>
      have hlive : (m.proc s).state ≠ .unused := by rw [hrun]; simp
      have hsz := hi.size s
      have halloc : ∀ newsz, Ensures (growAlloc m s newsz) fun r => MemInv held r.2 ∧ r.1 ≤ TRAPFRAME := by
        intro newsz
        simp only [growAlloc, hthread, Bool.false_eq_true, if_false]
        exact (hi.onTable (Q := (· ≤ TRAPFRAME)) hlive fun pt _ hacc => uvmalloc_accounted hsz hacc).mono
          fun _ h => ⟨h.1, h.2.1⟩
      have hdealloc : ∀ newsz, Ensures (growDealloc m s newsz) fun r => MemInv held r.2 ∧ r.1 ≤ (m.proc s).sz := by
        intro newsz
        simp only [growDealloc, hthread, Bool.false_eq_true, if_false]
        exact (hi.onTable (Q := (· ≤ (m.proc s).sz)) hlive fun pt _ hacc => uvmdealloc_accounted hsz hacc).mono
          fun _ h => ⟨h.1, h.2.1⟩
      unfold growproc
      dsimp only
      split
      · refine (halloc _).bind ?_
        rintro ⟨sz, m₁⟩ ⟨hi₁, h₁⟩
        dsimp only
        split
        · exact .ok hi₁
        · exact .ok (hi₁.setSz h₁)
      · split
        · exact (hdealloc _).bind fun r h => .ok (h.1.setSz (Nat.le_trans h.2 hsz))
        · exact .ok hi

/-! ## Replacing the program -/

section Exec

variable {k k' : Kmem} {pt pt' : PageTable} {u c : Multiset Nat}

theorem loadProgram_accounted {sz : Nat} {phdrs : List ProgHdr} (hsz : sz ≤ TRAPFRAME)
    (hacc : Accounted held k pt u c) :
    Ensures (loadProgram k pt sz phdrs) fun (_, sz', k', pt') => Accounted held k' pt' u c ∧ sz' ≤ TRAPFRAME := by
  induction phdrs generalizing k pt sz with
  | nil => exact .ok ⟨hacc, hsz⟩
  | cons ph rest ih =>
      unfold loadProgram
      split
      · exact .ok ⟨hacc, hsz⟩
      split
      · exact ih hsz hacc
      iterate 3
        split
        · exact .ok ⟨hacc, hsz⟩
      refine (uvmalloc_accounted hsz hacc).bind fun (sz₁, k₁, pt₁) ⟨h₁, hsz₁⟩ => ?_
      dsimp only
      split
      · exact .ok ⟨h₁, hsz⟩
      · refine Ensures.bind_any fun b => ?_
        cases b with
        | true => exact ih hsz₁ h₁
        | false => exact .ok ⟨h₁, hsz₁⟩

theorem buildImage_accounted {phdrs : List ProgHdr} {argv : List Nat} (hacc : Accounted held k pt u c) :
    Ensures (buildImage k pt phdrs argv) fun (_, sz, k', pt') => Accounted held k' pt' u c ∧ sz ≤ TRAPFRAME := by
  unfold buildImage
  refine (loadProgram_accounted (Nat.zero_le _) hacc).bind fun (b, sz, k₁, pt₁) ⟨h₁, hsz⟩ => ?_
  cases b with
  | false => exact .ok ⟨h₁, hsz⟩
  | true =>
      have hup := (pgRoundUp_spec hsz).2.2.2
      refine (uvmalloc_accounted hup h₁).bind fun (sz₂, k₂, pt₂) ⟨h₂, hsz₂⟩ => ?_
      dsimp only
      split
      · exact .ok ⟨by simp_all, hup⟩
      · rename_i he
        simp only [Prod.mk.injEq] at he
        obtain ⟨rfl, rfl, rfl⟩ := he
        exact (uvmclear_accounted h₂).bind fun pt₃ h₃ => .ok ⟨h₃, hsz₂⟩

end Exec

section

variable (hi : MemInv held m)
include hi

theorem exec_memInv {file : Option Elf} {argv : List Nat}
    (hrun : (m.proc s).state = .runnable) : Ensures (exec m s file argv) fun (_, m') => MemInv held m' := by
  unfold exec
  split
  · exact .ok hi
  · split
    · exact .ok hi
    · split
      · rename_i tf old htf hold
        refine ((procPagetable_ledger hi.ledger).and procPagetable_leaves).bind fun (r, k₁) ⟨hl₁, hr⟩ => ?_
        cases r with
        | none => exact .ok (hi.withKmem (by simpa using hl₁))
        | some pt =>
            obtain ⟨htrap, hhigh⟩ := hr pt rfl
            have hacc : Accounted held k₁ pt m.userPages m.kernPages :=
              ⟨by rw [PageTable.user_eq_zero_of_high hhigh, zero_add]; exact hl₁, htrap⟩
            refine (buildImage_accounted hacc).bind fun (b, sz, k₂, pt₂) ⟨h₂, hsz⟩ => ?_
            cases b with
            | false =>
                exact (procFreepagetable_ledger hsz h₂.ledger).bind fun k₃ h₃ => .ok (hi.withKmem h₃)
            | true =>
                -- the old table is freed with the new one in the ledger
                have hl := h₂.ledger
                rw [Machine.userPages, Machine.kernPages, m.sum_split s, m.sum_split s, Proc.user, Proc.kern, hold,
                  Option.elim_some, Option.elim_some, add_left_comm,
                  add_left_comm pt₂.pages, add_comm _ old.pages, add_assoc old.pages] at hl
                refine (procFreepagetable_ledger (hi.size s) hl).bind fun k₃ h₃ => .ok ?_
                refine hi.set (s := s) (fun t ht => Function.update_of_ne ht ..) ?_ ?_ ?_ ?_
                all_goals simp only [Machine.setProc, Function.update_self]
                · rw [Proc.user, Proc.kern, Option.elim_some, Option.elim_some, add_assoc]
                  exact h₃
                · intro pt' hpt'
                  obtain rfl := Option.some.inj hpt'
                  exact h₂.trap
                · exact hsz
                · rw [hrun]; simp
      · exact .error

/-! ## Ending -/

theorem iputCwd_memInv : Ensures (iputCwd m s) (MemInv held) := by
  unfold iputCwd
  split
  · exact .ok (hi.setFields rfl rfl (hi.size s) id)
  · exact .error

theorem reparent_memInv : MemInv held (reparent m s) := by
  refine hi.congr rfl fun t => ?_
  simp only [reparent]
  split
  · exact ⟨rfl, rfl, hi.size t, id⟩
  · exact ⟨rfl, rfl, hi.size t, id⟩

theorem threadExit_memInv : Ensures (threadExit m s status) (MemInv held) := by
  unfold threadExit
  split
  · exact .error
  · refine (iputCwd_memInv hi).bind fun m₁ hi₁ => .ok ?_
    have hi₂ := reparent_memInv (s := s) hi₁
    exact hi₂.setFields rfl rfl (hi₂.size s) (nomatch ·)

theorem exitInfants_memInv {l : List Slot} : Ensures (exitInfants m status l) (MemInv held) := by
  induction l generalizing m with
  | nil => exact .ok hi
  | cons t l ih =>
      unfold exitInfants
      refine (iputCwd_memInv hi).bind fun m₁ hi₁ => ih ?_
      exact hi₁.setFields rfl rfl (hi₁.size t) (nomatch ·)

theorem exit_memInv : Ensures (exit m s status) (MemInv held) := by
  unfold exit
  split
  · split
    · exact .error
    · exact (exitInfants_memInv hi).bind fun m₁ hi₁ => threadExit_memInv hi₁
  · exact threadExit_memInv hi

theorem wait_memInv {addr : Nat} : Ensures (wait m s addr) fun (_, m') => MemInv held m' := by
  unfold wait
  split
  · split
    · exact .error
    · split
      · exact .ok hi
      · exact (freeproc_memInv hi).bind fun m₁ h₁ => .ok h₁
  · split <;> exact .ok hi

/-! ## Runs -/

theorem procCall_memInv {a : ProcAct} (hrun : (m.proc a.caller).state = .runnable)
    (hcalm : PagesCalm m a) : Ensures (procCall m a) (MemInv held) := by
  cases a with
  | fork s => exact (fork_memInv hi).bind fun _ h => .ok h
  | createThread s => exact (createThread_memInv hi hrun hcalm).bind fun _ h => .ok h
  | growproc s n => exact (growproc_memInv hi hrun hcalm).bind fun _ h => .ok h
  | exec s file argv => exact (exec_memInv hi hrun).bind fun _ h => .ok h
  | exit s status => exact exit_memInv hi
  | threadExit s status => exact threadExit_memInv hi
  | wait s addr => exact (wait_memInv hi).bind fun _ h => .ok h

theorem procStep_memInv {a : ProcAct} (hcalm : PagesCalm m a) (h : procStep m a = some m') :
    MemInv held m' := by
  obtain ⟨hrun, hc⟩ := procStep_eq_some.mp h
  exact procCall_memInv hi hrun hcalm m' hc

end

theorem MemInv.boot (hk : k.freelist.Nodup) (trampoline : Nat) :
    MemInv (fun p => k.Ram p ∧ p ∉ k.freelist) (.boot k trampoline) := by
  refine ⟨⟨⟨hk, ?_, ?_, ?_, fun p hp => ?_⟩, ?_⟩, fun _ _ h => (nomatch h), fun _ => Nat.zero_le _,
    fun _ _ => ⟨rfl, rfl⟩⟩
  · simp [Machine.userPages, Machine.kernPages, Machine.boot, Proc.user, Proc.kern, Proc.zero]
  · simp [Machine.userPages, Machine.kernPages, Machine.boot, Proc.user, Proc.kern, Proc.zero]
  · simp [Machine.userPages, Machine.kernPages, Machine.boot, Proc.user, Proc.kern, Proc.zero]
  · by_cases hf : p ∈ k.freelist
    · exact .inl hf
    · exact .inr (.inr ⟨hp, hf⟩)
  · simp [Machine.kernPages, Machine.boot, Proc.kern, Proc.zero]

/-- The first page is in the ledger if it is mapped. -/
theorem uvmfirst_accounted {u c : Multiset Nat} {sz : Nat} (hacc : Accounted held k pt u c) (hfirst : 0 ∉ pt.leaves) :
    Ensures (uvmfirst k pt sz) fun (k', pt') => 0 ∈ pt'.leaves → Accounted held k' pt' u c := by
  unfold uvmfirst
  split
  · exact .error
  · split
    · exact .error
    · rename_i mem k₁ hk
      have hacc₁ : Accounted held k₁ pt u (mem ::ₘ c) :=
        ⟨by rw [Multiset.add_cons]; exact hacc.ledger.kalloc hk, hacc.trap⟩
      refine (mappages_maps (by decide)).bind fun (b, k₂, pt₂) hm => .ok fun hmem => ?_
      cases b with
      | true => exact (hm.fresh hacc₁ (Nat.zero_le _)).2
      | false => exact absurd (hm.failed rfl ▸ hmem) hfirst

theorem FirstProcess.memInv (hk : k.freelist.Nodup) (hf : m.FirstProcess k) :
    MemInv (fun p => k.Ram p ∧ p ∉ k.freelist) m := by
  obtain ⟨⟨trampoline, initcode, hu⟩, pt₀, hpt₀, hmapped⟩ := hf
  have hi := MemInv.boot hk trampoline
  have hens : Ensures (userinit (.boot k trampoline) initcode) fun m => ∀ pt, (m.proc m.initproc).pagetable = some pt →
      0 ∈ pt.leaves → MemInv (fun p => k.Ram p ∧ p ∉ k.freelist) m := by
    unfold userinit
    refine ((allocproc_memInv hi).and allocproc_result).bind fun (r, m₁) ⟨hi₁, hsome, _⟩ => ?_
    cases r with
    | none => exact .error
    | some s =>
        obtain ⟨tf, pt, hself, -, hhigh⟩ := (hsome s rfl).self
        have hpt : (m₁.proc s).pagetable = some pt := by rw [hself]
        simp only [hpt]
        refine (uvmfirst_accounted (hi₁.accounted hpt) (hhigh 0 (by decide))).bind fun (k₂, pt₂) h₂ => .ok ?_
        intro pt' hpt' h0
        simp only [Machine.setProc, Function.update_self, Option.some.injEq] at hpt'
        subst hpt'
        refine hi₁.putTable (s := s) (fun t ht => Function.update_of_ne ht ..) (h₂ h0) ?_ ?_ ?_ ?_
        all_goals simp only [Machine.setProc, Function.update_self]
        · decide
        · simp
  exact hens m hu pt₀ hpt₀ hmapped

theorem MemInv.pagesExact (hi : MemInv held m) : m.PagesExact held := by
  refine ⟨fun p hp => hi.ledger.user_ref (Multiset.count_pos.mp hp), fun p hp => ?_, fun p hp h0 => ?_⟩
  · exact hi.ledger.owned.not_free p (Multiset.mem_add.mpr (.inl (Multiset.count_pos.mp hp)))
  · rcases hi.ledger.owned.cover p hp with h | h | h
    · exact .inl h
    · rcases Multiset.mem_add.mp h with h | h
      · exact absurd h0 (Nat.pos_iff_ne_zero.mp (Multiset.count_pos.mpr h))
      · exact .inr (.inl h)
    · exact .inr (.inr h)

end Xv6Net.Procs
