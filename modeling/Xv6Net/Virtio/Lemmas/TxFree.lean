import Xv6Net.Virtio.Lemmas.TxOwn

/-!
# Descriptors that are taken, kept and given back

`TxEffect` says what a step of one call does with the table of free descriptors. A descriptor that is taken and
belongs to no call is lost for good.
-/

namespace Xv6Net.Virtio

open Kernel Lib

theorem freeDescs_length_eq_one {q : Virtq} : (freeDescs q).length = 1 ↔
    ∃ hdr, hdr < NUM ∧ q.free hdr = true ∧ ∀ d, d < NUM → d ≠ hdr → q.free d = false := by
  have hmem : ∀ d, d ∈ freeDescs q ↔ d < NUM ∧ q.free d = true := by simp [freeDescs]
  rw [List.length_eq_one_iff]
  constructor
  · rintro ⟨hdr, he⟩
    obtain ⟨hlt, hf⟩ := (hmem hdr).mp (by rw [he]; exact List.mem_singleton_self hdr)
    refine ⟨hdr, hlt, hf, fun d hd hne => ?_⟩
    by_contra hd'
    have : d ∈ freeDescs q := (hmem d).mpr ⟨hd, by simpa using hd'⟩
    rw [he] at this
    exact hne (List.mem_singleton.mp this)
  · rintro ⟨hdr, hlt, hf, hothers⟩
    have hnd : (freeDescs q).Nodup := List.nodup_range.filter _
    have hall : ∀ d ∈ freeDescs q, d = hdr := by
      intro d hd
      obtain ⟨hd, hfd⟩ := (hmem d).mp hd
      by_contra hne
      rw [hothers d hd hne] at hfd; cases hfd
    match he : freeDescs q with
    | [] => exact absurd ((hmem hdr).mpr ⟨hlt, hf⟩) (by simp [he])
    | [d] => exact ⟨d, rfl⟩
    | d :: e :: rest =>
        rw [he] at hnd hall
        have hde : d = e := (hall d (by simp)).trans (hall e (by simp)).symm
        simp [hde] at hnd

/-- What a step of call `c` does with the descriptors. -/
inductive TxEffect (s t : TxSys) (c : Nat) : Prop
  | keep (hdescs : (t.pc c).descs = (s.pc c).descs) (hfree : t.q.free = s.q.free)
      (hpanic : ∀ e, t.pc c ≠ .panicked e) (hstart : s.pc c ≠ .start)
  | stop (hstart : s.pc c = .start) (hpc : t.pc c = .panicked (.panic "failed to allocate header\n"))
      (hfree : t.q.free = s.q.free)
  | drop (hstart : s.pc c = .start) (hpc : t.pc c = .dropped) (hq : DropsTo s.q t.q)
  | take (hdr pkt : Nat) (hstart : s.pc c = .start) (hdescs : (t.pc c).descs = [hdr, pkt])
      (hpanic : ∀ e, t.pc c ≠ .panicked e) (hhdr : hdr < NUM ∧ s.q.free hdr = true)
      (hpkt : pkt < NUM ∧ s.q.free pkt = true) (hne : pkt ≠ hdr)
      (hfree : t.q.free = Function.update (Function.update s.q.free hdr false) pkt false)
  | give (d : Nat) (hdescs : (s.pc c).descs = d :: (t.pc c).descs) (hpanic : ∀ e, t.pc c ≠ .panicked e)
      (hdrop : t.pc c ≠ .dropped) (hfree : t.q.free = Function.update s.q.free d true)

section Effect

variable {data : Nat → Packet} {s t : TxSys} {c : Nat}

theorem txEnter_effect (hpc : s.pc c = .start) :
    (∀ c', c' ≠ c → (txEnter s c).pc c' = s.pc c') ∧ TxEffect s (txEnter s c) c := by
  rcases txEnter_cases s c with ⟨k, -, he⟩ | ⟨page, k, q, -, hq, he⟩ |
      ⟨page, k, hdr, pkt, -, hh, hp, hne, hfh, hfp, -, he⟩ <;> rw [he]
  all_goals refine ⟨fun c' hc => Function.update_of_ne hc .., ?_⟩
  · exact .stop hpc (Function.update_self ..) rfl
  · exact .drop hpc (Function.update_self ..) hq
  · exact .take hdr pkt hpc (by simp [TxSys.setPc, TxPc.descs]) (by simp [TxSys.setPc]) ⟨hh, hfh⟩ ⟨hp, hfp⟩ hne rfl

theorem txCall_effect (h : TxOwn s) (hs : txCall data s c = some t) :
    (∀ c', c' ≠ c → t.pc c' = s.pc c') ∧ TxEffect s t c := by
  -- a call that moves on with the descriptors it has
  have keep : ∀ {u : TxSys} {pc : TxPc}, u.pc = Function.update s.pc c pc → pc.descs = (s.pc c).descs →
      u.q.free = s.q.free → (∀ e, pc ≠ .panicked e) → s.pc c ≠ .start →
      (∀ c', c' ≠ c → u.pc c' = s.pc c') ∧ TxEffect s u c := by
    intro u pc hpc hd hf hp hst
    have hself : u.pc c = pc := by rw [hpc, Function.update_self]
    exact ⟨fun c' hc => by rw [hpc, Function.update_of_ne hc], .keep (by rw [hself, hd]) hf (by rw [hself]; exact hp) hst⟩
  have give : ∀ {d : Nat} {pc : TxPc}, (s.pc c).descs = d :: pc.descs → (∀ e, pc ≠ .panicked e) → pc ≠ .dropped →
      (∀ c', c' ≠ c → ({ s with q := { s.q with
        desc := Function.update s.q.desc d ⟨0, 0, 0, 0⟩
        free := Function.update s.q.free d true } }.setPc c pc).pc c' = s.pc c') ∧
      TxEffect s ({ s with q := { s.q with
        desc := Function.update s.q.desc d ⟨0, 0, 0, 0⟩
        free := Function.update s.q.free d true } }.setPc c pc) c := by
    intro d pc hd hp hdrop
    refine ⟨fun c' hc => Function.update_of_ne hc .., .give d ?_ ?_ ?_ rfl⟩ <;>
      simp only [TxSys.setPc, Function.update_self]
    exacts [hd, hp, hdrop]
  unfold txCall at hs
  split at hs
  · rename_i hpc
    split at hs
    · cases hs
    · cases hs; exact txEnter_effect hpc
  · rename_i hpc
    cases hs; exact keep rfl (by rw [hpc]; rfl) rfl (by simp) (by simp [hpc])
  · rename_i hpc
    cases hs; exact keep rfl (by rw [hpc]; rfl) rfl (by simp) (by simp [hpc])
  · rename_i hpc
    cases hs; exact keep rfl (by rw [hpc]; rfl) rfl (by simp) (by simp [hpc])
  · rename_i hpc
    split at hs
    · cases hs
    · cases hs; exact keep rfl (by rw [hpc]; rfl) rfl (by simp) (by simp [hpc])
  · rename_i hdr pkt hpc
    have hd : hdr ∈ (s.pc c).descs := by simp [hpc, TxPc.descs]
    rw [h.freeDesc_ok hd] at hs
    cases hs; exact give (by rw [hpc]; rfl) (by simp) (by simp)
  · rename_i pkt hpc
    have hd : pkt ∈ (s.pc c).descs := by simp [hpc, TxPc.descs]
    rw [h.freeDesc_ok hd] at hs
    cases hs; exact give (by rw [hpc]; rfl) (by simp) (by simp)
  all_goals cases hs

/-- The device changes neither the calls nor the table of free descriptors. -/
theorem txStep_device (hs : txStep data s a = some t) (ha : ∀ c, a ≠ .call c) :
    t.pc = s.pc ∧ t.q.free = s.q.free ∧ t.lock = s.lock := by
  cases a with
  | call c => exact absurd rfl (ha c)
  | take =>
      simp only [txStep] at hs
      split at hs
      · cases hs
      · cases hs; exact ⟨rfl, rfl, rfl⟩
  | read seq =>
      simp only [txStep] at hs
      split at hs
      · cases hs; exact ⟨rfl, rfl, rfl⟩
      · cases hs
  | push seq =>
      simp only [txStep] at hs
      split at hs
      · cases hs; exact ⟨rfl, rfl, rfl⟩
      · cases hs

end Effect

theorem TxOwn.step {s t : TxSys} (h : TxOwn s) (hs : txStep data s a = some t) : TxOwn t := by
  by_cases ha : ∃ c, a = .call c
  · obtain ⟨c, rfl⟩ := ha
    exact h.call hs
  · obtain ⟨hpc, hfree, hlock⟩ := txStep_device hs fun c hc => ha ⟨c, hc⟩
    refine ⟨fun c => ?_, fun c d hd => ?_, fun c c' d hd hd' => ?_, fun c hl => ?_⟩
    · rw [hpc]; exact h.nodup c
    · rw [hpc] at hd; rw [hfree]; exact h.held c d hd
    · rw [hpc] at hd hd'; exact h.alone c c' d hd hd'
    · rw [hpc] at hl; rw [hlock]; exact h.locked c hl

/-! ## What holds in every run, and what holds as long as no descriptor is lost -/

/-- A step of the system changes the calls and the free descriptors as one call does, or not at all. -/
theorem txStep_effect {s t : TxSys} (h : TxOwn s) (hs : txStep data s a = some t) :
    (t.pc = s.pc ∧ t.q.free = s.q.free ∧ TxPaired s a) ∨
      ∃ c, a = .call c ∧ (∀ c', c' ≠ c → t.pc c' = s.pc c') ∧ TxEffect s t c := by
  cases a with
  | call c => exact .inr ⟨c, rfl, txCall_effect h hs⟩
  | take | read _ | push _ =>
      obtain ⟨hpc, hfree, -⟩ := txStep_device hs nofun
      exact .inl ⟨hpc, hfree, trivial⟩

/-- A call without a step in the run has not begun. -/
theorem pc_of_not_called {k : Kmem} {packetBuf : Nat} {mem : Nat → List UInt8} :
    ∀ {as : List TxAct} {s : TxSys}, run (txStep data) (.boot k packetBuf mem) as = some s → .call c ∉ as →
      s.pc c = .start := by
  intro as s hs hc
  have hmeets : RunMeets (txStep data) (fun _ a => a ≠ .call c) (.boot k packetBuf mem) as :=
    runMeets_of_forall fun a ha _ he => hc (he ▸ ha)
  have := run_keeps (I := fun s => TxOwn s ∧ s.pc c = .start) (fun s a t ⟨h, hst⟩ ha ht => ?_)
    ⟨TxOwn.boot k packetBuf mem, rfl⟩ hmeets hs
  · exact this.2
  · refine ⟨h.step ht, ?_⟩
    rcases txStep_effect h ht with ⟨hpc, -, -⟩ | ⟨c', rfl, hothers, -⟩
    · rw [hpc]; exact hst
    · rw [hothers c (by rintro rfl; exact ha rfl)]; exact hst

/-- No call has stopped the kernel in `free_desc`. -/
def TxSys.FreesWell (s : TxSys) : Prop :=
  ∀ c e, s.pc c = .panicked e → e = .panic "failed to allocate header\n"

/-- Every descriptor that is taken belongs to a call. -/
def TxSys.AllOwned (s : TxSys) : Prop := ∀ d, d < NUM → s.q.free d = false → ∃ c, d ∈ (s.pc c).descs

/-- A call has stopped the kernel, or a descriptor is taken and belongs to no call. -/
def TxSys.Leaky (s : TxSys) : Prop :=
  (∃ c e, s.pc c = .panicked e) ∨ ∃ d, d < NUM ∧ s.q.free d = false ∧ ∀ c, d ∉ (s.pc c).descs

section Step

variable {data : Nat → Packet} {s t : TxSys} {a : TxAct}

theorem TxSys.FreesWell.step (hw : s.FreesWell) (h : TxOwn s) (hs : txStep data s a = some t) : t.FreesWell := by
  intro c e hc
  rcases txStep_effect h hs with ⟨hpc, -, -⟩ | ⟨c₀, -, hothers, heff⟩
  · exact hw c e (hpc ▸ hc)
  · by_cases hcc : c = c₀
    · subst hcc
      cases heff with
      | stop _ hpc _ => rw [hpc] at hc; cases hc; rfl
      | keep _ _ hp _ => exact absurd hc (hp e)
      | drop _ hpc _ => rw [hpc] at hc; cases hc
      | take _ _ _ _ hp _ _ _ _ => exact absurd hc (hp e)
      | give _ _ hp _ _ => exact absurd hc (hp e)
    · exact hw c e (hothers c hcc ▸ hc)

/-- The descriptors of the other calls stay theirs. -/
theorem owned_by_other {d : Nat} (hothers : ∀ c', c' ≠ c → t.pc c' = s.pc c') (hd : d ∉ (s.pc c).descs)
    (h : ∃ c', d ∈ (s.pc c').descs) : ∃ c', d ∈ (t.pc c').descs := by
  obtain ⟨c', hc'⟩ := h
  have hne : c' ≠ c := by rintro rfl; exact hd hc'
  exact ⟨c', by rw [hothers c' hne]; exact hc'⟩

theorem TxSys.AllOwned.step (ho : s.AllOwned) (h : TxOwn s) (hp : TxPaired s a) (hs : txStep data s a = some t) :
    t.AllOwned := by
  intro d hd hf
  rcases txStep_effect h hs with ⟨hpc, hfree, -⟩ | ⟨c, rfl, hothers, heff⟩
  · rw [hfree] at hf; rw [hpc]; exact ho d hd hf
  · cases heff with
    | keep hdescs hfree _ _ =>
        rw [hfree] at hf
        obtain ⟨c', hc'⟩ := ho d hd hf
        by_cases hcc : c' = c
        · subst hcc; exact ⟨c', by rw [hdescs]; exact hc'⟩
        · exact ⟨c', by rw [hothers c' hcc]; exact hc'⟩
    | stop hstart _ hfree =>
        rw [hfree] at hf
        exact owned_by_other hothers (by simp [hstart, TxPc.descs]) (ho d hd hf)
    | drop hstart _ hq =>
        rcases hq with ⟨hq, -⟩ | ⟨hdr, hlt, hfh, hall, -⟩
        · rw [hq] at hf
          exact owned_by_other hothers (by simp [hstart, TxPc.descs]) (ho d hd hf)
        · exact absurd (freeDescs_length_eq_one.mpr ⟨hdr, hlt, hfh, hall⟩) (hp hstart)
    | take hdr pkt hstart hdescs _ _ _ _ hfree =>
        by_cases hd' : d = hdr ∨ d = pkt
        · exact ⟨c, by rw [hdescs]; simpa using hd'⟩
        · rw [not_or] at hd'
          rw [hfree, Function.update_of_ne hd'.2, Function.update_of_ne hd'.1] at hf
          exact owned_by_other hothers (by simp [hstart, TxPc.descs]) (ho d hd hf)
    | give e hdescs _ _ hfree =>
        have hne : d ≠ e := by rintro rfl; rw [hfree, Function.update_self] at hf; cases hf
        rw [hfree, Function.update_of_ne hne] at hf
        obtain ⟨c', hc'⟩ := ho d hd hf
        by_cases hcc : c' = c
        · subst hcc
          rw [hdescs] at hc'
          exact ⟨c', (List.mem_cons.mp hc').resolve_left hne⟩
        · exact ⟨c', by rw [hothers c' hcc]; exact hc'⟩

/-- What is lost stays lost. -/
theorem TxSys.Leaky.step (hl : s.Leaky) (h : TxOwn s) (hs : txStep data s a = some t) : t.Leaky := by
  rcases txStep_effect h hs with ⟨hpc, hfree, -⟩ | ⟨c, rfl, hothers, heff⟩
  · unfold TxSys.Leaky; rw [hpc, hfree]; exact hl
  · rcases hl with ⟨c', e, he⟩ | ⟨d, hd, hf, hnone⟩
    · -- a call that stopped the kernel takes no step
      have hne : c' ≠ c := by
        rintro rfl
        simp [txStep, txCall, he] at hs
      exact .inl ⟨c', e, by rw [hothers c' hne]; exact he⟩
    · refine .inr ⟨d, hd, ?_, fun c' hc' => ?_⟩
      · cases heff with
        | keep _ hfree _ _ => rw [hfree]; exact hf
        | stop _ _ hfree => rw [hfree]; exact hf
        | drop _ _ hq => exact hq.frame.2.2.2 d hf
        | take hdr pkt _ _ _ _ _ _ hfree =>
            rw [hfree]; simp only [Function.update_apply]; split <;> [rfl; split <;> [rfl; exact hf]]
        | give e hdescs _ _ hfree =>
            have hne : d ≠ e := by rintro rfl; exact hnone c (by rw [hdescs]; exact List.mem_cons_self)
            rw [hfree, Function.update_of_ne hne]; exact hf
      · by_cases hcc : c' = c
        · subst hcc
          cases heff with
          | keep hdescs _ _ _ => rw [hdescs] at hc'; exact hnone c' hc'
          | stop _ hpc _ => rw [hpc] at hc'; cases hc'
          | drop _ hpc _ => rw [hpc] at hc'; cases hc'
          | take hdr pkt _ hdescs _ hhdr hpkt _ _ =>
              rw [hdescs, List.mem_pair] at hc'
              rcases hc' with rfl | rfl
              · rw [hhdr.2] at hf; cases hf
              · rw [hpkt.2] at hf; cases hf
          | give e hdescs _ _ _ => exact hnone c' (by rw [hdescs]; exact List.mem_cons_of_mem _ hc')
        · rw [hothers c' hcc] at hc'; exact hnone c' hc'

/-- A call that enters with one free descriptor stops the kernel or loses it. -/
theorem leaky_of_not_paired (h : TxOwn s) (hp : ¬ TxPaired s a) (hs : txStep data s a = some t) : t.Leaky := by
  rcases txStep_effect h hs with ⟨-, -, hpaired⟩ | ⟨c, rfl, hothers, heff⟩
  · exact absurd hpaired hp
  · simp only [TxPaired, Classical.not_imp, not_not] at hp
    obtain ⟨hstart, hone⟩ := hp
    obtain ⟨hdr, hlt, hfh, hall⟩ := freeDescs_length_eq_one.mp hone
    cases heff with
    | keep _ _ _ hst => exact absurd hstart hst
    | stop _ hpc _ => exact .inl ⟨c, _, hpc⟩
    | take hdr' pkt _ _ _ hhdr hpkt hne _ =>
        have hone : ∀ d, d < NUM ∧ s.q.free d = true → d = hdr := by
          rintro d ⟨hd, hfd⟩
          by_contra hne
          rw [hall d hd hne] at hfd; cases hfd
        exact absurd ((hone pkt hpkt).trans (hone hdr' hhdr).symm) hne
    | give d hdescs _ _ _ => rw [hstart] at hdescs; cases hdescs
    | drop _ hpc hq =>
        rcases hq with ⟨-, hnone⟩ | ⟨hdr', hlt', hfh', hall', hq⟩
        · rw [hnone hdr hlt] at hfh; cases hfh
        · refine .inr ⟨hdr', hlt', by rw [hq]; exact Function.update_self .., fun c' hc' => ?_⟩
          by_cases hcc : c' = c
          · subst hcc; rw [hpc] at hc'; cases hc'
          · rw [hothers c' hcc] at hc'
            rw [(h.held c' hdr' hc').2] at hfh'; cases hfh'

/-- The table of free descriptors is the same after a call was dropped exactly if it found none free. -/
theorem drop_free_iff (h : TxOwn s) (hs : txStep data s (.call c) = some t) (hd : t.pc c = .dropped) :
    t.q.free = s.q.free ↔ TxPaired s (.call c) := by
  obtain ⟨-, heff⟩ := txCall_effect h hs
  cases heff with
  | keep _ hfree _ hst => exact ⟨fun _ hstart => absurd hstart hst, fun _ => hfree⟩
  | stop _ hpc _ => rw [hpc] at hd; cases hd
  | take _ _ _ hdescs _ _ _ _ _ => rw [hd] at hdescs; cases hdescs
  | give _ _ _ hdrop _ => exact absurd hd hdrop
  | drop hstart _ hq =>
      rcases hq with ⟨hq, hnone⟩ | ⟨hdr, hlt, hfh, hall, hq⟩
      · refine ⟨fun _ _ hone => ?_, fun _ => by rw [hq]⟩
        obtain ⟨hdr, hlt, hfh, -⟩ := freeDescs_length_eq_one.mp hone
        rw [hnone hdr hlt] at hfh; cases hfh
      · refine ⟨fun he => ?_, fun hp => absurd (freeDescs_length_eq_one.mpr ⟨hdr, hlt, hfh, hall⟩) (hp hstart)⟩
        have := congrFun he hdr
        rw [hq, hfh] at this
        simp at this

end Step

end Xv6Net.Virtio
