import Mathlib.Data.List.Basic

/-!
# Runs of a labelled step function

A system is a partial function `step : σ → α → Option σ`: the label says which party moves, and `none` says
that the move is not enabled. What holds in every state of every run is shown once here, for a run whose steps
all meet a condition on the state before the step.
-/

namespace Xv6Net.Lib

variable {σ α : Type} (step : σ → α → Option σ)

/-- The state after the labels `as`, if every one of them is enabled in its turn. -/
def run : σ → List α → Option σ
  | s, [] => some s
  | s, a :: as => (step s a).bind fun t => run t as

/-- Every step of the run meets the condition `G`, read in the state before that step. -/
def RunMeets (G : σ → α → Prop) : σ → List α → Prop
  | _, [] => True
  | s, a :: as => G s a ∧ ∀ t, step s a = some t → RunMeets G t as

variable {step}

@[simp] theorem run_nil (s : σ) : run step s [] = some s := rfl

@[simp] theorem run_cons (s : σ) (a : α) (as : List α) :
    run step s (a :: as) = (step s a).bind fun t => run step t as := rfl

theorem run_cons_eq_some {s u : σ} {a : α} {as : List α} :
    run step s (a :: as) = some u ↔ ∃ t, step s a = some t ∧ run step t as = some u := by
  rw [run_cons, Option.bind_eq_some_iff]

theorem runMeets_cons_none {G : σ → α → Prop} {s : σ} {a : α} {as : List α} (h : step s a = none) :
    RunMeets step G s (a :: as) ↔ G s a := by
  simp [RunMeets, h]

theorem runMeets_cons_some {G : σ → α → Prop} {s t : σ} {a : α} {as : List α} (h : step s a = some t) :
    RunMeets step G s (a :: as) ↔ G s a ∧ RunMeets step G t as := by
  simp [RunMeets, h]

instance decidableRunMeets (G : σ → α → Prop) [∀ s a, Decidable (G s a)] :
    ∀ (as : List α) (s : σ), Decidable (RunMeets step G s as)
  | [], _ => isTrue trivial
  | a :: as, s =>
      match h : step s a with
      | none => decidable_of_iff _ (runMeets_cons_none h).symm
      | some t =>
          haveI := decidableRunMeets G as t
          decidable_of_iff _ (runMeets_cons_some h).symm

/-- A run whose steps meet `G`, with the state that it ends in, where `P` holds. -/
structure Sample (step : σ → α → Option σ) (s : σ) (as : List α) (G : σ → α → Prop) (P : σ → Prop) where
  last : σ
  meets : RunMeets step G s as
  runs : run step s as = some last
  holds : P last

/-- A run by evaluation. -/
def Sample.eval {s : σ} {as : List α} {G : σ → α → Prop} {P : σ → Prop} [∀ s a, Decidable (G s a)] [DecidablePred P]
    (h : (decide (RunMeets step G s as) && (run step s as).any fun u => decide (P u)) = true) :
    Sample step s as G P :=
  have hand := (Bool.and_eq_true ..).mp h
  match hr : run step s as with
  | none => absurd hand.2 (by rw [hr]; exact nofun)
  | some u => ⟨u, of_decide_eq_true hand.1, hr, of_decide_eq_true (by have := hand.2; rwa [hr] at this)⟩

/-- A condition on states that every step meeting `G` keeps holds at the end of every run whose steps meet `G`. -/
theorem run_keeps {G : σ → α → Prop} {I : σ → Prop}
    (hstep : ∀ s a t, I s → G s a → step s a = some t → I t) :
    ∀ {as : List α} {s u : σ}, I s → RunMeets step G s as → run step s as = some u → I u
  | [], _, _, hi, _, h => by cases h; exact hi
  | a :: _, s, _, hi, hg, h => by
      obtain ⟨t, ht, hu⟩ := run_cons_eq_some.mp h
      exact run_keeps hstep (hstep s a t hi hg.1 ht) (hg.2 t ht) hu

/-- A condition on the labels alone. -/
theorem runMeets_of_forall {G : σ → α → Prop} : ∀ {as : List α} {s : σ}, (∀ a ∈ as, ∀ s, G s a) → RunMeets step G s as
  | [], _, _ => trivial
  | a :: _, s, h => ⟨h a List.mem_cons_self s, fun _ _ => runMeets_of_forall fun b hb => h b (List.mem_cons_of_mem a hb)⟩

theorem run_keeps' {I : σ → Prop} (hstep : ∀ s a t, I s → step s a = some t → I t)
    {as : List α} {s u : σ} (hi : I s) (h : run step s as = some u) : I u :=
  run_keeps (fun s a t hi _ ht => hstep s a t hi ht) hi (runMeets_of_forall fun _ _ _ => trivial) h

/-- A mark that a step against `G` leaves, and that no step removes, is there at the end of every run with such a
step. -/
theorem run_marks {G : σ → α → Prop} {I B : σ → Prop} (hI : ∀ s a t, I s → step s a = some t → I t)
    (hmark : ∀ s a t, I s → ¬ G s a → step s a = some t → B t) (hB : ∀ s a t, I s → B s → step s a = some t → B t) :
    ∀ {as : List α} {s u : σ}, I s → ¬ RunMeets step G s as → run step s as = some u → B u
  | [], _, _, _, hg, _ => absurd trivial hg
  | a :: as, s, u, hi, hg, h => by
      obtain ⟨t, ht, hu⟩ := run_cons_eq_some.mp h
      rw [runMeets_cons_some ht, not_and_or] at hg
      have hit := hI s a t hi ht
      rcases hg with hg | hg
      · have hboth : I u ∧ B u := run_keeps' (I := fun s => I s ∧ B s)
          (fun s a t h hs => ⟨hI s a t h.1 hs, hB s a t h.1 h.2 hs⟩) ⟨hit, hmark s a t hi hg ht⟩ hu
        exact hboth.2
      · exact run_marks hI hmark hB hit hg hu

end Xv6Net.Lib
