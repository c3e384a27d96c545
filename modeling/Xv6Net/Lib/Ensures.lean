import Mathlib.Data.List.Basic

/-!
# Postconditions of functions that may stop

`Ensures x Q` says that `Q` holds of the result of `x`, if `x` has one, and `Returns x Q` that it has one. The rules follow the way such functions are
composed, so that a proof cites what is known of each part.
-/

namespace Xv6Net.Lib

variable {ε α β : Type} {x : Except ε α} {f : α → Except ε β} {P Q : α → Prop} {R : β → Prop}

def Ensures (x : Except ε α) (Q : α → Prop) : Prop := ∀ a, x = .ok a → Q a

namespace Ensures

theorem ok {a : α} (h : Q a) : Ensures (.ok a : Except ε α) Q := fun _ hb => Except.ok.inj hb ▸ h

theorem error {e : ε} : Ensures (.error e : Except ε α) Q := fun _ h => nomatch h

theorem bind (hx : Ensures x P) (hf : ∀ a, P a → Ensures (f a) R) : Ensures (x >>= f) R := by
  cases x with
  | error e => exact error
  | ok a => exact hf a (hx a rfl)

/-- Nothing needs to be known of the first part. -/
theorem bind_any (hf : ∀ a, Ensures (f a) R) : Ensures (x >>= f) R :=
  bind (P := fun _ => True) (fun _ _ => trivial) fun a _ => hf a

theorem mono (hx : Ensures x P) (h : ∀ a, P a → Q a) : Ensures x Q := fun a ha => h a (hx a ha)

theorem and (hp : Ensures x P) (hq : Ensures x Q) : Ensures x fun a => P a ∧ Q a :=
  fun a ha => ⟨hp a ha, hq a ha⟩

theorem mapError {δ : Type} {g : ε → δ} (hx : Ensures x Q) : Ensures (x.mapError g) Q := by
  cases x with
  | error e => exact error
  | ok a => exact ok (hx a rfl)

theorem of_imp {p : Prop} (h : p → Ensures x Q) : Ensures x fun a => p → Q a := fun a ha hp => h hp a ha

end Ensures

/-! ## Errors -/

/-- `E` holds of the error that stops `x`, if one does. -/
def Raises (x : Except ε α) (E : ε → Prop) : Prop := ∀ e, x = .error e → E e

namespace Raises

variable {E : ε → Prop}

theorem ok {a : α} : Raises (.ok a : Except ε α) E := fun _ h => nomatch h

theorem error {e : ε} (h : E e) : Raises (.error e : Except ε α) E := fun _ hb => Except.error.inj hb ▸ h

theorem bind (hx : Raises x E) (hf : ∀ a, x = .ok a → Raises (f a) E) : Raises (x >>= f) E := by
  cases x with
  | error e => exact error (hx e rfl)
  | ok a => exact hf a rfl

theorem mapError {δ : Type} {g : ε → δ} {F : δ → Prop} (hx : Raises x E) (hg : ∀ e, E e → F (g e)) :
    Raises (x.mapError g) F := by
  cases x with
  | error e => exact error (hg e (hx e rfl))
  | ok a => exact ok

end Raises

/-- `Q` holds of the result of `x`, or `E` of the error that stops it. -/
def Ends (x : Except ε α) (E : ε → Prop) (Q : α → Prop) : Prop := Raises x E ∧ Ensures x Q

namespace Ends

variable {E : ε → Prop}

theorem ok {a : α} (h : Q a) : Ends (.ok a) E Q := ⟨.ok, .ok h⟩

theorem error {e : ε} (h : E e) : Ends (.error e : Except ε α) E Q := ⟨.error h, .error⟩

theorem bind (hx : Ends x E P) (hf : ∀ a, P a → Ends (f a) E R) : Ends (x >>= f) E R :=
  ⟨hx.1.bind fun a ha => (hf a (hx.2 a ha)).1, hx.2.bind fun a ha => (hf a ha).2⟩

theorem map {g : α → β} (hx : Ends x E fun a => R (g a)) : Ends (x.map g) E R := by
  cases x with
  | error e => exact error (hx.1 e rfl)
  | ok a => exact ok (hx.2 a rfl)

end Ends

/-- `x` has a result, and `Q` holds of it. -/
def Returns (x : Except ε α) (Q : α → Prop) : Prop := ∃ a, x = .ok a ∧ Q a

namespace Returns

theorem ok {a : α} (h : Q a) : Returns (.ok a : Except ε α) Q := ⟨a, rfl, h⟩

theorem bind (hx : Returns x P) (hf : ∀ a, P a → Returns (f a) R) : Returns (x >>= f) R := by
  obtain ⟨a, rfl, ha⟩ := hx
  exact hf a ha

theorem ensures (hx : Returns x Q) : Ensures x Q := by
  obtain ⟨a, rfl, ha⟩ := hx
  exact .ok ha

theorem mono (hx : Returns x P) (h : ∀ a, P a → Q a) : Returns x Q := by
  obtain ⟨a, ha, hp⟩ := hx
  exact ⟨a, ha, h a hp⟩

theorem and (hp : Returns x P) (hq : Ensures x Q) : Returns x fun a => P a ∧ Q a := by
  obtain ⟨a, ha, hp⟩ := hp
  exact ⟨a, ha, hp, hq a ha⟩

instance decidable [DecidablePred Q] : Decidable (Returns x Q) :=
  match x with
  | .ok a => decidable_of_iff (Q a) ⟨ok, fun ⟨_, ha, hq⟩ => Except.ok.inj ha ▸ hq⟩
  | .error _ => isFalse fun ⟨_, ha, _⟩ => nomatch ha

end Returns

/-! ## Folds -/

/-- A fold over a list, with an invariant that knows what is left of the list. -/
theorem Ensures.foldlM {g : β → α → Except ε β} (I : List α → β → Prop)
    (hstep : ∀ b a as, I (a :: as) b → Ensures (g b a) (I as)) :
    ∀ {as : List α} {b : β}, I as b → Ensures (as.foldlM g b) (I [])
  | [], _, hb => ok hb
  | a :: as, b, hb => (hstep b a as hb).bind fun _ hc => foldlM I hstep hc

/-- The errors of a fold with an invariant. -/
theorem Raises.foldlM {g : β → α → Except ε β} {E : ε → Prop} (I : β → Prop)
    (hkeep : ∀ b a, I b → Ensures (g b a) I) (hstep : ∀ b a, I b → Raises (g b a) E) :
    ∀ {as : List α} {b : β}, I b → Raises (as.foldlM g b) E
  | [], _, _ => ok
  | a :: _, b, hb => (hstep b a hb).bind fun c hc => foldlM I hkeep hstep (hkeep b a hb c hc)

end Xv6Net.Lib
