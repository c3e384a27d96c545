import Mathlib.Logic.Basic

/-!
# Computations that keep a log

What a function uses on its way, such as the indices of a table or the calls that it makes, is logged beside its result.
-/

namespace Xv6Net.Lib

@[ext]
structure Logged (ι α : Type) where
  log : List ι
  val : α

namespace Logged

variable {ι α β : Type} {P : ι → Prop}

instance : Monad (Logged ι) where
  pure a := ⟨[], a⟩
  bind x f := ⟨x.log ++ (f x.val).log, (f x.val).val⟩

/-- The result `a`, for which `i` is used. -/
def use (i : ι) (a : α) : Logged ι α := ⟨[i], a⟩

/-- `f` goes on with the result of `x`, unless that is an error. -/
def andThen {ε : Type} (x : Logged ι (Except ε α)) (f : α → Logged ι (Except ε β)) : Logged ι (Except ε β) :=
  match x.val with
  | .error e => ⟨x.log, .error e⟩
  | .ok a => ⟨x.log ++ (f a).log, (f a).val⟩

theorem andThen_ok {ε : Type} {x : Logged ι (Except ε α)} {a : α} (h : x.val = .ok a)
    (f : α → Logged ι (Except ε β)) : x.andThen f = ⟨x.log ++ (f a).log, (f a).val⟩ := by
  simp [andThen, h]

theorem andThen_error {ε : Type} {x : Logged ι (Except ε α)} {e : ε} (h : x.val = .error e)
    (f : α → Logged ι (Except ε β)) : x.andThen f = ⟨x.log, .error e⟩ := by
  simp [andThen, h]

theorem val_andThen {ε : Type} (x : Logged ι (Except ε α)) (f : α → Logged ι (Except ε β)) :
    (x.andThen f).val = x.val.bind fun a => (f a).val := by
  cases h : x.val with
  | error e => rw [andThen_error h]; rfl
  | ok a => rw [andThen_ok h]; rfl

@[simp] theorem log_pure (a : α) : (pure a : Logged ι α).log = [] := rfl

@[simp] theorem val_pure (a : α) : (pure a : Logged ι α).val = a := rfl

@[simp] theorem log_bind (x : Logged ι α) (f : α → Logged ι β) : (x >>= f).log = x.log ++ (f x.val).log := rfl

@[simp] theorem val_bind (x : Logged ι α) (f : α → Logged ι β) : (x >>= f).val = (f x.val).val := rfl

@[simp] theorem log_use (i : ι) (a : α) : (use i a).log = [i] := rfl

@[simp] theorem val_use (i : ι) (a : α) : (use i a).val = a := rfl

/-- Puts the value of `use` into the rest in one step, with the instances of its conditions. -/
theorem val_use_bind (i : ι) (a : α) (f : α → Logged ι β) : (use i a >>= f).val = (f a).val := rfl

theorem val_ite (c : Prop) [Decidable c] (x y : Logged ι α) : (if c then x else y).val = if c then x.val else y.val := by
  split <;> rfl

/-- All that is used satisfies `P`. -/
def All (P : ι → Prop) (x : Logged ι α) : Prop := ∀ i ∈ x.log, P i

@[simp] theorem all_pure (a : α) : All P (pure a) := fun _ h => nomatch h

@[simp] theorem all_use (i : ι) (a : α) : All P (use i a) ↔ P i := by simp [All]

@[simp] theorem all_bind (x : Logged ι α) (f : α → Logged ι β) : All P (x >>= f) ↔ All P x ∧ All P (f x.val) := by
  simp only [All, log_bind, List.mem_append, or_imp, forall_and]

theorem all_use_bind (i : ι) (a : α) (f : α → Logged ι β) : All P (use i a >>= f) ↔ P i ∧ All P (f a) := by
  simp

theorem all_ite (c : Prop) [Decidable c] (x y : Logged ι α) :
    All P (if c then x else y) ↔ (c → All P x) ∧ (¬ c → All P y) := by
  split <;> simp [*]

end Logged

end Xv6Net.Lib
