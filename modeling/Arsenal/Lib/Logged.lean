import Mathlib.Data.List.Basic

/-! Computations that may stop and that log what they do.  What was logged before a stop stays; a
computation that stopped logs nothing more. -/

namespace Arsenal.Lib

/-- A computation with its log: it ends with a value or stops for a reason. -/
structure Logged (ε σ α : Type) where
  log : List ε
  value : Except σ α

namespace Logged

variable {ε σ α β : Type}

def bind (x : Logged ε σ α) (f : α → Logged ε σ β) : Logged ε σ β :=
  match x.value with
  | .ok a => ⟨x.log ++ (f a).log, (f a).value⟩
  | .error e => ⟨x.log, .error e⟩

instance : Monad (Logged ε σ) where
  pure a := ⟨[], .ok a⟩
  bind := bind

def stop (e : σ) : Logged ε σ α := ⟨[], .error e⟩

/-- An assertion. -/
def require (p : Prop) [Decidable p] (e : σ) : Logged ε σ Unit := if p then pure () else stop e

variable {x : Logged ε σ α} {f : α → Logged ε σ β} {p : ε → Prop}

@[simp] theorem value_pure (a : α) : (pure a : Logged ε σ α).value = .ok a := rfl
@[simp] theorem log_stop (e : σ) : (stop e : Logged ε σ α).log = [] := rfl

@[simp] theorem ok_bind (a : α) (g : α → Except σ β) : (Except.ok a).bind g = g a := rfl

@[simp] theorem error_bind (e : σ) (g : α → Except σ β) : (Except.error e).bind g = .error e := rfl

@[simp] theorem value_bind : (x >>= f).value = x.value.bind fun a => (f a).value := by
  show (bind x f).value = _
  unfold bind
  cases x.value <;> rfl

@[simp] theorem value_require {q : Prop} [Decidable q] {e : σ} :
    (require q e : Logged ε σ Unit).value = if q then .ok () else .error e := by
  unfold require
  split <;> rfl

@[simp] theorem pure_bind (a : α) (f : α → Logged ε σ β) : pure a >>= f = f a := rfl

theorem bind_of_ok {a : α} (h : x.value = .ok a) :
    x >>= f = ⟨x.log ++ (f a).log, (f a).value⟩ := by
  show bind x f = _
  rw [bind, h]

theorem bind_of_error {e : σ} (h : x.value = .error e) : x >>= f = ⟨x.log, .error e⟩ := by
  show bind x f = _
  rw [bind, h]

theorem log_bind_of_silent (h : ∀ a, (f a).log = []) : (x >>= f).log = x.log := by
  show (bind x f).log = _
  unfold bind
  cases x.value with
  | ok a => simp [h]
  | error e => rfl

theorem require_bind {q : Prop} [Decidable q] {e : σ} (f : Unit → Logged ε σ β) :
    (require q e >>= f) = if q then f () else stop e := by
  unfold require
  split <;> rfl

/-- The log of a sequence: the second part runs only on a value of the first. -/
theorem forall_log_bind : (∀ e ∈ (x >>= f).log, p e) ↔
    (∀ e ∈ x.log, p e) ∧ ∀ a, x.value = .ok a → ∀ e ∈ (f a).log, p e := by
  show (∀ e ∈ (bind x f).log, p e) ↔ _
  unfold bind
  cases x.value with
  | ok a => simp [or_imp, forall_and]
  | error e => simp

theorem forall_log_require_bind {q : Prop} [Decidable q] {e : σ} {f : Unit → Logged ε σ β} :
    (∀ r ∈ (require q e >>= f).log, p r) ↔ (q → ∀ r ∈ (f ()).log, p r) := by
  rw [require_bind]
  split
  case isTrue h => simp [h]
  case isFalse h => simp [h]

end Logged

end Arsenal.Lib
