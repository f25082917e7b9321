/-!
# How a call ends

A Rust call returns a value, returns an error, or panics. `Except Panic α` is the
type of the calls that cannot return an error, `Outcome ε α` of those that can.
-/

namespace SimplyProxy

/-- The panics that the modelled code can run into. -/
inductive Panic
  /-- `Instant - Duration` out of range. -/
  | instantUnderflow
  /-- The assertion of `RateLimiter::new`. -/
  | maxRequestsZero
deriving DecidableEq, Repr

def Panic.message : Panic → String
  | .instantUnderflow => "overflow when subtracting duration from instant"
  | .maxRequestsZero => "max_requests must be > 0"

/-- `Result<α, ε>`, or a panic on the way. -/
inductive Outcome (ε α : Type)
  | ok (value : α)
  | err (error : ε)
  | panic (reason : Panic)
deriving DecidableEq, Repr

/-- A computation returns when its first part does and the rest does on its value. -/
theorem bind_eq_ok {ε α β : Type} {x : Except ε α} {f : α → Except ε β} {b : β} :
    x >>= f = .ok b ↔ ∃ a, x = .ok a ∧ f a = .ok b := by
  cases x <;> simp [bind, Except.bind]

theorem map_eq_ok {ε α β : Type} {x : Except ε α} {f : α → β} {b : β} :
    f <$> x = .ok b ↔ ∃ a, x = .ok a ∧ f a = b := by
  cases x <;> simp [Functor.map, Except.map]

@[simp] theorem pure_eq_ok {ε α : Type} {a b : α} : (pure a : Except ε α) = .ok b ↔ a = b := by
  simp [pure, Except.pure]

end SimplyProxy
