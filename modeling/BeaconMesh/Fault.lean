/-!
# Faults

A computation without a result: its arithmetic is undefined for its arguments, or it would not
end. Everything else that can go wrong is an ordinary answer.
-/

namespace BeaconMesh

/-- Why a computation has no result. -/
inductive Fault where
  | divisionByZero
  | negativeDifference
  | endless
  deriving DecidableEq, Repr

namespace Fault

def message : Fault → String
  | divisionByZero => "attempt to divide by zero"
  | negativeDifference => "attempt to subtract with overflow"
  | endless => "the queue never drains"

/-- The quotient of natural numbers, which only a divisor above zero has. -/
def quotient (a b : Nat) : Except Fault Nat :=
  if b = 0 then .error divisionByZero else .ok (a / b)

/-- The difference of natural numbers, which only a subtrahend no larger has. -/
def difference (a b : Nat) : Except Fault Nat :=
  if a < b then .error negativeDifference else .ok (a - b)

theorem quotient_eq {a b : Nat} (h : 0 < b) : quotient a b = .ok (a / b) := by
  rw [quotient, if_neg (Nat.ne_of_gt h)]

theorem difference_eq {a b : Nat} (h : b ≤ a) : difference a b = .ok (a - b) := by
  rw [difference, if_neg (Nat.not_lt.mpr h)]

variable {α β : Type}

theorem bind_ok {ε : Type} {x : Except ε α} {f : α → Except ε β} {b : β} (h : x >>= f = .ok b) :
    ∃ a, x = .ok a ∧ f a = .ok b := by
  cases x with
  | error cause => cases h
  | ok a => exact ⟨a, rfl, h⟩

theorem bind_error {x : Except Fault α} {f : α → Except Fault β} {cause : Fault}
    (h : x >>= f = .error cause) :
    x = .error cause ∨ ∃ a, x = .ok a ∧ f a = .error cause := by
  cases x with
  | error other =>
    cases h
    exact .inl rfl
  | ok a => exact .inr ⟨a, rfl, h⟩

theorem pure_ok {a b : α} (h : (pure a : Except Fault α) = .ok b) : a = b := Except.ok.inj h

/-- What every step of a loop keeps holds at its end. -/
theorem foldlM_ok {P : β → Prop} {f : β → α → Except Fault β} {as : List α} {b b' : β}
    (keeps : ∀ {b a b'}, f b a = .ok b' → P b → P b') (h : as.foldlM f b = .ok b')
    (holds : P b) : P b' := by
  induction as generalizing b with
  | nil =>
    rw [List.foldlM_nil] at h
    rw [← pure_ok h]
    exact holds
  | cons a as ih =>
    rw [List.foldlM_cons] at h
    obtain ⟨next, first, h⟩ := bind_ok h
    exact ih h (keeps first holds)

end Fault

end BeaconMesh
