import SeqCalc.Program.Operator
import SeqCalc.Value.Fault

/-!
# Arithmetic

Integers are 64-bit words and wrap around; dividing them by zero is the only fault.  Floats never
fail.

Main results:

- `Arith.intDiv_eq_error_iff`: division fails exactly for the divisor zero.
-/

namespace SeqCalc
namespace Arith

/-! ## Integers -/

/-- Division truncates toward zero; the least integer divided by minus one wraps to itself. -/
def intDiv (a b : Int64) : Except Fault Int64 :=
  if b = 0 then .error .divisionByZero else .ok (a / b)

/-- `acc * base ^ exp` by squaring, wrapping around. -/
def powBySquaring (acc base : Int64) (exp : Nat) : Int64 :=
  if h : exp = 0 then acc
  else powBySquaring (if exp % 2 = 1 then acc * base else acc) (base * base) (exp / 2)
termination_by exp
decreasing_by omega

/--
Integer power, wrapping around.  A negative exponent gives the inverse of the power truncated
toward zero, which only the bases one and minus one have other than zero.
-/
def intPow (base exp : Int64) : Except Fault Int64 :=
  if exp < 0 then
    if base = 0 then .error .divisionByZero
    else if base = 1 then .ok 1
    else if base = -1 then .ok (if exp.toInt % 2 = 0 then 1 else -1)
    else .ok 0
  else
    .ok (powBySquaring 1 base exp.toInt.toNat)

@[simp]
theorem intDiv_eq_error_iff {a b : Int64} {e : Fault} :
    intDiv a b = .error e ↔ b = 0 ∧ e = .divisionByZero := by
  unfold intDiv
  split <;> simp_all [eq_comm]

/-! ## By operator -/

/-- A binary operator on integers. -/
def intOp : BinaryOp → Int64 → Int64 → Except Fault Int64
  | .add, a, b => .ok (a + b)
  | .sub, a, b => .ok (a - b)
  | .mul, a, b => .ok (a * b)
  | .div, a, b => intDiv a b
  | .pow, a, b => intPow a b

/-- A binary operator on floats. -/
def floatOp : BinaryOp → Binary64 → Binary64 → Binary64
  | .add, x, y => x + y
  | .sub, x, y => x - y
  | .mul, x, y => x * y
  | .div, x, y => x / y
  | .pow, x, y => x.pow y

end Arith
end SeqCalc
