/-!
# Shortest decimals

A positive float stands for every real that rounds to it.  This module chooses, among the
decimals in that window, one with the fewest digits, and of those the one nearest to the float.
All arithmetic is exact arithmetic on natural numbers.

Main results:

- `Window.contains_of_nearest?`: a chosen decimal lies in the window.
- `Decimal.ofWindow_contains`: so does the decimal that the search ends with, if it ends.
-/

namespace SeqCalc

/-! ## Rounding windows -/

/--
The reals that round to one positive float, over a common denominator: `value / den` is the float,
`low / den` and `high / den` are half way to its neighbours, and `closed` tells whether the two
ends round to it as well.
-/
structure Window where
  low : Nat
  value : Nat
  high : Nat
  den : Nat
  closed : Bool
deriving Repr, DecidableEq

namespace Window

/-- Write the window in units of `10 ^ exponent`. -/
def scale (w : Window) (exponent : Int) : Window :=
  if exponent < 0 then
    let factor := Nat.pow 10 (-exponent).toNat
    { w with low := w.low * factor, value := w.value * factor, high := w.high * factor }
  else
    { w with den := w.den * Nat.pow 10 exponent.toNat }

/-- Whether the whole number `c` lies in the window. -/
def contains (w : Window) (c : Nat) : Bool :=
  if w.closed then decide (w.low ≤ c * w.den ∧ c * w.den ≤ w.high)
  else decide (w.low < c * w.den ∧ c * w.den < w.high)

/--
The whole number of the window that is nearest to the float: only the two neighbours of the float
can be, and half way between them the upper one is taken.
-/
def nearest? (w : Window) : Option Nat :=
  let c := w.value / w.den
  match w.contains c, w.contains (c + 1) with
  | true, true => some (if 2 * (w.value % w.den) < w.den then c else c + 1)
  | true, false => some c
  | false, true => some (c + 1)
  | false, false => none

theorem contains_of_nearest? {w : Window} {c : Nat} (h : w.nearest? = some c) :
    w.contains c = true := by
  unfold nearest? at h
  dsimp only at h
  split at h <;> simp only [Option.some.injEq, reduceCtorEq] at h <;> subst h
  · split <;> assumption
  · assumption
  · assumption

/--
Number of decimal digits before the point: the `k` with `10 ^ (k - 1) ≤ value / den < 10 ^ k`.
Digits are counted after a shift by 400 places, which is more than the 323 zeros that a
double-precision number can have behind the point.
-/
def magnitude (w : Window) : Int :=
  ((Nat.toDigits 10 (w.value * Nat.pow 10 400 / w.den)).length : Int) - 400

end Window

/-! ## The search -/

/-- The decimal `coefficient * 10 ^ exponent`. -/
structure Decimal where
  coefficient : Nat
  exponent : Int
deriving Repr, DecidableEq

namespace Decimal

/-- The nearest decimal of the window with `digits` digits. -/
def ofWindow? (w : Window) (digits : Nat) : Option Decimal :=
  let exponent := w.magnitude - digits
  (w.scale exponent).nearest?.map fun c => ⟨c, exponent⟩

/-- The first hit among one to seventeen digits; seventeen always suffice for a double. -/
def ofWindow (w : Window) : Decimal :=
  ((List.range 17).findSome? fun i => ofWindow? w (i + 1)).getD ⟨0, 0⟩

theorem ofWindow?_contains {w : Window} {n : Nat} {d : Decimal} (h : ofWindow? w n = some d) :
    (w.scale d.exponent).contains d.coefficient = true := by
  obtain ⟨c, hc, rfl⟩ := Option.map_eq_some_iff.1 h
  exact Window.contains_of_nearest? hc

theorem ofWindow_contains {w : Window} (h : ofWindow w ≠ ⟨0, 0⟩) :
    (w.scale (ofWindow w).exponent).contains (ofWindow w).coefficient = true := by
  cases hf : (List.range 17).findSome? fun i => ofWindow? w (i + 1) with
  | none => simp [ofWindow, hf] at h
  | some d =>
    obtain ⟨i, -, hi⟩ := List.exists_of_findSome?_eq_some hf
    have hd : ofWindow w = d := by simp [ofWindow, hf]
    rw [hd]
    exact ofWindow?_contains hi

/-- Significant digits: the coefficient's, without trailing zeros. -/
def digits (d : Decimal) : List Char :=
  ((Nat.toDigits 10 d.coefficient).reverse.dropWhile (· == '0')).reverse

/-- Position of the point: the decimal is `0.digits * 10 ^ point`. -/
def point (d : Decimal) : Int :=
  d.exponent + (Nat.toDigits 10 d.coefficient).length

end Decimal

end SeqCalc
