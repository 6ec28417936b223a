import SeqCalc.Text.Numeral
import SeqCalc.Decimal.Shortest
import SeqCalc.Value.Binary64

/-!
# The text of a float

Floats are written with the fewest digits that read back.  Zero and magnitudes from `10 ^ -4` up
to, but not including, `10 ^ 16` are written positionally with at least one digit after the point;
all others in scientific form.
-/

namespace SeqCalc
namespace FloatText

/-! ## Fields of a double -/

/-- The three fields of a double-precision bit pattern. -/
structure Fields where
  negative : Bool
  exponent : Nat
  fraction : Nat
deriving Repr, DecidableEq

/-- One sign bit, eleven exponent bits, fifty-two fraction bits. -/
def Fields.ofBits (bits : UInt64) : Fields where
  negative := decide (Nat.pow 2 63 ≤ bits.toNat)
  exponent := bits.toNat / Nat.pow 2 52 % Nat.pow 2 11
  fraction := bits.toNat % Nat.pow 2 52

/--
The reals that round to the magnitude of a finite nonzero double.  Quarters of the last place are
the unit, because the gap below a power of two is half the gap above it.
-/
def Fields.window (f : Fields) : Window :=
  let mantissa := if f.exponent = 0 then f.fraction else Nat.pow 2 52 + f.fraction
  let below := if f.fraction = 0 ∧ 1 < f.exponent then 1 else 2
  -- the unit is `2 ^ (up - down)`
  let place := max f.exponent 1
  let up := place - 1077
  let down := 1077 - place
  { low := (4 * mantissa - below) * Nat.pow 2 up
    value := 4 * mantissa * Nat.pow 2 up
    high := (4 * mantissa + 2) * Nat.pow 2 up
    den := Nat.pow 2 down
    closed := mantissa % 2 == 0 }

/-! ## Layout -/

/-- Positional form of `0.digits * 10 ^ point`. -/
def positional (digits : List Char) (point : Int) : List Char :=
  if point ≤ 0 then
    '0' :: '.' :: List.replicate (-point).toNat '0' ++ digits
  else
    let whole := point.toNat
    let front := digits.take whole ++ List.replicate (whole - digits.length) '0'
    let back := digits.drop whole
    front ++ '.' :: (if back = [] then ['0'] else back)

/-- Scientific form of `0.digits * 10 ^ point`: no sign on a positive exponent, no lone point. -/
def scientific (digits : List Char) (point : Int) : List Char :=
  let mantissa := match digits with
    | [] => []
    | [d] => [d]
    | d :: ds => d :: '.' :: ds
  mantissa ++ 'e' :: Numeral.ofInt (point - 1)

/-- Positional from `10 ^ -4` up to, but not including, `10 ^ 16`; scientific elsewhere. -/
def layout (digits : List Char) (point : Int) : List Char :=
  if -3 ≤ point ∧ point ≤ 16 then positional digits point else scientific digits point

/-- Text of a double given by its fields. -/
def Fields.text (f : Fields) : List Char :=
  let sign := if f.negative then ['-'] else []
  if f.exponent = 2047 then
    if f.fraction = 0 then sign ++ ['i', 'n', 'f'] else ['N', 'a', 'N']
  else if f.exponent = 0 ∧ f.fraction = 0 then
    sign ++ ['0', '.', '0']
  else
    let d := Decimal.ofWindow f.window
    sign ++ layout d.digits d.point

/-- The text of a float. -/
def ofFloat (x : Binary64) : List Char :=
  (Fields.ofBits x.bits).text

end FloatText

/-- The text of a float, as a string. -/
def floatText (x : Binary64) : String :=
  String.ofList (FloatText.ofFloat x)

end SeqCalc
