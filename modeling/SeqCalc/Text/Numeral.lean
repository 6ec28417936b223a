/-!
# Numerals

Written forms of whole numbers: decimal digits for naturals and integers, padded hexadecimal
digits, and the readers that go with them.

Main results:

- `readNat?_ofNat`: a written natural reads back.
-/

namespace SeqCalc
namespace Numeral

/-! ## Writing -/

/-- Decimal digits of a natural number, without leading zeros. -/
def ofNat (n : Nat) : List Char :=
  Nat.toDigits 10 n

/-- Decimal digits of an integer, after a minus sign when it is negative. -/
def ofInt : Int → List Char
  | .ofNat n => ofNat n
  | .negSucc n => '-' :: ofNat (n + 1)

/-- Lower-case hexadecimal digits, padded with zeros up to `width`. -/
def hex (width n : Nat) : List Char :=
  let digits := Nat.toDigits 16 n
  List.replicate (width - digits.length) '0' ++ digits

/-- The text of an integer. -/
def text (i : Int) : String :=
  String.ofList (ofInt i)

/-! ## Reading -/

/-- A non-empty run of decimal digits; leading zeros are allowed. -/
def readNat? (digits : List Char) : Option Nat :=
  if digits ≠ [] ∧ digits.all Char.isDigit then some (Nat.ofDigitChars 10 digits 0) else none

/-- An integer: digits after an optional minus sign. -/
def readInt? : List Char → Option Int
  | '-' :: digits => (readNat? digits).map fun n => -(n : Int)
  | digits => (readNat? digits).map Int.ofNat

/-- A count as command lines write it: digits after an optional plus sign, below `2 ^ 64`. -/
def readCount? (word : List Char) : Option Nat :=
  let digits := match word with
    | '+' :: rest => rest
    | _ => word
  (readNat? digits).filter (· < UInt64.size)

/-- Value of one hexadecimal digit, in either case. -/
def hexDigit? (c : Char) : Option Nat :=
  if c.isDigit then some (c.toNat - '0'.toNat)
  else if 'a' ≤ c ∧ c ≤ 'f' then some (c.toNat - 'a'.toNat + 10)
  else if 'A' ≤ c ∧ c ≤ 'F' then some (c.toNat - 'A'.toNat + 10)
  else none

/-- The number written by a run of hexadecimal digits. -/
def readHex? (digits : List Char) : Option Nat :=
  digits.foldlM (fun acc c => (hexDigit? c).map (16 * acc + ·)) 0

/-! ## Reading back -/

theorem ofNat_ne_nil (n : Nat) : ofNat n ≠ [] := by
  simp [ofNat]

theorem isDigit_of_mem_ofNat {n : Nat} {c : Char} (h : c ∈ ofNat n) : c.isDigit = true :=
  Nat.isDigit_of_mem_toDigits (by decide) (by decide) h

theorem readNat?_ofNat (n : Nat) : readNat? (ofNat n) = some n := by
  have hall : (ofNat n).all Char.isDigit = true :=
    List.all_eq_true.2 fun c hc => isDigit_of_mem_ofNat hc
  simp only [readNat?, hall, ofNat_ne_nil, ne_eq, not_false_eq_true, and_self, if_true]
  exact congrArg some (Nat.ofDigitChars_toDigits (by decide) (by decide))

end Numeral
end SeqCalc
