import Mathlib.Algebra.Order.Group.Unbundled.Abs
import Mathlib.Data.Int.ModEq

/-!
# Words as integers

A 64-bit word stands for an integer, and its operations are those of the integers up to a multiple
of `2 ^ 64`.  They are exactly those of the integers where the result is in the range of a word.

Main results:

- `Word.eq_of_modEq`: congruent words are the same.
- `Word.toInt_add_of_bounds`, `Word.toInt_sub_of_bounds`: sums and differences that do not wrap
  around.
-/

namespace SeqCalc
namespace Word

/-! ## Congruence -/

/-- A product of words is the product of their integers, up to a multiple of `2 ^ 64`. -/
theorem toInt_mul_modEq (a b : Int64) : (a * b).toInt ≡ a.toInt * b.toInt [ZMOD 2 ^ 64] := by
  rw [Int64.toInt_mul]
  exact Int.bmod_emod

/-- Words whose integers are congruent are the same. -/
theorem eq_of_modEq {a b : Int64} (h : a.toInt ≡ b.toInt [ZMOD 2 ^ 64]) : a = b := by
  have hdvd := h.dvd
  have ha := a.le_toInt
  have ha' := a.toInt_lt
  have hb := b.le_toInt
  have hb' := b.toInt_lt
  apply Int64.toInt_inj.1
  omega

/-! ## Results in range -/

theorem toInt_add_of_bounds {a b : Int64} (hlow : -2 ^ 63 ≤ a.toInt + b.toInt)
    (hhigh : a.toInt + b.toInt < 2 ^ 63) : (a + b).toInt = a.toInt + b.toInt := by
  rw [Int64.toInt_add]
  exact Int.bmod_eq_of_le (by omega) (by omega)

theorem toInt_sub_of_bounds {a b : Int64} (hlow : -2 ^ 63 ≤ a.toInt - b.toInt)
    (hhigh : a.toInt - b.toInt < 2 ^ 63) : (a - b).toInt = a.toInt - b.toInt := by
  rw [Int64.toInt_sub]
  exact Int.bmod_eq_of_le (by omega) (by omega)

/-- A difference, unless it is out of range. -/
def checkedSub (a b : Int64) : Option Int64 :=
  if -2 ^ 63 ≤ a.toInt - b.toInt ∧ a.toInt - b.toInt < 2 ^ 63 then some (a - b) else none

/-! ## Zero, one and minus one -/

@[simp]
theorem toInt_neg_one : (-1 : Int64).toInt = -1 :=
  rfl

/-- All other words are larger than one, up to the sign. -/
theorem one_lt_abs_toInt {a : Int64} (hzero : a ≠ 0) (hone : a ≠ 1) (hminus : a ≠ -1) :
    1 < |a.toInt| := by
  have h0 := mt Int64.toInt_inj.1 hzero
  have h1 := mt Int64.toInt_inj.1 hone
  have h2 := mt Int64.toInt_inj.1 hminus
  rw [Int64.toInt_zero] at h0
  rw [Int64.toInt_one] at h1
  rw [toInt_neg_one] at h2
  rw [lt_abs]
  omega

end Word
end SeqCalc
