import Mathlib.Algebra.Order.Floor.Ring
import Mathlib.Algebra.Ring.Parity
import Mathlib.Data.Nat.Size
import Mathlib.Data.Rat.Floor
import Mathlib.Tactic.Linarith
import SeqCalc.Proofs.Value.Word
import SeqCalc.Value.Arith

/-!
# Integer powers

A power is computed by squaring, in a loop over the binary digits of the exponent.  Products wrap
around, which they may do at every step, since congruence modulo `2 ^ 64` is all that they have to
keep.  A negative exponent asks for the inverse of a power, and truncated toward zero that is a
matter of the base and the parity of the exponent, for no power of a larger base divides one.

Main results:

- `Squaring.computes_round`: a round of the loop keeps the power that is left to be computed.
- `Squaring.finishes`: the loop ends, after one round for each binary digit of the exponent.
- `Arith.intPow_exact`: powers of all bases and exponents.
-/

namespace SeqCalc

/-! ## The loop -/

/-- The variables of the loop: what has been multiplied so far, and the power that is left. -/
structure Squaring where
  result : Int64
  base : Int64
  exp : Nat
deriving DecidableEq, Repr

namespace Squaring

/-- One round: a digit of the exponent is used up, and the base is squared if there are more. -/
def round (s : Squaring) : Squaring where
  result := if s.exp % 2 = 1 then s.result * s.base else s.result
  base := if 0 < s.exp / 2 then s.base * s.base else s.base
  exp := s.exp / 2

/-- The number that the loop is on its way to, up to a multiple of `2 ^ 64`. -/
def Computes (s : Squaring) (n : ℤ) : Prop :=
  s.result.toInt * s.base.toInt ^ s.exp ≡ n [ZMOD 2 ^ 64]

/-- A round splits a power in two: the last digit of the exponent, and the other ones. -/
theorem computes_round {s : Squaring} {n : ℤ} (h : s.Computes n) : s.round.Computes n := by
  have hresult : s.round.result.toInt ≡ s.result.toInt * s.base.toInt ^ (s.exp % 2)
      [ZMOD 2 ^ 64] := by
    rcases Nat.mod_two_eq_zero_or_one s.exp with hlast | hlast
    · simp [Squaring.round, hlast]
    · simpa [Squaring.round, hlast] using Word.toInt_mul_modEq s.result s.base
  have hbase : s.round.base.toInt ^ (s.exp / 2) ≡ (s.base.toInt * s.base.toInt) ^ (s.exp / 2)
      [ZMOD 2 ^ 64] := by
    rcases Nat.eq_zero_or_pos (s.exp / 2) with hlast | hmore
    · rw [hlast, pow_zero, pow_zero]
    · simpa [Squaring.round, hmore] using (Word.toInt_mul_modEq s.base s.base).pow (s.exp / 2)
  calc
    s.round.result.toInt * s.round.base.toInt ^ (s.exp / 2)
        ≡ s.result.toInt * s.base.toInt ^ (s.exp % 2) *
            (s.base.toInt * s.base.toInt) ^ (s.exp / 2) [ZMOD 2 ^ 64] := hresult.mul hbase
    _ = s.result.toInt * s.base.toInt ^ s.exp := by
      rw [← pow_two, ← pow_mul, mul_assoc, ← pow_add, Nat.mod_add_div]
    _ ≡ n [ZMOD 2 ^ 64] := h

theorem computes_iterate {s : Squaring} {n : ℤ} (h : s.Computes n) (k : Nat) :
    (round^[k] s).Computes n := by
  induction k generalizing s with
  | zero => exact h
  | succ k ih =>
    rw [Function.iterate_succ_apply]
    exact ih (computes_round h)

theorem exp_iterate (s : Squaring) (k : Nat) : (round^[k] s).exp = s.exp / 2 ^ k := by
  induction k generalizing s with
  | zero => simp
  | succ k ih =>
    rw [Function.iterate_succ_apply, ih, round, Nat.div_div_eq_div_mul, pow_succ']

/-- The loop goes on while the exponent is positive; it ends in that state, after `k` rounds. -/
structure Finishes (s : Squaring) (k : Nat) (t : Squaring) : Prop where
  iterate_eq : round^[k] s = t
  exp_eq : t.exp = 0
  exp_pos : ∀ j < k, 0 < (round^[j] s).exp

/-- The loop ends, after one round for each binary digit of the exponent. -/
theorem finishes (s : Squaring) : s.Finishes s.exp.size (round^[s.exp.size] s) := by
  refine ⟨rfl, ?_, ?_⟩
  · rw [exp_iterate]
    exact Nat.div_eq_of_lt (Nat.lt_size_self s.exp)
  · intro j hj
    rw [exp_iterate]
    exact Nat.div_pos (Nat.lt_size.1 hj) (by positivity)

/-- In the end no power is left. -/
theorem Finishes.modEq {s t : Squaring} {k : Nat} {n : ℤ} (h : s.Finishes k t)
    (hn : s.Computes n) : t.result.toInt ≡ n [ZMOD 2 ^ 64] := by
  have ht := computes_iterate hn k
  rw [h.iterate_eq, Computes, h.exp_eq, pow_zero, mul_one] at ht
  exact ht

theorem size_eq_size_half {n : Nat} (h : n ≠ 0) : n.size = (n / 2).size + 1 := by
  apply eq_of_forall_lt_iff
  intro m
  cases m with
  | zero =>
    have hpos : 0 < n.size := Nat.size_pos.2 (Nat.pos_of_ne_zero h)
    omega
  | succ m =>
    rw [Nat.succ_lt_succ_iff, Nat.lt_size, Nat.lt_size, pow_succ,
      Nat.le_div_iff_mul_le Nat.two_pos]

/-- Squaring by recursion ends with what the loop ends with. -/
theorem powBySquaring_eq (result base : Int64) (exp : Nat) :
    Arith.powBySquaring result base exp = (round^[exp.size] ⟨result, base, exp⟩).result := by
  induction exp using Nat.strong_induction_on generalizing result base with
  | h exp ih =>
    rw [Arith.powBySquaring]
    by_cases hexp : exp = 0
    · simp [hexp]
    · rw [dif_neg hexp, size_eq_size_half hexp, Function.iterate_succ_apply]
      by_cases hmore : 0 < exp / 2
      · rw [ih (exp / 2) (by omega)]
        simp [round, hmore]
      · have hlast : exp / 2 = 0 := by omega
        rw [hlast, Arith.powBySquaring]
        simp [round, hlast]

end Squaring

/-! ## Inverses -/

/-- A rational number without its fraction. -/
def towardZero (q : ℚ) : ℤ :=
  if 0 ≤ q then ⌊q⌋ else ⌈q⌉

@[simp]
theorem towardZero_intCast (n : ℤ) : towardZero n = n := by
  unfold towardZero
  split <;> simp

/-- The inverse of a number larger than one is a mere fraction. -/
theorem towardZero_inverse {n : ℤ} (h : 1 < |n|) : towardZero (1 / n) = 0 := by
  rcases lt_abs.1 h with hpos | hneg
  · have hn : (1 : ℚ) < n := by exact_mod_cast hpos
    have hle : 0 ≤ 1 / (n : ℚ) := by positivity
    rw [towardZero, if_pos hle, Int.floor_eq_zero_iff]
    exact ⟨hle, (div_lt_one (by linarith)).2 hn⟩
  · have hn : (n : ℚ) < -1 := by exact_mod_cast (by omega : n < -1)
    have hlt : 1 / (n : ℚ) < 0 := one_div_neg.2 (by linarith)
    rw [towardZero, if_neg (not_le.2 hlt), Int.ceil_eq_zero_iff]
    refine ⟨?_, hlt.le⟩
    rw [lt_div_iff_of_neg (by linarith)]
    linarith

namespace Arith

/-- A power of a base other than zero, one and minus one has no inverse but fractions. -/
theorem towardZero_inverse_pow {base : ℤ} (h : 1 < |base|) {n : Nat} (hn : n ≠ 0) :
    towardZero (1 / (base : ℚ) ^ n) = 0 := by
  have hpow : 1 < |base ^ n| := by
    rw [abs_pow]
    exact one_lt_pow₀ h hn
  simpa using towardZero_inverse hpow

/-- Powers of minus one are their own inverses, and tell the parity of the exponent. -/
theorem towardZero_inverse_neg_one (exp : ℤ) :
    towardZero (1 / (-1 : ℚ) ^ exp.natAbs) = if exp % 2 = 0 then 1 else -1 := by
  by_cases hpar : exp % 2 = 0
  · have heven : Even exp.natAbs := Int.natAbs_even.2 (Int.even_iff.2 hpar)
    rw [heven.neg_one_pow, if_pos hpar]
    simpa using towardZero_intCast 1
  · have hodd : Odd exp.natAbs := Int.natAbs_odd.2 (Int.not_even_iff_odd.1 (mt Int.even_iff.1 hpar))
    rw [hodd.neg_one_pow, if_neg hpar]
    simpa using towardZero_intCast (-1)

/-! ## Powers -/

/-- The loop for a power. -/
def squaring (base exp : Int64) : Squaring :=
  ⟨1, base, exp.toInt.toNat⟩

theorem computes_squaring (base exp : Int64) :
    (squaring base exp).Computes (base.toInt ^ exp.toInt.toNat) := by
  simp [squaring, Squaring.Computes]

/-- An exponent that is not negative: what the loop ends with. -/
theorem intPow_of_nonneg (base : Int64) {exp : Int64} (h : 0 ≤ exp) :
    ∃ rounds ≤ 63, ∃ last, (squaring base exp).Finishes rounds last ∧
      intPow base exp = .ok last.result := by
  refine ⟨_, ?_, _, (squaring base exp).finishes, ?_⟩
  · have hexp := exp.toInt_lt
    rw [Nat.size_le]
    simp only [squaring]
    omega
  · rw [intPow, if_neg (Int64.not_lt.2 h), Squaring.powBySquaring_eq]
    rfl

theorem exists_intPow_eq_ok (base : Int64) {exp : Int64} (h : 0 ≤ exp) :
    ∃ r, intPow base exp = .ok r ∧ r.toInt ≡ base.toInt ^ exp.toInt.toNat [ZMOD 2 ^ 64] := by
  rcases intPow_of_nonneg base h with ⟨rounds, -, last, hfinishes, hpow⟩
  exact ⟨last.result, hpow, hfinishes.modEq (computes_squaring base exp)⟩

/-- A negative exponent: the inverse of the power, without its fraction. -/
theorem intPow_of_neg {base exp : Int64} (h : exp < 0) (hbase : base ≠ 0) :
    ∃ r, intPow base exp = .ok r ∧
      r.toInt = towardZero (1 / (base.toInt : ℚ) ^ exp.toInt.natAbs) := by
  have hexp : exp.toInt.natAbs ≠ 0 := by
    have hneg := Int64.lt_iff_toInt_lt.1 h
    rw [Int64.toInt_zero] at hneg
    omega
  by_cases hone : base = 1
  · subst hone
    refine ⟨1, by rw [intPow, if_pos h, if_neg hbase, if_pos rfl], ?_⟩
    simpa [Int64.toInt_one] using (towardZero_intCast 1).symm
  by_cases hminus : base = -1
  · subst hminus
    refine ⟨if exp.toInt % 2 = 0 then 1 else -1, ?_, ?_⟩
    · rw [intPow, if_pos h, if_neg hbase, if_neg hone, if_pos rfl]
    · rw [Word.toInt_neg_one, Int.cast_neg, Int.cast_one, towardZero_inverse_neg_one]
      split <;> rfl
  · refine ⟨0, by rw [intPow, if_pos h, if_neg hbase, if_neg hone, if_neg hminus], ?_⟩
    rw [towardZero_inverse_pow (Word.one_lt_abs_toInt hbase hone hminus) hexp]
    rfl

theorem intPow_eq_divisionByZero_iff {base exp : Int64} (h : exp < 0) :
    intPow base exp = .error .divisionByZero ↔ base = 0 := by
  constructor
  · intro herror
    by_contra hbase
    rcases intPow_of_neg h hbase with ⟨r, hr, -⟩
    rw [hr] at herror
    contradiction
  · rintro rfl
    rw [intPow, if_pos h, if_pos rfl]

/-- The power of a sum is the product of the powers. -/
theorem intPow_add (base : Int64) {m n : Int64} (hm : 0 ≤ m) (hn : 0 ≤ n)
    (hsum : m.toInt + n.toInt < 2 ^ 63) :
    ∃ x y, intPow base m = .ok x ∧ intPow base n = .ok y ∧
      intPow base (m + n) = intOp .mul x y := by
  have hm' := Int64.le_iff_toInt_le.1 hm
  have hn' := Int64.le_iff_toInt_le.1 hn
  rw [Int64.toInt_zero] at hm' hn'
  have hadd : (m + n).toInt = m.toInt + n.toInt :=
    Word.toInt_add_of_bounds (by omega) hsum
  have hnonneg : 0 ≤ m + n := by
    rw [Int64.le_iff_toInt_le, Int64.toInt_zero, hadd]
    omega
  rcases exists_intPow_eq_ok base hm with ⟨x, hx, hxmod⟩
  rcases exists_intPow_eq_ok base hn with ⟨y, hy, hymod⟩
  rcases exists_intPow_eq_ok base hnonneg with ⟨z, hz, hzmod⟩
  refine ⟨x, y, hx, hy, ?_⟩
  rw [hadd, Int.toNat_add hm' hn', pow_add] at hzmod
  have hsame : z = x * y := Word.eq_of_modEq
    (hzmod.trans ((hxmod.mul hymod).symm.trans (Word.toInt_mul_modEq x y).symm))
  rw [hz, hsame, intOp]

/--
Integer powers are exact.  For an exponent that is not negative the loop ends, within 63 rounds, and
its result is the one word that is congruent to the power of the integers.  For a negative exponent
zero is the only base that has no inverse, and for all other bases the result is the inverse of the
unbounded power, truncated toward zero.  It follows that exponents add up, as long as their sum is a
word.
-/
theorem intPow_exact (base exp : Int64) :
    (0 ≤ exp →
      ∃ rounds ≤ 63, ∃ last, (squaring base exp).Finishes rounds last ∧
        intPow base exp = .ok last.result ∧
        last.result.toInt ≡ base.toInt ^ exp.toInt.toNat [ZMOD 2 ^ 64] ∧
        ∀ r : Int64, r.toInt ≡ base.toInt ^ exp.toInt.toNat [ZMOD 2 ^ 64] → r = last.result) ∧
    (exp < 0 →
      (intPow base exp = .error .divisionByZero ↔ base = 0) ∧
      (base ≠ 0 → ∃ r, intPow base exp = .ok r ∧
        r.toInt = towardZero (1 / (base.toInt : ℚ) ^ exp.toInt.natAbs))) ∧
    ∀ m n : Int64, 0 ≤ m → 0 ≤ n → m.toInt + n.toInt < 2 ^ 63 →
      ∃ x y, intPow base m = .ok x ∧ intPow base n = .ok y ∧
        intPow base (m + n) = intOp .mul x y := by
  refine ⟨?_, ?_, fun m n => intPow_add base⟩
  · intro h
    rcases intPow_of_nonneg base h with ⟨rounds, hrounds, last, hfinishes, hpow⟩
    have hmod := hfinishes.modEq (computes_squaring base exp)
    exact ⟨rounds, hrounds, last, hfinishes, hpow, hmod,
      fun r hr => Word.eq_of_modEq (hr.trans hmod.symm)⟩
  · intro h
    exact ⟨intPow_eq_divisionByZero_iff h, intPow_of_neg h⟩

/-- A power that wraps around, as one power and as a product of two, and an inverse. -/
theorem intPow_exact_three :
    (0 : Int64) ≤ 41 ∧ (-2 : Int64) < 0 ∧ (3 : Int64) ≠ 0 ∧
      (∃ r, intPow 3 41 = .ok r ∧ r.toInt ≡ 3 ^ 41 [ZMOD 2 ^ 64]) ∧
      (∃ r, intPow 3 (-2) = .ok r ∧ r.toInt = towardZero (1 / 3 ^ 2)) ∧
      ∃ x y, intPow 3 40 = .ok x ∧ intPow 3 1 = .ok y ∧ intPow 3 41 = intOp .mul x y := by
  have hpos : (0 : Int64) ≤ 41 := by decide
  have hneg : (-2 : Int64) < 0 := by decide
  have hbase : (3 : Int64) ≠ 0 := by decide
  rcases (intPow_exact 3 41).1 hpos with ⟨rounds, -, last, -, hpow, hmod, -⟩
  rcases ((intPow_exact 3 (-2)).2.1 hneg).2 hbase with ⟨r, hr, hinverse⟩
  have hadd := (intPow_exact 3 0).2.2 40 1 (by decide) (by decide) (by decide)
  exact ⟨hpos, hneg, hbase, ⟨last.result, hpow, hmod⟩, ⟨r, hr, hinverse⟩, hadd⟩

/-- Powers that wrap around, and inverses up to the least exponent. -/
example : intPow 3 41 = .ok (-420491770248316829) ∧ intPow 0 0 = .ok 1 ∧
    intPow (-1) Int64.minValue = .ok 1 ∧ intPow 2 Int64.minValue = .ok 0 ∧
    intPow 0 (-1) = .error .divisionByZero := by
  decide +kernel

end Arith
end SeqCalc
