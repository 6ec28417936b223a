import SeqCalc.Text.Numeral

/-!
# Numerals read back

A written number has a digit in front, after a minus sign if it is negative, and reads back as that
number.  Different numbers are hence written differently.  Zeros may be put before a natural, and a
plus sign before a count; nothing else reads as that number.

Main results:

- `Numeral.eq_zero_of_head?_ofNat`: a written natural has no leading zero.
- `Numeral.readNat?_eq_some_iff`: which texts read as a natural.
- `Numeral.readCount?_eq_some_iff`: which texts read as a count.
- `Numeral.readInt?_ofInt`: a written integer reads back.
-/

namespace SeqCalc
namespace Numeral

/-! ## Naturals -/

/-- A natural is written with a digit in front. -/
theorem exists_ofNat_eq_cons (n : Nat) : ∃ c digits, ofNat n = c :: digits ∧ c.isDigit = true := by
  cases hn : ofNat n with
  | nil => exact absurd hn (ofNat_ne_nil n)
  | cons c digits =>
    exact ⟨c, digits, rfl, isDigit_of_mem_ofNat (n := n) (hn ▸ List.mem_cons_self)⟩

/-- Only zero is written with a zero in front. -/
theorem eq_zero_of_head?_ofNat {n : Nat} (h : (ofNat n).head? = some '0') : n = 0 := by
  induction n using Nat.strongRecOn with
  | ind n ih =>
    unfold ofNat at h ih
    by_cases hn : n < 10
    · rw [Nat.toDigits_of_lt_base hn, List.head?_cons, Option.some.injEq] at h
      exact Nat.digitChar_eq_zero.1 h
    · -- the digits begin with those of the tenth part, which is not zero
      rw [Nat.toDigits_of_base_le (by decide) (by omega), List.head?_append,
        List.head?_eq_some_head Nat.toDigits_ne_nil, Option.some_or,
        ← List.head?_eq_some_head] at h
      have := ih (n / 10) (by omega) h
      omega

theorem ofNat_inj {m n : Nat} (h : ofNat m = ofNat n) : m = n := by
  have hread := readNat?_ofNat m
  rw [h, readNat?_ofNat n] at hread
  exact (Option.some.inj hread).symm

/-! ## Naturals read -/

theorem digit_lt_ten {c : Char} (h : c.isDigit = true) : c.toNat - '0'.toNat < 10 := by
  have hle : c.toNat ≤ '9'.toNat := (Char.isDigit_iff_toNat.1 h).2
  exact Nat.lt_succ_of_le (Nat.sub_le_sub_right hle '0'.toNat)

/-- The value of a digit is written as that digit. -/
theorem ofNat_digit {c : Char} (h : c.isDigit = true) : ofNat (c.toNat - '0'.toNat) = [c] := by
  rw [ofNat, Nat.toDigits_of_lt_base (digit_lt_ten h), List.cons.injEq]
  refine ⟨Char.toNat_inj.1 ?_, rfl⟩
  rw [Nat.toNat_digitChar_of_lt_ten (digit_lt_ten h)]
  exact Nat.add_sub_of_le (Char.isDigit_iff_toNat.1 h).1

/-- Digits behind those of a number other than zero are the last digits of a larger number. -/
theorem ofNat_append {digits : List Char} (h : digits.all Char.isDigit = true) {n : Nat}
    (hn : 0 < n) : ofNat n ++ digits = ofNat (Nat.ofDigitChars 10 digits n) := by
  induction digits generalizing n with
  | nil => rw [List.append_nil, Nat.ofDigitChars_nil]
  | cons c digits ih =>
    rw [List.all_cons, Bool.and_eq_true] at h
    have hone : ofNat n ++ [c] = ofNat (10 * n + (c.toNat - '0'.toNat)) := by
      rw [← ofNat_digit h.1]
      exact Nat.toDigits_append_toDigits (by decide) hn (digit_lt_ten h.1)
    rw [Nat.ofDigitChars_cons, List.append_cons, hone]
    exact ih h.2 (by omega)

/-- The digits of a natural after any number of zeros. -/
def Denotes (digits : List Char) (n : Nat) : Prop :=
  ∃ zeros, digits = List.replicate zeros '0' ++ ofNat n

theorem isDigit_of_denotes {digits : List Char} {n : Nat} (h : Denotes digits n) {c : Char}
    (hc : c ∈ digits) : c.isDigit = true := by
  rcases h with ⟨zeros, rfl⟩
  rcases List.mem_append.1 hc with hzero | hdigit
  · rw [List.eq_of_mem_replicate hzero]
    rfl
  · exact isDigit_of_mem_ofNat hdigit

/-- Every run of digits denotes its value. -/
theorem denotes_ofDigitChars {digits : List Char} (hne : digits ≠ [])
    (h : digits.all Char.isDigit = true) : Denotes digits (Nat.ofDigitChars 10 digits 0) := by
  induction digits with
  | nil => contradiction
  | cons c digits ih =>
    rw [List.all_cons, Bool.and_eq_true] at h
    have hc := ofNat_digit h.1
    rw [Nat.ofDigitChars_cons, Nat.mul_zero, Nat.zero_add]
    by_cases hzero : c.toNat - '0'.toNat = 0
    · rw [hzero] at hc ⊢
      obtain rfl : c = '0' := (List.cons.inj hc).1.symm
      by_cases hlast : digits = []
      · subst hlast
        exact ⟨0, rfl⟩
      · rcases ih hlast h.2 with ⟨zeros, hzeros⟩
        exact ⟨zeros + 1, congrArg (List.cons '0') hzeros⟩
    · refine ⟨0, ?_⟩
      rw [← ofNat_append h.2 (Nat.pos_of_ne_zero hzero), hc]
      rfl

theorem ofDigitChars_zeros (zeros : Nat) :
    Nat.ofDigitChars 10 (List.replicate zeros '0') 0 = 0 := by
  induction zeros with
  | zero => rfl
  | succ zeros ih => rwa [List.replicate_succ, Nat.ofDigitChars_cons]

theorem readNat?_eq_some_iff {digits : List Char} {n : Nat} :
    readNat? digits = some n ↔ Denotes digits n := by
  constructor
  · intro h
    unfold readNat? at h
    split at h
    case isTrue hdigits =>
      rw [← Option.some.inj h]
      exact denotes_ofDigitChars hdigits.1 hdigits.2
    case isFalse => contradiction
  · intro h
    have hall : digits.all Char.isDigit = true :=
      List.all_eq_true.2 fun c hc => isDigit_of_denotes h hc
    rcases h with ⟨zeros, rfl⟩
    have hne : List.replicate zeros '0' ++ ofNat n ≠ [] :=
      List.append_ne_nil_of_right_ne_nil _ (ofNat_ne_nil n)
    rw [readNat?, if_pos ⟨hne, hall⟩, Nat.ofDigitChars_append, ofDigitChars_zeros]
    exact congrArg some (Nat.ofDigitChars_toDigits (by decide) (by decide))

/-- A natural of 64 bits is denoted; a plus sign may stand before it. -/
def IsCount (word : List Char) (n : Nat) : Prop :=
  n < UInt64.size ∧ (Denotes word n ∨ ∃ digits, word = '+' :: digits ∧ Denotes digits n)

theorem readCount?_eq_some_iff {word : List Char} {n : Nat} :
    readCount? word = some n ↔ IsCount word n := by
  have hlimit : ∀ digits, (readNat? digits).filter (· < UInt64.size) = some n ↔
      n < UInt64.size ∧ Denotes digits n := by
    intro digits
    rw [Option.filter_eq_some_iff, readNat?_eq_some_iff, decide_eq_true_eq, and_comm]
  unfold readCount?
  split
  · rename_i rest
    have hplus : ¬ Denotes ('+' :: rest) n := fun h =>
      absurd (isDigit_of_denotes h List.mem_cons_self) (by decide)
    simp [IsCount, hlimit, hplus]
  · rename_i hsign
    have hno : ¬ ∃ digits, word = '+' :: digits ∧ Denotes digits n := fun ⟨digits, h, _⟩ =>
      hsign digits h
    simp [IsCount, hlimit, hno]

/-! ## Integers -/

theorem ne_minus_of_isDigit {c : Char} (h : c.isDigit = true) : c ≠ '-' := by
  rintro rfl
  exact absurd h (by decide)

/-- A written integer reads back. -/
theorem readInt?_ofInt (i : Int) : readInt? (ofInt i) = some i := by
  cases i with
  | ofNat n =>
    rcases exists_ofNat_eq_cons n with ⟨c, digits, hn, hc⟩
    have hread : readInt? (ofNat n) = (readNat? (ofNat n)).map Int.ofNat := by
      rw [hn]
      unfold readInt?
      split
      · rename_i heq
        exact absurd (List.cons.inj heq).1 (ne_minus_of_isDigit hc)
      · rfl
    rw [ofInt, hread, readNat?_ofNat, Option.map_some]
  | negSucc n =>
    rw [ofInt, readInt?, readNat?_ofNat]
    rfl

theorem ofInt_inj {i j : Int} (h : ofInt i = ofInt j) : i = j := by
  have hread := readInt?_ofInt i
  rw [h, readInt?_ofInt j] at hread
  exact (Option.some.inj hread).symm

theorem text_inj {i j : Int} (h : text i = text j) : i = j :=
  ofInt_inj (String.ofList_injective h)

/-- An integer is written with digits and minus signs. -/
theorem isDigit_or_eq_minus_of_mem_ofInt {i : Int} {c : Char} (h : c ∈ ofInt i) :
    c.isDigit = true ∨ c = '-' := by
  cases i with
  | ofNat n => exact .inl (isDigit_of_mem_ofNat h)
  | negSucc n =>
    rcases List.mem_cons.1 h with rfl | h
    · exact .inr rfl
    · exact .inl (isDigit_of_mem_ofNat h)

theorem ofInt_ne_nil (i : Int) : ofInt i ≠ [] := by
  cases i with
  | ofNat n => exact ofNat_ne_nil n
  | negSucc n => exact List.cons_ne_nil _ _

end Numeral
end SeqCalc
