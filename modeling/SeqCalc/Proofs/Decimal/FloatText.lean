import Mathlib.Data.List.DropRight
import SeqCalc.Proofs.Decimal.Windows
import SeqCalc.Proofs.Text.Numeral

/-!
# Texts tell floats apart

The text of a float, up to its sign, is read as a number again: the digits without the point, times
the power of ten that the point and the exponent stand for.  What is read is the decimal that was
written, and that lies in the window of one float only.

Main results:

- `FloatText.read_layout`: a written decimal is read as its number.
- `floatText_inj`: floats with the same text have the same bits, if they are no NaNs.
- `floatText_ne_numeral`: the text of a float is not that of an integer.
-/

namespace SeqCalc
namespace FloatText

/-! ## Reading -/

/-- The number that digits stand for, with a point somewhere among them or without. -/
def readMantissa (text : List Char) : ℚ :=
  let whole := text.takeWhile (· ≠ '.')
  let back := (text.dropWhile (· ≠ '.')).tail
  Nat.ofDigitChars 10 (whole ++ back) 0 / 10 ^ back.length

/-- The number that a mantissa stands for, with an exponent behind it or without. -/
def read (text : List Char) : ℚ :=
  let exponent := Numeral.readInt? (text.dropWhile (· ≠ 'e')).tail
  readMantissa (text.takeWhile (· ≠ 'e')) * 10 ^ exponent.getD 0

/-- A mark that does not occur before it is found. -/
theorem split_at_mark {mark : Char} {xs : List Char} (h : ∀ c ∈ xs, c ≠ mark) (ys : List Char) :
    (xs ++ mark :: ys).takeWhile (· ≠ mark) = xs ∧
      ((xs ++ mark :: ys).dropWhile (· ≠ mark)).tail = ys := by
  have h' : ∀ c ∈ xs, decide (c ≠ mark) = true := fun c hc => decide_eq_true (h c hc)
  rw [List.takeWhile_append_of_pos h', List.dropWhile_append_of_pos h']
  simp

theorem split_at_no_mark {mark : Char} {xs : List Char} (h : ∀ c ∈ xs, c ≠ mark) :
    xs.takeWhile (· ≠ mark) = xs ∧ (xs.dropWhile (· ≠ mark)).tail = [] := by
  have h' : ∀ c ∈ xs, decide (c ≠ mark) = true := fun c hc => decide_eq_true (h c hc)
  rw [List.takeWhile_eq_self_iff.2 h', List.dropWhile_eq_nil_iff.2 h']
  exact ⟨rfl, rfl⟩

/-- Nothing but digits. -/
def IsDigits (text : List Char) : Prop :=
  ∀ c ∈ text, c.isDigit = true

theorem IsDigits.append {xs ys : List Char} (hx : IsDigits xs) (hy : IsDigits ys) :
    IsDigits (xs ++ ys) :=
  List.forall_mem_append.2 ⟨hx, hy⟩

theorem isDigits_replicate_zero (n : Nat) : IsDigits (List.replicate n '0') := by
  intro c hc
  rw [List.eq_of_mem_replicate hc]
  decide

theorem IsDigits.ne_of_not_isDigit {xs : List Char} (h : IsDigits xs) (mark : Char)
    (hmark : mark.isDigit = false) : ∀ c ∈ xs, c ≠ mark := by
  rintro c hc rfl
  rw [h c hc] at hmark
  contradiction

theorem readMantissa_point {whole : List Char} (hw : IsDigits whole) (back : List Char) :
    readMantissa (whole ++ '.' :: back) =
      Nat.ofDigitChars 10 (whole ++ back) 0 / 10 ^ back.length := by
  rcases split_at_mark (hw.ne_of_not_isDigit '.' (by decide)) back with ⟨hfront, hback⟩
  rw [readMantissa, hfront, hback]

theorem readMantissa_digits {digits : List Char} (h : IsDigits digits) :
    readMantissa digits = Nat.ofDigitChars 10 digits 0 := by
  rcases split_at_no_mark (h.ne_of_not_isDigit '.' (by decide)) with ⟨hfront, hback⟩
  rw [readMantissa, hfront, hback]
  simp

theorem read_of_mantissa {text : List Char} (h : ∀ c ∈ text, c ≠ 'e') :
    read text = readMantissa text := by
  rcases split_at_no_mark h with ⟨hfront, hback⟩
  rw [read, hfront, hback]
  simp [Numeral.readInt?, Numeral.readNat?]

theorem read_exponent {mantissa : List Char} (h : ∀ c ∈ mantissa, c ≠ 'e') (exponent : Int) :
    read (mantissa ++ 'e' :: Numeral.ofInt exponent) = readMantissa mantissa * 10 ^ exponent := by
  rcases split_at_mark h (Numeral.ofInt exponent) with ⟨hfront, hback⟩
  rw [read, hfront, hback, Numeral.readInt?_ofInt, Option.getD_some]

/-! ## Written decimals -/

/-- Zeros in front of digits change nothing. -/
theorem ofDigitChars_zeros_append (n : Nat) (digits : List Char) :
    Nat.ofDigitChars 10 (List.replicate n '0' ++ digits) 0 = Nat.ofDigitChars 10 digits 0 := by
  rw [Nat.ofDigitChars_append, Nat.ofDigitChars_replicate_zero, Nat.mul_zero]

/-- Zeros behind digits multiply by ten each. -/
theorem ofDigitChars_append_zeros (n : Nat) (digits : List Char) :
    Nat.ofDigitChars 10 (digits ++ List.replicate n '0') 0 =
      10 ^ n * Nat.ofDigitChars 10 digits 0 := by
  rw [Nat.ofDigitChars_append, Nat.ofDigitChars_replicate_zero]

/-- Digits with a point among them have no exponent. -/
theorem ne_exponent_of_point {whole back : List Char} (hw : IsDigits whole) (hb : IsDigits back) :
    ∀ c ∈ whole ++ '.' :: back, c ≠ 'e' := by
  intro c hc
  rcases List.mem_append.1 hc with hc | hc
  · exact hw.ne_of_not_isDigit 'e' (by decide) c hc
  · rcases List.mem_cons.1 hc with rfl | hc
    · decide
    · exact hb.ne_of_not_isDigit 'e' (by decide) c hc

theorem read_point {whole back : List Char} (hw : IsDigits whole) (hb : IsDigits back) :
    read (whole ++ '.' :: back) = Nat.ofDigitChars 10 (whole ++ back) 0 / 10 ^ back.length := by
  rw [read_of_mantissa (ne_exponent_of_point hw hb), readMantissa_point hw back]

theorem read_positional {digits : List Char} (h : IsDigits digits) (point : Int) :
    read (positional digits point) =
      Nat.ofDigitChars 10 digits 0 * 10 ^ (point - digits.length) := by
  unfold positional
  split
  · rename_i hpoint
    obtain ⟨k, rfl⟩ : ∃ k : ℕ, point = -(k : ℤ) := ⟨(-point).toNat, by omega⟩
    have hzeros : IsDigits (List.replicate k '0' ++ digits) := (isDigits_replicate_zero k).append h
    have hread := read_point (isDigits_replicate_zero 1) hzeros
    rw [← List.append_assoc, List.replicate_append_replicate, ofDigitChars_zeros_append] at hread
    have hexponent : -(k : ℤ) - digits.length = -((k + digits.length : ℕ) : ℤ) := by
      push_cast
      ring
    rw [hexponent, zpow_neg, zpow_natCast, ← div_eq_mul_inv]
    simpa using hread
  · rename_i hpoint
    obtain ⟨n, rfl⟩ : ∃ n : ℕ, point = (n : ℤ) := ⟨point.toNat, by omega⟩
    dsimp only
    rw [Int.toNat_natCast]
    by_cases hlen : digits.length ≤ n
    · -- all digits stand before the point, and zeros fill the places up to it and the one after it
      rw [List.drop_eq_nil_of_le hlen, if_pos rfl, List.take_of_length_le hlen]
      obtain ⟨k, rfl⟩ := Nat.exists_eq_add_of_le hlen
      have hread := read_point (h.append (isDigits_replicate_zero k)) (isDigits_replicate_zero 1)
      rw [List.append_assoc _ _ (List.replicate 1 '0'), List.replicate_append_replicate,
        ofDigitChars_append_zeros] at hread
      rw [Nat.add_sub_cancel_left]
      have hexponent : ((digits.length + k : ℕ) : ℤ) - digits.length = k := by
        push_cast
        ring
      rw [hexponent, zpow_natCast]
      refine hread.trans ?_
      push_cast
      rw [List.length_singleton, pow_succ, pow_one]
      ring
    · -- the point stands among the digits
      have hdrop : digits.drop n ≠ [] := by
        rw [ne_eq, List.drop_eq_nil_iff]
        exact hlen
      rw [if_neg hdrop, Nat.sub_eq_zero_of_le (by omega), List.replicate_zero, List.append_nil,
        read_point (fun c hc => h c (List.mem_of_mem_take hc))
          (fun c hc => h c (List.mem_of_mem_drop hc)), List.take_append_drop]
      have hexponent : (n : ℤ) - digits.length = -((digits.drop n).length : ℤ) := by
        rw [List.length_drop]
        omega
      rw [hexponent, zpow_neg, zpow_natCast, ← div_eq_mul_inv]

theorem read_scientific {digits : List Char} (h : IsDigits digits) (hne : digits ≠ [])
    (point : Int) : read (scientific digits point) =
      Nat.ofDigitChars 10 digits 0 * 10 ^ (point - digits.length) := by
  unfold scientific
  match digits, hne with
  | [d], _ =>
    rw [read_exponent (h.ne_of_not_isDigit 'e' (by decide)), readMantissa_digits h]
    rfl
  | d :: d' :: ds, _ =>
    have hd : IsDigits [d] := by simpa [IsDigits] using h d List.mem_cons_self
    have hds : IsDigits (d' :: ds) := fun c hc => h c (List.mem_cons_of_mem d hc)
    have hmantissa := readMantissa_point hd (d' :: ds)
    have hread := read_exponent (ne_exponent_of_point hd hds) (point - 1)
    rw [hmantissa] at hread
    refine hread.trans ?_
    have hexponent : point - (d :: d' :: ds).length = point - 1 - ((d' :: ds).length : ℕ) := by
      push_cast [List.length_cons]
      ring
    rw [hexponent, zpow_sub₀ (by norm_num) (point - 1), zpow_natCast, List.singleton_append]
    ring

/-- A written decimal is read as its number. -/
theorem read_layout {digits : List Char} (h : IsDigits digits) (hne : digits ≠ []) (point : Int) :
    read (layout digits point) =
      Nat.ofDigitChars 10 digits 0 * 10 ^ (point - digits.length) := by
  unfold layout
  split
  · exact read_positional h point
  · exact read_scientific h hne point

/-- The digits of a decimal are those of its coefficient without the zeros at the end. -/
theorem exists_digits_append_zeros (d : Decimal) :
    ∃ k, Nat.toDigits 10 d.coefficient = d.digits ++ List.replicate k '0' := by
  have hsplit : d.digits ++ (Nat.toDigits 10 d.coefficient).rtakeWhile (· == '0') = _ :=
    List.rdropWhile_append_rtakeWhile
  have hzeros : ∀ c ∈ (Nat.toDigits 10 d.coefficient).rtakeWhile (· == '0'), c = '0' := by
    intro c hc
    simpa using List.mem_rtakeWhile_imp hc
  rw [List.eq_replicate_of_mem hzeros] at hsplit
  exact ⟨_, hsplit.symm⟩

theorem isDigits_digits (d : Decimal) : IsDigits d.digits := by
  rcases exists_digits_append_zeros d with ⟨k, hk⟩
  intro c hc
  apply Numeral.isDigit_of_mem_ofNat (n := d.coefficient)
  rw [Numeral.ofNat, hk]
  exact List.mem_append_left _ hc

theorem coefficient_eq (d : Decimal) {k : Nat}
    (hk : Nat.toDigits 10 d.coefficient = d.digits ++ List.replicate k '0') :
    d.coefficient = 10 ^ k * Nat.ofDigitChars 10 d.digits 0 := by
  rw [← ofDigitChars_append_zeros, ← hk, Nat.ofDigitChars_ten_toDigits]

theorem digits_ne_nil {d : Decimal} (h : d.coefficient ≠ 0) : d.digits ≠ [] := by
  rcases exists_digits_append_zeros d with ⟨k, hk⟩
  intro hnil
  apply h
  rw [coefficient_eq d hk, hnil, Nat.ofDigitChars_nil, Nat.mul_zero]

/-- The digits and the point of a decimal stand for its number. -/
theorem ofDigitChars_mul_zpow (d : Decimal) :
    (Nat.ofDigitChars 10 d.digits 0 : ℚ) * 10 ^ (d.point - d.digits.length) = d.value := by
  rcases exists_digits_append_zeros d with ⟨k, hk⟩
  have hpoint : d.point - d.digits.length = d.exponent + k := by
    rw [Decimal.point, hk, List.length_append, List.length_replicate]
    push_cast
    ring
  rw [Decimal.value, coefficient_eq d hk, hpoint, zpow_add₀ (by norm_num), zpow_natCast]
  push_cast
  ring

theorem read_decimal {d : Decimal} (h : d.coefficient ≠ 0) :
    read (layout d.digits d.point) = d.value := by
  rw [read_layout (isDigits_digits d) (digits_ne_nil h), ofDigitChars_mul_zpow]

/-! ## Signs and fields -/

/-- The text begins with a digit. -/
def StartsWithDigit (text : List Char) : Prop :=
  ∃ c rest, text = c :: rest ∧ c.isDigit = true

theorem startsWithDigit_layout {digits : List Char} (h : IsDigits digits) (hne : digits ≠ [])
    (point : Int) : StartsWithDigit (layout digits point) := by
  obtain ⟨d, ds, rfl⟩ := List.exists_cons_of_ne_nil hne
  have hd : d.isDigit = true := h d List.mem_cons_self
  unfold layout positional scientific
  split
  · split
    · exact ⟨'0', _, rfl, by decide⟩
    · obtain ⟨n, hn⟩ : ∃ n, point.toNat = n + 1 := ⟨point.toNat - 1, by omega⟩
      dsimp only
      rw [hn]
      exact ⟨d, _, rfl, hd⟩
  · cases ds with
    | nil => exact ⟨d, _, rfl, hd⟩
    | cons d' ds => exact ⟨d, _, rfl, hd⟩

namespace Fields

/-- The fields of a float that is no NaN. -/
structure IsNumber (f : Fields) : Prop where
  exponent_le : f.exponent ≤ 2047
  fraction_lt : f.fraction < 2 ^ 52
  fraction_eq_zero : f.exponent = 2047 → f.fraction = 0

/-- The text of a float without its sign. -/
def body (f : Fields) : List Char :=
  if f.exponent = 2047 then ['i', 'n', 'f']
  else if f.exponent = 0 ∧ f.fraction = 0 then ['0', '.', '0']
  else layout (Decimal.ofWindow f.window).digits (Decimal.ofWindow f.window).point

variable {f g : Fields}

theorem text_eq (f : Fields) :
    f.text = if f.exponent = 2047 ∧ f.fraction ≠ 0 then ['N', 'a', 'N']
      else (if f.negative then ['-'] else []) ++ f.body := by
  unfold text body
  by_cases hexp : f.exponent = 2047
  · rw [if_pos hexp, if_pos hexp]
    by_cases hfrac : f.fraction = 0
    · have hnumber : ¬ (f.exponent = 2047 ∧ f.fraction ≠ 0) := fun h => h.2 hfrac
      rw [if_pos hfrac, if_neg hnumber]
    · have hnan : f.exponent = 2047 ∧ f.fraction ≠ 0 := ⟨hexp, hfrac⟩
      rw [if_neg hfrac, if_pos hnan]
  · have hnumber : ¬ (f.exponent = 2047 ∧ f.fraction ≠ 0) := fun h => hexp h.1
    rw [if_neg hexp, if_neg hexp, if_neg hnumber]
    by_cases hzero : f.exponent = 0 ∧ f.fraction = 0
    · simp only [if_pos hzero]
    · simp only [if_neg hzero]

theorem IsNumber.text_eq (h : f.IsNumber) :
    f.text = (if f.negative then ['-'] else []) ++ f.body := by
  have hnumber : ¬ (f.exponent = 2047 ∧ f.fraction ≠ 0) :=
    fun hnan => hnan.2 (h.fraction_eq_zero hnan.1)
  rw [Fields.text_eq, if_neg hnumber]

/-- A float is infinite or zero or has a window. -/
theorem IsNumber.cases (h : f.IsNumber) :
    (f.exponent = 2047 ∧ f.fraction = 0) ∨ (f.exponent = 0 ∧ f.fraction = 0) ∨ f.HasWindow := by
  have hexp := h.exponent_le
  by_cases hinf : f.exponent = 2047
  · exact .inl ⟨hinf, h.fraction_eq_zero hinf⟩
  · by_cases hzero : f.exponent = 0 ∧ f.fraction = 0
    · exact .inr (.inl hzero)
    · exact .inr (.inr ⟨by omega, h.fraction_lt, by omega⟩)

/-- The decimal of a float is positive. -/
theorem HasWindow.value_pos (h : f.HasWindow) : 0 < (Decimal.ofWindow f.window).value := by
  have hlow := h.holds_ofWindow.low_le
  have hpos := h.mantissa_pos
  have hends : 0 < f.window.low := by
    rw [window_eq]
    have : f.below ≤ 2 := by
      unfold below
      split <;> omega
    have : 0 < 4 * f.mantissa - f.below := by omega
    positivity
  have hcast : (0 : ℚ) < f.window.low := by exact_mod_cast hends
  exact pos_of_mul_pos_left (hcast.trans_le hlow) (Nat.cast_nonneg _)

theorem HasWindow.coefficient_ne_zero (h : f.HasWindow) :
    (Decimal.ofWindow f.window).coefficient ≠ 0 := by
  intro hzero
  have hpos := h.value_pos
  rw [Decimal.value, hzero, Nat.cast_zero, zero_mul] at hpos
  exact hpos.false

theorem HasWindow.body_eq (h : f.HasWindow) :
    f.body = layout (Decimal.ofWindow f.window).digits (Decimal.ofWindow f.window).point := by
  have := h.exponent_lt
  have := h.ne_zero
  rw [body, if_neg (by omega), if_neg (by omega)]

/-- What the text of a float is read as, and that it begins with a digit. -/
theorem HasWindow.read_body (h : f.HasWindow) :
    StartsWithDigit f.body ∧ read f.body = (Decimal.ofWindow f.window).value := by
  rw [h.body_eq]
  exact ⟨startsWithDigit_layout (isDigits_digits _) (digits_ne_nil h.coefficient_ne_zero) _,
    read_decimal h.coefficient_ne_zero⟩

/-- Zero is read as zero. -/
theorem read_zero : read ['0', '.', '0'] = 0 := by
  have hzero := isDigits_replicate_zero 1
  have hread := read_point hzero hzero
  rw [List.replicate_append_replicate, Nat.ofDigitChars_replicate_zero, Nat.mul_zero,
    Nat.cast_zero, zero_div] at hread
  exact hread

/-- The text of a number without its sign: `inf`, or a digit and what follows. -/
theorem IsNumber.body_cases (h : f.IsNumber) :
    (f.exponent = 2047 ∧ f.fraction = 0 ∧ f.body = ['i', 'n', 'f']) ∨
      (f.exponent = 0 ∧ f.fraction = 0 ∧ StartsWithDigit f.body ∧ read f.body = 0) ∨
      (f.HasWindow ∧ StartsWithDigit f.body ∧
        read f.body = (Decimal.ofWindow f.window).value) := by
  rcases h.cases with ⟨hexp, hfrac⟩ | ⟨hexp, hfrac⟩ | hwindow
  · exact .inl ⟨hexp, hfrac, by rw [body, if_pos hexp]⟩
  · have hbody : f.body = ['0', '.', '0'] := by
      rw [body, if_neg (by omega), if_pos ⟨hexp, hfrac⟩]
    rw [hbody]
    exact .inr (.inl ⟨hexp, hfrac, ⟨'0', _, rfl, by decide⟩, read_zero⟩)
  · exact .inr (.inr ⟨hwindow, hwindow.read_body⟩)

theorem ne_of_startsWithDigit {text : List Char} {c : Char} (rest : List Char)
    (h : StartsWithDigit text) (hc : c.isDigit = false) : c :: rest ≠ text := by
  rintro rfl
  rcases h with ⟨d, ds, heq, hd⟩
  rw [← (List.cons.inj heq).1, hc] at hd
  contradiction

/-- No sign stands in the text without the sign. -/
theorem IsNumber.minus_cons_ne_body (h : f.IsNumber) (rest : List Char) :
    '-' :: rest ≠ f.body := by
  rcases h.body_cases with ⟨-, -, hbody⟩ | ⟨-, -, hdigit, -⟩ | ⟨-, hdigit, -⟩
  · rw [hbody]
    simp
  · exact ne_of_startsWithDigit rest hdigit (by decide)
  · exact ne_of_startsWithDigit rest hdigit (by decide)

/-- Without their signs, numbers with the same text are the same. -/
theorem IsNumber.body_inj (hf : f.IsNumber) (hg : g.IsNumber) (h : f.body = g.body) :
    f.exponent = g.exponent ∧ f.fraction = g.fraction := by
  have hread : read f.body = read g.body := congrArg read h
  rcases hf.body_cases with ⟨hfe, hff, hfb⟩ | ⟨hfe, hff, hfd, hfr⟩ | ⟨hfw, hfd, hfr⟩
  · rcases hg.body_cases with ⟨hge, hgf, -⟩ | ⟨-, -, hgd, -⟩ | ⟨-, hgd, -⟩
    · exact ⟨hfe.trans hge.symm, hff.trans hgf.symm⟩
    · exact absurd (hfb.symm.trans h) (ne_of_startsWithDigit _ hgd (by decide))
    · exact absurd (hfb.symm.trans h) (ne_of_startsWithDigit _ hgd (by decide))
  · rcases hg.body_cases with ⟨-, -, hgb⟩ | ⟨hge, hgf, -, -⟩ | ⟨hgw, -, hgr⟩
    · exact absurd (hgb.symm.trans h.symm) (ne_of_startsWithDigit _ hfd (by decide))
    · exact ⟨hfe.trans hge.symm, hff.trans hgf.symm⟩
    · rw [hfr, hgr] at hread
      exact absurd hread hgw.value_pos.ne
  · rcases hg.body_cases with ⟨-, -, hgb⟩ | ⟨-, -, -, hgr⟩ | ⟨hgw, -, hgr⟩
    · exact absurd (hgb.symm.trans h.symm) (ne_of_startsWithDigit _ hfd (by decide))
    · rw [hfr, hgr] at hread
      exact absurd hread hfw.value_pos.ne'
    · have hholds := hgw.holds_ofWindow
      rw [← hgr, ← hread, hfr] at hholds
      exact hfw.eq_of_holds hgw hfw.holds_ofWindow hholds

/-- Numbers with the same text are the same, fields by fields. -/
theorem IsNumber.text_inj (hf : f.IsNumber) (hg : g.IsNumber) (h : f.text = g.text) : f = g := by
  rw [hf.text_eq, hg.text_eq] at h
  have hsame : f.negative = g.negative ∧ f.body = g.body := by
    cases hfn : f.negative with
    | false =>
      rw [hfn, if_neg Bool.false_ne_true, List.nil_append] at h
      cases hgn : g.negative with
      | false =>
        rw [hgn, if_neg Bool.false_ne_true, List.nil_append] at h
        exact ⟨rfl, h⟩
      | true =>
        rw [hgn, if_pos rfl, List.singleton_append] at h
        exact absurd h.symm (hf.minus_cons_ne_body _)
    | true =>
      rw [hfn, if_pos rfl, List.singleton_append] at h
      cases hgn : g.negative with
      | false =>
        rw [hgn, if_neg Bool.false_ne_true, List.nil_append] at h
        exact absurd h (hg.minus_cons_ne_body _)
      | true =>
        rw [hgn, if_pos rfl, List.singleton_append] at h
        exact ⟨rfl, (List.cons.inj h).2⟩
  rcases hf.body_inj hg hsame.2 with ⟨hexp, hfrac⟩
  rcases f with ⟨negative, exponent, fraction⟩
  rw [Fields.mk.injEq]
  exact ⟨hsame.1, hexp, hfrac⟩

end Fields

/-! ## Characters -/

/-- What occurs in the texts of floats besides digits. -/
def marks : List Char :=
  ['-', '.', 'e', 'i', 'n', 'f', 'N', 'a']

/-- Digits and marks only. -/
def IsNumeric (text : List Char) : Prop :=
  ∀ c ∈ text, c.isDigit = true ∨ c ∈ marks

theorem IsNumeric.append {xs ys : List Char} (hx : IsNumeric xs) (hy : IsNumeric ys) :
    IsNumeric (xs ++ ys) :=
  List.forall_mem_append.2 ⟨hx, hy⟩

theorem IsNumeric.mark_cons {mark : Char} (hmark : mark ∈ marks) {xs : List Char}
    (hx : IsNumeric xs) : IsNumeric (mark :: xs) :=
  List.forall_mem_cons.2 ⟨.inr hmark, hx⟩

theorem IsDigits.isNumeric {digits : List Char} (h : IsDigits digits) : IsNumeric digits :=
  fun c hc => .inl (h c hc)

theorem isNumeric_ofInt (i : Int) : IsNumeric (Numeral.ofInt i) := by
  intro c hc
  rcases Numeral.isDigit_or_eq_minus_of_mem_ofInt hc with hdigit | rfl
  · exact .inl hdigit
  · exact .inr (by decide)

theorem isNumeric_layout {digits : List Char} (h : IsDigits digits) (point : Int) :
    IsNumeric (layout digits point) := by
  have hdigits := IsDigits.isNumeric h
  unfold layout
  split
  · unfold positional
    split
    · have hzeros := IsDigits.isNumeric (isDigits_replicate_zero (-point).toNat)
      have hzero := IsDigits.isNumeric (isDigits_replicate_zero 1)
      exact ((hzero.append (hzeros.mark_cons (by decide))).append hdigits)
    · have hzeros := IsDigits.isNumeric
        (isDigits_replicate_zero (point.toNat - digits.length))
      refine (IsNumeric.append (fun c hc => hdigits c (List.mem_of_mem_take hc)) hzeros).append
        (IsNumeric.mark_cons (by decide) ?_)
      split
      · exact IsDigits.isNumeric (isDigits_replicate_zero 1)
      · exact fun c hc => hdigits c (List.mem_of_mem_drop hc)
  · have hmark : 'e' ∈ marks := by decide
    have hexponent := (isNumeric_ofInt (point - 1)).mark_cons hmark
    unfold scientific
    match digits, hdigits with
    | [], _ => exact hexponent
    | [d], hd => exact hd.append hexponent
    | d :: d' :: ds, hd =>
      have hfirst : IsNumeric [d] := fun c hc => hd c (by simp_all)
      have hrest : IsNumeric (d' :: ds) := fun c hc => hd c (List.mem_cons_of_mem d hc)
      exact (hfirst.append (hrest.mark_cons (by decide))).append hexponent

theorem exists_mem_layout (digits : List Char) (point : Int) :
    ∃ c ∈ layout digits point, c.isDigit = false ∧ c ≠ '-' := by
  unfold layout positional scientific
  split
  · refine ⟨'.', ?_, by decide, by decide⟩
    split <;> simp
  · exact ⟨'e', by simp, by decide, by decide⟩

namespace Fields

/-- The text of a float consists of digits and marks. -/
theorem isNumeric_text (f : Fields) : IsNumeric f.text := by
  have hsign : IsNumeric (if f.negative then ['-'] else []) := by
    split <;> simp [IsNumeric, marks]
  have hbody : IsNumeric f.body := by
    unfold body
    split
    · simp [IsNumeric, marks]
    · split
      · have hzero := IsDigits.isNumeric (isDigits_replicate_zero 1)
        exact hzero.append (hzero.mark_cons (by decide))
      · exact isNumeric_layout (isDigits_digits _) _
  rw [text_eq]
  split
  · simp [IsNumeric, marks]
  · exact hsign.append hbody

/-- The text of a float has something in it that no integer has. -/
theorem exists_mem_text (f : Fields) : ∃ c ∈ f.text, c.isDigit = false ∧ c ≠ '-' := by
  have hbody : ∃ c ∈ f.body, c.isDigit = false ∧ c ≠ '-' := by
    unfold body
    split
    · exact ⟨'i', by simp, by decide, by decide⟩
    · split
      · exact ⟨'.', by simp, by decide, by decide⟩
      · exact exists_mem_layout _ _
  rw [text_eq]
  split
  · exact ⟨'N', by simp, by decide, by decide⟩
  · rcases hbody with ⟨c, hc, hother⟩
    exact ⟨c, List.mem_append_right _ hc, hother⟩

/-! ## Bits -/

theorem ofBits_inj {a b : UInt64} (h : ofBits a = ofBits b) : a = b := by
  have ha := a.toNat_lt
  have hb := b.toNat_lt
  simp only [ofBits, Nat.pow_eq, Fields.mk.injEq, decide_eq_decide] at h
  apply UInt64.toNat_inj.1
  omega

theorem isNumber_ofBits {x : Binary64} (h : x.isNaN = false) : (ofBits x.bits).IsNumber := by
  have hmask : (x.bits &&& ~~~Binary64.signBit).toNat = x.bits.toNat % 2 ^ 63 := by
    have hones : (~~~Binary64.signBit).toNat = 2 ^ 63 - 1 := by decide
    rw [UInt64.toNat_and, hones, Nat.and_two_pow_sub_one_eq_mod]
  have hinf : Binary64.infinityBits.toNat = 2047 * 2 ^ 52 := by decide
  rw [Binary64.isNaN, decide_eq_false_iff_not, UInt64.lt_iff_toNat_lt, hmask, hinf] at h
  constructor
  · simp only [ofBits, Nat.pow_eq]
    omega
  · simp only [ofBits, Nat.pow_eq]
    omega
  · simp only [ofBits, Nat.pow_eq]
    omega

end Fields
end FloatText

/-! ## Texts -/

/-- Floats with the same text have the same bits, if they are no NaNs. -/
theorem floatText_inj {x y : Binary64} (hx : x.isNaN = false) (hy : y.isNaN = false)
    (h : floatText x = floatText y) : x = y := by
  have hfields := (FloatText.Fields.isNumber_ofBits hx).text_inj
    (FloatText.Fields.isNumber_ofBits hy) (String.ofList_injective h)
  cases x
  rw [Binary64.mk.injEq]
  exact FloatText.Fields.ofBits_inj hfields

/-- The text of a float is not that of an integer. -/
theorem floatText_ne_numeral (x : Binary64) (i : Int) : floatText x ≠ Numeral.text i := by
  intro h
  rcases (FloatText.Fields.ofBits x.bits).exists_mem_text with ⟨c, hc, hdigit, hminus⟩
  have hmem : c ∈ Numeral.ofInt i := (String.ofList_injective h) ▸ hc
  rcases Numeral.isDigit_or_eq_minus_of_mem_ofInt hmem with h | h
  · rw [hdigit] at h
    contradiction
  · exact hminus h

end SeqCalc
