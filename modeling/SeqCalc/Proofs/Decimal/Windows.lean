import Mathlib.Algebra.Order.Field.Power
import Mathlib.Data.Rat.Cast.Order
import Mathlib.Tactic.Linarith
import Mathlib.Tactic.NormNum
import Mathlib.Tactic.Positivity
import Mathlib.Tactic.Ring
import SeqCalc.Decimal.FloatText

/-!
# Decimals tell floats apart

The decimal that is written for a float lies in the window of that float.  The windows of different
floats have at most a half-way point in common, and half way between two floats only the window of
the one with the even mantissa is closed.  Decimals of seventeen digits lie closer together than
any window is wide, so that the search for a decimal always finds one.

Main results:

- `Window.isSome_nearest?_scale`: a window that is wider than the gaps of a grid has a point of it.
- `FloatText.Fields.HasWindow.holds_ofWindow`: the decimal of a float lies in its window.
- `FloatText.Fields.HasWindow.eq_of_holds`: no number lies in the windows of two floats.
-/

namespace SeqCalc

/-- The number that a decimal stands for. -/
def Decimal.value (d : Decimal) : ℚ :=
  d.coefficient * 10 ^ d.exponent

/-! ## Windows as intervals -/

namespace Window

/-- A number lies in a window; at the ends only if the window is closed. -/
structure Holds (w : Window) (x : ℚ) : Prop where
  low_le : w.low ≤ x * w.den
  le_high : x * w.den ≤ w.high
  inside : w.closed = false → w.low < x * w.den ∧ x * w.den < w.high

/-- Other units of length change all measures of a window in the same way. -/
theorem exists_scale (w : Window) (e : ℤ) :
    ∃ t : ℚ, 0 < t ∧ (w.scale e).low = w.low * t ∧ (w.scale e).value = w.value * t ∧
      (w.scale e).high = w.high * t ∧ (w.scale e).den = w.den * 10 ^ e * t := by
  by_cases he : e < 0
  · obtain ⟨k, rfl⟩ : ∃ k : ℕ, e = -(k : ℤ) := ⟨(-e).toNat, by omega⟩
    rw [scale, if_pos he]
    refine ⟨10 ^ k, by positivity, ?_⟩
    simp
  · obtain ⟨k, rfl⟩ : ∃ k : ℕ, e = (k : ℤ) := ⟨e.toNat, by omega⟩
    rw [scale, if_neg he]
    refine ⟨1, one_pos, ?_⟩
    simp

/-- A decimal whose coefficient lies in a window in units of its exponent lies in the window. -/
theorem holds_of_contains {w : Window} {d : Decimal}
    (h : (w.scale d.exponent).contains d.coefficient = true) : w.Holds d.value := by
  rcases w.exists_scale d.exponent with ⟨t, ht, hlow, -, hhigh, hden⟩
  have hpoint : ((d.coefficient * (w.scale d.exponent).den : ℕ) : ℚ) = d.value * w.den * t := by
    rw [Nat.cast_mul, hden, Decimal.value]
    ring
  have hclosed : (w.scale d.exponent).closed = w.closed := by
    unfold scale
    split <;> rfl
  unfold contains at h
  rw [hclosed] at h
  cases hc : w.closed with
  | true =>
    simp only [hc, if_true, decide_eq_true_eq, ← Nat.cast_le (α := ℚ), hpoint, hlow, hhigh] at h
    exact ⟨le_of_mul_le_mul_right h.1 ht, le_of_mul_le_mul_right h.2 ht, by simp [hc]⟩
  | false =>
    simp only [hc, Bool.false_eq_true, if_false, decide_eq_true_eq, ← Nat.cast_lt (α := ℚ), hpoint,
      hlow, hhigh] at h
    have hl := lt_of_mul_lt_mul_right h.1 ht.le
    have hh := lt_of_mul_lt_mul_right h.2 ht.le
    exact ⟨hl.le, hh.le, fun _ => ⟨hl, hh⟩⟩

/-! ## The search for a decimal -/

theorem contains_of_lt {w : Window} {c : Nat} (hlow : w.low < c * w.den)
    (hhigh : c * w.den < w.high) : w.contains c = true := by
  unfold contains
  split
  · exact decide_eq_true ⟨hlow.le, hhigh.le⟩
  · exact decide_eq_true ⟨hlow, hhigh⟩

theorem isSome_nearest?_of_contains {w : Window} {c : Nat} (hc : c = w.value / w.den)
    (h : w.contains c = true ∨ w.contains (c + 1) = true) : w.nearest?.isSome := by
  subst hc
  unfold nearest?
  dsimp only
  rcases h with h | h
  · rw [h]
    cases w.contains (w.value / w.den + 1) <;> rfl
  · rw [h]
    cases w.contains (w.value / w.den) <;> rfl

/-- More than half a unit to both sides of the float: one of the neighbours is in the window. -/
theorem isSome_nearest? {w : Window} (hden : 0 < w.den) (hlow : 2 * w.low + w.den < 2 * w.value)
    (hhigh : 2 * w.value + w.den < 2 * w.high) : w.nearest?.isSome := by
  have hdiv := Nat.div_add_mod w.value w.den
  have hmod := Nat.mod_lt w.value hden
  rw [Nat.mul_comm] at hdiv
  apply isSome_nearest?_of_contains rfl
  by_cases hhalf : 2 * (w.value % w.den) ≤ w.den
  · left
    apply contains_of_lt
    · omega
    · omega
  · right
    have hnext : (w.value / w.den + 1) * w.den = w.value / w.den * w.den + w.den := by ring
    apply contains_of_lt
    · omega
    · omega

/-- A window that is wider than the gaps of a decimal grid has a point of the grid. -/
theorem isSome_nearest?_scale {w : Window} (e : ℤ) (hden : 0 < w.den)
    (hlow : 2 * (w.low : ℚ) + w.den * 10 ^ e < 2 * w.value)
    (hhigh : 2 * (w.value : ℚ) + w.den * 10 ^ e < 2 * w.high) :
    (w.scale e).nearest?.isSome := by
  rcases w.exists_scale e with ⟨t, ht, hl, hv, hh, hd⟩
  have hden' : (0 : ℚ) < (w.scale e).den := by
    rw [hd]
    have : (0 : ℚ) < w.den := by exact_mod_cast hden
    positivity
  apply isSome_nearest?
  · exact_mod_cast hden'
  · rw [← Nat.cast_lt (α := ℚ)]
    push_cast
    rw [hl, hv, hd]
    have := mul_lt_mul_of_pos_right hlow ht
    linarith
  · rw [← Nat.cast_lt (α := ℚ)]
    push_cast
    rw [hh, hv, hd]
    have := mul_lt_mul_of_pos_right hhigh ht
    linarith

theorem pow_le_of_length_toDigits {n k : Nat} (hn : 0 < n)
    (h : (Nat.toDigits 10 n).length = k + 1) : 10 ^ k ≤ n := by
  cases k with
  | zero => exact hn
  | succ k =>
    have := Nat.length_toDigits_le_iff (b := 10) (n := n) (k := k + 1) (by decide) (by omega)
    omega

/-- The length of a written quotient tells its size from below. -/
theorem zpow_le_of_length {w : Window} {factor places length : Nat}
    (hlength : (Nat.toDigits 10 (w.value * factor / w.den)).length = length)
    (hfactor : factor = Nat.pow 10 places) (hpos : w.den ≤ w.value * 10 ^ places)
    (hden : 0 < w.den) : (w.den : ℚ) * 10 ^ (length - places - 1 : ℤ) ≤ w.value := by
  have hten : factor = 10 ^ places := hfactor
  rw [hten] at hlength
  obtain ⟨k, rfl⟩ : ∃ k, length = k + 1 :=
    ⟨length - 1, (Nat.succ_pred_eq_of_pos (hlength ▸ Nat.length_toDigits_pos)).symm⟩
  have hshift : w.den * 10 ^ k ≤ w.value * 10 ^ places := by
    calc
      w.den * 10 ^ k ≤ w.den * (w.value * 10 ^ places / w.den) :=
        Nat.mul_le_mul_left _ (pow_le_of_length_toDigits (Nat.div_pos hpos hden) hlength)
      _ ≤ w.value * 10 ^ places := Nat.mul_div_le _ _
  have hcast : (w.den : ℚ) * 10 ^ k ≤ w.value * 10 ^ places := by exact_mod_cast hshift
  have hexponent : ((k + 1 : ℕ) - places - 1 : ℤ) = k - places := by
    push_cast
    ring
  rw [hexponent, zpow_sub₀ (by norm_num), ← mul_div_assoc, zpow_natCast, zpow_natCast]
  exact (div_le_iff₀ (by positivity)).2 hcast

/-- Three binary places are less than one decimal place. -/
theorem den_le_of_eq {w : Window} {k places : Nat} (hvalue : 0 < w.value) (hden : w.den = 2 ^ k)
    (hk : k ≤ 3 * places) : w.den ≤ w.value * 10 ^ places := by
  calc
    w.den ≤ 2 ^ (3 * places) := hden ▸ Nat.pow_le_pow_right Nat.two_pos hk
    _ = 8 ^ places := Nat.pow_mul 2 3 places
    _ ≤ 10 ^ places := Nat.pow_le_pow_left (by decide) places
    _ ≤ w.value * 10 ^ places := Nat.le_mul_of_pos_left _ hvalue

/-- The magnitude does not overstate the digits before the point. -/
theorem magnitude_le {w : Window} {k : Nat} (hvalue : 0 < w.value) (hden : w.den = 2 ^ k)
    (hk : k ≤ 1200) : (w.den : ℚ) * 10 ^ (w.magnitude - 1) ≤ w.value := by
  unfold magnitude
  generalize hlength : List.length _ = length
  have hle := zpow_le_of_length hlength rfl (den_le_of_eq hvalue hden hk)
    (hden ▸ Nat.two_pow_pos k)
  rwa [Nat.cast_ofNat] at hle

end Window

/-! ## The windows of floats -/

namespace FloatText
namespace Fields

/-- Neither zero nor infinite nor a NaN: the fields of the floats that have a window. -/
structure HasWindow (f : Fields) : Prop where
  exponent_lt : f.exponent < 2047
  fraction_lt : f.fraction < 2 ^ 52
  ne_zero : f.exponent ≠ 0 ∨ f.fraction ≠ 0

/-- The float is the mantissa times a power of two. -/
def mantissa (f : Fields) : Nat :=
  if f.exponent = 0 then f.fraction else 2 ^ 52 + f.fraction

/-- The exponent, where that of the smallest floats is one. -/
def place (f : Fields) : Nat :=
  max f.exponent 1

/-- Half of the gap below the float, in quarters of the last place. -/
def below (f : Fields) : Nat :=
  if f.fraction = 0 ∧ 1 < f.exponent then 1 else 2

theorem window_eq (f : Fields) :
    f.window =
      { low := (4 * f.mantissa - f.below) * 2 ^ (f.place - 1077)
        value := 4 * f.mantissa * 2 ^ (f.place - 1077)
        high := (4 * f.mantissa + 2) * 2 ^ (f.place - 1077)
        den := 2 ^ (1077 - f.place)
        closed := f.mantissa % 2 == 0 } :=
  rfl

/-- The lower end of the window, in quarters of the last place of the smallest floats. -/
def lowest (f : Fields) : Nat :=
  (4 * f.mantissa - f.below) * 2 ^ (f.place - 1)

/-- The upper end of the window, in the same unit. -/
def highest (f : Fields) : Nat :=
  (4 * f.mantissa + 2) * 2 ^ (f.place - 1)

/-- Exponent and fraction as one number, by which floats are ordered. -/
def rank (f : Fields) : Nat :=
  f.exponent * 2 ^ 52 + f.fraction

variable {f g : Fields}

theorem HasWindow.mantissa_pos (h : f.HasWindow) : 0 < f.mantissa := by
  have := h.ne_zero
  unfold mantissa
  split <;> omega

theorem HasWindow.mantissa_lt (h : f.HasWindow) : f.mantissa < 2 ^ 53 := by
  have := h.fraction_lt
  unfold mantissa
  split <;> omega

/--
The window of a float ends before that of a larger one begins, or where it begins; the latter only
if one of the two mantissas is odd.
-/
theorem highest_add_le_lowest {s : Nat} (hf : f.HasWindow) (hg : g.HasWindow)
    (hlt : f.rank < g.rank) (hs : s ≤ 1)
    (heven : s = 1 → f.mantissa % 2 = 0 ∧ g.mantissa % 2 = 0) :
    f.highest + s ≤ g.lowest := by
  have hff := hf.fraction_lt
  have hgf := hg.fraction_lt
  unfold rank at hlt
  have hunit : 1 ≤ 2 ^ (f.place - 1) := Nat.one_le_two_pow
  have hslack : f.highest + s ≤ (4 * f.mantissa + 2 + s) * 2 ^ (f.place - 1) := by
    have := Nat.mul_le_mul_left s hunit
    rw [highest, Nat.add_mul _ s]
    omega
  by_cases hplace : f.place = g.place
  · -- one last place: the mantissas differ by one or, if both are even, by two
    have hmantissa : f.mantissa < g.mantissa := by
      unfold place at hplace
      unfold mantissa
      split <;> split <;> omega
    have hends : 4 * f.mantissa + 2 + s ≤ 4 * g.mantissa - g.below := by
      unfold below
      split <;> omega
    calc
      f.highest + s ≤ (4 * f.mantissa + 2 + s) * 2 ^ (f.place - 1) := hslack
      _ ≤ (4 * g.mantissa - g.below) * 2 ^ (f.place - 1) := Nat.mul_le_mul_right _ hends
      _ = g.lowest := by rw [hplace, lowest]
  · -- the last place of the larger one is twice as large, or larger still
    have hless : f.place + 1 ≤ g.place := by
      unfold place at hplace ⊢
      omega
    have hdouble : 2 * 2 ^ (f.place - 1) ≤ 2 ^ (g.place - 1) := by
      rw [← Nat.pow_succ']
      apply Nat.pow_le_pow_right Nat.two_pos
      have : 1 ≤ f.place := Nat.le_max_right _ _
      omega
    have hupper : 4 * f.mantissa + 2 + s ≤ (2 ^ 54 - 1) * 2 := by
      have := hf.mantissa_lt
      omega
    have hlower : 2 ^ 54 - 1 ≤ 4 * g.mantissa - g.below := by
      unfold place at hless
      unfold mantissa below
      split <;> split <;> omega
    calc
      f.highest + s ≤ (4 * f.mantissa + 2 + s) * 2 ^ (f.place - 1) := hslack
      _ ≤ (2 ^ 54 - 1) * 2 * 2 ^ (f.place - 1) := Nat.mul_le_mul_right _ hupper
      _ = (2 ^ 54 - 1) * (2 * 2 ^ (f.place - 1)) := Nat.mul_assoc _ _ _
      _ ≤ (2 ^ 54 - 1) * 2 ^ (g.place - 1) := Nat.mul_le_mul_left _ hdouble
      _ ≤ g.lowest := Nat.mul_le_mul_right _ hlower

/-! ## The decimals of floats -/

/-- Sixteen digits after the first one are more than a window needs. -/
theorem HasWindow.mantissa_lt_below (h : f.HasWindow) : 2 * f.mantissa < f.below * 10 ^ 16 := by
  have := h.mantissa_lt
  unfold below
  split
  · rename_i hends
    unfold mantissa
    split <;> omega
  · omega

/-- The decimal of a float is found, at the latest with seventeen digits. -/
theorem HasWindow.isSome_ofWindow? (h : f.HasWindow) :
    (Decimal.ofWindow? f.window 17).isSome := by
  have hpos := h.mantissa_pos
  have hmag := Window.magnitude_le (w := f.window) (k := 1077 - f.place)
    (by rw [window_eq]; positivity) (by rw [window_eq]) (by omega)
  set gap : ℚ := f.window.den * 10 ^ (f.window.magnitude - (17 : ℕ)) with hgap
  have hsteps : gap * 10 ^ 16 ≤ f.window.value := by
    rw [hgap, mul_assoc, ← zpow_natCast (10 : ℚ) 16, ← zpow_add₀ (by norm_num)]
    convert hmag using 3
    push_cast
    ring
  have hbelow : f.below ≤ 4 * f.mantissa := by
    unfold below
    split <;> omega
  have hunit : (0 : ℚ) < 2 ^ (f.place - 1077) := by positivity
  set unit : ℚ := 2 ^ (f.place - 1077) with hunitEq
  have hvalue : (f.window.value : ℚ) = 4 * f.mantissa * unit := by
    rw [window_eq]
    push_cast
    rfl
  have hlow : (f.window.low : ℚ) = (4 * f.mantissa - f.below) * unit := by
    rw [window_eq]
    push_cast [Nat.cast_sub hbelow]
    rfl
  have hhigh : (f.window.high : ℚ) = (4 * f.mantissa + 2) * unit := by
    rw [window_eq]
    push_cast
    rfl
  have hwide : (2 * f.mantissa : ℚ) < f.below * 10 ^ 16 := by exact_mod_cast h.mantissa_lt_below
  have hsmall : (f.below : ℚ) ≤ 2 := by
    unfold below
    split <;> norm_num
  have hscaled := mul_lt_mul_of_pos_right hwide hunit
  have hscaled' := mul_le_mul_of_nonneg_right hsmall hunit.le
  rw [Decimal.ofWindow?, Option.isSome_map]
  apply Window.isSome_nearest?_scale
  · rw [window_eq]
    positivity
  · rw [← hgap, hvalue, hlow]
    rw [hvalue] at hsteps
    linarith
  · rw [← hgap, hvalue, hhigh]
    rw [hvalue] at hsteps
    linarith

/-- The decimal of a float lies in its window. -/
theorem HasWindow.holds_ofWindow (h : f.HasWindow) :
    f.window.Holds (Decimal.ofWindow f.window).value := by
  have hfound : ((List.range 17).findSome? fun i => Decimal.ofWindow? f.window (i + 1)).isSome := by
    rw [List.isSome_findSome?, List.any_eq_true]
    exact ⟨16, by simp, h.isSome_ofWindow?⟩
  obtain ⟨c, hc⟩ := Option.isSome_iff_exists.1 hfound
  have hsearch : Decimal.ofWindow f.window = c := by rw [Decimal.ofWindow, hc, Option.getD_some]
  obtain ⟨i, -, hi⟩ := List.exists_of_findSome?_eq_some hc
  rw [hsearch]
  exact Window.holds_of_contains (Decimal.ofWindow?_contains hi)

/-! ## Windows do not overlap -/

/-- How many quarters of the last place of the smallest floats make one. -/
def quarters : ℚ :=
  2 ^ 1076

theorem quarters_pos : 0 < quarters :=
  pow_pos two_pos _

theorem two_pow_mul_two_pow {a b c d : ℕ} (h : a + b = c + d) :
    (2 : ℚ) ^ a * 2 ^ b = 2 ^ c * 2 ^ d := by
  rw [← pow_add, ← pow_add, h]

/-- In quarters of the last place of the smallest floats the ends of a window are whole numbers. -/
theorem div_quarters (f : Fields) (n : ℕ) :
    ((n * 2 ^ (f.place - 1077) : ℕ) : ℚ) / ((2 ^ (1077 - f.place) : ℕ) : ℚ) =
      ((n * 2 ^ (f.place - 1) : ℕ) : ℚ) / quarters := by
  have hplace : 1 ≤ f.place := Nat.le_max_right _ _
  have hunits : (2 : ℚ) ^ (f.place - 1077) * quarters =
      2 ^ (f.place - 1) * 2 ^ (1077 - f.place) := two_pow_mul_two_pow (by omega)
  rw [div_eq_div_iff (by positivity) quarters_pos.ne']
  push_cast
  rw [mul_assoc, hunits, ← mul_assoc]

theorem mem_of_holds {x : ℚ} (hx : f.window.Holds x) :
    f.lowest / quarters ≤ x ∧ x ≤ f.highest / quarters ∧
      (f.mantissa % 2 = 1 → f.lowest / quarters < x ∧ x < f.highest / quarters) := by
  have hden : (0 : ℚ) < ((2 ^ (1077 - f.place) : ℕ) : ℚ) := by positivity
  rcases hx with ⟨hlow, hhigh, hinside⟩
  rw [window_eq] at hlow hhigh hinside
  unfold lowest highest
  rw [← f.div_quarters, ← f.div_quarters, div_le_iff₀ hden, le_div_iff₀ hden, div_lt_iff₀ hden,
    lt_div_iff₀ hden]
  refine ⟨hlow, hhigh, ?_⟩
  intro hodd
  exact hinside (by simp [hodd])

/-- No number lies in the windows of two floats of different size. -/
theorem HasWindow.not_holds_of_rank_lt (hf : f.HasWindow) (hg : g.HasWindow)
    (hlt : f.rank < g.rank) {x : ℚ} (hfx : f.window.Holds x) (hgx : g.window.Holds x) : False := by
  rcases mem_of_holds hfx with ⟨-, hhigh, hodd⟩
  rcases mem_of_holds hgx with ⟨hlow, -, hodd'⟩
  by_cases heven : f.mantissa % 2 = 0 ∧ g.mantissa % 2 = 0
  · have hends : (f.highest : ℚ) < g.lowest := by
      exact_mod_cast highest_add_le_lowest hf hg hlt le_rfl fun _ => heven
    exact (div_lt_div_of_pos_right hends quarters_pos).not_ge (hlow.trans hhigh)
  · have hends : (f.highest : ℚ) ≤ g.lowest := by
      exact_mod_cast highest_add_le_lowest hf hg hlt (Nat.zero_le 1) (by simp)
    have hle := div_le_div_of_nonneg_right hends quarters_pos.le
    rcases Nat.mod_two_eq_zero_or_one f.mantissa with hfm | hfm
    · have hgm : g.mantissa % 2 = 1 := by omega
      exact ((hodd' hgm).1.trans_le hhigh).not_ge hle
    · exact ((hodd hfm).2.trans_le' hlow).not_ge hle

/-- Floats with a number in both windows have the same magnitude. -/
theorem HasWindow.eq_of_holds (hf : f.HasWindow) (hg : g.HasWindow) {x : ℚ}
    (hfx : f.window.Holds x) (hgx : g.window.Holds x) :
    f.exponent = g.exponent ∧ f.fraction = g.fraction := by
  have hrank : f.rank = g.rank := by
    rcases Nat.lt_trichotomy f.rank g.rank with h | h | h
    · exact (hf.not_holds_of_rank_lt hg h hfx hgx).elim
    · exact h
    · exact (hg.not_holds_of_rank_lt hf h hgx hfx).elim
  have := hf.fraction_lt
  have := hg.fraction_lt
  unfold rank at hrank
  omega

end Fields
end FloatText
end SeqCalc
