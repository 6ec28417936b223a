import SeqCalc.Proofs.Value.Word
import SeqCalc.Value.Range

/-!
# Ranges at all bounds

The number of integers from a start to an end is a number that need not fit in a word, and it is
negative if the end comes before the start by more than one.  Compared with the limit as it is, it
decides about the fault, and without a fault it is the length of the range; no element wraps around,
since all of them lie between the bounds.  A range without its end is the range up to the word
before, which there is whenever the range is not empty.

Main results:

- `Range.toInt_getElem_run`: a run that ends within the words does not wrap around.
- `Range.checkedHalfOpen_eq`: the end of a range can be left out without leaving the words.
- `Range.exact_at_every_bound`: the elements and the faults of both kinds of range.
-/

namespace SeqCalc
namespace Range

/-! ## Runs -/

/-- A run that ends within the words does not wrap around. -/
theorem toInt_getElem_run {start : Int64} {count i : Nat} (hrun : start.toInt + count ≤ 2 ^ 63)
    (h : i < (run start count).length) : ((run start count)[i]).toInt = start.toInt + i := by
  rw [length_run] at h
  have hstart := start.le_toInt
  have hget : (run start count)[i] = start + Int64.ofNat i := by simp [run]
  rw [hget, Int64.toInt_add, Int64.toInt_ofNat', Int.add_bmod_bmod]
  exact Int.bmod_eq_of_le (by rw [Int64.size]; omega) (by rw [Int64.size]; omega)

/-! ## Both bounds included -/

/-- How many integers there are from `start` to `last`: none if that is not positive. -/
def count (start last : Int64) : Int :=
  last.toInt - start.toInt + 1

theorem count_le_zero_iff {start last : Int64} : count start last ≤ 0 ↔ last < start := by
  rw [count, Int64.lt_iff_toInt_lt]
  omega

theorem closed_of_maxLength_lt {start last : Int64} (h : maxLength < count start last) :
    closed start last = .error (.rangeOverflow start last maxLength) := by
  have hle : ¬ last < start := fun hlt => by
    have hcount := count_le_zero_iff.2 hlt
    omega
  have hcount : maxLength < (last.toInt - start.toInt + 1).toNat := by
    rw [count] at h
    omega
  rw [closed, if_neg hle]
  exact if_pos hcount

theorem closed_of_le_maxLength {start last : Int64} (h : count start last ≤ maxLength) :
    closed start last = .ok (run start (count start last).toNat) := by
  unfold closed
  split
  case isTrue hlt =>
    rw [Int.toNat_of_nonpos (count_le_zero_iff.2 hlt)]
    rfl
  case isFalse hle =>
    have hcount : ¬ maxLength < (last.toInt - start.toInt + 1).toNat := by
      rw [count] at h
      omega
    exact if_neg hcount

theorem closed_eq_error_iff {start last : Int64} {e : Fault} :
    closed start last = .error e ↔
      maxLength < count start last ∧ e = .rangeOverflow start last maxLength := by
  by_cases h : maxLength < count start last
  · rw [closed_of_maxLength_lt h]
    simp [h, eq_comm]
  · rw [closed_of_le_maxLength (not_lt.1 h)]
    simp [h]

/-- Within the limit, all integers from the start on are there. -/
theorem exists_closed_eq_ok {start last : Int64} (h : count start last ≤ maxLength) :
    ∃ xs, closed start last = .ok xs ∧ (xs.length : Int) = max 0 (count start last) ∧
      ∀ i (hi : i < xs.length), xs[i].toInt = start.toInt + i := by
  refine ⟨_, closed_of_le_maxLength h, ?_, fun i hi => toInt_getElem_run ?_ hi⟩
  · rw [length_run]
    omega
  · have hstart := start.toInt_lt
    have hlast := last.toInt_lt
    rw [count]
    omega

/-! ## The end left out -/

/-- The integers from `start` up to `stop`, unless the end cannot be left out within the words. -/
def checkedHalfOpen (start stop : Int64) : Option (Except Fault (List Int64)) :=
  if stop ≤ start then some (.ok []) else (Word.checkedSub stop 1).map (materialize start)

/-- The word before a word is that of the integers before, except for the least one. -/
theorem toInt_sub_one {a : Int64} (h : Int64.minValue < a) : (a - 1).toInt = a.toInt - 1 := by
  have hlow := Int64.lt_iff_toInt_lt.1 h
  rw [Int64.toInt_minValue] at hlow
  have hhigh := a.toInt_lt
  exact Word.toInt_sub_of_bounds (by rw [Int64.toInt_one]; omega) (by rw [Int64.toInt_one]; omega)

theorem minValue_lt_of_lt {a b : Int64} (h : a < b) : Int64.minValue < b :=
  Int64.lt_of_le_of_lt a.minValue_le h

/-- A range that is not empty has an end with a word before it. -/
theorem checkedHalfOpen_eq (start stop : Int64) :
    checkedHalfOpen start stop = some (halfOpen start stop) := by
  unfold checkedHalfOpen halfOpen
  split
  case isTrue => rfl
  case isFalse hlt =>
    have hstop := Int64.lt_iff_toInt_lt.1 (minValue_lt_of_lt (Int64.not_le.1 hlt))
    rw [Int64.toInt_minValue] at hstop
    have hhigh := stop.toInt_lt
    rw [Word.checkedSub, if_pos (by rw [Int64.toInt_one]; omega)]
    rfl

theorem halfOpen_eq_closed (start : Int64) {stop : Int64} (h : Int64.minValue < stop) :
    halfOpen start stop = closed start (stop - 1) := by
  have hempty : stop ≤ start ↔ stop - 1 < start := by
    rw [Int64.le_iff_toInt_le, Int64.lt_iff_toInt_lt, toInt_sub_one h]
    omega
  simp only [halfOpen, closed, hempty]

/--
Ranges are exact at all bounds.  A range up to an end that is included is too long exactly if the
number of integers from its start to its end, however large, is over `2 ^ 31 - 1`, and there
is no other fault.  Within the limit it has that many elements, or none if that is negative, and each
of them is the integer at its place.  Leaving out the end takes no difference that is out of range,
and gives the range up to the word before, with its faults; there is one unless the range is empty.
-/
theorem exact_at_every_bound (start stop : Int64) :
    (∀ e, closed start stop = .error e ↔
      2 ^ 31 - 1 < stop.toInt - start.toInt + 1 ∧ e = .rangeOverflow start stop (2 ^ 31 - 1)) ∧
    (stop.toInt - start.toInt + 1 ≤ 2 ^ 31 - 1 →
      ∃ xs, closed start stop = .ok xs ∧
        (xs.length : Int) = max 0 (stop.toInt - start.toInt + 1) ∧
        ∀ i (hi : i < xs.length), xs[i].toInt = start.toInt + i) ∧
    checkedHalfOpen start stop = some (halfOpen start stop) ∧
    (stop ≤ start → halfOpen start stop = .ok []) ∧
    (Int64.minValue < stop →
      (stop - 1).toInt = stop.toInt - 1 ∧ halfOpen start stop = closed start (stop - 1)) :=
  ⟨fun _ => closed_eq_error_iff, exists_closed_eq_ok, checkedHalfOpen_eq start stop,
    fun h => if_pos h, fun h => ⟨toInt_sub_one h, halfOpen_eq_closed start h⟩⟩

/-- At the last word: a range of two elements, and one that is too long from the first word on. -/
theorem exact_at_every_bound_maxValue :
    Int64.maxValue.toInt - (Int64.maxValue - 1).toInt + 1 ≤ 2 ^ 31 - 1 ∧
      (∃ xs, closed (Int64.maxValue - 1) Int64.maxValue = .ok xs ∧ (xs.length : Int) = 2 ∧
        ∀ i (hi : i < xs.length), xs[i].toInt = 2 ^ 63 - 2 + i) ∧
      closed Int64.minValue Int64.maxValue =
        .error (.rangeOverflow Int64.minValue Int64.maxValue (2 ^ 31 - 1)) ∧
      Int64.minValue ≤ Int64.maxValue ∧ halfOpen Int64.maxValue Int64.minValue = .ok [] ∧
      Int64.minValue < Int64.maxValue ∧
      halfOpen Int64.minValue Int64.maxValue = closed Int64.minValue (Int64.maxValue - 1) := by
  have hshort : Int64.maxValue.toInt - (Int64.maxValue - 1).toInt + 1 ≤ 2 ^ 31 - 1 := by decide
  have hle : Int64.minValue ≤ Int64.maxValue := by decide
  have hlt : Int64.minValue < Int64.maxValue := by decide
  refine ⟨hshort, (exact_at_every_bound (Int64.maxValue - 1) Int64.maxValue).2.1 hshort,
    ((exact_at_every_bound Int64.minValue Int64.maxValue).1 _).2 ⟨by decide, rfl⟩, hle,
    (exact_at_every_bound Int64.maxValue Int64.minValue).2.2.2.1 hle, hlt,
    ((exact_at_every_bound Int64.minValue Int64.maxValue).2.2.2.2 hlt).2⟩

end Range
end SeqCalc
