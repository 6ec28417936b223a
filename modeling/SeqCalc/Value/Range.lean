import SeqCalc.Value.Fault

/-!
# Ranges

All integers from a start up to an end, which is included or not.  A range that would have too
many elements is a fault; the length is computed without wrapping.

Main results:

- `Range.length_run`: a run has as many elements as asked for.
-/

namespace SeqCalc
namespace Range

/-- The most elements a range can have: the largest number of a signed half word. -/
def maxLength : Nat :=
  0x7FFFFFFF

/-- `count` successive integers from `start` on. -/
def run (start : Int64) (count : Nat) : List Int64 :=
  (List.range count).map fun i => start + Int64.ofNat i

/-- The integers from `start` to `last`, where `start ≤ last`. -/
def materialize (start last : Int64) : Except Fault (List Int64) :=
  let count := (last.toInt - start.toInt + 1).toNat
  if maxLength < count then .error (.rangeOverflow start last maxLength)
  else .ok (run start count)

/-- The integers from `start` up to, but not including, `stop`. -/
def halfOpen (start stop : Int64) : Except Fault (List Int64) :=
  if stop ≤ start then .ok [] else materialize start (stop - 1)

/-- The integers from `start` to `last`, both included. -/
def closed (start last : Int64) : Except Fault (List Int64) :=
  if last < start then .ok [] else materialize start last

@[simp]
theorem length_run (start : Int64) (count : Nat) : (run start count).length = count := by
  simp [run]

end Range
end SeqCalc
