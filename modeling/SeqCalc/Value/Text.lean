import SeqCalc.Text.Numeral
import SeqCalc.Decimal.FloatText
import SeqCalc.Value.Basic

/-!
# The text of a value

Numbers are written bare, sequences in brackets with commas between the elements.  A sequence of
more than twenty elements shows five at each end and the number of those left out.

Main results:

- `Value.shownTexts_eq_map`: the texts of a sequence of values are those of its shown elements.
-/

namespace SeqCalc

/-! ## Leaving out the middle -/

/-- Sequences longer than this leave elements out. -/
def longestShown : Nat :=
  20

/-- Elements shown at each end of a longer one. -/
def shownEdge : Nat :=
  5

/-- Whether position `i` of a sequence of `length` elements is shown. -/
def isShown (length i : Nat) : Bool :=
  length ≤ longestShown || i < shownEdge || length ≤ i + shownEdge

/-- The shown ones of the elements from position `i` on. -/
def shownFrom {α : Type} (length i : Nat) : List α → List α
  | [] => []
  | x :: xs =>
    if isShown length i then x :: shownFrom length (i + 1) xs else shownFrom length (i + 1) xs

/-- The texts of the shown elements of a sequence, put together. -/
def sequenceText (length : Nat) (texts : List String) : String :=
  let items :=
    if length ≤ longestShown then texts
    else
      texts.take shownEdge ++ s!"... ({length - 2 * shownEdge} more) ..." :: texts.drop shownEdge
  "[" ++ ", ".intercalate items ++ "]"

/-! ## Values -/

mutual

/-- The text of a value. -/
def Value.text : Value → String
  | .int n => Numeral.text n.toInt
  | .float x => floatText x
  | .seq s => s.text

/-- The text of a sequence. -/
def Sequence.text : Sequence → String
  | .ints xs =>
    sequenceText xs.length ((shownFrom xs.length 0 xs).map fun n => Numeral.text n.toInt)
  | .floats xs => sequenceText xs.length ((shownFrom xs.length 0 xs).map floatText)
  | .objects xs => sequenceText xs.length (shownTexts xs.length 0 xs)

/-- The texts of the shown ones of the values from position `i` on. -/
def shownTexts (length i : Nat) : List Value → List String
  | [] => []
  | x :: xs =>
    if isShown length i then x.text :: shownTexts length (i + 1) xs
    else shownTexts length (i + 1) xs

end

theorem Value.shownTexts_eq_map (length i : Nat) (xs : List Value) :
    shownTexts length i xs = (shownFrom length i xs).map Value.text := by
  induction xs generalizing i with
  | nil => rfl
  | cons x xs ih =>
    simp only [shownTexts, shownFrom]
    split <;> simp [ih]

/-! ## Developer forms -/

mutual

/-- A value with the tags of its storage, for a developer. -/
def Value.inspect : Value → String
  | .int n => s!"Int({n.toInt})"
  | .float x => s!"Float({floatText x})"
  | .seq s => s!"Seq({s.inspect})"

/-- A sequence with the tags of its storage, for a developer. -/
def Sequence.inspect : Sequence → String
  | .ints xs =>
    let items := ", ".intercalate (xs.map fun n => toString n.toInt)
    "Int(IntSequence \x7b values: [" ++ items ++ "] \x7d)"
  | .floats xs =>
    let items := ", ".intercalate (xs.map floatText)
    "Float(FloatSequence \x7b values: [" ++ items ++ "] \x7d)"
  | .objects xs =>
    let items := ", ".intercalate (inspectAll xs)
    "Object(ObjectSequence \x7b values: [" ++ items ++ "] \x7d)"

/-- Values one by one, for a developer. -/
def inspectAll : List Value → List String
  | [] => []
  | x :: xs => x.inspect :: inspectAll xs

end

end SeqCalc
