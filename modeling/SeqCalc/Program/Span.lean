/-!
# Spans

Half-open ranges of positions in a program text.  They travel from the nodes of a program to the
messages about it and decide nothing.
-/

namespace SeqCalc

/-- The positions from `start` up to, but not including, `stop`. -/
structure Span where
  start : UInt32
  stop : UInt32
deriving DecidableEq, Repr, Inhabited

namespace Span

/-- The span of things that no text was written for. -/
def nowhere : Span :=
  ⟨0, 0⟩

/-- Number of positions; a span that ends before it starts has none. -/
def length (s : Span) : Nat :=
  s.stop.toNat - s.start.toNat

def isEmpty (s : Span) : Bool :=
  s.stop ≤ s.start

/-- The least start and the greatest stop of two spans. -/
def merge (s t : Span) : Span :=
  ⟨min s.start t.start, max s.stop t.stop⟩

def contains (s : Span) (position : UInt32) : Bool :=
  s.start ≤ position && position < s.stop

/-- Both ends, with two dots between them. -/
def text (s : Span) : String :=
  s!"{s.start.toNat}..{s.stop.toNat}"

instance : ToString Span :=
  ⟨text⟩

@[simp]
theorem isEmpty_iff_length (s : Span) : s.isEmpty = true ↔ s.length = 0 := by
  simp only [isEmpty, length, decide_eq_true_eq, UInt32.le_iff_toNat_le]
  omega

end Span
end SeqCalc
