import SeqCalc.Value.Text

/-!
# Output sinks

Where printed lines go: into a buffer that can be read back, to the terminal, or nowhere.

Main results:

- `Sink.lines_print`: what one more line does to a buffer.
-/

namespace SeqCalc

inductive Sink where
  /-- Keeps its lines for reading back. -/
  | buffer (lines : List String)
  /-- Lines on their way to the terminal; they cannot be read back. -/
  | terminal (lines : List String)
  | silent
deriving DecidableEq, Repr, Inhabited

namespace Sink

/-- Print a line. -/
def print (s : Sink) (line : String) : Sink :=
  match s with
  | buffer lines => buffer (lines ++ [line])
  | terminal lines => terminal (lines ++ [line])
  | silent => silent

/-- Print the text of a value. -/
def printValue (s : Sink) (v : Value) : Sink :=
  s.print v.text

/-- Lines as text, each with its line break. -/
def joinLines (lines : List String) : String :=
  String.join (lines.map (· ++ "\n"))

/-- The captured text; sinks that capture nothing have none. -/
def output : Sink → String
  | buffer lines => joinLines lines
  | _ => ""

/-- The text for the terminal. -/
def terminalText : Sink → String
  | terminal lines => joinLines lines
  | _ => ""

/-- The captured lines, if the sink captures any. -/
def lines? : Sink → Option (List String)
  | buffer lines => some lines
  | _ => none

/-- Forget what was captured. -/
def clear : Sink → Sink
  | buffer _ => buffer []
  | s => s

@[simp]
theorem lines_print (lines : List String) (line : String) :
    ((buffer lines).print line).lines? = some (lines ++ [line]) :=
  rfl

end Sink
end SeqCalc
