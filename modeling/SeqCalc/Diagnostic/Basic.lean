import SeqCalc.Program.Span

/-!
# Diagnostics

A diagnostic reports one problem of a program: a code, a message, labelled spans, notes and
suggestions.  Every diagnostic is an error; a program that has one is not run.
-/

namespace SeqCalc

/-! ## Codes -/

/-- The kind of a problem. -/
inductive ErrorCode where
  | badSyntax
  | typeMismatch
  | badOperands
  | undefinedVariable
  | wrongArity
  | badRangeBound
  | alreadyDefined
  | sequenceExpected
  | strayLambda
  | internal
deriving DecidableEq, Repr, Inhabited

namespace ErrorCode

/-- The code as it is written: the first digit is the phase. -/
def text : ErrorCode → String
  | badSyntax => "E1001"
  | typeMismatch => "E2001"
  | badOperands => "E2002"
  | undefinedVariable => "E2003"
  | wrongArity => "E2004"
  | badRangeBound => "E2005"
  | alreadyDefined => "E2006"
  | sequenceExpected => "E2007"
  | strayLambda => "E2008"
  | internal => "E9001"

/-- Every code, in the order of their texts. -/
def all : List ErrorCode :=
  [badSyntax, typeMismatch, badOperands, undefinedVariable, wrongArity, badRangeBound,
    alreadyDefined, sequenceExpected, strayLambda, internal]

/-- The code with the given text. -/
def ofText? (s : String) : Option ErrorCode :=
  all.find? fun c => c.text == s

/-- A short description for listings. -/
def description : ErrorCode → String
  | badSyntax => "syntax error"
  | typeMismatch => "type mismatch"
  | badOperands => "operator cannot be applied to these operands"
  | undefinedVariable => "undefined variable"
  | wrongArity => "wrong number of lambda parameters"
  | badRangeBound => "range boundary must be an integer"
  | alreadyDefined => "variable is already defined"
  | sequenceExpected => "expected a sequence"
  | strayLambda => "lambda outside of map/reduce"
  | internal => "internal compiler error"

/-- Whether the problem was found by type inference. -/
def isTypeError : ErrorCode → Bool
  | badSyntax | internal => false
  | _ => true

end ErrorCode

/-! ## Diagnostics -/

/-- A span with a remark. -/
structure Label where
  span : Span
  message : String
  primary : Bool
deriving DecidableEq, Repr, Inhabited

/-- A report of one problem. -/
structure Diagnostic where
  code : ErrorCode
  message : String
  labels : List Label
  notes : List String
  suggestions : List String
deriving DecidableEq, Repr, Inhabited

namespace Diagnostic

/-- A diagnostic with nothing but its code. -/
def ofCode (code : ErrorCode) : Diagnostic :=
  ⟨code, "", [], [], []⟩

def withMessage (d : Diagnostic) (message : String) : Diagnostic :=
  { d with message := message }

/-- Add a label; the first one is the primary one. -/
def withLabel (d : Diagnostic) (span : Span) (message : String) : Diagnostic :=
  { d with labels := d.labels ++ [⟨span, message, d.labels.isEmpty⟩] }

def withNote (d : Diagnostic) (note : String) : Diagnostic :=
  { d with notes := d.notes ++ [note] }

def withSuggestion (d : Diagnostic) (suggestion : String) : Diagnostic :=
  { d with suggestions := d.suggestions ++ [suggestion] }

/-- The span of the primary label. -/
def primarySpan? (d : Diagnostic) : Option Span :=
  (d.labels.find? Label.primary).map Label.span

/-- The line of a label, with the line break before it. -/
def labelLine (l : Label) : String :=
  let marker := if l.primary then "-->" else "   "
  let remark := if l.message.isEmpty then "" else ": " ++ l.message
  s!"\n  {marker} {l.span}{remark}"

/-- The printed form: a head line, then labels, notes and suggestions, one line each. -/
def text (d : Diagnostic) : String :=
  s!"error [{d.code.text}]: {d.message}" ++ String.join (d.labels.map labelLine) ++
    String.join (d.notes.map fun note => "\n  = note: " ++ note) ++
    String.join (d.suggestions.map fun suggestion => "\n  = help: " ++ suggestion)

end Diagnostic

/-- The printed form of several diagnostics. -/
def diagnosticsText (ds : List Diagnostic) : String :=
  "\n".intercalate (ds.map Diagnostic.text)

end SeqCalc
