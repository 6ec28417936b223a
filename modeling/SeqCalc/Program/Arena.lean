import SeqCalc.Program.Operator
import SeqCalc.Program.Span

/-!
# Programs as tables

A program is held in tables: its expression nodes, its names, and the parameter lists of its
lambdas.  Nodes refer to each other, to names and to parameters by position.  Nothing here says
that the positions exist; that is what validation is for.
-/

namespace SeqCalc

/-! ## References -/

/-- Position of a node in the node table. -/
structure NodeId where
  index : UInt32
deriving DecidableEq, Repr, Inhabited

/-- Position of a text in the name table. -/
structure NameId where
  index : UInt32
deriving DecidableEq, Repr, Inhabited

/-- A run of `count` entries of the parameter table. -/
structure ParamRange where
  start : UInt32
  count : UInt16
deriving DecidableEq, Repr, Inhabited

def NodeId.toNat (id : NodeId) : Nat :=
  id.index.toNat

def NameId.toNat (id : NameId) : Nat :=
  id.index.toNat

/-- One past the last entry. -/
def ParamRange.stop (r : ParamRange) : Nat :=
  r.start.toNat + r.count.toNat

/-! ## Nodes -/

/-- What a node is, with its children as references. -/
inductive NodeKind where
  | int (value : Int64)
  /-- A float literal, by its bit pattern. -/
  | float (bits : UInt64)
  | ident (name : NameId)
  | binary (op : BinaryOp) (left right : NodeId)
  | unary (op : UnaryOp) (operand : NodeId)
  /-- All integers from `first` to `last`, both included. -/
  | range (first last : NodeId)
  | map (seq function : NodeId)
  | reduce (seq neutral function : NodeId)
  /-- A function literal, allowed as the last operand of `map` and `reduce` only. -/
  | lambda (params : ParamRange) (body : NodeId)
deriving DecidableEq, Repr, Inhabited

/-- The nodes that a node refers to, from left to right. -/
def NodeKind.children : NodeKind → List NodeId
  | .int _ | .float _ | .ident _ => []
  | .unary _ operand => [operand]
  | .lambda _ body => [body]
  | .binary _ left right => [left, right]
  | .range first last => [first, last]
  | .map seq function => [seq, function]
  | .reduce seq neutral function => [seq, neutral, function]

structure Node where
  kind : NodeKind
  span : Span
deriving DecidableEq, Repr, Inhabited

/-- The three tables. -/
structure Arena where
  nodes : Array Node
  names : Array String
  params : Array NameId
deriving DecidableEq, Repr, Inhabited

namespace Arena

def empty : Arena :=
  ⟨#[], #[], #[]⟩

/-- The text of a name, and a placeholder for a name that the table does not have. -/
def name (a : Arena) (n : NameId) : String :=
  a.names.getD n.toNat "<?>"

/-- The entries of a parameter range, and none when the range leaves the table. -/
def paramNames (a : Arena) (r : ParamRange) : List NameId :=
  if r.stop ≤ a.params.size then (a.params.toList.drop r.start.toNat).take r.count.toNat else []

end Arena

/-! ## Statements and programs -/

inductive StmtKind where
  /-- Bind a name to the value of a node, silently. -/
  | define (name : NameId) (value : NodeId)
  /-- Print the value of a node. -/
  | print (value : NodeId)
deriving DecidableEq, Repr, Inhabited

def StmtKind.value : StmtKind → NodeId
  | .define _ value => value
  | .print value => value

structure StmtNode where
  kind : StmtKind
  span : Span
deriving DecidableEq, Repr, Inhabited

/-- Statements, in order, over one arena. -/
structure Program where
  arena : Arena
  stmts : Array StmtNode
deriving DecidableEq, Repr, Inhabited

/-- A problem that the reader of the program text reports. -/
structure SyntaxError where
  span : Span
  message : String
deriving DecidableEq, Repr, Inhabited

/-- What the reader of a program text hands over: a program, or why there is none. -/
inductive ParseOutcome where
  | program (p : Program)
  | syntaxErrors (errors : List SyntaxError)
deriving DecidableEq, Repr, Inhabited

end SeqCalc
