import SeqCalc.Program.Workspace

/-!
# Drafting a program

A draft takes a program down call by call: each call that makes an expression answers with its
node, which later calls may refer to.  A span set once holds for everything after it.
-/

namespace SeqCalc

/-- A program in the making. -/
structure Draft where
  workspace : Workspace
  stmts : Array StmtNode
  span : Span
deriving Inhabited

namespace Draft

def empty : Draft :=
  ⟨.empty, #[], .nowhere⟩

/-- The span of what follows. -/
def setSpan (d : Draft) (span : Span) : Draft :=
  { d with span := span }

/-- A node of the given kind at the current span. -/
def node (d : Draft) (kind : NodeKind) : NodeId × Draft :=
  let (id, workspace) := d.workspace.alloc ⟨kind, d.span⟩
  (id, { d with workspace := workspace })

def ident (d : Draft) (text : String) : NodeId × Draft :=
  let (name, workspace) := d.workspace.intern text
  { d with workspace := workspace }.node (.ident name)

def lambda (d : Draft) (params : List String) (body : NodeId) : NodeId × Draft :=
  let (names, workspace) := d.workspace.internAll params
  let (range, workspace) := workspace.allocParams names
  { d with workspace := workspace }.node (.lambda range body)

/-- A statement that binds `text`. -/
def define (d : Draft) (text : String) (value : NodeId) : Draft :=
  let (name, workspace) := d.workspace.intern text
  { d with workspace := workspace, stmts := d.stmts.push ⟨.define name value, d.span⟩ }

/-- A statement that prints. -/
def print (d : Draft) (value : NodeId) : Draft :=
  { d with stmts := d.stmts.push ⟨.print value, d.span⟩ }

/-- The program drafted so far. -/
def program (d : Draft) : Program :=
  ⟨d.workspace.arena, d.stmts⟩

/-! ## Calls as data -/

/-- One call of a draft.  Calls that make no expression answer with no node. -/
inductive Call where
  | span (span : Span)
  | int (value : Int64)
  | float (bits : UInt64)
  | ident (text : String)
  | binary (op : BinaryOp) (left right : NodeId)
  | unary (op : UnaryOp) (operand : NodeId)
  | range (first last : NodeId)
  | lambda (params : List String) (body : NodeId)
  | map (seq function : NodeId)
  | reduce (seq neutral function : NodeId)
  | define (text : String) (value : NodeId)
  | print (value : NodeId)
deriving DecidableEq, Repr

/-- Carry a call out. -/
def apply (d : Draft) : Call → Option NodeId × Draft
  | .span span => (none, d.setSpan span)
  | .int value => answer (d.node (.int value))
  | .float bits => answer (d.node (.float bits))
  | .ident text => answer (d.ident text)
  | .binary op left right => answer (d.node (.binary op left right))
  | .unary op operand => answer (d.node (.unary op operand))
  | .range first last => answer (d.node (.range first last))
  | .lambda params body => answer (d.lambda params body)
  | .map seq function => answer (d.node (.map seq function))
  | .reduce seq neutral function => answer (d.node (.reduce seq neutral function))
  | .define text value => (none, d.define text value)
  | .print value => (none, d.print value)
where
  answer (r : NodeId × Draft) : Option NodeId × Draft :=
    (some r.1, r.2)

/-- Carry calls out one after the other. -/
def run (d : Draft) (calls : List Call) : Draft :=
  calls.foldl (fun d call => (d.apply call).2) d

end Draft

/-- The program that a sequence of calls drafts. -/
def Program.ofCalls (calls : List Draft.Call) : Program :=
  (Draft.empty.run calls).program

end SeqCalc
