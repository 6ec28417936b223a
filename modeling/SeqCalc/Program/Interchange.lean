import SeqCalc.Json.Printer
import SeqCalc.Json.Reader
import SeqCalc.Program.Arena

/-!
# Interchange of programs

The JSON form of programs.  Records are objects, choices are objects with one member, references
are numbers.  Reading takes fields in any order and ignores fields it does not know; writing keeps
the order given here.
-/

namespace SeqCalc

open Json (ofMembers str nat)

/-! ## Spans and references -/

def Span.toJson (s : Span) : Json :=
  ofMembers [("start", nat s.start.toNat), ("end", nat s.stop.toNat)]

def Span.ofJson? (j : Json) : Option Span := do
  match ← j.record? ["start", "end"] with
  | [start, stop] => return ⟨← start.uint32?, ← stop.uint32?⟩
  | _ => none

def NodeId.toJson (id : NodeId) : Json :=
  nat id.toNat

def NodeId.ofJson? (j : Json) : Option NodeId :=
  j.uint32?.map NodeId.mk

def NameId.toJson (id : NameId) : Json :=
  nat id.toNat

def NameId.ofJson? (j : Json) : Option NameId :=
  j.uint32?.map NameId.mk

def ParamRange.toJson (r : ParamRange) : Json :=
  ofMembers [("start", nat r.start.toNat), ("len", nat r.count.toNat)]

def ParamRange.ofJson? (j : Json) : Option ParamRange := do
  match ← j.record? ["start", "len"] with
  | [start, count] => return ⟨← start.uint32?, ← count.uint16?⟩
  | _ => none

/-! ## Operators -/

/-- The tag of an operator. -/
def BinaryOp.tag : BinaryOp → String
  | .add => "Add"
  | .sub => "Sub"
  | .mul => "Mul"
  | .div => "Div"
  | .pow => "Pow"

def BinaryOp.ofJson? (j : Json) : Option BinaryOp :=
  match j.tag? with
  | some "Add" => some .add
  | some "Sub" => some .sub
  | some "Mul" => some .mul
  | some "Div" => some .div
  | some "Pow" => some .pow
  | _ => none

def UnaryOp.tag : UnaryOp → String
  | .neg => "Neg"
  | .plus => "Plus"

def UnaryOp.ofJson? (j : Json) : Option UnaryOp :=
  match j.tag? with
  | some "Neg" => some .neg
  | some "Plus" => some .plus
  | _ => none

/-! ## Nodes -/

def NodeKind.toJson : NodeKind → Json
  | .int value => ofMembers [("Int", .int value.toInt)]
  | .float bits => ofMembers [("Float", nat bits.toNat)]
  | .ident name => ofMembers [("Ident", name.toJson)]
  | .binary op left right =>
    ofMembers [("Binary",
      ofMembers [("op", str op.tag), ("left", left.toJson), ("right", right.toJson)])]
  | .unary op operand =>
    ofMembers [("Unary", ofMembers [("op", str op.tag), ("operand", operand.toJson)])]
  | .range first last =>
    ofMembers [("Range", ofMembers [("start", first.toJson), ("end", last.toJson)])]
  | .map seq function =>
    ofMembers [("Map", ofMembers [("seq", seq.toJson), ("lambda", function.toJson)])]
  | .reduce seq neutral function =>
    ofMembers [("Reduce",
      ofMembers [("seq", seq.toJson), ("neutral", neutral.toJson), ("lambda", function.toJson)])]
  | .lambda params body =>
    ofMembers [("Lambda", ofMembers [("params", params.toJson), ("body", body.toJson)])]

def NodeKind.ofJson? (j : Json) : Option NodeKind := do
  match ← j.tagged? with
  | ("Int", value) => return .int (← value.int64?)
  | ("Float", bits) => return .float (← bits.uint64?)
  | ("Ident", name) => return .ident (← NameId.ofJson? name)
  | ("Binary", body) =>
    match ← body.record? ["op", "left", "right"] with
    | [op, left, right] =>
      return .binary (← BinaryOp.ofJson? op) (← NodeId.ofJson? left) (← NodeId.ofJson? right)
    | _ => none
  | ("Unary", body) =>
    match ← body.record? ["op", "operand"] with
    | [op, operand] => return .unary (← UnaryOp.ofJson? op) (← NodeId.ofJson? operand)
    | _ => none
  | ("Range", body) =>
    match ← body.record? ["start", "end"] with
    | [first, last] => return .range (← NodeId.ofJson? first) (← NodeId.ofJson? last)
    | _ => none
  | ("Map", body) =>
    match ← body.record? ["seq", "lambda"] with
    | [seq, function] => return .map (← NodeId.ofJson? seq) (← NodeId.ofJson? function)
    | _ => none
  | ("Reduce", body) =>
    match ← body.record? ["seq", "neutral", "lambda"] with
    | [seq, neutral, function] =>
      return .reduce (← NodeId.ofJson? seq) (← NodeId.ofJson? neutral) (← NodeId.ofJson? function)
    | _ => none
  | ("Lambda", body) =>
    match ← body.record? ["params", "body"] with
    | [params, body] => return .lambda (← ParamRange.ofJson? params) (← NodeId.ofJson? body)
    | _ => none
  | _ => none

def Node.toJson (n : Node) : Json :=
  ofMembers [("kind", n.kind.toJson), ("span", n.span.toJson)]

def Node.ofJson? (j : Json) : Option Node := do
  match ← j.record? ["kind", "span"] with
  | [kind, span] => return ⟨← NodeKind.ofJson? kind, ← Span.ofJson? span⟩
  | _ => none

/-! ## Arenas and programs -/

def Arena.toJson (a : Arena) : Json :=
  ofMembers [("exprs", .array (a.nodes.toList.map Node.toJson)),
    ("names", .array (a.names.toList.map str)),
    ("params", .array (a.params.toList.map NameId.toJson))]

def Arena.ofJson? (j : Json) : Option Arena := do
  match ← j.record? ["exprs", "names", "params"] with
  | [nodes, names, params] =>
    return ⟨(← nodes.list? Node.ofJson?).toArray, (← names.list? Json.str?).toArray,
      (← params.list? NameId.ofJson?).toArray⟩
  | _ => none

def StmtKind.toJson : StmtKind → Json
  | .define name value =>
    ofMembers [("VarDef", ofMembers [("name", name.toJson), ("value", value.toJson)])]
  | .print value => ofMembers [("Expr", value.toJson)]

def StmtKind.ofJson? (j : Json) : Option StmtKind := do
  match ← j.tagged? with
  | ("VarDef", body) =>
    match ← body.record? ["name", "value"] with
    | [name, value] => return .define (← NameId.ofJson? name) (← NodeId.ofJson? value)
    | _ => none
  | ("Expr", value) => return .print (← NodeId.ofJson? value)
  | _ => none

def StmtNode.toJson (s : StmtNode) : Json :=
  ofMembers [("kind", s.kind.toJson), ("span", s.span.toJson)]

def StmtNode.ofJson? (j : Json) : Option StmtNode := do
  match ← j.record? ["kind", "span"] with
  | [kind, span] => return ⟨← StmtKind.ofJson? kind, ← Span.ofJson? span⟩
  | _ => none

def Program.toJson (p : Program) : Json :=
  ofMembers [("arena", p.arena.toJson), ("stmts", .array (p.stmts.toList.map StmtNode.toJson))]

def Program.ofJson? (j : Json) : Option Program := do
  match ← j.record? ["arena", "stmts"] with
  | [arena, stmts] =>
    return ⟨← Arena.ofJson? arena, (← stmts.list? StmtNode.ofJson?).toArray⟩
  | _ => none

def SyntaxError.toJson (e : SyntaxError) : Json :=
  ofMembers [("span", e.span.toJson), ("message", str e.message)]

def SyntaxError.ofJson? (j : Json) : Option SyntaxError := do
  match ← j.record? ["span", "message"] with
  | [span, message] => return ⟨← Span.ofJson? span, ← message.str?⟩
  | _ => none

/-! ## Outcomes -/

def ParseOutcome.toJson : ParseOutcome → Json
  | .program p => ofMembers [("program", p.toJson)]
  | .syntaxErrors errors => ofMembers [("syntax_errors", .array (errors.map SyntaxError.toJson))]

def ParseOutcome.ofJson? (j : Json) : Option ParseOutcome := do
  match ← j.tagged? with
  | ("program", p) => return .program (← Program.ofJson? p)
  | ("syntax_errors", errors) => return .syntaxErrors (← errors.list? SyntaxError.ofJson?)
  | _ => none

/-- The interchange text of an outcome. -/
def ParseOutcome.print (o : ParseOutcome) : String :=
  o.toJson.print

/-- The outcome that an interchange text stands for. -/
def ParseOutcome.parse? (text : String) : Option ParseOutcome :=
  (Json.parse? text).bind ParseOutcome.ofJson?

end SeqCalc
