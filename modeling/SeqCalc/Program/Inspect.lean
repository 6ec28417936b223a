import SeqCalc.Text.Quoted
import SeqCalc.Program.Arena

/-!
# Developer forms of program parts

How references, nodes and arenas show themselves to a developer.  These texts are for looking at;
the interchange form is the one that reads back.
-/

namespace SeqCalc

def NodeId.inspect (id : NodeId) : String :=
  s!"ExprId({id.toNat})"

def NameId.inspect (id : NameId) : String :=
  s!"Name({id.toNat})"

def ParamRange.inspect (r : ParamRange) : String :=
  s!"ParamRange({r.start.toNat}..{r.stop})"

/-- A record with its tag and its fields, in order. -/
def inspectRecord (tag : String) (fields : List (String × String)) : String :=
  let body := ", ".intercalate (fields.map fun f => f.1 ++ ": " ++ f.2)
  tag ++ " \x7b " ++ body ++ " \x7d"

def BinaryOp.inspect : BinaryOp → String
  | .add => "Add"
  | .sub => "Sub"
  | .mul => "Mul"
  | .div => "Div"
  | .pow => "Pow"

def UnaryOp.inspect : UnaryOp → String
  | .neg => "Neg"
  | .plus => "Plus"

def NodeKind.inspect : NodeKind → String
  | .int value => s!"Int({value.toInt})"
  | .float bits => s!"Float({bits.toNat})"
  | .ident name => s!"Ident({name.inspect})"
  | .binary op left right =>
    inspectRecord "Binary" [("op", op.inspect), ("left", left.inspect), ("right", right.inspect)]
  | .unary op operand => inspectRecord "Unary" [("op", op.inspect), ("operand", operand.inspect)]
  | .range first last => inspectRecord "Range" [("start", first.inspect), ("end", last.inspect)]
  | .map seq function =>
    inspectRecord "Map" [("seq", seq.inspect), ("lambda", function.inspect)]
  | .reduce seq neutral function =>
    inspectRecord "Reduce"
      [("seq", seq.inspect), ("neutral", neutral.inspect), ("lambda", function.inspect)]
  | .lambda params body =>
    inspectRecord "Lambda" [("params", params.inspect), ("body", body.inspect)]

/-- A node and its span. -/
def Node.inspect (n : Node) : String :=
  s!"{n.kind.inspect} @ {n.span}"

/-- The size of an arena and its names. -/
def Arena.inspect (a : Arena) : String :=
  let names := ", ".intercalate (a.names.toList.map Quoted.text)
  "ExprArena \x7b exprs: " ++ toString a.nodes.size ++ ", names: [" ++ names ++ "], .. \x7d"

end SeqCalc
