import SeqCalc.Program.Interchange
import SeqCalc.Proofs.Json.Reading

/-!
# Programs survive interchange

Whatever an outcome holds, valid or not, its interchange text reads back as the same outcome.  Each
kind of datum has a form with a text of its own, and that form reads back as the datum; records,
choices and lists take this over from their parts.

Main results:

- `Json.record?_zip`: the fields of a record read back in order.
- `Json.Lawful.list`: lists of data that read back do so too.
- `ParseOutcome.parse?_print`: the interchange text of an outcome reads as that outcome.
-/

namespace SeqCalc

namespace Json

/-! ## Forms that read back -/

/-- Each datum has a form with a text of its own, and the form reads back as the datum. -/
structure Lawful {α : Type} (toJson : α → Json) (ofJson? : Json → Option α) : Prop where
  plain (a : α) : (toJson a).Plain
  ofJson?_toJson (a : α) : ofJson? (toJson a) = some a

/-- What is written as the text of its form reads back. -/
theorem Lawful.bind_parse?_print {α : Type} {toJson : α → Json} {ofJson? : Json → Option α}
    (h : Lawful toJson ofJson?) (a : α) :
    Json.parse? (toJson a).print = some (toJson a) ∧
      (Json.parse? (toJson a).print).bind ofJson? = some a := by
  have hparse := (h.plain a).parse?_eq_some
  exact ⟨hparse, by rw [hparse, Option.bind_some, h.ofJson?_toJson]⟩

theorem mapM_map_eq_some {α β γ : Type} {f : α → β} {g : β → Option γ} {k : α → γ} {xs : List α}
    (h : ∀ a ∈ xs, g (f a) = some (k a)) : (xs.map f).mapM g = some (xs.map k) := by
  induction xs with
  | nil => rfl
  | cons x xs ih =>
    have hrest := ih fun a ha => h a (List.mem_cons_of_mem x ha)
    simp [List.mapM_cons, h x List.mem_cons_self, hrest]

/-- Lists of data that read back do so too. -/
theorem Lawful.list {α : Type} {toJson : α → Json} {ofJson? : Json → Option α}
    (h : Lawful toJson ofJson?) :
    Lawful (fun xs => .array (xs.map toJson)) (list? ofJson?) where
  plain xs := by
    refine .array fun j hj => ?_
    rcases List.mem_map.1 hj with ⟨a, -, rfl⟩
    exact h.plain a
  ofJson?_toJson xs := by
    have hread : (xs.map toJson).mapM ofJson? = some (xs.map id) :=
      mapM_map_eq_some fun a _ => h.ofJson?_toJson a
    simpa [list?, items?] using hread

/-! ## Records and choices -/

/-- A key that occurs once leads to its value. -/
theorem only?_of_mem {members : List (String × Json)} (hnodup : (members.map Prod.fst).Nodup)
    {m : String × Json} (hm : m ∈ members) : only? m.1 (keyed members) = some m.2 := by
  have hvalues : valuesOf m.1 (keyed members) = [m.2] := by
    induction members with
    | nil => contradiction
    | cons head members ih =>
      rw [List.map_cons, List.nodup_cons] at hnodup
      rcases List.mem_cons.1 hm with rfl | hm
      · have hrest : valuesOf m.1 (keyed members) = [] := by
          simp only [valuesOf, keyed, List.map_eq_nil_iff, List.filter_eq_nil_iff, List.mem_map]
          rintro _ ⟨other, hother, rfl⟩ hsame
          simp only [beq_iff_eq, Option.some.injEq] at hsame
          exact hnodup.1 (hsame ▸ List.mem_map_of_mem hother)
        simpa [valuesOf, keyed] using hrest
      · have hne : head.1 ≠ m.1 := fun heq => hnodup.1 (heq ▸ List.mem_map_of_mem hm)
        have hrest := ih hnodup.2 hm
        simpa [valuesOf, keyed, hne] using hrest
  rw [only?, hvalues]

/-- The fields of a record read back in order. -/
theorem record?_zip (names : List String) (fields : List Json) (hnodup : names.Nodup)
    (hlength : names.length = fields.length) :
    (ofMembers (names.zip fields)).record? names = some fields := by
  have hnames : (names.zip fields).map Prod.fst = names := List.map_fst_zip (Nat.le_of_eq hlength)
  have hfields : (names.zip fields).map Prod.snd = fields :=
    List.map_snd_zip (Nat.le_of_eq hlength.symm)
  have hkeys : (keyed (names.zip fields)).all (fun m => m.1.isSome) = true := by simp [keyed]
  have hread : ((names.zip fields).map Prod.fst).mapM
      (fun name => only? name (keyed (names.zip fields))) =
        some ((names.zip fields).map Prod.snd) :=
    mapM_map_eq_some fun m hm => only?_of_mem (hnames.symm ▸ hnodup) hm
  rw [hnames, hfields] at hread
  change (if (keyed (names.zip fields)).all fun m => m.1.isSome then
    names.mapM fun name => only? name (keyed (names.zip fields)) else none) = _
  rw [if_pos hkeys]
  exact hread

theorem record?_pair {name₁ name₂ : String} (h : name₁ ≠ name₂) (j₁ j₂ : Json) :
    (ofMembers [(name₁, j₁), (name₂, j₂)]).record? [name₁, name₂] = some [j₁, j₂] :=
  record?_zip [name₁, name₂] [j₁, j₂] (by simpa using h) rfl

theorem record?_triple {name₁ name₂ name₃ : String} (h₁₂ : name₁ ≠ name₂) (h₁₃ : name₁ ≠ name₃)
    (h₂₃ : name₂ ≠ name₃) (j₁ j₂ j₃ : Json) :
    (ofMembers [(name₁, j₁), (name₂, j₂), (name₃, j₃)]).record? [name₁, name₂, name₃] =
      some [j₁, j₂, j₃] :=
  record?_zip [name₁, name₂, name₃] [j₁, j₂, j₃] (by simp [h₁₂, h₁₃, h₂₃]) rfl

/-- A choice is told by its tag. -/
@[simp]
theorem tagged?_ofMembers (tag : String) (payload : Json) :
    (ofMembers [(tag, payload)]).tagged? = some (tag, payload) :=
  rfl

theorem plain_tagged (tag : String) {payload : Json} (h : payload.Plain) :
    (ofMembers [(tag, payload)]).Plain :=
  .object (by simpa using h)

/-! ## Words -/

theorem natBelow?_nat {n bound : Nat} (h : n < bound) : (nat n).natBelow? bound = some n := by
  simp [natBelow?, nat, h]

theorem lawful_uint16 : Lawful (fun n : UInt16 => nat n.toNat) uint16? where
  plain n := .int _
  ofJson?_toJson n := by simp [uint16?, natBelow?_nat n.toNat_lt_size]

theorem lawful_uint32 : Lawful (fun n : UInt32 => nat n.toNat) uint32? where
  plain n := .int _
  ofJson?_toJson n := by simp [uint32?, natBelow?_nat n.toNat_lt_size]

theorem lawful_uint64 : Lawful (fun n : UInt64 => nat n.toNat) uint64? where
  plain n := .int _
  ofJson?_toJson n := by simp [uint64?, natBelow?_nat n.toNat_lt_size]

theorem lawful_int64 : Lawful (fun n : Int64 => int n.toInt) int64? where
  plain n := .int _
  ofJson?_toJson n := by
    have hrange : Int64.minValue.toInt ≤ n.toInt ∧ n.toInt ≤ Int64.maxValue.toInt :=
      ⟨n.le_toInt, n.toInt_le⟩
    simp only [int64?, int?, Option.bind_some, if_pos hrange, Int64.ofInt_toInt]

theorem lawful_str : Lawful str str? where
  plain := .str
  ofJson?_toJson _ := rfl

end Json

open Json

/-! ## Spans and references -/

theorem Span.lawful : Lawful Span.toJson Span.ofJson? where
  plain s := .object (by simp [lawful_uint32.plain])
  ofJson?_toJson s := by
    simp [Span.toJson, Span.ofJson?, record?_pair, lawful_uint32.ofJson?_toJson]

theorem NodeId.lawful : Lawful NodeId.toJson NodeId.ofJson? where
  plain id := lawful_uint32.plain id.index
  ofJson?_toJson id := by
    simp [NodeId.ofJson?, NodeId.toJson, NodeId.toNat, lawful_uint32.ofJson?_toJson]

theorem NameId.lawful : Lawful NameId.toJson NameId.ofJson? where
  plain id := lawful_uint32.plain id.index
  ofJson?_toJson id := by
    simp [NameId.ofJson?, NameId.toJson, NameId.toNat, lawful_uint32.ofJson?_toJson]

theorem ParamRange.lawful : Lawful ParamRange.toJson ParamRange.ofJson? where
  plain r := .object (by simp [lawful_uint32.plain, lawful_uint16.plain])
  ofJson?_toJson r := by
    simp [ParamRange.toJson, ParamRange.ofJson?, record?_pair, lawful_uint32.ofJson?_toJson,
      lawful_uint16.ofJson?_toJson]

/-! ## Nodes and statements -/

theorem BinaryOp.lawful : Lawful (fun op : BinaryOp => str op.tag) BinaryOp.ofJson? where
  plain op := .str op.tag
  ofJson?_toJson op := by cases op <;> rfl

theorem UnaryOp.lawful : Lawful (fun op : UnaryOp => str op.tag) UnaryOp.ofJson? where
  plain op := .str op.tag
  ofJson?_toJson op := by cases op <;> rfl

theorem NodeKind.lawful : Lawful NodeKind.toJson NodeKind.ofJson? where
  plain k := by
    cases k with
    | int value => exact plain_tagged _ (lawful_int64.plain value)
    | float bits => exact plain_tagged _ (lawful_uint64.plain bits)
    | ident name => exact plain_tagged _ (NameId.lawful.plain name)
    | binary op left right =>
      exact plain_tagged _ (.object (by simp [BinaryOp.lawful.plain, NodeId.lawful.plain]))
    | unary op operand =>
      exact plain_tagged _ (.object (by simp [UnaryOp.lawful.plain, NodeId.lawful.plain]))
    | range _ _ | map _ _ | reduce _ _ _ =>
      exact plain_tagged _ (.object (by simp [NodeId.lawful.plain]))
    | lambda params body =>
      exact plain_tagged _ (.object (by simp [ParamRange.lawful.plain, NodeId.lawful.plain]))
  ofJson?_toJson k := by
    cases k with
    | int value => simp [NodeKind.toJson, NodeKind.ofJson?, lawful_int64.ofJson?_toJson]
    | float bits => simp [NodeKind.toJson, NodeKind.ofJson?, lawful_uint64.ofJson?_toJson]
    | ident name => simp [NodeKind.toJson, NodeKind.ofJson?, NameId.lawful.ofJson?_toJson]
    | binary op left right =>
      simp [NodeKind.toJson, NodeKind.ofJson?, record?_triple, BinaryOp.lawful.ofJson?_toJson,
        NodeId.lawful.ofJson?_toJson]
    | unary op operand =>
      simp [NodeKind.toJson, NodeKind.ofJson?, record?_pair, UnaryOp.lawful.ofJson?_toJson,
        NodeId.lawful.ofJson?_toJson]
    | range _ _ | map _ _ | reduce _ _ _ =>
      simp [NodeKind.toJson, NodeKind.ofJson?, record?_pair, record?_triple,
        NodeId.lawful.ofJson?_toJson]
    | lambda params body =>
      simp [NodeKind.toJson, NodeKind.ofJson?, record?_pair, ParamRange.lawful.ofJson?_toJson,
        NodeId.lawful.ofJson?_toJson]

theorem Node.lawful : Lawful Node.toJson Node.ofJson? where
  plain n := .object (by simp [NodeKind.lawful.plain, Span.lawful.plain])
  ofJson?_toJson n := by
    simp [Node.toJson, Node.ofJson?, record?_pair, NodeKind.lawful.ofJson?_toJson,
      Span.lawful.ofJson?_toJson]

theorem StmtKind.lawful : Lawful StmtKind.toJson StmtKind.ofJson? where
  plain k := by
    cases k with
    | define name value =>
      exact plain_tagged _ (.object (by simp [NameId.lawful.plain, NodeId.lawful.plain]))
    | print value => exact plain_tagged _ (NodeId.lawful.plain value)
  ofJson?_toJson k := by
    cases k with
    | define name value =>
      simp [StmtKind.toJson, StmtKind.ofJson?, record?_pair, NameId.lawful.ofJson?_toJson,
        NodeId.lawful.ofJson?_toJson]
    | print value => simp [StmtKind.toJson, StmtKind.ofJson?, NodeId.lawful.ofJson?_toJson]

theorem StmtNode.lawful : Lawful StmtNode.toJson StmtNode.ofJson? where
  plain s := .object (by simp [StmtKind.lawful.plain, Span.lawful.plain])
  ofJson?_toJson s := by
    simp [StmtNode.toJson, StmtNode.ofJson?, record?_pair, StmtKind.lawful.ofJson?_toJson,
      Span.lawful.ofJson?_toJson]

theorem SyntaxError.lawful : Lawful SyntaxError.toJson SyntaxError.ofJson? where
  plain e := .object (by simp [Span.lawful.plain, lawful_str.plain])
  ofJson?_toJson e := by
    simp [SyntaxError.toJson, SyntaxError.ofJson?, record?_pair, Span.lawful.ofJson?_toJson,
      lawful_str.ofJson?_toJson]

/-! ## Outcomes -/

theorem Arena.lawful : Lawful Arena.toJson Arena.ofJson? where
  plain a := .object (by
    simp [Node.lawful.list.plain a.nodes.toList, lawful_str.list.plain a.names.toList,
      NameId.lawful.list.plain a.params.toList])
  ofJson?_toJson a := by
    simp [Arena.toJson, Arena.ofJson?, record?_triple,
      Node.lawful.list.ofJson?_toJson a.nodes.toList, lawful_str.list.ofJson?_toJson a.names.toList,
      NameId.lawful.list.ofJson?_toJson a.params.toList]

theorem Program.lawful : Lawful Program.toJson Program.ofJson? where
  plain p := .object (by
    simp [Arena.lawful.plain, StmtNode.lawful.list.plain p.stmts.toList])
  ofJson?_toJson p := by
    simp [Program.toJson, Program.ofJson?, record?_pair, Arena.lawful.ofJson?_toJson,
      StmtNode.lawful.list.ofJson?_toJson p.stmts.toList]

theorem ParseOutcome.lawful : Lawful ParseOutcome.toJson ParseOutcome.ofJson? where
  plain o := by
    cases o with
    | program p => exact plain_tagged _ (Program.lawful.plain p)
    | syntaxErrors errors => exact plain_tagged _ (SyntaxError.lawful.list.plain errors)
  ofJson?_toJson o := by
    cases o with
    | program p => simp [ParseOutcome.toJson, ParseOutcome.ofJson?, Program.lawful.ofJson?_toJson]
    | syntaxErrors errors =>
      simp [ParseOutcome.toJson, ParseOutcome.ofJson?,
        SyntaxError.lawful.list.ofJson?_toJson errors]

/--
The interchange text of an outcome is the strict JSON text of its form, it reads as that outcome,
and what was read is written as the same text.
-/
theorem ParseOutcome.parse?_print (o : ParseOutcome) :
    Json.parse? o.print = some o.toJson ∧
      ParseOutcome.parse? o.print = some o ∧
      (ParseOutcome.parse? o.print).map ParseOutcome.print = some o.print := by
  rcases ParseOutcome.lawful.bind_parse?_print o with ⟨hjson, hread⟩
  refine ⟨hjson, hread, ?_⟩
  rw [show ParseOutcome.parse? o.print = some o from hread, Option.map_some]

end SeqCalc
