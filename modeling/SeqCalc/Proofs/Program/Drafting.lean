import SeqCalc.Program.Draft
import SeqCalc.Proofs.Program.Growth
import SeqCalc.Proofs.Program.Interning

/-!
# Drafts are faithful

What calls describe can be told without tables: a call that makes an expression puts together the
expressions of the nodes that it refers to, and these were answers to earlier calls.  The tables of
a draft hold what has been described, and since later calls only append to them, they hold it in the
finished program as well.

Main results:

- `Draft.Represents.apply`: a call adds to the tables what it describes.
- `Draft.faithful`: the finished program is sound and holds what the calls describe.
-/

namespace SeqCalc

/-! ## Names and parameter lists -/

/-- No table has more entries than references can tell apart. -/
structure Arena.Fits (a : Arena) : Prop where
  nodes_lt : a.nodes.size < UInt32.size
  names_lt : a.names.size < UInt32.size
  params_lt : a.params.size < UInt32.size

theorem Arena.Extends.fits {a b : Arena} (h : a.Extends b) (hb : b.Fits) : a.Fits :=
  ⟨Nat.lt_of_le_of_lt (Arena.size_le_of_initial h.nodes) hb.nodes_lt,
    Nat.lt_of_le_of_lt (Arena.size_le_of_initial h.names) hb.names_lt,
    Nat.lt_of_le_of_lt (Arena.size_le_of_initial h.params) hb.params_lt⟩

/-- How many entries the tables have in all. -/
def Arena.entries (a : Arena) : Nat :=
  a.nodes.size + a.names.size + a.params.size

theorem Arena.fits_of_entries_lt {a : Arena} (h : a.entries < UInt32.size) : a.Fits := by
  unfold Arena.entries at h
  exact ⟨by omega, by omega, by omega⟩

theorem Arena.entries_withNode (a : Arena) (node : Node) :
    (a.withNode node).entries = a.entries + 1 := by
  simp only [Arena.entries, Arena.withNode, Array.size_push]
  omega

namespace Workspace

variable {w : Workspace}

theorem Ready.extends_internAll (h : w.Ready) (texts : List String) :
    w.arena.Extends (w.internAll texts).2.arena := by
  rw [h.arena_internAll texts]
  refine ⟨List.prefix_rfl, ?_, List.prefix_rfl⟩
  simp

theorem Ready.nodes_internAll (h : w.Ready) (texts : List String) :
    (w.internAll texts).2.arena.nodes = w.arena.nodes := by
  rw [h.arena_internAll texts]

/-- The answer to an interned text is a name of the table, and its text. -/
theorem Ready.name_intern (h : w.Ready) {text : String}
    (hsize : (w.intern text).2.arena.names.size < UInt32.size) :
    (w.intern text).1.toNat < (w.intern text).2.arena.names.size ∧
      (w.intern text).2.arena.name (w.intern text).1 = text := by
  have hlast := h.lastAt_intern hsize
  refine ⟨?_, Arena.name_of_lastAt hlast⟩
  rw [← Array.length_toList]
  exact (List.getElem?_eq_some_iff.1 hlast.getElem?).1

/-- The answers to interned texts are names of the table, and these are their texts. -/
theorem Ready.names_internAll (h : w.Ready) {texts : List String}
    (hsize : (w.internAll texts).2.arena.names.size < UInt32.size) :
    (∀ name ∈ (w.internAll texts).1, name.toNat < (w.internAll texts).2.arena.names.size) ∧
      (w.internAll texts).1.map (w.internAll texts).2.arena.name = texts := by
  induction texts generalizing w with
  | nil => exact ⟨by simp [Workspace.internAll], rfl⟩
  | cons text texts ih =>
    have hext := (h.intern text).extends_internAll texts
    rcases h.name_intern (Nat.lt_of_le_of_lt (Arena.size_le_of_initial hext.names) hsize) with
      ⟨hlt, hname⟩
    rcases ih (h.intern text) hsize with ⟨hlts, hnames⟩
    refine ⟨List.forall_mem_cons.2 ⟨?_, hlts⟩, ?_⟩
    · exact Nat.lt_of_lt_of_le hlt (Arena.size_le_of_initial hext.names)
    · exact congrArg₂ List.cons ((hext.name_eq hlt).trans hname) hnames

theorem extends_allocParams (w : Workspace) (names : List NameId) :
    w.arena.Extends (w.allocParams names).2.arena := by
  refine ⟨List.prefix_rfl, List.prefix_rfl, ?_⟩
  rw [allocParams_params]
  simp

/-- A stored parameter list is found again, if its length can be counted. -/
theorem paramNames_allocParams {names : List NameId} (hsize : w.arena.params.size < UInt32.size)
    (hlength : names.length ≤ 65535) :
    (w.allocParams names).1.stop ≤ (w.allocParams names).2.arena.params.size ∧
      (w.allocParams names).2.arena.paramNames (w.allocParams names).1 = names := by
  have hstart : (w.allocParams names).1.start.toNat = w.arena.params.size :=
    Arena.toNat_tableIndex hsize
  have hcount : (w.allocParams names).1.count.toNat = names.length := by
    have hmin : min names.length (UInt16.size - 1) = names.length := Nat.min_eq_left hlength
    rw [allocParams, hmin]
    exact UInt16.toNat_ofNat_of_lt (Nat.lt_succ_of_le hlength)
  have hstop : (w.allocParams names).1.stop ≤ (w.allocParams names).2.arena.params.size := by
    rw [ParamRange.stop, hstart, hcount, allocParams_params]
    simp
  refine ⟨hstop, ?_⟩
  rw [Arena.paramNames, if_pos hstop, hstart, hcount, allocParams_params]
  simp

theorem Ready.entries_internAll (h : w.Ready) (texts : List String) :
    (w.internAll texts).2.arena.entries ≤ w.arena.entries + texts.length := by
  have hlength := length_newNames_le w.arena.names.toList texts
  rw [h.arena_internAll texts]
  simp only [Arena.entries, Array.size_append, List.size_toArray]
  omega

theorem length_internAll (w : Workspace) (texts : List String) :
    (w.internAll texts).1.length = texts.length := by
  induction texts generalizing w with
  | nil => rfl
  | cons text texts ih => exact congrArg (· + 1) (ih (w.intern text).2)

theorem entries_allocParams (w : Workspace) (names : List NameId) :
    (w.allocParams names).2.arena.entries = w.arena.entries + names.length := by
  rw [Arena.entries, Arena.entries, allocParams_params, Array.size_append, List.size_toArray,
    Nat.add_assoc _ _ names.length]
  rfl

end Workspace

namespace Draft

/-! ## What calls describe -/

/-- The nodes that a call refers to. -/
def Call.operands : Call → List NodeId
  | .span _ | .int _ | .float _ | .ident _ => []
  | .unary _ operand => [operand]
  | .lambda _ body => [body]
  | .binary _ left right => [left, right]
  | .range first last => [first, last]
  | .map seq function => [seq, function]
  | .reduce seq neutral function => [seq, neutral, function]
  | .define _ value | .print value => [value]

/-- The parameters of a lambda, and none of other calls. -/
def Call.params : Call → List String
  | .lambda params _ => params
  | _ => []

/-- The expression that a call makes at a site, from the expressions of the nodes. -/
def Call.expression? (tree : NodeId → Option Expr) (site : Site) : Call → Option Expr
  | .int value => some (.int site value)
  | .float bits => some (.float site bits)
  | .ident text => some (.ident site text)
  | .unary op operand => do
    return .unary site op (← tree operand)
  | .binary op left right => do
    return .binary site op (← tree left) (← tree right)
  | .range first last => do
    return .range site (← tree first) (← tree last)
  | .lambda params body => do
    return .lambda site params (← tree body)
  | .map seq function => do
    return .map site (← tree seq) (← tree function)
  | .reduce seq neutral function => do
    return .reduce site (← tree seq) (← tree neutral) (← tree function)
  | .span _ | .define _ _ | .print _ => none

/-- What has been described so far. -/
structure Description where
  /-- The span set last. -/
  span : Span
  /-- The expressions of the nodes that were answers. -/
  tree : NodeId → Option Expr
  stmts : List Stmt

namespace Description

def empty : Description :=
  ⟨.nowhere, fun _ => none, []⟩

/-- The description with the expression of one more node. -/
def withTree (D : Description) (id : NodeId) (e : Expr) : Description :=
  { D with tree := fun other => if other = id then some e else D.tree other }

/-- The description with one more statement. -/
def withStmt (D : Description) (target : Option String) (value : Expr) : Description :=
  { D with stmts := D.stmts ++ [⟨target, value, D.span⟩] }

/-- What a call with the given answer adds; nothing can be told if it refers to unknown nodes. -/
def next (D : Description) (call : Call) : Option NodeId → Option Description
  | some id => (call.expression? D.tree ⟨id, D.span⟩).map (D.withTree id)
  | none => match call with
    | .span span => some { D with span := span }
    | .define text value => (D.tree value).map (D.withStmt (some text))
    | .print value => (D.tree value).map (D.withStmt none)
    | _ => none

end Description

/-- The answers to calls, one after the other. -/
def answers (d : Draft) : List Call → List (Option NodeId)
  | [] => []
  | call :: rest => (d.apply call).1 :: (d.apply call).2.answers rest

/-- What calls describe in all, by the answers that they get. -/
def described (calls : List Call) : Option Description :=
  (calls.zip (empty.answers calls)).foldlM (fun D event => D.next event.1 event.2) .empty

/-- Calls that refer to nothing but answers, with parameter lists that a range can count. -/
structure Legal (calls : List Call) : Prop where
  operands : ∀ i (h : i < calls.length),
    ∀ id ∈ calls[i].operands, some id ∈ empty.answers (calls.take i)
  params : ∀ call ∈ calls, call.params.length ≤ 65535

/-! ## One call -/

/-- A statement of the table unfolds to a statement over trees, and a name that it defines is
there. -/
structure Holds (a : Arena) (n : StmtNode) (s : Stmt) : Prop where
  unfolds : n.Unfolds a s
  name_lt : ∀ name value, n.kind = .define name value → name.toNat < a.names.size

theorem Holds.extend {a b : Arena} {n : StmtNode} {s : Stmt} (h : Holds a n s) (ha : a.Closed)
    (hab : a.Extends b) : Holds b n s :=
  ⟨h.unfolds.extend ha hab h.name_lt, fun name value hk =>
    Nat.lt_of_lt_of_le (h.name_lt name value hk) (Arena.size_le_of_initial hab.names)⟩

/-- The tables of a draft hold what has been described. -/
structure Represents (d : Draft) (D : Description) : Prop where
  ready : d.workspace.Ready
  closed : d.workspace.arena.Closed
  span : d.span = D.span
  trees : ∀ {id : NodeId} {e : Expr}, D.tree id = some e → d.workspace.arena.Unfolds id e
  stmts : List.Forall₂ (Holds d.workspace.arena) d.stmts.toList D.stmts

variable {d : Draft} {D : Description}

theorem represents_empty : empty.Represents .empty where
  ready := Workspace.ready_ofArena .empty
  closed := by simp [Arena.Closed, empty, Workspace.empty, Arena.empty]
  span := rfl
  trees := by simp [Description.empty]
  stmts := .nil

/-- Larger tables hold the same. -/
theorem Represents.extend (h : d.Represents D) {w : Workspace} (hready : w.Ready)
    (hclosed : w.arena.Closed) (hext : d.workspace.arena.Extends w.arena) :
    Represents { d with workspace := w } D where
  ready := hready
  closed := hclosed
  span := h.span
  trees := fun htree => (h.trees htree).extend h.closed hext
  stmts := h.stmts.imp fun _ _ hs => hs.extend h.closed hext

/-- More names and parameters leave all that is held in place. -/
theorem Represents.extend_names (h : d.Represents D) {w : Workspace} (hready : w.Ready)
    (hext : d.workspace.arena.Extends w.arena)
    (hnodes : w.arena.nodes = d.workspace.arena.nodes) :
    Represents { d with workspace := w } D :=
  h.extend hready (hext.closed h.closed hnodes) hext

/-- A node that unfolds to an expression adds that expression. -/
theorem Represents.node (h : d.Represents D) {kind : NodeKind} {e : Expr}
    (hrefs : ∀ r ∈ d.workspace.arena.nodeReferences d.workspace.arena.nodes.size ⟨kind, d.span⟩,
      r.Resolves d.workspace.arena)
    (hunfolds : (d.node kind).2.workspace.arena.Unfolds (d.node kind).1 e) :
    (d.node kind).2.Represents (D.withTree (d.node kind).1 e) := by
  have hext := d.workspace.arena.extends_withNode ⟨kind, d.span⟩
  have hold := h.extend (w := (d.node kind).2.workspace) h.ready (h.closed.withNode hrefs) hext
  refine ⟨hold.ready, hold.closed, hold.span, fun htree => ?_, hold.stmts⟩
  rw [Description.withTree] at htree
  dsimp only at htree
  split at htree
  · rename_i hid
    rw [hid, ← Option.some.inj htree]
    exact hunfolds
  · exact hold.trees htree

theorem toNat_node (kind : NodeKind) (hsize : d.workspace.arena.nodes.size < UInt32.size) :
    (d.node kind).1.toNat = d.workspace.arena.nodes.size :=
  Arena.toNat_tableIndex hsize

theorem getElem?_node (kind : NodeKind) (hsize : d.workspace.arena.nodes.size < UInt32.size) :
    (d.node kind).2.workspace.arena.nodes[(d.node kind).1.toNat]? = some ⟨kind, d.span⟩ := by
  rw [toNat_node kind hsize]
  exact Array.getElem?_push_size

/-- A described node stands below a new one, and keeps its tree. -/
theorem Represents.below (h : d.Represents D) (kind : NodeKind)
    (hsize : d.workspace.arena.nodes.size < UInt32.size) {id : NodeId} {e : Expr}
    (htree : D.tree id = some e) :
    id.toNat < (d.node kind).1.toNat ∧ (d.node kind).2.workspace.arena.Unfolds id e := by
  rw [toNat_node kind hsize]
  exact ⟨(h.trees htree).lt_size,
    (h.trees htree).extend h.closed (d.workspace.arena.extends_withNode _)⟩

/-- References to described nodes, and others that lead somewhere, all lead somewhere. -/
theorem Represents.resolves (h : d.Represents D) {node : Node} {others : List Reference}
    (hops : ∀ id ∈ node.kind.children, ∃ e, D.tree id = some e)
    (hrefs : d.workspace.arena.nodeReferences d.workspace.arena.nodes.size node =
      node.kind.children.map (.child d.workspace.arena.nodes.size) ++ others)
    (hothers : ∀ r ∈ others, r.Resolves d.workspace.arena) :
    ∀ r ∈ d.workspace.arena.nodeReferences d.workspace.arena.nodes.size node,
      r.Resolves d.workspace.arena := by
  rw [hrefs]
  refine List.forall_mem_append.2 ⟨fun r hr => ?_, hothers⟩
  obtain ⟨id, hid, rfl⟩ := List.mem_map.1 hr
  obtain ⟨e, he⟩ := hops id hid
  exact (h.trees he).lt_size

/-- A call that makes a node adds the expression that it describes. -/
theorem Represents.expression (h : d.Represents D) {call : Call} {kind : NodeKind} {e : Expr}
    (hrefs : ∀ r ∈ d.workspace.arena.nodeReferences d.workspace.arena.nodes.size ⟨kind, d.span⟩,
      r.Resolves d.workspace.arena)
    (hexpression : call.expression? D.tree ⟨(d.node kind).1, d.span⟩ = some e)
    (hunfolds : (d.node kind).2.workspace.arena.Unfolds (d.node kind).1 e) :
    ∃ D', D.next call (some (d.node kind).1) = some D' ∧ (d.node kind).2.Represents D' := by
  refine ⟨_, ?_, h.node hrefs hunfolds⟩
  rw [Description.next, ← h.span, hexpression, Option.map_some]

/-- An identifier: its text becomes a name, and the node refers to that name. -/
theorem Represents.ident (h : d.Represents D) {text : String}
    (hfits : (d.ident text).2.workspace.arena.Fits) :
    ∃ D', D.next (.ident text) (some (d.ident text).1) = some D' ∧
      (d.ident text).2.Represents D' := by
  let named : Draft := { d with workspace := (d.workspace.intern text).2 }
  let name := (d.workspace.intern text).1
  have hnamed : named.Represents D :=
    h.extend_names (h.ready.intern text) (h.ready.extends_internAll [text])
      (h.ready.nodes_internAll [text])
  have hsizes : named.workspace.arena.Fits := (Arena.extends_withNode _ _).fits hfits
  rcases h.ready.name_intern hsizes.names_lt with ⟨hlt, hname⟩
  have hunfolds := Arena.Unfolds.ident (getElem?_node (d := named) (.ident name) hsizes.nodes_lt)
  have htext : (named.node (.ident name)).2.workspace.arena.name name = text := hname
  rw [htext] at hunfolds
  have hresolves : ∀ r ∈ [Reference.name name], r.Resolves named.workspace.arena := by
    simpa [Reference.Resolves] using hlt
  exact hnamed.expression (hnamed.resolves (by simp [NodeKind.children]) rfl hresolves) rfl hunfolds

/-- A lambda: its parameters become names and are stored as a list, and the node refers to that. -/
theorem Represents.lambda (h : d.Represents D) {params : List String} {body : NodeId}
    (hbody : ∃ e, D.tree body = some e) (hparams : params.length ≤ 65535)
    (hfits : (d.lambda params body).2.workspace.arena.Fits) :
    ∃ D', D.next (.lambda params body) (some (d.lambda params body).1) = some D' ∧
      (d.lambda params body).2.Represents D' := by
  let names := (d.workspace.internAll params).1
  let interned := (d.workspace.internAll params).2
  let listed : Draft := { d with workspace := (interned.allocParams names).2 }
  let range := (interned.allocParams names).1
  have hlisted : listed.Represents D :=
    h.extend_names (h.ready.internAll params)
      ((h.ready.extends_internAll params).trans (interned.extends_allocParams names))
      (h.ready.nodes_internAll params)
  have hsizes : listed.workspace.arena.Fits := (Arena.extends_withNode _ _).fits hfits
  have hinterned : interned.arena.Fits := (interned.extends_allocParams names).fits hsizes
  rcases h.ready.names_internAll hinterned.names_lt with ⟨hlt, hnames⟩
  have hlength : names.length ≤ 65535 := by
    rwa [← List.length_map, hnames]
  rcases Workspace.paramNames_allocParams hinterned.params_lt hlength with ⟨hstop, hrange⟩
  rcases hbody with ⟨e, he⟩
  rcases hlisted.below (.lambda range body) hsizes.nodes_lt he with ⟨hbelow, hu⟩
  have hunfolds := Arena.Unfolds.lambda
    (getElem?_node (d := listed) (.lambda range body) hsizes.nodes_lt) hbelow hu
  have htexts : ((listed.node (.lambda range body)).2.workspace.arena.paramNames range).map
      (listed.node (.lambda range body)).2.workspace.arena.name = params :=
    (congrArg (List.map interned.arena.name) hrange).trans hnames
  rw [htexts] at hunfolds
  have hresolves : ∀ r ∈ Reference.params range ::
      (listed.workspace.arena.paramNames range).map Reference.name,
        r.Resolves listed.workspace.arena := by
    refine List.forall_mem_cons.2 ⟨hstop, fun r hr => ?_⟩
    obtain ⟨name, hname, rfl⟩ := List.mem_map.1 hr
    have hmem : name ∈ names := by
      rw [← hrange]
      exact hname
    exact hlt name hmem
  refine hlisted.expression (hlisted.resolves ?_ rfl hresolves) ?_ hunfolds
  · simpa [NodeKind.children] using ⟨e, he⟩
  · simp [Call.expression?, he, listed]
    rfl

/-- A statement that the table holds adds that statement. -/
theorem Represents.statement (h : d.Represents D) {n : StmtNode} {target : Option String}
    {value : Expr} (hs : Holds d.workspace.arena n ⟨target, value, D.span⟩) :
    Represents { d with stmts := d.stmts.push n } (D.withStmt target value) where
  ready := h.ready
  closed := h.closed
  span := h.span
  trees := h.trees
  stmts := by
    rw [Array.toList_push]
    exact List.rel_append h.stmts (.cons hs .nil)

/-- A call adds to the tables what it describes. -/
theorem Represents.apply (h : d.Represents D) {call : Call}
    (hops : ∀ id ∈ call.operands, ∃ e, D.tree id = some e)
    (hparams : call.params.length ≤ 65535) (hfits : (d.apply call).2.workspace.arena.Fits) :
    ∃ D', D.next call (d.apply call).1 = some D' ∧ (d.apply call).2.Represents D' := by
  have hnode : ∀ {kind : NodeKind}, (d.node kind).2.workspace.arena.Fits →
      d.workspace.arena.nodes.size < UInt32.size := fun hfits =>
    ((d.workspace.arena.extends_withNode _).fits hfits).nodes_lt
  have hnone : ∀ r ∈ ([] : List Reference), r.Resolves d.workspace.arena := by simp
  cases call with
  | span span => exact ⟨_, rfl, h.ready, h.closed, rfl, h.trees, h.stmts⟩
  | int value =>
    exact h.expression (h.resolves hops rfl hnone) rfl (.int (getElem?_node _ (hnode hfits)))
  | float bits =>
    exact h.expression (h.resolves hops rfl hnone) rfl (.float (getElem?_node _ (hnode hfits)))
  | unary op operand =>
    obtain ⟨e, he⟩ := hops operand (by simp [Call.operands])
    obtain ⟨hlt, hu⟩ := h.below (.unary op operand) (hnode hfits) he
    exact h.expression (h.resolves hops rfl hnone) (by simp [Call.expression?, he])
      (.unary (getElem?_node _ (hnode hfits)) hlt hu)
  | binary op left right =>
    obtain ⟨l, hl⟩ := hops left (by simp [Call.operands])
    obtain ⟨r, hr⟩ := hops right (by simp [Call.operands])
    obtain ⟨hlt, hu⟩ := h.below (.binary op left right) (hnode hfits) hl
    obtain ⟨hlt', hu'⟩ := h.below (.binary op left right) (hnode hfits) hr
    exact h.expression (h.resolves hops rfl hnone) (by simp [Call.expression?, hl, hr])
      (.binary (getElem?_node _ (hnode hfits)) hlt hlt' hu hu')
  | range first last =>
    obtain ⟨f, hf⟩ := hops first (by simp [Call.operands])
    obtain ⟨l, hl⟩ := hops last (by simp [Call.operands])
    obtain ⟨hlt, hu⟩ := h.below (.range first last) (hnode hfits) hf
    obtain ⟨hlt', hu'⟩ := h.below (.range first last) (hnode hfits) hl
    exact h.expression (h.resolves hops rfl hnone) (by simp [Call.expression?, hf, hl])
      (.range (getElem?_node _ (hnode hfits)) hlt hlt' hu hu')
  | map seq function =>
    obtain ⟨s, hs⟩ := hops seq (by simp [Call.operands])
    obtain ⟨f, hf⟩ := hops function (by simp [Call.operands])
    obtain ⟨hlt, hu⟩ := h.below (.map seq function) (hnode hfits) hs
    obtain ⟨hlt', hu'⟩ := h.below (.map seq function) (hnode hfits) hf
    exact h.expression (h.resolves hops rfl hnone) (by simp [Call.expression?, hs, hf])
      (.map (getElem?_node _ (hnode hfits)) hlt hlt' hu hu')
  | reduce seq neutral function =>
    obtain ⟨s, hs⟩ := hops seq (by simp [Call.operands])
    obtain ⟨n, hn⟩ := hops neutral (by simp [Call.operands])
    obtain ⟨f, hf⟩ := hops function (by simp [Call.operands])
    obtain ⟨hlt, hu⟩ := h.below (.reduce seq neutral function) (hnode hfits) hs
    obtain ⟨hlt', hu'⟩ := h.below (.reduce seq neutral function) (hnode hfits) hn
    obtain ⟨hlt'', hu''⟩ := h.below (.reduce seq neutral function) (hnode hfits) hf
    exact h.expression (h.resolves hops rfl hnone) (by simp [Call.expression?, hs, hn, hf])
      (.reduce (getElem?_node _ (hnode hfits)) hlt hlt' hlt'' hu hu' hu'')
  | ident text => exact h.ident hfits
  | lambda params body =>
    exact h.lambda (hops body (by simp [Call.operands])) hparams hfits
  | define text value =>
    obtain ⟨e, he⟩ := hops value (by simp [Call.operands])
    have hnamed : Represents { d with workspace := (d.workspace.intern text).2 } D :=
      h.extend_names (h.ready.intern text) (h.ready.extends_internAll [text])
        (h.ready.nodes_internAll [text])
    rcases h.ready.name_intern hfits.names_lt with ⟨hlt, hname⟩
    refine ⟨D.withStmt (some text) e, by simp [Draft.apply, Description.next, he],
      hnamed.statement ⟨⟨hnamed.trees he, ?_, h.span.symm⟩, ?_⟩⟩
    · exact congrArg some hname.symm
    · rintro name _ ⟨⟩
      exact hlt
  | print value =>
    obtain ⟨e, he⟩ := hops value (by simp [Call.operands])
    refine ⟨D.withStmt none e, by simp [Draft.apply, Description.next, he],
      h.statement ⟨⟨h.trees he, rfl, h.span.symm⟩, ?_⟩⟩
    rintro name _ ⟨⟩

/-! ## Several calls -/

theorem run_append (d : Draft) (xs ys : List Call) : d.run (xs ++ ys) = (d.run xs).run ys :=
  List.foldl_append

theorem answers_append (d : Draft) (xs ys : List Call) :
    d.answers (xs ++ ys) = d.answers xs ++ (d.run xs).answers ys := by
  induction xs generalizing d with
  | nil => rfl
  | cons x xs ih => exact congrArg _ (ih (d.apply x).2)

theorem length_answers (d : Draft) (calls : List Call) :
    (d.answers calls).length = calls.length := by
  induction calls generalizing d with
  | nil => rfl
  | cons call calls ih => rw [answers, List.length_cons, List.length_cons, ih]

theorem described_append_singleton (calls : List Call) (call : Call) :
    described (calls ++ [call]) =
      (described calls).bind fun D => D.next call ((empty.run calls).apply call).1 := by
  rw [described, answers_append, List.zip_append (length_answers _ _).symm, List.foldlM_append]
  simp [described, answers, Option.bind_eq_bind]

/-- A call only appends to the tables. -/
theorem extends_apply (h : d.workspace.Ready) (call : Call) :
    (d.apply call).2.workspace.Ready ∧
      d.workspace.arena.Extends (d.apply call).2.workspace.arena := by
  cases call with
  | span | print => exact ⟨h, .refl _⟩
  | int | float | unary | binary | range | map | reduce => exact ⟨h, Arena.extends_withNode _ _⟩
  | ident text =>
    exact ⟨h.intern text, (h.extends_internAll [text]).trans (Arena.extends_withNode _ _)⟩
  | lambda params body =>
    exact ⟨h.internAll params, ((h.extends_internAll params).trans
      (Workspace.extends_allocParams _ _)).trans (Arena.extends_withNode _ _)⟩
  | define text value => exact ⟨h.intern text, h.extends_internAll [text]⟩

theorem extends_run (h : d.workspace.Ready) (calls : List Call) :
    (d.run calls).workspace.Ready ∧ d.workspace.arena.Extends (d.run calls).workspace.arena := by
  induction calls generalizing d with
  | nil => exact ⟨h, .refl _⟩
  | cons call calls ih =>
    rcases extends_apply h call with ⟨hready, hext⟩
    rcases ih hready with ⟨hready', hext'⟩
    exact ⟨hready', hext.trans hext'⟩

theorem Legal.of_append {xs ys : List Call} (h : Legal (xs ++ ys)) : Legal xs where
  operands i hi id hid := by
    have hlt : i < (xs ++ ys).length := by
      rw [List.length_append]
      omega
    have hanswer := h.operands i hlt id
    rw [List.getElem_append_left hi, List.take_append_of_le_length (Nat.le_of_lt hi)] at hanswer
    exact hanswer hid
  params call hcall := h.params call (List.mem_append_left ys hcall)

/-- The last call refers to answers of those before it. -/
theorem Legal.operands_last {calls : List Call} {call : Call} (h : Legal (calls ++ [call])) :
    ∀ id ∈ call.operands, some id ∈ empty.answers calls := by
  have hlast := h.operands calls.length (by simp)
  simpa using hlast

/-- What a call adds is kept beside what was known, and its answer is known then. -/
theorem Description.tree_of_next {D D' : Description} {call : Call} {answer : Option NodeId}
    (h : D.next call answer = some D') {id : NodeId}
    (hid : answer = some id ∨ ∃ e, D.tree id = some e) : ∃ e, D'.tree id = some e := by
  cases answer with
  | some new =>
    rw [Description.next, Option.map_eq_some_iff] at h
    obtain ⟨e, -, rfl⟩ := h
    by_cases hsame : id = new
    · exact ⟨e, if_pos hsame⟩
    · rcases hid with hnew | ⟨f, hf⟩
      · exact absurd (Option.some.inj hnew).symm hsame
      · exact ⟨f, (if_neg hsame).trans hf⟩
  | none =>
    have hold := hid.resolve_left nofun
    cases call with
    | span span =>
      obtain rfl := Option.some.inj h
      exact hold
    | define | print =>
      obtain ⟨e, -, rfl⟩ := Option.map_eq_some_iff.1 h
      exact hold
    | int | float | ident | unary | binary | range | lambda | map | reduce =>
      exact absurd h nofun

/-- The tables hold what all the calls describe, and all answers are known. -/
theorem represents_run {calls : List Call} (hlegal : Legal calls)
    (hfits : (empty.run calls).workspace.arena.Fits) :
    ∃ D, described calls = some D ∧ (empty.run calls).Represents D ∧
      ∀ id, some id ∈ empty.answers calls → ∃ e, D.tree id = some e := by
  induction calls using List.reverseRecOn with
  | nil => exact ⟨_, rfl, represents_empty, by simp [answers]⟩
  | append_singleton calls call ih =>
    have hrun : empty.run (calls ++ [call]) = ((empty.run calls).apply call).2 := run_append _ _ _
    have hready := (extends_run represents_empty.ready calls).1
    have hext := (extends_apply hready call).2
    rw [hrun] at hfits ⊢
    rcases ih hlegal.of_append (hext.fits hfits) with ⟨D, hD, hrep, hknown⟩
    have hops : ∀ id ∈ call.operands, ∃ e, D.tree id = some e := fun id hid =>
      hknown id (hlegal.operands_last id hid)
    have hparams := hlegal.params call (by simp)
    rcases hrep.apply hops hparams hfits with ⟨D', hnext, hrep'⟩
    refine ⟨D', ?_, hrep', fun id hid => ?_⟩
    · rw [described_append_singleton, hD, Option.bind_some, hnext]
    · rw [answers_append, List.mem_append] at hid
      refine Description.tree_of_next hnext ?_
      rcases hid with hold | hnew
      · exact .inr (hknown id hold)
      · rw [answers, answers, List.mem_singleton] at hnew
        exact .inl hnew.symm

/-- Tables that hold a description make a sound program. -/
theorem Represents.validate_eq_nil (h : d.Represents D) : d.program.validate = [] := by
  refine (Program.validate_eq_nil_iff_resolves _).2 ⟨h.closed, fun i n hn r hr => ?_⟩
  have hn' : n ∈ d.stmts.toList := by
    rw [Array.mem_toList_iff]
    exact Array.mem_of_getElem? hn
  obtain ⟨j, hj, rfl⟩ := List.mem_iff_getElem.1 hn'
  have hholds := h.stmts.get hj (h.stmts.length_eq ▸ hj)
  rcases Arena.mem_stmtReferences.1 hr with rfl | ⟨name, value, hk, rfl⟩
  · exact hholds.unfolds.value.lt_size
  · exact hholds.name_lt name value hk

/-- A program is what calls describe. -/
structure Faithful (calls : List Call) (p : Program) : Prop where
  sound : p.validate = []
  /-- Whatever calls follow, an answer has the tree that was described when it was given. -/
  trees : ∀ before after, calls = before ++ after → ∃ D, described before = some D ∧
    ∀ id, some id ∈ empty.answers before → ∃ e, D.tree id = some e ∧ p.arena.tree? id = some e
  /-- The statements are the described ones, in order. -/
  stmts : ∃ D, described calls = some D ∧ p.resolve? = some D.stmts

/-- The finished program is sound and holds what the calls describe. -/
theorem faithful {calls : List Call} (hlegal : Legal calls)
    (hfits : (Program.ofCalls calls).arena.Fits) : Faithful calls (Program.ofCalls calls) := by
  rcases represents_run hlegal hfits with ⟨D, hD, hrep, -⟩
  refine ⟨hrep.validate_eq_nil, ?_, D, hD, ?_⟩
  · rintro before after rfl
    have hext := (extends_run (extends_run represents_empty.ready before).1 after).2
    rw [← run_append] at hext
    rcases represents_run hlegal.of_append (hext.fits hfits) with ⟨D', hD', hrep', hknown⟩
    refine ⟨D', hD', fun id hid => ?_⟩
    obtain ⟨e, he⟩ := hknown id hid
    exact ⟨e, he, Arena.tree?_eq_some_iff.2 ((hrep'.trees he).extend hrep'.closed hext)⟩
  · exact Program.resolve?_eq_some (hrep.stmts.imp fun _ _ hs => hs.unfolds)

/-! ## Counting -/

/-- Whether a call makes a node. -/
def Call.makesNode : Call → Bool
  | .span _ | .define _ _ | .print _ => false
  | _ => true

theorem node_eq (d : Draft) (kind : NodeKind) {count : Nat}
    (h : d.workspace.arena.nodes.size = count) :
    (d.node kind).1 = ⟨tableIndex count⟩ ∧
      (d.node kind).2.workspace.arena.nodes.size = count + 1 := by
  subst h
  exact ⟨rfl, Array.size_push _⟩

/-- A call that makes a node is answered with the number of nodes before it. -/
theorem apply_eq (h : d.workspace.Ready) (call : Call) {count : Nat}
    (hcount : d.workspace.arena.nodes.size = count) :
    (call.makesNode = true → (d.apply call).1 = some ⟨tableIndex count⟩ ∧
      (d.apply call).2.workspace.arena.nodes.size = count + 1) ∧
    (call.makesNode = false → (d.apply call).1 = none ∧
      (d.apply call).2.workspace.arena.nodes.size = count) := by
  have hanswer : ∀ (d' : Draft) (kind : NodeKind), d'.workspace.arena.nodes.size = count →
      some (d'.node kind).1 = some (⟨tableIndex count⟩ : NodeId) ∧
        (d'.node kind).2.workspace.arena.nodes.size = count + 1 := by
    intro d' kind hd
    rcases d'.node_eq kind hd with ⟨hid, hsize⟩
    exact ⟨congrArg some hid, hsize⟩
  have hnodes : ∀ texts, (d.workspace.internAll texts).2.arena.nodes.size = count := by
    intro texts
    rw [h.nodes_internAll texts, hcount]
  cases call with
  | span | print => exact ⟨nofun, fun _ => ⟨rfl, hcount⟩⟩
  | int | float | unary | binary | range | map | reduce =>
    exact ⟨fun _ => hanswer d _ hcount, nofun⟩
  | ident text => exact ⟨fun _ => hanswer _ _ (hnodes [text]), nofun⟩
  | lambda params body => exact ⟨fun _ => hanswer _ _ (hnodes params), nofun⟩
  | define text value => exact ⟨nofun, fun _ => ⟨rfl, hnodes [text]⟩⟩

/-- The answers to calls where there are `count` nodes already. -/
def numbering (count : Nat) : List Call → List (Option NodeId)
  | [] => []
  | call :: rest =>
    if call.makesNode then some ⟨tableIndex count⟩ :: numbering (count + 1) rest
    else none :: numbering count rest

/-- Answers count the nodes. -/
theorem answers_eq_numbering (h : d.workspace.Ready) (calls : List Call) :
    d.answers calls = numbering d.workspace.arena.nodes.size calls := by
  induction calls generalizing d with
  | nil => rfl
  | cons call calls ih =>
    have hrest := ih (extends_apply h call).1
    rcases apply_eq h call rfl with ⟨hmakes, hother⟩
    rw [answers, numbering, hrest]
    split
    · rename_i hnode
      rw [(hmakes hnode).1, (hmakes hnode).2]
    · rename_i hnode
      rw [Bool.not_eq_true] at hnode
      rw [(hother hnode).1, (hother hnode).2]

/-- How many entries a call may add to the tables, in all. -/
def Call.weight (call : Call) : Nat :=
  2 + 2 * call.params.length

theorem Call.two_le_weight (call : Call) : 2 ≤ call.weight :=
  Nat.le_add_right 2 _

theorem entries_apply (h : d.workspace.Ready) (call : Call) :
    (d.apply call).2.workspace.arena.entries ≤ d.workspace.arena.entries + call.weight := by
  cases call with
  | span | print => exact Nat.le_add_right _ _
  | int | float | unary | binary | range | map | reduce =>
    exact (Arena.entries_withNode _ _).trans_le
      (Nat.add_le_add_left (Nat.le_of_succ_le (Call.two_le_weight _)) _)
  | ident text =>
    have hnames := h.entries_internAll [text]
    exact (Arena.entries_withNode _ _).trans_le (Nat.add_le_add_right hnames 1)
  | lambda params body =>
    have hnames := h.entries_internAll params
    have hlist := Workspace.entries_allocParams (d.workspace.internAll params).2
      (d.workspace.internAll params).1
    rw [Workspace.length_internAll] at hlist
    refine (Arena.entries_withNode _ _).trans_le ((Nat.succ_le_succ hlist.le).trans ?_)
    rw [Call.weight, Call.params]
    omega
  | define text value =>
    exact (h.entries_internAll [text]).trans
      (Nat.add_le_add_left (Nat.le_of_succ_le (Call.two_le_weight _)) _)

/-- How many entries some calls may add. -/
def weigh : List Call → Nat
  | [] => 0
  | call :: calls => call.weight + weigh calls

/-- Calls that weigh little keep the tables small enough. -/
theorem fits_run (h : d.workspace.Ready) {calls : List Call}
    (hweight : d.workspace.arena.entries + weigh calls < UInt32.size) :
    (d.run calls).workspace.arena.Fits := by
  induction calls generalizing d with
  | nil => exact Arena.fits_of_entries_lt hweight
  | cons call calls ih =>
    rw [weigh, ← Nat.add_assoc] at hweight
    have hcall := Nat.add_le_add_right (entries_apply h call) (weigh calls)
    exact ih (extends_apply h call).1 (Nat.lt_of_le_of_lt hcall hweight)

theorem answers_empty (calls : List Call) : empty.answers calls = numbering 0 calls :=
  answers_eq_numbering represents_empty.ready calls

/-- A name that is interned twice, a span that is set between two statements and a lambda. -/
theorem faithful_two_statements :
    let calls : List Call :=
      [.span ⟨3, 9⟩, .int 1, .int 3, .range ⟨0⟩ ⟨1⟩, .ident "x", .lambda ["x"] ⟨3⟩,
        .map ⟨2⟩ ⟨4⟩, .define "x" ⟨5⟩, .span ⟨10, 12⟩, .ident "x", .print ⟨6⟩]
    Legal calls ∧ (Program.ofCalls calls).arena.Fits ∧ Faithful calls (Program.ofCalls calls) ∧
      (Program.ofCalls calls).resolve? =
        some [⟨some "x", .map ⟨⟨5⟩, ⟨3, 9⟩⟩
            (.range ⟨⟨2⟩, ⟨3, 9⟩⟩ (.int ⟨⟨0⟩, ⟨3, 9⟩⟩ 1) (.int ⟨⟨1⟩, ⟨3, 9⟩⟩ 3))
            (.lambda ⟨⟨4⟩, ⟨3, 9⟩⟩ ["x"] (.ident ⟨⟨3⟩, ⟨3, 9⟩⟩ "x")), ⟨3, 9⟩⟩,
          ⟨none, .ident ⟨⟨6⟩, ⟨10, 12⟩⟩ "x", ⟨10, 12⟩⟩] := by
  intro calls
  have hlegal : Legal calls := by
    constructor
    · simp only [answers_empty]
      decide
    · decide
  have hfits : (Program.ofCalls calls).arena.Fits := fits_run represents_empty.ready (by decide)
  have hfaithful := faithful hlegal hfits
  obtain ⟨D, hD, hstmts⟩ := hfaithful.stmts
  have hdescribed : (described calls).map Description.stmts = some D.stmts := by
    rw [hD, Option.map_some]
  rw [described, answers_empty] at hdescribed
  exact ⟨hlegal, hfits, hfaithful, hstmts.trans hdescribed.symm⟩

end Draft
end SeqCalc
