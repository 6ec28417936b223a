import SeqCalc.Proofs.Program.Reach
import SeqCalc.Proofs.Typing.Visits

/-!
# The footprint of inference

Inference of a node writes the entries of the nodes that it visits, all of them reached from there,
and the visits depend on the scope alone and not on the table.  So the same inference again finds
its own types in the table and leaves them.  Where a node is visited several times the last visit
counts; where no reached node is shared there is one visit at most, and its type stays.

Main results:

- `TypeTable.getElem?_record_of_not_mem`: entries that are not visited stay.
- `TypeTable.record_record`: recording the same visits again changes nothing.
- `Visit.mem_log`: the type of every visit is recorded.
- `SoundProgram.inferNode_local`: the footprint of one inference.
-/

namespace SeqCalc

/-! ## Recording -/

namespace TypeTable

variable {visits : List (NodeId × Ty)} {i : Nat}

theorem size_record (types : TypeTable) (visits : List (NodeId × Ty)) :
    (types.record visits).types.size = types.types.size := by
  induction visits generalizing types with
  | nil => rfl
  | cons v rest ih => exact (ih _).trans (types.size_set v.1 v.2)

theorem getElem?_set (types : TypeTable) (id : NodeId) (ty : Ty) (i : Nat) :
    (types.set id ty).types[i]? =
      if id.toNat = i ∧ i < types.types.size then some ty else types.types[i]? := by
  rw [set, Array.getElem?_setIfInBounds]
  by_cases hid : id.toNat = i
  · by_cases hlt : i < types.types.size
    · simp [hid, hlt]
    · simp [hid, hlt]
  · simp [hid]

/-- Entries of nodes that are not visited stay as they are. -/
theorem getElem?_record_of_not_mem (h : ∀ v ∈ visits, v.1.toNat ≠ i) (types : TypeTable) :
    (types.record visits).types[i]? = types.types[i]? := by
  induction visits generalizing types with
  | nil => rfl
  | cons v rest ih =>
    refine (ih (fun w hw => h w (List.mem_cons_of_mem v hw)) _).trans ?_
    rw [getElem?_set, if_neg fun hv => h v List.mem_cons_self hv.1]

/-- The entry of a node that is visited does not depend on the table before. -/
theorem getElem?_record_congr (h : ∃ v ∈ visits, v.1.toNat = i) {types types' : TypeTable}
    (hsize : types.types.size = types'.types.size) :
    (types.record visits).types[i]? = (types'.record visits).types[i]? := by
  induction visits generalizing types types' with
  | nil =>
    rcases h with ⟨v, hv, -⟩
    contradiction
  | cons v rest ih =>
    by_cases hlater : ∃ w ∈ rest, w.1.toNat = i
    · exact ih hlater (by rw [size_set, size_set, hsize])
    · have hrest : ∀ w ∈ rest, w.1.toNat ≠ i := fun w hw hi => hlater ⟨w, hw, hi⟩
      have hv : v.1.toNat = i := by
        rcases h with ⟨w, hw, hi⟩
        rcases List.mem_cons.1 hw with rfl | hw
        · exact hi
        · exact absurd hi (hrest w hw)
      change ((types.set v.1 v.2).record rest).types[i]? =
        ((types'.set v.1 v.2).record rest).types[i]?
      rw [getElem?_record_of_not_mem hrest, getElem?_record_of_not_mem hrest, getElem?_set,
        getElem?_set, hsize]
      by_cases hlt : i < types'.types.size
      · simp [hv, hlt]
      · rw [Array.getElem?_eq_none (by omega), Array.getElem?_eq_none (by omega)]

/-- Recording the same visits again changes nothing. -/
theorem record_record (types : TypeTable) (visits : List (NodeId × Ty)) :
    (types.record visits).record visits = types.record visits := by
  rw [TypeTable.mk.injEq]
  apply Array.ext_getElem?
  intro i
  by_cases hi : ∃ v ∈ visits, v.1.toNat = i
  · exact getElem?_record_congr hi (types.size_record visits)
  · exact getElem?_record_of_not_mem (fun v hv h => hi ⟨v, hv, h⟩) _

end TypeTable

/-! ## Visits -/

/-- A visit of inference to a node: with what, and where. -/
inductive Visit where
  /-- To an expression, in an environment. -/
  | expression (env : Env) (e : Expr)
  /-- To a function literal, with the types of its parameters. -/
  | literal (c : Combinator) (given : List Ty) (site : Site) (params : List String) (body : Expr)

namespace Visit

def node : Visit → NodeId
  | expression _ e => e.id
  | literal _ _ site _ _ => site.id

/-- The type that the visit returns; from a function literal this is the type of its body. -/
def result : Visit → Ty
  | expression env e => (e.infer env).value
  | literal c given site params body =>
    ((Expr.lambda site params body).inferFunction c given).value.1

/-- What is recorded during the visit: nodes with types, in order. -/
def log : Visit → List (NodeId × Ty)
  | expression env e => (e.infer env).findings.visits
  | literal c given site params body =>
    ((Expr.lambda site params body).inferFunction c given).findings.visits

/-- The visit to the last operand of `map` and `reduce`: there is none if it is no literal. -/
def toFunction (c : Combinator) (given : List Ty) : Expr → List Visit
  | .lambda site params body => [literal c given site params body]
  | _ => []

/-- The visits that a visit makes itself, from left to right. -/
def inner : Visit → List Visit
  | expression env (.unary _ _ operand) => [expression env operand]
  | expression env (.binary _ _ left right) => [expression env left, expression env right]
  | expression env (.range _ first last) => [expression env first, expression env last]
  | expression env (.map _ seq function) =>
    let element := (elementOf seq.span (seq.infer env).value).value
    expression env seq :: toFunction .map [element] function
  | expression env (.reduce _ seq neutral function) =>
    let element := (elementOf seq.span (seq.infer env).value).value
    let acc := (accumulator seq.span neutral.span element (neutral.infer env).value).value
    expression env seq :: expression env neutral :: toFunction .reduce [acc, acc] function
  | expression _ _ => []
  | literal _ given site params body =>
    [expression ⟨(bindParams site.span .empty params given).value, true⟩ body]

/-- One visit is made in the course of another. -/
inductive Makes : Visit → Visit → Prop
  | self (v : Visit) : Makes v v
  | inner {v u w : Visit} : u ∈ v.inner → Makes u w → Makes v w

theorem flatMap_log_toFunction (c : Combinator) (given : List Ty) (e : Expr) :
    (toFunction c given e).flatMap log = (e.inferFunction c given).findings.visits := by
  cases e with
  | lambda => simp [toFunction, log]
  | int | float | ident | unary | binary | range | map | reduce => rfl

/-- A visit records what its inner visits record, and then its own result. -/
theorem log_eq (v : Visit) : v.log = v.inner.flatMap log ++ [(v.node, v.result)] := by
  cases v with
  | literal => simp [log, inner, node, result, Expr.inferFunction_lambda]
  | expression env e =>
    cases e with
    | int | float | ident | lambda =>
      simp [log, inner, node, result, Expr.infer, Expr.id, Expr.site]
    | unary => simp [log, inner, node, result, Expr.visits_unary, Expr.id, Expr.site]
    | binary => simp [log, inner, node, result, Expr.visits_binary, Expr.id, Expr.site]
    | range => simp [log, inner, node, result, Expr.visits_range, Expr.id, Expr.site]
    | map =>
      simp [log, inner, node, result, Expr.visits_map, flatMap_log_toFunction, Expr.id, Expr.site]
    | reduce =>
      simp [log, inner, node, result, Expr.infer_reduce, flatMap_log_toFunction, Expr.id, Expr.site]

/-- The result of every visit is recorded. -/
theorem mem_log {v w : Visit} (h : v.Makes w) : (w.node, w.result) ∈ v.log := by
  induction h with
  | self v =>
    rw [log_eq]
    exact List.mem_append_right _ List.mem_cons_self
  | inner hinner _ ih =>
    rw [log_eq]
    exact List.mem_append_left _ (List.mem_flatMap.2 ⟨_, hinner, ih⟩)

end Visit

/-! ## One inference -/

namespace SoundProgram

/-- What the inference of a node leaves, from one state to the next, when it returns `ty`. -/
structure Footprint (p : SoundProgram) (scope : Scope) (id : NodeId) (s s' : InferenceState)
    (ty : Ty) : Prop where
  /-- Nodes that are reached from the node are the node itself or stand below it. -/
  reaches_le : ∀ k, p.program.arena.Reaches id k → k.toNat ≤ id.toNat
  size_eq : s'.table.types.size = s.table.types.size
  /-- The entries of all nodes that are not reached are as they were. -/
  kept : ∀ i, (∀ k, p.program.arena.Reaches id k → k.toNat ≠ i) →
    s'.table.types[i]? = s.table.types[i]?
  /-- Once more, the type and the new complaints are the same again, and the table stays. -/
  again : ∃ complaints, s'.complaints = s.complaints ++ complaints ∧
    p.inferNode scope id s' = some (ty, ⟨s'.table, s'.complaints ++ complaints⟩)
  /-- If the node stands alone, each node is visited once and has the result of its visit. -/
  single : p.program.arena.StandsAlone id → ∀ e, p.program.arena.tree? id = some e →
    ((Visit.expression ⟨scope, true⟩ e).log.map Prod.fst).Nodup ∧
      ∀ v, (Visit.expression ⟨scope, true⟩ e).Makes v → s'.table.get v.node = v.result

theorem inferNode_eq {p : SoundProgram} {id : NodeId} {e : Expr}
    (h : p.program.arena.tree? id = some e) (scope : Scope) (s : InferenceState) :
    p.inferNode scope id s = some ((e.infer ⟨scope, true⟩).runFrom s) := by
  rw [inferNode, h]
  rfl

/--
The inference of a node is local to what the node reaches, and finds the same again.  If nothing
there is shared, the table has the results of all visits.
-/
theorem inferNode_local (p : SoundProgram) (scope : Scope) {id : NodeId}
    (hid : id.toNat < p.program.arena.nodes.size) {s : InferenceState}
    (hs : s.table.types.size = p.program.arena.nodes.size) :
    ∃ ty s', p.inferNode scope id s = some (ty, s') ∧ p.Footprint scope id s s' ty := by
  rcases Option.isSome_iff_exists.1 (p.isSome_tree hid) with ⟨e, he⟩
  have hunfolds := Arena.unfolds_of_tree? he
  have hvisited : ∀ v ∈ (e.infer ⟨scope, true⟩).findings.visits,
      p.program.arena.Reaches id v.1 := fun v hv =>
    hunfolds.mem_ids_iff.1 ((e.visits_sublist.1 _).subset (List.mem_map_of_mem hv))
  refine ⟨_, _, inferNode_eq he scope s, ?_⟩
  constructor
  · exact fun k => reaches_le
  · exact TypeTable.size_record _ _
  · intro i hi
    exact TypeTable.getElem?_record_of_not_mem (fun v hv => hi v.1 (hvisited v hv)) _
  · refine ⟨_, rfl, ?_⟩
    rw [inferNode_eq he]
    simp only [Inferred.runFrom, TypeTable.record_record]
  · intro halone e' he'
    obtain rfl : e = e' := Option.some.inj (he.symm.trans he')
    have hnodup : ((e.infer ⟨scope, true⟩).findings.visits.map Prod.fst).Nodup :=
      (e.visits_sublist.1 _).nodup ((standsAlone_iff hunfolds).1 halone)
    refine ⟨hnodup, fun v hv => ?_⟩
    have hmem := Visit.mem_log hv
    refine TypeTable.get_record ?_ ?_ (.inr ⟨_, hmem, rfl⟩)
    · intro w hw hnode
      rw [List.inj_on_of_nodup_map hnodup hw hmem hnode]
    · rw [hs]
      exact Nat.lt_of_le_of_lt (reaches_le (hvisited _ hmem)) hid

/-- A map over a range with a negation, and a sum that refers twice to its operand. -/
def negatedRange : SoundProgram where
  program :=
    { arena :=
        { nodes := #[
            ⟨.int 1, .nowhere⟩, ⟨.int 2, .nowhere⟩, ⟨.range ⟨0⟩ ⟨1⟩, .nowhere⟩,
            ⟨.ident ⟨0⟩, .nowhere⟩, ⟨.unary .neg ⟨3⟩, .nowhere⟩, ⟨.lambda ⟨0, 1⟩ ⟨4⟩, .nowhere⟩,
            ⟨.map ⟨2⟩ ⟨5⟩, .nowhere⟩, ⟨.binary .add ⟨3⟩ ⟨3⟩, .nowhere⟩]
          names := #["x"]
          params := #[⟨0⟩] }
      stmts := #[] }
  sound := by decide +kernel

/--
The operand of the sum is shared with the body of the function.  It loses the type that it had in
the scope of the sum, and the sum keeps its own; the map stands alone, so the table has the results of
all its visits.
-/
theorem inferNode_local_negatedRange :
    let scope : Scope := ⟨[⟨"x", .float⟩]⟩
    let before : InferenceState :=
      ⟨⟨#[.unknown, .unknown, .unknown, .float, .unknown, .unknown, .unknown, .float]⟩, []⟩
    let after : InferenceState :=
      ⟨⟨#[.int, .int, Ty.int.sequenceOf, .int, .int, .int, Ty.int.sequenceOf, .float]⟩, []⟩
    negatedRange.inferNode scope ⟨7⟩ ⟨.unvisited 8, []⟩ = some (.float, before) ∧
      (⟨6⟩ : NodeId).toNat < negatedRange.program.arena.nodes.size ∧
      before.table.types.size = negatedRange.program.arena.nodes.size ∧
      negatedRange.inferNode scope ⟨6⟩ before = some (Ty.int.sequenceOf, after) ∧
      negatedRange.Footprint scope ⟨6⟩ before after Ty.int.sequenceOf ∧
      negatedRange.program.arena.StandsAlone ⟨6⟩ ∧
      ∃ e, negatedRange.program.arena.tree? ⟨6⟩ = some e ∧
        ((Visit.expression ⟨scope, true⟩ e).log.map Prod.fst).Nodup := by
  intro scope before after
  have hid : (⟨6⟩ : NodeId).toNat < negatedRange.program.arena.nodes.size := by decide
  have hinfer : negatedRange.inferNode scope ⟨6⟩ before = some (Ty.int.sequenceOf, after) := by
    decide +kernel
  rcases negatedRange.inferNode_local scope hid (s := before) rfl with ⟨ty, s', hcall, hfoot⟩
  cases hinfer.symm.trans hcall
  rcases Option.isSome_iff_exists.1 (negatedRange.isSome_tree hid) with ⟨e, he⟩
  have hnodup : ∀ t ∈ negatedRange.program.arena.tree? ⟨6⟩, t.ids.Nodup := by decide +kernel
  have halone := (standsAlone_iff (Arena.unfolds_of_tree? he)).2 (hnodup e he)
  exact ⟨by decide +kernel, hid, rfl, hinfer, hfoot, halone, e, he,
    (hfoot.single halone e he).1⟩

end SoundProgram
end SeqCalc
