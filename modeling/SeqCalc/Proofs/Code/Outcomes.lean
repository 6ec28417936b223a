import SeqCalc.Proofs.Code.Typing
import SeqCalc.Proofs.Value.Outcomes

/-!
# What code can come to

The interpreter evaluates a nested function in the mode in which the whole code is evaluated, so a
fold within a function literal is bracketed anew for every element.  All of these choices together
are the outcomes of the code.  If the nested functions of all folds are associative and never fail,
then code that succeeds in order has its value as the only outcome.

Main results:

- `Code.admits_eval`: what the interpreter answers in a mode is an outcome in that mode.
- `Code.HasType.follows_eval`: outcomes follow the evaluation in order.
-/

namespace SeqCalc

namespace Code

/-- What code can answer with; it is evaluated as by `eval`, but for the choices of traversals. -/
def outcomes (mode : Mode) : Code → List Value → Outcomes Value
  | .param slot, args => .exactly ((Code.param slot).eval mode args)
  | .int n, _ => return .int n
  | .float x, _ => return .float x
  | .neg kind operand, args => do
    let v ← operand.outcomes mode args
    if kind.isFloat then
      return .float (-(← v.asFloat))
    else
      return .int (-(← v.asInt))
  | .arith kind op left right, args => do
    if kind.isFloat then
      let x ← (← left.outcomes mode args).asFloat
      let y ← (← right.outcomes mode args).asFloat
      return .float (Arith.floatOp op x y)
    else
      let a ← (← left.outcomes mode args).asInt
      let b ← (← right.outcomes mode args).asInt
      return .int (← Arith.intOp op a b)
  | .cast source target operand, args => do
    let v ← operand.outcomes mode args
    if source = target then
      return v
    else if target.isFloat then
      return .float (.ofInt64 (← v.asInt))
    else
      return .int (← v.asFloat).toInt64
  | .range closed first last, args => do
    let a ← (← first.outcomes mode args).asInt
    let b ← (← last.outcomes mode args).asInt
    return .seq (.ints (← Range.elements closed a b))
  | .map seq _ body _ target, args => do
    let source ← (← seq.outcomes mode args).asSeq
    return .seq (← source.mapOutcomes mode (target.kind?.getD .object) fun v =>
      body.outcomes mode [v])
  | .reduce seq neutral _ body _ _, args => do
    let source ← seq.outcomes mode args
    let start ← neutral.outcomes mode args
    (← source.asSeq).reduceOutcomes mode (fun a b => body.outcomes mode [a, b]) start

/-- What the interpreter answers is one of the outcomes, for code of any kind. -/
theorem admits_eval (mode : Mode) (code : Code) :
    ∀ args, (code.outcomes mode args).Admits (code.eval mode args) := by
  induction code with
  | param slot => exact fun args => Outcomes.admits_exactly _
  | int n => exact fun args => Outcomes.admits_exactly _
  | float x => exact fun args => Outcomes.admits_exactly _
  | neg kind operand ih =>
    intro args
    apply Outcomes.admits_bind (ih args)
    intro v
    cases kind.isFloat with
    | true => exact Outcomes.admits_bind (Outcomes.admits_exactly _) fun x => rfl
    | false => exact Outcomes.admits_bind (Outcomes.admits_exactly _) fun x => rfl
  | arith kind op left right ihl ihr =>
    intro args
    rw [outcomes, eval]
    cases kind.isFloat with
    | true =>
      apply Outcomes.admits_bind (ihl args)
      intro v
      apply Outcomes.admits_bind (Outcomes.admits_exactly v.asFloat)
      intro x
      apply Outcomes.admits_bind (ihr args)
      intro w
      exact Outcomes.admits_bind (Outcomes.admits_exactly w.asFloat) fun y => rfl
    | false =>
      apply Outcomes.admits_bind (ihl args)
      intro v
      apply Outcomes.admits_bind (Outcomes.admits_exactly v.asInt)
      intro a
      apply Outcomes.admits_bind (ihr args)
      intro w
      apply Outcomes.admits_bind (Outcomes.admits_exactly w.asInt)
      intro b
      exact Outcomes.admits_bind (Outcomes.admits_exactly (Arith.intOp op a b)) fun n => rfl
  | cast source target operand ih =>
    intro args
    apply Outcomes.admits_bind (ih args)
    intro v
    by_cases hsame : source = target
    · rw [if_pos hsame, if_pos hsame]
      exact Outcomes.admits_exactly _
    · rw [if_neg hsame, if_neg hsame]
      cases target.isFloat with
      | true => exact Outcomes.admits_bind (Outcomes.admits_exactly v.asInt) fun n => rfl
      | false => exact Outcomes.admits_bind (Outcomes.admits_exactly v.asFloat) fun x => rfl
  | range closed first last ihf ihl =>
    intro args
    apply Outcomes.admits_bind (ihf args)
    intro v
    apply Outcomes.admits_bind (Outcomes.admits_exactly v.asInt)
    intro a
    apply Outcomes.admits_bind (ihl args)
    intro w
    apply Outcomes.admits_bind (Outcomes.admits_exactly w.asInt)
    intro b
    exact Outcomes.admits_bind (Outcomes.admits_exactly (Range.elements closed a b)) fun xs => rfl
  | map seq profile body source target ihs ihb =>
    intro args
    apply Outcomes.admits_bind (ihs args)
    intro v
    apply Outcomes.admits_bind (Outcomes.admits_exactly v.asSeq)
    intro s
    apply Outcomes.admits_bind
    · exact Sequence.admits_mapOutcomes mode (fun v => ihb [v]) _ s
    · exact fun s' => rfl
  | reduce seq neutral profile body element acc ihs ihn ihb =>
    intro args
    apply Outcomes.admits_bind (ihs args)
    intro v
    apply Outcomes.admits_bind (ihn args)
    intro start
    apply Outcomes.admits_bind (Outcomes.admits_exactly v.asSeq)
    intro s
    exact mode.admits_reduceOutcomes (fun a b => ihb [a, b]) start _

/-! ## Associative folds -/

/-- The nested function of every fold is associative on accumulators, at any depth. -/
def FoldsAssociate : Code → Prop
  | .param _ | .int _ | .float _ => True
  | .neg _ operand => operand.FoldsAssociate
  | .arith _ _ left right => left.FoldsAssociate ∧ right.FoldsAssociate
  | .cast _ _ operand => operand.FoldsAssociate
  | .range _ first last => first.FoldsAssociate ∧ last.FoldsAssociate
  | .map seq _ body _ _ => seq.FoldsAssociate ∧ body.FoldsAssociate
  | .reduce seq neutral _ body _ acc =>
    seq.FoldsAssociate ∧ neutral.FoldsAssociate ∧ body.FoldsAssociate ∧
      AssociativeOn (fun v => v.HasType (.scalar acc)) fun a b => body.eval .sequential [a, b]

section Follows

variable {mode : Mode} {args : List Value}

theorem follows_neg {kind : Scalar} {operand : Code}
    (h : (operand.outcomes mode args).Follows (operand.eval .sequential args)) :
    ((Code.neg kind operand).outcomes mode args).Follows
      ((Code.neg kind operand).eval .sequential args) := by
  apply h.bind
  intro v _
  cases kind.isFloat with
  | true => exact (Outcomes.Follows.exactly v.asFloat).bind fun x _ => .exactly _
  | false => exact (Outcomes.Follows.exactly v.asInt).bind fun n _ => .exactly _

theorem follows_arith {kind : Scalar} {op : BinaryOp} {left right : Code}
    (hleft : (left.outcomes mode args).Follows (left.eval .sequential args))
    (hright : (right.outcomes mode args).Follows (right.eval .sequential args)) :
    ((Code.arith kind op left right).outcomes mode args).Follows
      ((Code.arith kind op left right).eval .sequential args) := by
  rw [outcomes, eval]
  cases kind.isFloat with
  | true =>
    apply hleft.bind
    intro v _
    apply (Outcomes.Follows.exactly v.asFloat).bind
    intro x _
    apply hright.bind
    intro w _
    exact (Outcomes.Follows.exactly w.asFloat).bind fun y _ => .exactly _
  | false =>
    apply hleft.bind
    intro v _
    apply (Outcomes.Follows.exactly v.asInt).bind
    intro a _
    apply hright.bind
    intro w _
    apply (Outcomes.Follows.exactly w.asInt).bind
    intro b _
    exact (Outcomes.Follows.exactly (Arith.intOp op a b)).bind fun n _ => .exactly _

theorem follows_cast {source target : Scalar} {operand : Code}
    (h : (operand.outcomes mode args).Follows (operand.eval .sequential args)) :
    ((Code.cast source target operand).outcomes mode args).Follows
      ((Code.cast source target operand).eval .sequential args) := by
  apply h.bind
  intro v _
  by_cases hsame : source = target
  · rw [if_pos hsame, if_pos hsame]
    exact .exactly _
  · rw [if_neg hsame, if_neg hsame]
    cases target.isFloat with
    | true => exact (Outcomes.Follows.exactly v.asInt).bind fun n _ => .exactly _
    | false => exact (Outcomes.Follows.exactly v.asFloat).bind fun x _ => .exactly _

theorem follows_range {closed : Bool} {first last : Code}
    (hfirst : (first.outcomes mode args).Follows (first.eval .sequential args))
    (hlast : (last.outcomes mode args).Follows (last.eval .sequential args)) :
    ((Code.range closed first last).outcomes mode args).Follows
      ((Code.range closed first last).eval .sequential args) := by
  apply hfirst.bind
  intro v _
  apply (Outcomes.Follows.exactly v.asInt).bind
  intro a _
  apply hlast.bind
  intro w _
  apply (Outcomes.Follows.exactly w.asInt).bind
  intro b _
  exact (Outcomes.Follows.exactly (Range.elements closed a b)).bind fun xs _ => .exactly _

end Follows

/--
Outcomes follow the evaluation in order, on arguments of the types that the code expects.  The
induction is on the typing of the code, since a nested function is associative on typed accumulators
only; in parallel it meets accumulators that do not come up in order.
-/
theorem HasType.follows_eval (mode : Mode) {params : List Ty} {code : Code} {t : Ty}
    (h : HasType params code t) :
    code.FoldsAssociate → ∀ args, List.Forall₂ Value.HasType args params →
      (code.outcomes mode args).Follows (code.eval .sequential args) := by
  induction h with
  | param => exact fun _ args _ => .exactly _
  | int => exact fun _ args _ => .exactly _
  | float => exact fun _ args _ => .exactly _
  | neg _ _ ih => exact fun hassoc args hargs => follows_neg (ih hassoc args hargs)
  | arith _ _ _ ihl ihr =>
    exact fun hassoc args hargs => follows_arith (ihl hassoc.1 args hargs) (ihr hassoc.2 args hargs)
  | widen _ ih => exact fun hassoc args hargs => follows_cast (ih hassoc args hargs)
  | range _ _ ihf ihl =>
    exact fun hassoc args hargs => follows_range (ihf hassoc.1 args hargs) (ihl hassoc.2 args hargs)
  | @map params seq body t u ht hu hseq hbody ihs ihb =>
    intro hassoc args hargs
    apply (ihs hassoc.1 args hargs).bind
    intro v hv
    have htyped := hseq.yields_eval .sequential args hargs
    rw [hv] at htyped
    apply (Outcomes.Follows.exactly v.asSeq).bind
    intro s hs
    rcases htyped.exists_seq with ⟨s', rfl⟩
    cases hs
    have helements := ((Value.hasType_sequenceOf_iff ht).1 htyped).2
    apply Outcomes.Follows.bind
    · exact Sequence.follows_mapOutcomes mode
        (fun w hw => ihb hassoc.2 [w] (.cons (helements w hw) .nil)) _
    · exact fun r _ => .exactly _
  | @reduce params seq neutral body p r _ hr hpr hseq hneutral hbody ihs ihn ihb =>
    rintro ⟨hassocs, hassocn, hassocb, hassoc⟩ args hargs
    apply (ihs hassocs args hargs).bind
    intro v hv
    apply (ihn hassocn args hargs).bind
    intro start hstart
    have htyped := hseq.yields_eval .sequential args hargs
    have htypedn := hneutral.yields_eval .sequential args hargs
    rw [hv] at htyped
    rw [hstart] at htypedn
    apply (Outcomes.Follows.exactly v.asSeq).bind
    intro s hs
    rcases htyped.exists_seq with ⟨s', rfl⟩
    cases hs
    have hitems := Sequence.hasType_elementsAs hr hpr htyped
    rw [Value.HasType.storedKind_eq htypedn] at hitems
    exact mode.follows_reduceOutcomes hassoc
      (fun a b ha hb => hbody.yields_eval .sequential [a, b] (.cons ha (.cons hb .nil)))
      (fun a b ha hb => ihb hassocb [a, b] (.cons ha (.cons hb .nil))) htypedn hitems

end Code
end SeqCalc
