import SeqCalc.Proofs.Typing.Depth
import SeqCalc.Proofs.Typing.History

/-!
# Unknown types are accounted for

The type `unknown` stands for a mistake that has been complained about.  While inference goes on,
every type that it gives to a node or to a variable is proper, or it is `unknown` after a complaint;
and the operands that a complaint is about have proper types, so one mistake does not lead to the
next.  Every step keeps that up: a step that comes to `unknown` has complained, or else has found it
where it was before.

Main results:

- `Logged.Keeps.bind`: steps one after the other keep up what each of them keeps up.
- `Expr.keeps_inferLogged`: types are accounted for in the log of an expression.
- `SoundProgram.unknown_is_reported`: what unknown types say about the history of a program.
-/

namespace SeqCalc

/-! ## Types that are accounted for -/

namespace Ty

variable {r r' : Prop} {t u : Ty}

/-- A type is proper, or unknown where something has been reported. -/
def Accounted (reported : Prop) (t : Ty) : Prop :=
  t.IsProper ∨ t = .unknown ∧ reported

theorem IsProper.accounted (h : t.IsProper) : t.Accounted r :=
  .inl h

theorem accounted_unknown (h : r) : unknown.Accounted r :=
  .inr ⟨rfl, h⟩

theorem Accounted.mono (h : t.Accounted r) (hr : r → r') : t.Accounted r' :=
  h.imp_right fun hu => ⟨hu.1, hr hu.2⟩

theorem Accounted.isProper (h : t.Accounted r) (ht : t.isUnknown = false) : t.IsProper := by
  rcases h with hp | ⟨rfl, -⟩
  · exact hp
  · contradiction

theorem Accounted.reported (h : t.Accounted r) (ht : t.isUnknown = true) : r := by
  rcases h with hp | ⟨-, hr⟩
  · rw [hp.isUnknown_eq_false] at ht
    contradiction
  · exact hr

theorem Accounted.isProper_of_isSequence (h : t.Accounted r) (ht : t.isSequence = true) :
    t.IsProper := by
  rcases h with hp | ⟨rfl, -⟩
  · exact hp
  · contradiction

theorem eq_scalar_of_scalar? {s : Scalar} (h : t.scalar? = some s) : t = scalar s := by
  cases t with
  | scalar s' => exact congrArg scalar (Option.some.inj h)
  | seq element depth => contradiction

theorem accounted_scalar {s : Scalar} :
    (scalar s).Accounted r ↔ s.isNumeric = true ∨ s = .unknown ∧ r := by
  simp [Accounted, unknown]

/-- The common type of two scalars is unknown only if one of them is. -/
theorem Accounted.promote {p q : Scalar} (hp : (scalar p).Accounted r)
    (hq : (scalar q).Accounted r) : (scalar (p.promote q)).Accounted r := by
  rw [accounted_scalar] at hp hq ⊢
  cases p <;> cases q <;> simp_all [Scalar.promote, Scalar.isNumeric]

end Ty

/-- All variables of a scope have types that are accounted for. -/
def Scope.Accounted (reported : Prop) (s : Scope) : Prop :=
  ∀ v ∈ s.vars, v.ty.Accounted reported

namespace Scope

variable {r r' : Prop} {s s' : Scope}

theorem accounted_empty : Scope.empty.Accounted r := by
  intro v hv
  contradiction

theorem Accounted.mono (h : s.Accounted r) (hr : r → r') : s.Accounted r' :=
  fun v hv => (h v hv).mono hr

theorem Accounted.lookup? (h : s.Accounted r) {name : String} {v : Variable}
    (hv : s.lookup? name = some v) : v.ty.Accounted r :=
  h v (List.mem_of_find?_eq_some hv)

theorem Accounted.define (h : s.Accounted r) {v : Variable} (hv : v.ty.Accounted r)
    (hs : s.define v = .ok s') : s'.Accounted r := by
  rw [Accounted, (define_eq_ok_iff.1 hs).2]
  exact List.forall_mem_append.2 ⟨h, List.forall_mem_singleton.2 hv⟩

end Scope

/-! ## Faithful logs -/

/-- The types that the wording of a mistake mentions. -/
def Mistake.types : Mistake → List Ty
  | badOperand _ t | badRangeBound t | sequenceExpected t | scalarExpected _ t => [t]
  | badOperands _ t u | bodyMismatch t u => [t, u]
  | undefined .. | lambdaExpected _ | wrongArity .. | alreadyDefined _ | strayLambda => []

/-- All types of an event are accounted for, and those of a complaint are proper. -/
def TypingEvent.Sane (reported : Prop) : TypingEvent → Prop
  | complains c => ∀ t ∈ c.mistake.types, t.IsProper
  | visits _ t => t.Accounted reported
  | reads v | declares v => v.ty.Accounted reported

namespace TypingLog

/-- Some event of a log is a complaint. -/
def Reported (log : List TypingEvent) : Prop :=
  ∃ c, .complains c ∈ log

theorem reported_nil : ¬ Reported [] := by
  rintro ⟨c, hc⟩
  contradiction

theorem reported_append {xs ys : List TypingEvent} :
    Reported (xs ++ ys) ↔ Reported xs ∨ Reported ys := by
  simp [Reported, exists_or]

/-- Every event is sane, given what has been reported before the log and in it before the event. -/
def Faithful (reported : Prop) : List TypingEvent → Prop
  | [] => True
  | e :: rest => e.Sane reported ∧ Faithful (reported ∨ Reported [e]) rest

theorem faithful_append {r : Prop} {xs ys : List TypingEvent} :
    Faithful r (xs ++ ys) ↔ Faithful r xs ∧ Faithful (r ∨ Reported xs) ys := by
  induction xs generalizing r with
  | nil => simp [Faithful, reported_nil]
  | cons e rest ih =>
    have hreported : Reported (e :: rest) ↔ Reported [e] ∨ Reported rest :=
      @reported_append [e] rest
    rw [List.cons_append, Faithful, ih, Faithful, hreported, and_assoc, or_assoc]

/-- What is known at an event of a faithful log. -/
theorem Faithful.sane {r : Prop} {log before after : List TypingEvent} {e : TypingEvent}
    (h : Faithful r log) (hlog : log = before ++ e :: after) : e.Sane (r ∨ Reported before) := by
  subst hlog
  exact (faithful_append.1 h).2.1

end TypingLog

/-! ## Steps that keep a log faithful -/

open TypingLog

/--
A step that keeps the log faithful, from a moment at which something has been reported or not; what
it comes to has a property at the moment after it.
-/
structure Logged.Keeps {α : Type} (reported : Prop) (x : Logged α) (post : Prop → α → Prop) :
    Prop where
  faithful : Faithful reported x.log
  value : post (reported ∨ Reported x.log) x.value

namespace Logged

variable {α β : Type} {r : Prop}

theorem keeps_pure {post : Prop → α → Prop} {a : α} (h : post r a) : Keeps r (pure a) post := by
  refine ⟨trivial, ?_⟩
  change post (r ∨ Reported []) a
  simpa [reported_nil] using h

/-- Steps one after the other.  What has been reported once stays reported. -/
theorem Keeps.bind {post : Prop → α → Prop} {post' : Prop → β → Prop} {x : Logged α}
    {f : α → Logged β} (hx : Keeps r x post)
    (hf : ∀ (r' : Prop) a, (r → r') → post r' a → Keeps r' (f a) post') :
    Keeps r (x >>= f) post' := by
  have hnext := hf _ x.value Or.inl hx.value
  refine ⟨?_, ?_⟩
  · rw [log_bind, faithful_append]
    exact ⟨hx.faithful, hnext.faithful⟩
  · rw [log_bind, value_bind, reported_append, ← or_assoc]
    exact hnext.value

theorem keeps_declare {v : Variable} (h : v.ty.Accounted r) :
    Keeps r (declare v) fun _ _ => True :=
  ⟨⟨h, trivial⟩, trivial⟩

theorem keeps_complain {span : Span} {m : Mistake} (h : ∀ t ∈ m.types, t.IsProper) :
    Keeps r (complain span m) fun r' _ => r' :=
  ⟨⟨h, trivial⟩, .inr ⟨_, List.mem_singleton.2 rfl⟩⟩

theorem keeps_complainIf {reason : Bool} {span : Span} {m : Mistake}
    (h : reason = true → ∀ t ∈ m.types, t.IsProper) :
    Keeps r (complainIf reason span m) fun r' _ => reason = true → r' := by
  cases reason with
  | false => exact keeps_pure (by simp)
  | true =>
    have hkeeps : Keeps r (complain span m) fun r' _ => r' := keeps_complain (h rfl)
    exact ⟨hkeeps.faithful, fun _ => hkeeps.value⟩

theorem keeps_visit {id : NodeId} {t : Ty} (h : t.Accounted r) :
    Keeps r (visit id t) fun r' _ => t.Accounted r' :=
  ⟨⟨h, trivial⟩, h.mono Or.inl⟩

/-- The last steps of an expression. -/
theorem keeps_visit_return {id : NodeId} {t : Ty} (h : t.Accounted r) :
    Keeps r (do visit id t; return t) fun r' t => t.Accounted r' :=
  (keeps_visit h).bind fun _ _ _ ht => keeps_pure ht

/-- A step that comes to `unknown` with a complaint. -/
theorem keeps_report_complain {span : Span} {m : Mistake} (h : ∀ t ∈ m.types, t.IsProper) :
    Keeps r (report (do Inferred.complain span m; return Ty.unknown))
      fun r' t => t.Accounted r' :=
  ⟨⟨h, trivial⟩, Ty.accounted_unknown (.inr ⟨_, List.mem_singleton.2 rfl⟩)⟩

theorem keeps_resolve {env : Env} (h : env.scope.Accounted r) (site : Site) (name : String) :
    Keeps r (report (env.resolve site name)) fun r' t => t.Accounted r' := by
  unfold Env.resolve
  cases hv : env.scope.lookup? name with
  | none => exact keeps_report_complain (by simp [Mistake.types])
  | some v =>
    have hty := h.lookup? hv
    cases env.inLambda with
    | false => exact ⟨⟨hty, trivial⟩, hty.mono Or.inl⟩
    | true => exact keeps_pure hty

theorem keeps_elementOf {t : Ty} (h : t.Accounted r) (span : Span) :
    Keeps r (report (elementOf span t)) fun r' u => u.Accounted r' := by
  unfold elementOf
  cases he : t.element? with
  | some u =>
    have hseq : t.isSequence = true := by
      cases t with
      | scalar s => contradiction
      | seq element depth => rfl
    exact keeps_pure ((h.isProper_of_isSequence hseq).of_element? he).1.accounted
  | none =>
    cases hu : t.isUnknown with
    | true => exact keeps_pure (Ty.accounted_unknown (h.reported hu))
    | false => exact keeps_report_complain (by simpa [Mistake.types] using h.isProper hu)

theorem keeps_checkBound {t : Ty} (h : t.Accounted r) (span : Span) :
    Keeps r (report (checkBound span t)) fun _ _ => True := by
  unfold checkBound
  split
  case isTrue hbad =>
    have ht : t.IsProper := h.isProper (by simpa using hbad.2)
    exact ⟨⟨by simpa [TypingEvent.Sane, Mistake.types] using ht, trivial⟩, trivial⟩
  case isFalse => exact keeps_pure trivial

theorem keeps_combine {t u : Ty} (ht : t.Accounted r) (hu : u.Accounted r) (site : Site)
    (op : BinaryOp) :
    Keeps r (report (combine site op t u)) fun r' t => t.Accounted r' := by
  unfold combine
  split
  case h_1 p q hp hq =>
    rw [Ty.eq_scalar_of_scalar? hp] at ht
    rw [Ty.eq_scalar_of_scalar? hq] at hu
    exact keeps_pure (ht.promote hu)
  case h_2 =>
    cases htu : t.isUnknown with
    | true => exact keeps_pure (Ty.accounted_unknown (ht.reported htu))
    | false =>
      cases huu : u.isUnknown with
      | true => exact keeps_pure (Ty.accounted_unknown (hu.reported huu))
      | false =>
        refine keeps_report_complain ?_
        simpa [Mistake.types] using ⟨ht.isProper htu, hu.isProper huu⟩

/-- Where the accumulator is no scalar, the sequences among its operands are complained about. -/
theorem keeps_accumulator {t u : Ty} (ht : t.Accounted r) (hu : u.Accounted r) (s₁ s₂ : Span) :
    Keeps r (report (accumulator s₁ s₂ t u)) fun r' t => t.Accounted r' := by
  cases t with
  | scalar p =>
    cases u with
    | scalar q => exact keeps_pure (ht.promote hu)
    | seq element depth =>
      have hproper := hu.isProper_of_isSequence rfl
      exact keeps_report_complain (m := .scalarExpected .neutral _)
        (by simpa [Mistake.types] using hproper)
  | seq element depth =>
    have hproper := ht.isProper_of_isSequence rfl
    cases u with
    | scalar q =>
      exact keeps_report_complain (m := .scalarExpected .element _)
        (by simpa [Mistake.types] using hproper)
    | seq element' depth' =>
      have hproper' := hu.isProper_of_isSequence rfl
      refine ⟨⟨?_, ?_, trivial⟩, Ty.accounted_unknown (.inr ⟨_, List.mem_cons_self⟩)⟩
      · simpa [TypingEvent.Sane, Mistake.types] using hproper
      · simpa [TypingEvent.Sane, Mistake.types] using hproper'

/-- Parameters without a given type are unknown, which the number of parameters has to account for. -/
theorem keeps_bindParamsLogged {names : List String} {given : List Ty} {scope : Scope}
    (hgiven : ∀ t ∈ given, t.Accounted r) (hscope : scope.Accounted r)
    (hlen : given.length < names.length → r) (span : Span) :
    Keeps r (bindParamsLogged span scope names given) fun r' s => s.Accounted r' := by
  induction names generalizing r given scope with
  | nil => exact keeps_pure hscope
  | cons name names ih =>
    have hparam : (given.headD .unknown).Accounted r := by
      cases given with
      | nil => exact Ty.accounted_unknown (hlen (Nat.succ_pos _))
      | cons t rest => exact hgiven t List.mem_cons_self
    have hlen' : given.tail.length < names.length → r := by
      intro hlt
      rw [List.length_tail] at hlt
      exact hlen (by rw [List.length_cons]; omega)
    unfold bindParamsLogged
    refine (keeps_declare hparam).bind fun r₁ _ hr₁ _ => ?_
    have hgiven' : ∀ t ∈ given.tail, t.Accounted r₁ :=
      fun t ht => (hgiven t (List.mem_of_mem_tail ht)).mono hr₁
    cases hdefine : scope.define ⟨name, given.headD .unknown⟩ with
    | ok wider =>
      exact ih hgiven' ((hscope.define hparam hdefine).mono hr₁) (hr₁ ∘ hlen')
    | error v =>
      refine (keeps_complain (by simp [Mistake.types])).bind fun r₂ _ hr₂ _ => ?_
      exact ih (fun t ht => (hgiven' t ht).mono hr₂) (hscope.mono (hr₂ ∘ hr₁))
        (hr₂ ∘ hr₁ ∘ hlen')

end Logged

/-! ## Expressions -/

namespace Expr

open Logged

variable {r : Prop}

/-- Inference keeps the log faithful, for an expression here and as a function literal. -/
def KeepsLog (e : Expr) : Prop :=
  (∀ (r : Prop) (env : Env), env.scope.Accounted r →
      Keeps r (e.inferLogged env) fun r' t => t.Accounted r') ∧
    ∀ (r : Prop) (c : Combinator) (given : List Ty), (∀ t ∈ given, t.Accounted r) →
      Keeps r (e.inferFunctionLogged c given) fun r' body => body.1.Accounted r'

/-- What is not a function literal is complained about where there should be one. -/
theorem keepsLog_of_operation {e : Expr}
    (hfunction : ∀ c given, e.inferFunctionLogged c given = do
      Logged.complain e.span (.lambdaExpected c)
      return (.unknown, e.span))
    (h : ∀ (r : Prop) (env : Env), env.scope.Accounted r →
      Keeps r (e.inferLogged env) fun r' t => t.Accounted r') : e.KeepsLog := by
  refine ⟨h, fun r c given _ => ?_⟩
  rw [hfunction]
  refine (keeps_complain (by simp [Mistake.types])).bind fun r' _ _ hr' => ?_
  exact keeps_pure (Ty.accounted_unknown hr')

theorem keepsLog_unary {site : Site} {op : UnaryOp} {operand : Expr} (ho : operand.KeepsLog) :
    (Expr.unary site op operand).KeepsLog := by
  refine keepsLog_of_operation (fun _ _ => rfl) fun r env henv => ?_
  refine (ho.1 r env henv).bind fun r₁ t _ ht => ?_
  refine (keeps_complainIf fun hseq => ?_).bind fun r₂ _ hr₂ hbad => ?_
  · simpa [Mistake.types] using ht.isProper_of_isSequence hseq
  · refine keeps_visit_return ?_
    cases hseq : t.isSequence with
    | true => exact Ty.accounted_unknown (hbad hseq)
    | false => exact ht.mono hr₂

theorem keepsLog_binary {site : Site} {op : BinaryOp} {left right : Expr} (hl : left.KeepsLog)
    (hr : right.KeepsLog) : (Expr.binary site op left right).KeepsLog := by
  refine keepsLog_of_operation (fun _ _ => rfl) fun r env henv => ?_
  refine (hl.1 r env henv).bind fun r₁ t hr₁ ht => ?_
  refine (hr.1 r₁ env (henv.mono hr₁)).bind fun r₂ u hr₂ hu => ?_
  exact (keeps_combine (ht.mono hr₂) hu site op).bind fun r₃ v _ hv => keeps_visit_return hv

theorem keepsLog_range {site : Site} {first last : Expr} (hf : first.KeepsLog)
    (hl : last.KeepsLog) : (Expr.range site first last).KeepsLog := by
  refine keepsLog_of_operation (fun _ _ => rfl) fun r env henv => ?_
  refine (hf.1 r env henv).bind fun r₁ t hr₁ ht => ?_
  refine (keeps_checkBound ht first.span).bind fun r₂ _ hr₂ _ => ?_
  refine (hl.1 r₂ env (henv.mono (hr₂ ∘ hr₁))).bind fun r₃ u _ hu => ?_
  refine (keeps_checkBound hu last.span).bind fun r₄ _ _ _ => ?_
  exact keeps_visit_return Ty.isProper_int.sequenceOf.accounted

theorem keepsLog_map {site : Site} {seq function : Expr} (hs : seq.KeepsLog)
    (hf : function.KeepsLog) : (Expr.map site seq function).KeepsLog := by
  refine keepsLog_of_operation (fun _ _ => rfl) fun r env henv => ?_
  refine (hs.1 r env henv).bind fun r₁ t _ ht => ?_
  refine (keeps_elementOf ht seq.span).bind fun r₂ element _ helement => ?_
  refine (hf.2 r₂ .map [element] (by simpa using helement)).bind fun r₃ body _ hbody => ?_
  refine keeps_visit_return ?_
  cases hu : body.1.isUnknown with
  | true => exact Ty.accounted_unknown (hbody.reported hu)
  | false => exact (hbody.isProper hu).sequenceOf.accounted

theorem keepsLog_reduce {site : Site} {seq neutral function : Expr} (hs : seq.KeepsLog)
    (hn : neutral.KeepsLog) (hf : function.KeepsLog) :
    (Expr.reduce site seq neutral function).KeepsLog := by
  refine keepsLog_of_operation (fun _ _ => rfl) fun r env henv => ?_
  rw [inferLogged]
  refine (hs.1 r env henv).bind fun r₁ t hr₁ ht => ?_
  refine (hn.1 r₁ env (henv.mono hr₁)).bind fun r₂ u hr₂ hu => ?_
  refine (keeps_elementOf (ht.mono hr₂) seq.span).bind fun r₃ element hr₃ helement => ?_
  refine (keeps_accumulator helement (hu.mono hr₃) seq.span neutral.span).bind
    fun r₄ acc _ hacc => ?_
  refine (hf.2 r₄ .reduce [acc, acc] (by simpa using hacc)).bind fun r₅ body hr₅ hbody => ?_
  refine (keeps_complainIf fun hbad => ?_).bind fun r₆ _ hr₆ _ => ?_
  · simp only [Bool.and_eq_true, Bool.not_eq_true'] at hbad
    simpa [Mistake.types] using
      ⟨(hacc.mono hr₅).isProper hbad.1.1, hbody.isProper hbad.1.2⟩
  · exact keeps_visit_return (hacc.mono (hr₆ ∘ hr₅))

/-- A wrong number of parameters is complained about before any of them is declared. -/
theorem keepsLog_lambda {site : Site} {params : List String} {body : Expr} (hb : body.KeepsLog) :
    (Expr.lambda site params body).KeepsLog := by
  constructor
  · intro r env henv
    refine (keeps_complain (by simp [Mistake.types])).bind fun r' _ _ hr' => ?_
    exact keeps_visit_return (Ty.accounted_unknown hr')
  · intro r c given hgiven
    refine (keeps_complainIf (by simp [Mistake.types])).bind fun r₁ _ hr₁ harity => ?_
    refine (keeps_bindParamsLogged (fun t ht => (hgiven t ht).mono hr₁) Scope.accounted_empty
      (fun hlt => harity (by simp [Nat.ne_of_gt hlt])) site.span).bind fun r₂ scope _ hscope => ?_
    refine (hb.1 r₂ ⟨scope, true⟩ hscope).bind fun r₃ t _ ht => ?_
    exact (keeps_visit ht).bind fun r₄ _ _ ht => keeps_pure ht

/-- The log of every expression is faithful, and its type is accounted for. -/
theorem keeps_inferLogged (e : Expr) : e.KeepsLog := by
  induction e with
  | int site value =>
    exact keepsLog_of_operation (fun _ _ => rfl)
      fun r env _ => keeps_visit_return Ty.isProper_int.accounted
  | float site bits =>
    exact keepsLog_of_operation (fun _ _ => rfl)
      fun r env _ => keeps_visit_return Ty.isProper_float.accounted
  | ident site name =>
    exact keepsLog_of_operation (fun _ _ => rfl)
      fun r env henv => (keeps_resolve henv site name).bind fun _ _ _ ht => keeps_visit_return ht
  | unary site op operand ih => exact keepsLog_unary ih
  | binary site op left right ihl ihr => exact keepsLog_binary ihl ihr
  | range site first last ihf ihl => exact keepsLog_range ihf ihl
  | map site seq function ihs ihf => exact keepsLog_map ihs ihf
  | reduce site seq neutral function ihs ihn ihf => exact keepsLog_reduce ihs ihn ihf
  | lambda site params body ih => exact keepsLog_lambda ih

end Expr

/-! ## Statements -/

open Logged

theorem Stmt.keeps_inferLogged (s : Stmt) {r : Prop} {scope : Scope} (h : scope.Accounted r)
    (index : Nat) :
    Keeps r (s.inferLogged index scope) fun r' out => out.2.Accounted r' := by
  have hvalue := s.value.keeps_inferLogged.1 r ⟨scope, false⟩ h
  rcases s with ⟨target, value, span⟩
  cases target with
  | none =>
    refine hvalue.bind fun r₁ t hr₁ ht => ?_
    exact (keeps_declare (v := .printMarker index t) ht).bind
      fun r₂ _ hr₂ _ => keeps_pure (h.mono (hr₂ ∘ hr₁))
  | some name =>
    refine hvalue.bind fun r₁ t hr₁ ht => ?_
    refine (keeps_declare (v := ⟨name, t⟩) ht).bind fun r₂ _ hr₂ _ => ?_
    cases hdefine : scope.define ⟨name, t⟩ with
    | ok wider =>
      exact keeps_pure ((h.mono (hr₂ ∘ hr₁)).define (v := ⟨name, t⟩) (ht.mono hr₂) hdefine)
    | error v =>
      exact (keeps_complain (by simp [Mistake.types])).bind
        fun r₃ _ hr₃ _ => keeps_pure (h.mono (hr₃ ∘ hr₂ ∘ hr₁))

/-- A statement declares what it writes. -/
theorem Stmt.declares_output (s : Stmt) (index : Nat) (scope : Scope) :
    .declares (s.inferLogged index scope).value.1.output ∈ (s.inferLogged index scope).log := by
  rcases s with ⟨target, value, span⟩
  cases target with
  | none => exact List.mem_append_right _ List.mem_cons_self
  | some name =>
    simp only [Stmt.inferLogged, log_bind, value_bind]
    cases scope.define ⟨name, (value.inferLogged ⟨scope, false⟩).value⟩ <;>
      exact List.mem_append_right _ List.mem_cons_self

theorem keeps_inferStmtsLogged (stmts : List Stmt) {r : Prop} {scope : Scope}
    (h : scope.Accounted r) (index : Nat) :
    Keeps r (inferStmtsLogged index scope stmts) fun _ _ => True := by
  induction stmts generalizing r index scope with
  | nil => exact keeps_pure trivial
  | cons s rest ih =>
    refine (s.keeps_inferLogged h index).bind fun r₁ out _ hout => ?_
    exact (ih hout (index + 1)).bind fun _ _ _ _ => keeps_pure trivial

theorem declares_outputs (stmts : List Stmt) (index : Nat) (scope : Scope) :
    ∀ s ∈ (inferStmtsLogged index scope stmts).value,
      .declares s.output ∈ (inferStmtsLogged index scope stmts).log := by
  induction stmts generalizing index scope with
  | nil =>
    intro s hs
    exact absurd hs List.not_mem_nil
  | cons s rest ih =>
    simp only [inferStmtsLogged, value_bind, log_bind]
    refine List.forall_mem_cons.2 ⟨?_, fun t ht => ?_⟩
    · exact List.mem_append_left _ (s.declares_output index scope)
    · exact List.mem_append_right _ (List.mem_append_left _ (ih _ _ t ht))

/-! ## Programs -/

namespace SoundProgram

theorem faithful_history (p : SoundProgram) : Faithful False p.history :=
  (keeps_inferStmtsLogged p.stmts Scope.accounted_empty 0).faithful

theorem sane_of_history (p : SoundProgram) {before after : List TypingEvent} {e : TypingEvent}
    (h : p.history = before ++ e :: after) : e.Sane (Reported before) := by
  simpa using p.faithful_history.sane h

theorem sane_of_mem_history (p : SoundProgram) {e : TypingEvent} (h : e ∈ p.history) :
    ∃ before, e.Sane (Reported before) := by
  rcases List.append_of_mem h with ⟨before, after, hlog⟩
  exact ⟨before, p.sane_of_history hlog⟩

theorem declares_signatures (p : SoundProgram) :
    ∀ s ∈ p.infer.signatures, .declares s.output ∈ p.history := by
  have hvalue : (inferStmtsLogged 0 .empty p.stmts).value = p.infer.signatures :=
    congrArg Inferred.value (forget_inferStmtsLogged p.stmts 0 .empty)
  intro s hs
  rw [← hvalue] at hs
  exact declares_outputs p.stmts 0 .empty s hs

/--
Unknown types are faithful.  The history of inference is its findings in order.  In it every visit
that gives a node the type `unknown` comes after a complaint; every other type that a visit gives,
and every other type of a variable, has a known element and is nested at least once if it is a
sequence, and the depths that visits give are numbers of half a word; and the types that a complaint
mentions are known, so an unknown operand is not what any complaint is about.
-/
theorem unknown_is_reported (p : SoundProgram) :
    p.history.filterMap TypingEvent.complaint? = p.infer.complaints ∧
      p.history.filterMap TypingEvent.visit? = p.visits ∧
      (∀ s ∈ p.infer.signatures, .declares s.output ∈ p.history) ∧
      (∀ before id after, p.history = before ++ .visits id .unknown :: after →
        ∃ c, .complains c ∈ before) ∧
      (∀ id t, .visits id t ∈ p.history → t = .unknown ∨ t.IsProper ∧ t.depth < UInt32.size) ∧
      (∀ v, .declares v ∈ p.history → v.ty = .unknown ∨ v.ty.IsProper) ∧
      ∀ c ∈ p.infer.complaints, ∀ t ∈ c.mistake.types, t.IsProper := by
  refine ⟨p.complaints_history, p.visits_history, p.declares_signatures, ?_, ?_, ?_, ?_⟩
  · intro before id after h
    have hunknown : Ty.unknown.Accounted (Reported before) := p.sane_of_history h
    exact hunknown.reported rfl
  · intro id t h
    have hvisit : (id, t) ∈ p.visits := by
      rw [← p.visits_history]
      exact List.mem_filterMap.2 ⟨_, h, rfl⟩
    rcases p.sane_of_mem_history h with ⟨before, hproper | ⟨hunknown, -⟩⟩
    · exact .inr ⟨hproper, p.depth_visits_lt _ hvisit⟩
    · exact .inl hunknown
  · intro v h
    rcases p.sane_of_mem_history h with ⟨before, hproper | ⟨hunknown, -⟩⟩
    · exact .inr hproper
    · exact .inl hunknown
  · intro c hc
    rw [← p.complaints_history] at hc
    rcases List.mem_filterMap.1 hc with ⟨e, he, hec⟩
    rcases p.sane_of_mem_history he with ⟨before, hsane⟩
    cases e with
    | complains c' =>
      cases hec
      exact hsane
    | visits | reads | declares => contradiction

/-- A map over a sum of a range and a name that is not there: one complaint for five nodes. -/
def undefinedSummand : SoundProgram where
  program :=
    { arena :=
        { nodes := #[
            ⟨.ident ⟨0⟩, .nowhere⟩, ⟨.int 1, .nowhere⟩, ⟨.int 5, .nowhere⟩,
            ⟨.range ⟨1⟩ ⟨2⟩, .nowhere⟩, ⟨.binary .add ⟨0⟩ ⟨3⟩, .nowhere⟩,
            ⟨.ident ⟨1⟩, .nowhere⟩, ⟨.lambda ⟨0, 1⟩ ⟨5⟩, .nowhere⟩, ⟨.map ⟨4⟩ ⟨6⟩, .nowhere⟩]
          names := #["a", "x"]
          params := #[⟨1⟩] }
      stmts := #[⟨.print ⟨7⟩, .nowhere⟩] }
  sound := by decide +kernel

/-- The map is unknown, after the complaint about the name; the range and its bounds are not. -/
theorem unknown_is_reported_undefinedSummand :
    undefinedSummand.history.getLast? = some (.declares (.printMarker 0 .unknown)) ∧
      undefinedSummand.history = undefinedSummand.history.take 9 ++
        .visits ⟨7⟩ .unknown :: undefinedSummand.history.drop 10 ∧
      (∃ c, .complains c ∈ undefinedSummand.history.take 9) ∧
      .visits ⟨3⟩ Ty.int.sequenceOf ∈ undefinedSummand.history ∧
      (Ty.int.sequenceOf = .unknown ∨
        Ty.int.sequenceOf.IsProper ∧ Ty.int.sequenceOf.depth < UInt32.size) ∧
      ∀ c ∈ undefinedSummand.infer.complaints, ∀ t ∈ c.mistake.types, t.IsProper := by
  have hsplit : undefinedSummand.history = undefinedSummand.history.take 9 ++
      .visits ⟨7⟩ .unknown :: undefinedSummand.history.drop 10 := by decide +kernel
  have hrange : .visits ⟨3⟩ Ty.int.sequenceOf ∈ undefinedSummand.history := by decide +kernel
  have hfaithful := undefinedSummand.unknown_is_reported
  exact ⟨by decide +kernel, hsplit, hfaithful.2.2.2.1 _ _ _ hsplit, hrange,
    hfaithful.2.2.2.2.1 _ _ hrange, hfaithful.2.2.2.2.2.2⟩

end SoundProgram
end SeqCalc
