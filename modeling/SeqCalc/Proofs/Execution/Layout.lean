import SeqCalc.Proofs.Diagnostic.Frames
import SeqCalc.Proofs.Execution.Preparation
import SeqCalc.Proofs.Typing.Layout

/-!
# Programs and their layout

How the trees of a program are laid out in its tables shows in one place only: lowering looks types
up by position, and the table keeps one type for each node.  Programs with the same trees get the
same complaints, and they compile to the same statements if in both of them no node is given two
types.  Without that, a node that is shared by two parents may be lowered by the type that it has
for the other one, and then copying it makes a difference.

Main results:

- `Expr.Elaborates.unique`: an expression has one type and one code.
- `SoundProgram.SameTrees.agree`: programs with the same trees agree, as far as nodes have one type.
- `SoundProgram.run_negations`: a shared function literal that is given two types.
-/

namespace SeqCalc

/-! ## Code without positions -/

theorem Ty.IsProper.sequenceOf_inj {t u : Ty} (ht : t.IsProper) (hu : u.IsProper)
    (h : t.sequenceOf = u.sequenceOf) : t = u := by
  have helement := congrArg Ty.element? h
  rw [ht.element?_sequenceOf, hu.element?_sequenceOf, Option.some.injEq] at helement
  exact helement

namespace Expr

variable {Γ : Context} {inputs : List Variable} {e : Expr} {t : Ty} {code : Code}

/-- The code of an expression does not depend on where its nodes stand. -/
theorem Elaborates.anonymous (h : Elaborates Γ inputs e t code) :
    Elaborates Γ inputs e.anonymous t code := by
  induction h with
  | int => exact .int
  | float => exact .float
  | ident hname hslot => exact .ident hname hslot
  | plus hp _ ih => exact .plus hp ih
  | neg hp _ ih => exact .neg hp ih
  | binary hp hq _ _ ihl ihr => exact .binary hp hq ihl ihr
  | range _ _ ihf ihl => exact .range ihf ihl
  | map ht hu _ _ ihs ihb => exact .map ht hu ihs ihb
  | reduce hp hq hne hr _ _ _ ihs ihn ihb => exact .reduce hp hq hne hr ihs ihn ihb

/-- An expression has one type and one code. -/
theorem Elaborates.unique (h : Elaborates Γ inputs e t code) :
    ∀ {u : Ty} {other : Code}, Elaborates Γ inputs e u other → t = u ∧ code = other := by
  induction h with
  | int =>
    rintro u other ⟨⟩
    exact ⟨rfl, rfl⟩
  | float =>
    rintro u other ⟨⟩
    exact ⟨rfl, rfl⟩
  | ident hname hslot =>
    intro u other h
    cases h with
    | ident hname' hslot' =>
      rw [hname, Option.some.injEq] at hname'
      subst hname'
      have hsame := hslot.1.symm.trans hslot'.1
      rw [Option.some.injEq] at hsame
      exact ⟨rfl, congrArg Code.param hsame⟩
  | plus _ _ ih =>
    intro u other h
    cases h with
    | plus _ h => exact ih h
  | neg _ _ ih =>
    intro u other h
    cases h with
    | neg _ h =>
      rcases ih h with ⟨hty, rfl⟩
      cases hty
      exact ⟨rfl, rfl⟩
  | binary _ _ _ _ ihl ihr =>
    intro u other h
    cases h with
    | binary _ _ hl hr =>
      rcases ihl hl with ⟨htyl, rfl⟩
      rcases ihr hr with ⟨htyr, rfl⟩
      cases htyl
      cases htyr
      exact ⟨rfl, rfl⟩
  | range _ _ ihf ihl =>
    intro u other h
    cases h with
    | range hf hl =>
      rcases ihf hf with ⟨-, rfl⟩
      rcases ihl hl with ⟨-, rfl⟩
      exact ⟨rfl, rfl⟩
  | map ht _ _ _ ihs ihb =>
    intro u other h
    cases h with
    | map ht' _ hs hb =>
      rcases ihs hs with ⟨hseq, rfl⟩
      cases ht.sequenceOf_inj ht' hseq
      rcases ihb hb with ⟨rfl, rfl⟩
      exact ⟨rfl, rfl⟩
  | reduce _ _ _ hr _ _ _ ihs ihn ihb =>
    intro u other h
    cases h with
    | reduce _ _ _ hr' hs hn hb =>
      rcases ihs hs with ⟨hseq, rfl⟩
      rcases ihn hn with ⟨hneutral, rfl⟩
      cases hseq
      cases hneutral
      cases hr.trans hr'.symm
      rcases ihb hb with ⟨-, rfl⟩
      exact ⟨rfl, rfl⟩

end Expr

/-! ## Statements -/

namespace Lowered

/-- Statements that are the same without positions are lowered to the same statement. -/
theorem statement_congr {l m : Lowered} {scope : Scope} (hl : l.FitsIn scope) (hm : m.FitsIn scope)
    (hstmt : l.stmt.anonymous = m.stmt.anonymous) (hsignature : l.signature = m.signature)
    (b : Backend) : l.statement b = m.statement b := by
  have hvalue : l.stmt.value.anonymous = m.stmt.value.anonymous := congrArg (fun s => s.value) hstmt
  have hspan : l.stmt.span = m.stmt.span := congrArg (fun s => s.span) hstmt
  have hlcode := hl.elaborates.anonymous
  have hmcode := hm.elaborates.anonymous
  rw [hvalue, hsignature] at hlcode
  have hbody : l.body = m.body := (hlcode.unique hmcode).2
  rw [statement, statement, function, function, hsignature, hspan, hbody]

theorem Prepared.map_statement_congr {index : Nat} {scope : Scope} {ls ms : List Lowered}
    (hl : Prepared index scope ls) (hm : Prepared index scope ms)
    (h : ls.map (fun l => l.stmt.anonymous) = ms.map (fun m => m.stmt.anonymous)) (b : Backend) :
    ls.map (statement b) = ms.map (statement b) := by
  induction hl generalizing ms with
  | nil =>
    rw [List.map_nil, eq_comm, List.map_eq_nil_iff] at h
    rw [h]
  | @cons index scope next l ls hvalue _ hfits _ ih =>
    cases hm with
    | nil => simp at h
    | @cons _ _ next' m ms hvalue' _ hfits' hrest' =>
      rw [List.map_cons, List.map_cons, List.cons.injEq] at h
      have hinfer := congrArg (fun x => x.value) (Stmt.unvisited_infer_congr h.1 index scope)
      have hsame : (l.signature, next) = (m.signature, next') :=
        hvalue.symm.trans (hinfer.trans hvalue')
      rw [Prod.mk.injEq] at hsame
      rcases hsame with ⟨hsignature, rfl⟩
      rw [List.map_cons, List.map_cons, statement_congr hfits hfits' h.1 hsignature b,
        ih hrest' h.2]

end Lowered

/-! ## Programs -/

namespace Emitter

/-- A collection into which something is reported fails, whatever it keeps. -/
theorem isSome_collect (e : Emitter) {ds : List Diagnostic} (h : ds ≠ []) :
    (e.collect ds).1.isSome := by
  rw [collect_eq, answerFor, if_neg h]
  rfl

end Emitter

namespace SoundProgram

/-- A program with complaints does not compile, and the reasons are its diagnostics. -/
theorem compile_of_complaints {p : SoundProgram} (hc : p.infer.complaints ≠ []) (b : Backend)
    (limit : Option Nat) :
    p.compile b limit = .error (.diagnostics
      (((Emitter.withLimit limit).collect p.infer.diagnostics).1.getD [])) := by
  have hds : p.infer.diagnostics ≠ [] := by
    simpa [TypedProgram.diagnostics] using hc
  have hkept := (Emitter.withLimit limit).isSome_collect hds
  cases hcollect : (Emitter.withLimit limit).collect p.infer.diagnostics with
  | mk kept e =>
    rw [hcollect] at hkept
    cases kept with
    | none => contradiction
    | some kept => simp only [compile, check, hcollect, Option.getD_some]

theorem SameTrees.diagnostics {p q : SoundProgram} (h : p.SameTrees q) :
    p.infer.diagnostics = q.infer.diagnostics := by
  rw [TypedProgram.diagnostics, TypedProgram.diagnostics, h.infer.2]

/--
Programs with the same trees have the same signatures and the same diagnostics.  If these are errors
neither compiles.  Otherwise, if in both programs no node is given two types, as in every forest, a
backend that addresses their inputs compiles both programs to the same statements, whose runs are
then the same.
-/
theorem SameTrees.agree {p q : SoundProgram} (h : p.SameTrees q)
    (hv : p.infer.complaints = [] → p.VisitsAgree ∧ q.VisitsAgree) :
    p.infer.signatures = q.infer.signatures ∧ p.infer.diagnostics = q.infer.diagnostics ∧
      (∀ b limit, p.compile b limit = q.compile b limit) ∧
      (p.infer.complaints = [] → ∀ b, p.AddressedBy b → ∃ program : CompiledProgram,
        ∀ limit, p.compile b limit = .ok program ∧ q.compile b limit = .ok program) := by
  by_cases hc : p.infer.complaints = []
  · have hqc : q.infer.complaints = [] := h.infer.2 ▸ hc
    rcases p.prepared hc (hv hc).1 with ⟨ls, hls, hlstmts, -, -, hpcompile, hprefused⟩
    rcases q.prepared hqc (hv hc).2 with ⟨ms, hms, hmstmts, -, -, hqcompile, hqrefused⟩
    have hanonymous : ls.map (fun l => l.stmt.anonymous) = ms.map (fun m => m.stmt.anonymous) := by
      have hsame : p.stmts.map Stmt.anonymous = q.stmts.map Stmt.anonymous := h
      rw [← hlstmts, ← hmstmts, List.map_map, List.map_map] at hsame
      exact hsame
    have hstatements := hls.map_statement_congr hms hanonymous
    have haddressed : ∀ b, q.AddressedBy b ↔ p.AddressedBy b := by
      intro b
      rw [AddressedBy, AddressedBy, h.infer.1]
    refine ⟨h.infer.1, h.diagnostics, ?_, ?_⟩
    · intro b limit
      by_cases hp : p.AddressedBy b
      · rw [hpcompile b hp, hqcompile b ((haddressed b).2 hp), hstatements]
      · rw [hprefused b hp, hqrefused b ((haddressed b).not.2 hp)]
    · intro _ b hp
      refine ⟨ls.map (Lowered.statement b), fun limit => ⟨hpcompile b hp limit, ?_⟩⟩
      rw [hqcompile b ((haddressed b).2 hp), hstatements]
  · have hqc : q.infer.complaints ≠ [] := h.infer.2 ▸ hc
    refine ⟨h.infer.1, h.diagnostics, ?_, fun hnone => absurd hnone hc⟩
    intro b limit
    rw [compile_of_complaints hc, compile_of_complaints hqc, h.diagnostics]

/-- `sumOfSquares` with one node for both operands of `x * x`, and without the node left over. -/
def sumOfSquaresShared : SoundProgram where
  program :=
    { arena :=
        { nodes := #[
            ⟨.int 1, .nowhere⟩, ⟨.int 3, .nowhere⟩, ⟨.range ⟨0⟩ ⟨1⟩, .nowhere⟩,
            ⟨.ident ⟨0⟩, .nowhere⟩, ⟨.binary .mul ⟨3⟩ ⟨3⟩, .nowhere⟩,
            ⟨.lambda ⟨1, 1⟩ ⟨4⟩, .nowhere⟩, ⟨.map ⟨2⟩ ⟨5⟩, .nowhere⟩,
            ⟨.ident ⟨1⟩, .nowhere⟩, ⟨.float 0x3FE0000000000000, .nowhere⟩,
            ⟨.ident ⟨2⟩, .nowhere⟩, ⟨.ident ⟨0⟩, .nowhere⟩, ⟨.binary .add ⟨9⟩ ⟨10⟩, .nowhere⟩,
            ⟨.lambda ⟨0, 2⟩ ⟨11⟩, .nowhere⟩, ⟨.reduce ⟨7⟩ ⟨8⟩ ⟨12⟩, .nowhere⟩]
          names := #["x", "xs", "acc"]
          params := #[⟨2⟩, ⟨0⟩] }
      stmts := #[⟨.define ⟨1⟩ ⟨6⟩, .nowhere⟩, ⟨.print ⟨13⟩, .nowhere⟩] }
  sound := by decide +kernel

theorem SameTrees.agree_sumOfSquares :
    sumOfSquares.SameTrees sumOfSquaresShared ∧ sumOfSquares.infer.complaints = [] ∧
      sumOfSquares.VisitsAgree ∧ sumOfSquaresShared.VisitsAgree ∧
      ¬ sumOfSquaresShared.program.IsForest ∧
      ∀ b, ∃ program : CompiledProgram, ∀ limit, sumOfSquares.compile b limit = .ok program ∧
        sumOfSquaresShared.compile b limit = .ok program := by
  have h : sumOfSquares.SameTrees sumOfSquaresShared := by decide +kernel
  have hc : sumOfSquares.infer.complaints = [] := by decide +kernel
  have hv : sumOfSquares.VisitsAgree := by decide +kernel
  have hvs : sumOfSquaresShared.VisitsAgree := by decide +kernel
  have haddressed : ∀ b, sumOfSquares.AddressedBy b := by
    intro b
    cases b <;> decide +kernel
  exact ⟨h, hc, hv, hvs, by decide +kernel,
    fun b => (h.agree fun _ => ⟨hv, hvs⟩).2.2.2 hc b (haddressed b)⟩

/-! ## A shared function literal -/

/--
`print map({1, 1}, f)` and `print map(map({1, 1}, y -> 0.5), f)`, where `f` is one node for
`x -> -x`.
-/
def sharedNegation : SoundProgram where
  program :=
    { arena :=
        { nodes := #[
            ⟨.int 1, .nowhere⟩, ⟨.int 1, .nowhere⟩, ⟨.range ⟨0⟩ ⟨1⟩, .nowhere⟩,
            ⟨.ident ⟨0⟩, .nowhere⟩, ⟨.unary .neg ⟨3⟩, .nowhere⟩, ⟨.lambda ⟨0, 1⟩ ⟨4⟩, .nowhere⟩,
            ⟨.map ⟨2⟩ ⟨5⟩, .nowhere⟩,
            ⟨.int 1, .nowhere⟩, ⟨.int 1, .nowhere⟩, ⟨.range ⟨7⟩ ⟨8⟩, .nowhere⟩,
            ⟨.float 0x3FE0000000000000, .nowhere⟩, ⟨.lambda ⟨1, 1⟩ ⟨10⟩, .nowhere⟩,
            ⟨.map ⟨9⟩ ⟨11⟩, .nowhere⟩, ⟨.map ⟨12⟩ ⟨5⟩, .nowhere⟩]
          names := #["x", "y"]
          params := #[⟨0⟩, ⟨1⟩] }
      stmts := #[⟨.print ⟨6⟩, .nowhere⟩, ⟨.print ⟨13⟩, .nowhere⟩] }
  sound := by decide +kernel

/-- The same statements, with a copy of `f` for each of them. -/
def copiedNegation : SoundProgram where
  program :=
    { arena :=
        { nodes := #[
            ⟨.int 1, .nowhere⟩, ⟨.int 1, .nowhere⟩, ⟨.range ⟨0⟩ ⟨1⟩, .nowhere⟩,
            ⟨.ident ⟨0⟩, .nowhere⟩, ⟨.unary .neg ⟨3⟩, .nowhere⟩, ⟨.lambda ⟨0, 1⟩ ⟨4⟩, .nowhere⟩,
            ⟨.map ⟨2⟩ ⟨5⟩, .nowhere⟩,
            ⟨.int 1, .nowhere⟩, ⟨.int 1, .nowhere⟩, ⟨.range ⟨7⟩ ⟨8⟩, .nowhere⟩,
            ⟨.float 0x3FE0000000000000, .nowhere⟩, ⟨.lambda ⟨1, 1⟩ ⟨10⟩, .nowhere⟩,
            ⟨.map ⟨9⟩ ⟨11⟩, .nowhere⟩,
            ⟨.ident ⟨0⟩, .nowhere⟩, ⟨.unary .neg ⟨13⟩, .nowhere⟩, ⟨.lambda ⟨0, 1⟩ ⟨14⟩, .nowhere⟩,
            ⟨.map ⟨12⟩ ⟨15⟩, .nowhere⟩]
          names := #["x", "y"]
          params := #[⟨0⟩, ⟨1⟩] }
      stmts := #[⟨.print ⟨6⟩, .nowhere⟩, ⟨.print ⟨16⟩, .nowhere⟩] }
  sound := by decide +kernel

/--
The table keeps the type that the second statement gives to `f`, so the first one treats its
integers as floats.  The interpreter has a fault of its own there, and the native machine does not
take the code.  With a copy for each statement both run to the end.
-/
theorem run_negations :
    sharedNegation.SameTrees copiedNegation ∧ sharedNegation.infer.complaints = [] ∧
      sharedNegation.run? .interp = some (.error ⟨.nowhere, .mismatch .float .int⟩, some []) ∧
      copiedNegation.run? .interp = some (.ok (), some ["[-1]", "[-0.5]"]) ∧
      sharedNegation.run? .native = none ∧
      copiedNegation.run? .native = some (.ok (), some ["[-1]", "[-0.5]"]) := by
  decide +kernel

end SoundProgram
end SeqCalc
