import SeqCalc.Proofs.Execution.Isolation

/-!
# Values without an order

A memory in which a run has bound all its values says by itself what each statement comes to: the
callable of the statement, applied to the values of its inputs there.  So it does not matter in which
order these values were found.  Any checked statements of which each comes to some value in that
memory, and to the value that is bound there if it is a definition, run through, and they come to
these values; what their print markers are called does not matter either, for nothing reads them.

Main results:

- `computes_of_executed`: the statements of a run, seen from the memory at its end.
- `Lowered.Prepared.executed_eq`: a run whose values are those of a given memory.
-/

namespace SeqCalc

/-! ## Memories that have grown -/

theorem Memory.find?_of_append {m : Memory} {v : Variable} {value : Value}
    (h : m.find? v = some value) (more : List (Variable × Value)) :
    (⟨m.bindings ++ more⟩ : Memory).find? v = some value := by
  rcases Option.map_eq_some_iff.1 h with ⟨x, hx, rfl⟩
  rw [Memory.find?, List.find?_append, hx]
  rfl

namespace Statement

/-- What a statement comes to, given the values that a memory has for its inputs. -/
def Computes (s : Statement) (mode : Mode) (m : Memory) (value : Value) : Prop :=
  ∃ args, s.Reads m args ∧ (s.callable mode args).result = .ok value

variable {s : Statement} {mode : Mode} {m m' : Memory} {value : Value}

/-- Of a memory only the values of the inputs count. -/
theorem Computes.congr (h : s.Computes mode m value)
    (hinputs : ∀ v ∈ s.inputs, ∀ w, m.find? v = some w → m'.find? v = some w) :
    s.Computes mode m' value := by
  rcases h with ⟨args, hreads, hresult⟩
  rcases List.forall₂_iff_zip.1 hreads with ⟨hlength, hfind⟩
  refine ⟨args, List.forall₂_iff_zip.2 ⟨hlength, fun hmem => ?_⟩, hresult⟩
  exact hinputs _ (List.of_mem_zip hmem).1 _ (hfind hmem)

end Statement

/-! ## From a run to its memory -/

/-- At the end of a run each of its statements still comes to its value, which its output has. -/
theorem computes_of_executed (mode : Mode) (program : CompiledProgram) (m : Memory) :
    ∀ x ∈ executed mode m program,
      x.1.Computes mode
          ⟨m.bindings ++ (executed mode m program).map fun x => (x.1.output, x.2)⟩ x.2 ∧
        (⟨m.bindings ++ (executed mode m program).map fun x => (x.1.output, x.2)⟩ :
          Memory).find? x.1.output = some x.2 := by
  induction program generalizing m with
  | nil => simp [executed]
  | cons s rest ih =>
    cases hexec : (s.exec mode m).1 with
    | error e => simp [executed, hexec]
    | ok bound =>
      rcases bound with ⟨value, m'⟩
      rcases Statement.exec_eq_ok_iff.1 hexec with ⟨⟨hcomputes, hfree⟩, rfl⟩
      have hexecuted : executed mode m (s :: rest) =
          (s, value) :: executed mode ⟨m.bindings ++ [(s.output, value)]⟩ rest := by
        simp only [executed, hexec]
      have hrest := ih ⟨m.bindings ++ [(s.output, value)]⟩
      rw [hexecuted, List.map_cons]
      simp only [List.append_assoc, List.singleton_append] at hrest
      refine List.forall_mem_cons.2 ⟨⟨?_, ?_⟩, hrest⟩
      · exact Statement.Computes.congr hcomputes fun v _ w hw => Memory.find?_of_append hw _
      · have hbound := Memory.find?_bind (Memory.bind_of_find?_eq_none value hfree) s.output
        rw [if_pos rfl] at hbound
        have happend := Memory.find?_of_append hbound
          ((executed mode ⟨m.bindings ++ [(s.output, value)]⟩ rest).map fun x => (x.1.output, x.2))
        rwa [List.append_assoc, List.singleton_append] at happend

/-! ## From a memory to a run -/

namespace Lowered

variable {index : Nat} {scope next : Scope} {b : Backend} {mode : Mode} {m : Memory} {l : Lowered}

/-- A statement has the given value in a memory, and so has its output if it is a definition. -/
def HasValueIn (b : Backend) (mode : Mode) (m : Memory) (l : Lowered) (value : Value) : Prop :=
  (l.statement b).Computes mode m value ∧
    (l.stmt.target.isSome → m.find? l.signature.output = some value)

/-- Values have the types of the outputs. -/
theorem hasType_of_computes (hready : m.Ready index scope) (hfits : l.FitsIn scope) {value : Value}
    (h : (l.statement b).Computes mode m value) : value.HasType l.signature.output.ty := by
  rcases h with ⟨args, hreads, hresult⟩
  rcases hready.arguments hfits.knows with ⟨args', hargs', htyped⟩
  have hsame : args = args' := by
    have hargs : (l.statement b).arguments m = .ok args := Statement.arguments_eq_ok_iff.2 hreads
    have hboth : Except.ok args = (.ok args' : Except Fault (List Value)) := hargs.symm.trans hargs'
    exact Except.ok.inj hboth
  subst hsame
  have hyields := hfits.yields_eval b mode htyped
  have heval : b.eval mode l.function args = .ok value := hresult
  rw [heval] at hyields
  exact hyields

/--
Statements that have values in some memory are executed with these values, on any memory that is
ready for them and has the same values for the variables in scope.
-/
theorem Prepared.executed_eq {ls : List Lowered} (h : Prepared index scope ls) {M : Memory}
    {values : List Value} (hvalues : List.Forall₂ (HasValueIn b mode M) ls values) :
    ∀ m : Memory, (∀ l ∈ ls, l.stmt.AvoidsMarkers) → m.Ready index scope →
      (∀ v ∈ scope.vars, m.find? v = M.find? v) →
      executed mode m (ls.map (statement b)) = (ls.map (statement b)).zip values := by
  -- the invariant is that the variables in scope have the same values in both memories
  induction h generalizing values with
  | nil =>
    intro m _ _ _
    rfl
  | @cons index scope next l rest hvalue hc hfits _ ih =>
    intro m hnames hready hsame
    cases hvalues with
    | @cons _ value _ values hl hrest =>
      have hname := hnames l List.mem_cons_self
      have hcomputes : (l.statement b).Computes mode m value := by
        refine hl.1.congr fun v hv w hw => ?_
        rw [hsame v (List.mem_of_find?_eq_some (hfits.knows v hv))]
        exact hw
      have hfree := hready.find?_output hvalue hc hname
      have hexec := Statement.exec_eq_ok_iff.2 ⟨⟨hcomputes, hfree⟩, rfl⟩
      have htyped := hasType_of_computes hready hfits hcomputes
      have hkept : ∀ v ∈ next.vars,
          (⟨m.bindings ++ [(l.signature.output, value)]⟩ : Memory).find? v = M.find? v := by
        intro v hv
        have hbind := Memory.find?_bind (Memory.bind_of_find?_eq_none value hfree) v
        rw [hbind]
        rcases (Stmt.infer_cases hvalue hc).2.2.2 with ⟨-, -, rfl⟩ | ⟨htarget, hdefine⟩
        · rcases hready.bound v hv with ⟨old, hold, -⟩
          rw [if_neg, hsame v hv]
          rintro rfl
          rw [hfree] at hold
          contradiction
        · rcases Scope.define_eq_ok_iff.1 hdefine with ⟨-, rfl⟩
          split
          case isTrue heq =>
            subst heq
            exact (hl.2 (by rw [htarget]; rfl)).symm
          case isFalse hne =>
            rcases List.mem_append.1 hv with hv | hv
            · exact hsame v hv
            · exact absurd (List.mem_singleton.1 hv).symm hne
      have hnext := ih hrest ⟨m.bindings ++ [(l.signature.output, value)]⟩
        (fun k hk => hnames k (List.mem_cons_of_mem l hk))
        (hready.bind hvalue hc hname htyped) hkept
      have hcons : executed mode m ((l.statement b) :: rest.map (statement b)) =
          (l.statement b, value) ::
            executed mode ⟨m.bindings ++ [(l.signature.output, value)]⟩
              (rest.map (statement b)) := by
        simp only [executed, hexec]
        rfl
      rw [List.map_cons, hcons, hnext, List.zip_cons_cons]

end Lowered
end SeqCalc
