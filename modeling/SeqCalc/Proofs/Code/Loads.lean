import Mathlib.Algebra.Group.Nat.Defs
import Mathlib.Data.List.Forall2
import SeqCalc.Code.Interp
import SeqCalc.Code.Lowering
import SeqCalc.Proofs.Code.Typing

/-!
# The arguments that code loads

Code reads the arguments of its function by position.  The nested functions in it have arguments of
their own and load none of those.  Lowering turns each name outside function literals into one load,
in the order of the names, so the loads of the code are the slots of the names.  The native machine
has to address the loads of a statement, and its offsets are bounded: this is all that can keep it
from taking typed code.

Main results:

- `Code.eval_congr`: the value of code depends on the arguments that it loads and on no others.
- `Backend.wrap_addressed`: both backends take a typed statement that loads all its arguments, but the
  native machine no more than `2 ^ 28` of them.
- `Expr.loads_lower`: the loads of lowered code are the slots of the names.
-/

namespace SeqCalc

/-! ## Loads -/

namespace Code

/-- The value of code depends on the arguments that it loads and on no others. -/
theorem eval_congr (mode : Mode) (code : Code) {args other : List Value}
    (h : ∀ slot ∈ code.loads, args[slot]? = other[slot]?) :
    code.eval mode args = code.eval mode other := by
  induction code with
  | param slot =>
    have hslot := h slot (List.mem_singleton.2 rfl)
    simp only [eval, hslot]
  | int | float => simp only [eval]
  | neg kind operand ih | cast source target operand ih => simp only [eval, ih h]
  | arith kind op left right ihl ihr =>
    rcases List.forall_mem_append.1 h with ⟨hl, hr⟩
    simp only [eval, ihl hl, ihr hr]
  | range closed first last ihf ihl =>
    rcases List.forall_mem_append.1 h with ⟨hf, hl⟩
    simp only [eval, ihf hf, ihl hl]
  | map seq profile body source target ihs _ => simp only [eval, ihs h]
  | reduce seq neutral profile body element acc ihs ihn _ =>
    rcases List.forall_mem_append.1 h with ⟨hs, hn⟩
    simp only [eval, ihs hs, ihn hn]

end Code

/-! ## Addressing -/

namespace Backend

theorem inReach_iff {slot : Nat} : inReach slot = true ↔ slot < 2 ^ 28 := by
  have hmax : Int32.maxValue.toNatClampNeg = 2 ^ 31 - 1 := by rfl
  rw [inReach, decide_eq_true_iff, hmax]
  omega

example : inReach 268435455 = true ∧ inReach 268435456 = false := by decide

/-- The backend addresses so many arguments of a statement. -/
def Addresses (b : Backend) (count : Nat) : Prop :=
  b = .native → count ≤ 2 ^ 28

instance (b : Backend) (count : Nat) : Decidable (b.Addresses count) :=
  inferInstanceAs (Decidable (b = .native → count ≤ 2 ^ 28))

theorem addresses_interp (count : Nat) : interp.Addresses count :=
  fun h => nomatch h

theorem addresses_native {count : Nat} : native.Addresses count ↔ count ≤ 2 ^ 28 :=
  ⟨fun h => h rfl, fun h _ => h⟩

/-- A statement that loads all its arguments is refused if it has too many of them. -/
theorem address_eq (b : Backend) {body : Code} {count : Nat}
    (h : ∀ slot, slot ∈ body.loads ↔ slot < count) :
    b.address body =
      if b.Addresses count then .ok () else .error (.malformed .slotOutOfRange) := by
  cases b with
  | interp => rw [if_pos (addresses_interp count), address]
  | native =>
    rw [address]
    by_cases hcount : native.Addresses count
    · have hall : body.loads.all inReach = true := by
        rw [List.all_eq_true]
        intro slot hslot
        exact inReach_iff.2 (Nat.lt_of_lt_of_le ((h slot).1 hslot) (addresses_native.1 hcount))
      rw [if_pos hall, if_pos hcount]
    · -- the first argument out of reach is loaded
      have hlt : 2 ^ 28 < count := Nat.not_le.1 (addresses_native.not.1 hcount)
      have hlast : 2 ^ 28 ∈ body.loads := (h _).2 hlt
      have hall : ¬ body.loads.all inReach = true := fun hall =>
        Nat.lt_irrefl _ (inReach_iff.1 (List.all_eq_true.1 hall _ hlast))
      rw [if_neg hall, if_neg hcount]

/-- The same of the whole statement, if its body is typed code. -/
theorem wrap_addressed (b : Backend) {p : Profile} {body : Code} {count : Nat}
    (hparams : ∀ t ∈ p.params, t.IsProper) (hbody : body.HasType p.params p.result)
    (h : ∀ slot, slot ∈ body.loads ↔ slot < count) :
    b.wrap p (b.addressed (.ok body)) =
      if b.Addresses count then .ok body else .error (.malformed .slotOutOfRange) := by
  rw [addressed, ok_bind, b.address_eq h]
  by_cases hcount : b.Addresses count
  · rw [if_pos hcount, if_pos hcount, ok_bind]
    exact b.wrap_of_hasType hparams hbody
  · rw [if_neg hcount, if_neg hcount]
    exact b.wrap_error (hbody.isProper hparams) hparams _

end Backend

/-! ## Lowering, taken apart -/

theorem exists_of_bind_eq_ok {ε α β : Type} {x : Except ε α} {f : α → Except ε β} {b : β}
    (h : (x >>= f) = .ok b) : ∃ a, x = .ok a ∧ f a = .ok b := by
  cases x with
  | error e => cases h
  | ok a => exact ⟨a, rfl, h⟩

/-- A backend that admits an operation takes it as it stands. -/
theorem Backend.eq_of_build {b : Backend} {p : Profile} {code taken : Code}
    (h : b.build p code = .ok taken) : taken = code := by
  rcases exists_of_bind_eq_ok h with ⟨_, -, hpure⟩
  exact (Except.ok.inj hpure).symm

/-- A backend that takes a function takes the body that was made for it. -/
theorem Backend.eq_ok_of_wrap {b : Backend} {p : Profile} {make : Except BackendError Code}
    {body : Code} (h : b.wrap p make = .ok body) : make = .ok body := by
  rcases exists_of_bind_eq_ok h with ⟨_, -, hmake⟩
  rcases exists_of_bind_eq_ok hmake with ⟨made, hmade, hcloses⟩
  rcases exists_of_bind_eq_ok hcloses with ⟨_, -, hpure⟩
  rw [hmade, ← Except.ok.inj hpure]

/-- Addressing leaves the body of a statement as it is. -/
theorem Backend.eq_ok_of_addressed {b : Backend} {make : Except BackendError Code} {body : Code}
    (h : b.addressed make = .ok body) : make = .ok body := by
  rcases exists_of_bind_eq_ok h with ⟨made, hmade, haddress⟩
  rcases exists_of_bind_eq_ok haddress with ⟨_, -, hpure⟩
  rw [hmade, ← Except.ok.inj hpure]

/-- A cast loads what its operand loads. -/
theorem Scaffold.loads_coerce {b : Backend} {types : TypeTable} {f : Scaffold} {id : NodeId}
    {target : Scalar} {code cast : Code} (h : f.coerce b types id target code = .ok cast) :
    cast.loads = code.loads := by
  rcases exists_of_bind_eq_ok h with ⟨own, -, hcast⟩
  split at hcast
  · rw [← Except.ok.inj hcast]
  · rw [Backend.eq_of_build hcast, Code.loads]

/-! ## The loads of lowered code -/

/-- Each name has a slot, and these slots are loaded in the order of the names. -/
def Scaffold.LoadsNames (f : Scaffold) (names : List String) (code : Code) : Prop :=
  List.Forall₂ (fun name slot => slot? f.names name = some slot) names code.loads

/-- An operand that is cast after it has been lowered loads the same. -/
theorem Scaffold.loadsNames_coerce {b : Backend} {types : TypeTable} {f : Scaffold}
    {operand : Expr} {id : NodeId} {target : Scalar} {code : Code}
    (hoperand : ∀ made, operand.lower b types f = .ok made → f.LoadsNames operand.names made)
    (h : (operand.lower b types f >>= f.coerce b types id target) = .ok code) :
    f.LoadsNames operand.names code := by
  rcases exists_of_bind_eq_ok h with ⟨made, hmade, hcoerce⟩
  rw [LoadsNames, Scaffold.loads_coerce hcoerce]
  exact hoperand made hmade

/-- The loads of lowered code are the slots of the names. -/
theorem Expr.loads_lower {b : Backend} {types : TypeTable} {f : Scaffold} (e : Expr) :
    ∀ code, e.lower b types f = .ok code → f.LoadsNames e.names code := by
  induction e with
  | int site value | float site bits =>
    intro code h
    rw [Backend.eq_of_build h]
    exact List.Forall₂.nil
  | ident site name =>
    intro code h
    unfold lower at h
    split at h
    · rename_i slot hslot
      rw [Backend.eq_of_build h]
      exact List.Forall₂.cons hslot .nil
    · contradiction
  | unary site op operand ih =>
    intro code h
    rcases exists_of_bind_eq_ok h with ⟨made, hmade, h⟩
    cases op with
    | plus =>
      rw [← Except.ok.inj h]
      exact ih made hmade
    | neg =>
      rcases exists_of_bind_eq_ok h with ⟨kind, -, h⟩
      rw [Backend.eq_of_build h]
      exact ih made hmade
  | binary site op left right ihl ihr =>
    intro code h
    rcases exists_of_bind_eq_ok h with ⟨kind, -, h⟩
    rcases exists_of_bind_eq_ok h with ⟨l, hl, h⟩
    rcases exists_of_bind_eq_ok h with ⟨r, hr, h⟩
    rw [Backend.eq_of_build h]
    exact List.rel_append (Scaffold.loadsNames_coerce ihl hl) (Scaffold.loadsNames_coerce ihr hr)
  | range site first last ihf ihl =>
    intro code h
    rcases exists_of_bind_eq_ok h with ⟨a, ha, h⟩
    rcases exists_of_bind_eq_ok h with ⟨z, hz, h⟩
    rw [Backend.eq_of_build h]
    exact List.rel_append (ihf a ha) (ihl z hz)
  | map site seq function ihs _ =>
    intro code h
    rcases exists_of_bind_eq_ok h with ⟨source, -, h⟩
    rcases exists_of_bind_eq_ok h with ⟨s, hs, h⟩
    rcases exists_of_bind_eq_ok h with ⟨body, -, h⟩
    rw [Backend.eq_of_build h]
    exact ihs s hs
  | reduce site seq neutral function ihs ihn _ =>
    intro code h
    rcases exists_of_bind_eq_ok h with ⟨acc, -, h⟩
    rcases exists_of_bind_eq_ok h with ⟨element, -, h⟩
    rcases exists_of_bind_eq_ok h with ⟨s, hs, h⟩
    rcases exists_of_bind_eq_ok h with ⟨n, hn, h⟩
    rcases exists_of_bind_eq_ok h with ⟨body, -, h⟩
    rw [Backend.eq_of_build h]
    exact List.rel_append (ihs s hs) (Scaffold.loadsNames_coerce ihn hn)
  | lambda site params body _ =>
    intro code h
    contradiction

end SeqCalc
