import Mathlib.Data.List.Infix
import SeqCalc.Command.Options
import SeqCalc.Proofs.Text.Numeral

/-!
# Options in order

A call of an argument either makes the choice that the argument spells, or leaves the options as
they are: because the argument is no option, or because it is a wrong one.  So after any arguments,
wrong ones included, each choice is the last one of its kind.

Main results:

- `Options.call_of_spells`, `Options.call_of_not_isDashed`, `Options.call_of_malformed`: all that a
  call can do.
- `Options.applyAll_eq_ok_iff`: reading a whole command line.
- `Options.decides_afterAll`: what any arguments decide.
-/

namespace SeqCalc

/-! ## Written options -/

/-- What an option asks for. -/
inductive Choice where
  | backend (b : Backend)
  | parallel
  | threshold (n : Nat)
  | errorLimit (n : Nat)
deriving DecidableEq, Repr

/-- What an option is about. -/
inductive ChoiceKind where
  | backend
  | parallel
  | threshold
  | errorLimit
deriving DecidableEq, Repr

namespace Choice

def kind : Choice → ChoiceKind
  | .backend _ => .backend
  | .parallel => .parallel
  | .threshold _ => .threshold
  | .errorLimit _ => .errorLimit

/-- The options once a choice is made.  A threshold is chosen for parallel runs. -/
def into : Choice → Options → Options
  | .backend b, o => { o with backend := b }
  | .parallel, o => { o with parallel := true }
  | .threshold n, o => { o with threshold := n, parallel := true }
  | .errorLimit n, o => { o with errorLimit := some n }

/-! A choice sets its own field, and the other fields stay; a threshold sets two. -/

theorem backend_into {c : Choice} (h : ∀ b, c ≠ .backend b) (o : Options) :
    (c.into o).backend = o.backend := by
  cases c with
  | backend b => exact absurd rfl (h b)
  | parallel | threshold | errorLimit => rfl

theorem threshold_into {c : Choice} (h : ∀ n, c ≠ .threshold n) (o : Options) :
    (c.into o).threshold = o.threshold := by
  cases c with
  | threshold n => exact absurd rfl (h n)
  | backend | parallel | errorLimit => rfl

theorem errorLimit_into {c : Choice} (h : ∀ n, c ≠ .errorLimit n) (o : Options) :
    (c.into o).errorLimit = o.errorLimit := by
  cases c with
  | errorLimit n => exact absurd rfl (h n)
  | backend | parallel | threshold => rfl

/-- Choices that do the same to all options are the same. -/
theorem eq_of_into {c d : Choice} (h : ∀ o, c.into o = d.into o) : c = d := by
  -- options that differ in their threshold tell a threshold from a parallel run
  have hzero := h ⟨.interp, false, 0, false, none⟩
  have hone := h ⟨.interp, false, 1, false, none⟩
  clear h
  cases c <;> cases d <;> grind [into]

/-- Choices of different kinds can be made in either order. -/
theorem into_comm {c d : Choice} (h : c.kind ≠ d.kind) (o : Options) :
    c.into (d.into o) = d.into (c.into o) := by
  cases c <;> cases d <;> first | rfl | exact absurd rfl h

end Choice

/-- The names of the backends. -/
inductive Backend.Named : Backend → String → Prop
  | interp : Named .interp "interp"
  | interpreter : Named .interp "interpreter"
  | jit : Named .native "jit"
  | native : Named .native "native"

/-- The arguments that are options, and what they ask for. -/
inductive Spells : String → Choice → Prop
  | backend {name : String} {b : Backend} :
      b.Named name → Spells ("--backend=" ++ name) (.backend b)
  | long : Spells "--parallel" .parallel
  | short : Spells "-p" .parallel
  | threshold {word : String} {n : Nat} :
      Numeral.IsCount word.toList n → Spells ("--parallel-threshold=" ++ word) (.threshold n)
  | errorLimit {word : String} {n : Nat} :
      Numeral.IsCount word.toList n → Spells ("--error-limit=" ++ word) (.errorLimit n)

/-- The argument starts as options do. -/
def IsDashed (argument : String) : Prop :=
  ∃ rest, argument = "-" ++ rest

/-- What is said of a wrong option: a backend is called by its name, anything else is quoted. -/
inductive Refused : String → OptionError → Prop
  | backend {name : String} : Refused ("--backend=" ++ name) (.unknownBackend name)
  | other {argument : String} :
      (∀ name, argument ≠ "--backend=" ++ name) → Refused argument (.invalid argument)

theorem afterStem?_eq_some_iff {stem text : String} {rest : List Char} :
    afterStem? stem text = some rest ↔ text = stem ++ String.ofList rest := by
  rw [afterStem?, List.isPrefixOf?_eq_some_iff_append_eq, ← String.toList_inj, String.toList_append,
    String.toList_ofList, eq_comm]

theorem afterStem?_append (stem rest : String) :
    afterStem? stem (stem ++ rest) = some rest.toList := by
  rw [afterStem?_eq_some_iff, String.ofList_toList]

theorem isSome_afterStem?_iff {stem text : String} :
    (afterStem? stem text).isSome = true ↔ ∃ rest, text = stem ++ rest := by
  rw [Option.isSome_iff_exists]
  constructor
  · rintro ⟨rest, hrest⟩
    exact ⟨_, afterStem?_eq_some_iff.1 hrest⟩
  · rintro ⟨rest, rfl⟩
    exact ⟨_, afterStem?_append stem rest⟩

theorem afterStem?_eq_none {stem text : String} (h : ∀ rest, text ≠ stem ++ rest) :
    afterStem? stem text = none := by
  rw [← Option.not_isSome_iff_eq_none, isSome_afterStem?_iff]
  exact not_exists.2 h

instance (argument : String) : Decidable (IsDashed argument) :=
  decidable_of_iff _ isSome_afterStem?_iff

/-! ## One call -/

theorem Backend.ofName_eq_ok_iff {name : String} {b : Backend} :
    Backend.ofName name = .ok b ↔ b.Named name := by
  constructor
  · intro h
    unfold Backend.ofName at h
    split at h
    case isTrue hname =>
      cases h
      rcases hname with rfl | rfl
      · exact .interp
      · exact .interpreter
    case isFalse =>
      split at h
      case isTrue hname =>
        cases h
        rcases hname with rfl | rfl
        · exact .jit
        · exact .native
      case isFalse => contradiction
  · intro h
    cases h <;> rfl

/-- A backend that is not named is refused with the name that was given. -/
theorem Backend.ofName_of_not_named {name : String} (h : ∀ b : Backend, ¬ b.Named name) :
    Backend.ofName name = .error (.unknownBackend name) := by
  cases hname : Backend.ofName name with
  | ok b => exact absurd (Backend.ofName_eq_ok_iff.1 hname) (h b)
  | error e =>
    unfold Backend.ofName at hname
    split at hname
    · contradiction
    · split at hname
      · contradiction
      · exact hname.symm

namespace Options

variable {argument : String}

theorem count_eq_ok_iff {word : String} {n : Nat} :
    count argument word.toList = .ok n ↔ Numeral.IsCount word.toList n := by
  rw [← Numeral.readCount?_eq_some_iff, count]
  cases Numeral.readCount? word.toList <;> simp

theorem count_of_not_isCount {word : String} (h : ∀ n, ¬ Numeral.IsCount word.toList n) :
    count argument word.toList = .error (.invalid argument) := by
  have hnone : Numeral.readCount? word.toList = none := by
    rw [Option.eq_none_iff_forall_ne_some]
    intro n hn
    exact h n (Numeral.readCount?_eq_some_iff.1 hn)
  rw [count, hnone]

theorem call_backend (o : Options) (name : String) :
    o.call ("--backend=" ++ name) =
      match Backend.ofName name with
      | .ok b => (.ok true, Choice.into (.backend b) o)
      | .error e => (.error e, o) := by
  unfold call take
  rw [afterStem?_append]
  dsimp only
  rw [String.ofList_toList]
  cases Backend.ofName name <;> rfl

theorem call_parallel (o : Options) (h : argument = "--parallel" ∨ argument = "-p") :
    o.call argument = (.ok true, Choice.into .parallel o) := by
  rcases h with rfl | rfl <;> rfl

theorem call_threshold (o : Options) (word : String) :
    o.call ("--parallel-threshold=" ++ word) =
      match count ("--parallel-threshold=" ++ word) word.toList with
      | .ok n => (.ok true, Choice.into (.threshold n) o)
      | .error e => (.error e, o) := by
  have hbackend : afterStem? "--backend=" ("--parallel-threshold=" ++ word) = none := by
    rw [afterStem?, String.toList_append]
    rfl
  have hparallel : ¬ ("--parallel-threshold=" ++ word = "--parallel" ∨
      "--parallel-threshold=" ++ word = "-p") := by
    simp [← String.toList_inj]
  unfold call take
  rw [hbackend, if_neg hparallel, afterStem?_append]
  dsimp only
  cases count ("--parallel-threshold=" ++ word) word.toList <;> rfl

theorem call_errorLimit (o : Options) (word : String) :
    o.call ("--error-limit=" ++ word) =
      match count ("--error-limit=" ++ word) word.toList with
      | .ok n => (.ok true, Choice.into (.errorLimit n) o)
      | .error e => (.error e, o) := by
  have hbackend : afterStem? "--backend=" ("--error-limit=" ++ word) = none := by
    rw [afterStem?, String.toList_append]
    rfl
  have hparallel : ¬ ("--error-limit=" ++ word = "--parallel" ∨
      "--error-limit=" ++ word = "-p") := by
    simp [← String.toList_inj]
  have hthreshold : afterStem? "--parallel-threshold=" ("--error-limit=" ++ word) = none := by
    rw [afterStem?, String.toList_append]
    rfl
  unfold call take
  rw [hbackend, if_neg hparallel, hthreshold, afterStem?_append]
  dsimp only
  cases count ("--error-limit=" ++ word) word.toList <;> rfl

/-- The argument has none of the forms of options, whatever follows an equals sign. -/
structure IsFormless (argument : String) : Prop where
  backend : ∀ name, argument ≠ "--backend=" ++ name
  parallel : ¬ (argument = "--parallel" ∨ argument = "-p")
  threshold : ∀ word, argument ≠ "--parallel-threshold=" ++ word
  errorLimit : ∀ word, argument ≠ "--error-limit=" ++ word

theorem call_formless (h : IsFormless argument) (o : Options) :
    o.call argument =
      (if IsDashed argument then .error (.invalid argument) else .ok false, o) := by
  unfold call take
  rw [afterStem?_eq_none h.backend, if_neg h.parallel, afterStem?_eq_none h.threshold,
    afterStem?_eq_none h.errorLimit]
  dsimp only
  by_cases hdash : IsDashed argument
  · rw [if_pos hdash, if_pos (isSome_afterStem?_iff.2 hdash)]
    rfl
  · rw [if_neg hdash, if_neg fun h => hdash (isSome_afterStem?_iff.1 h)]
    rfl

/-- An option makes the choice that it spells. -/
theorem call_of_spells {c : Choice} (h : Spells argument c) (o : Options) :
    o.call argument = (.ok true, c.into o) := by
  cases h with
  | backend hname => rw [call_backend, Backend.ofName_eq_ok_iff.2 hname]
  | long => exact o.call_parallel (.inl rfl)
  | short => exact o.call_parallel (.inr rfl)
  | threshold hcount => rw [call_threshold, count_eq_ok_iff.2 hcount]
  | errorLimit hcount => rw [call_errorLimit, count_eq_ok_iff.2 hcount]

theorem isDashed_append {stem : String} (h : IsDashed stem) (rest : String) :
    IsDashed (stem ++ rest) := by
  rcases h with ⟨after, rfl⟩
  exact ⟨after ++ rest, String.append_assoc⟩

theorem isDashed_of_spells {c : Choice} (h : Spells argument c) : IsDashed argument := by
  cases h with
  | backend => exact isDashed_append ⟨"-backend=", rfl⟩ _
  | long => exact ⟨"-parallel", rfl⟩
  | short => exact ⟨"p", rfl⟩
  | threshold => exact isDashed_append ⟨"-parallel-threshold=", rfl⟩ _
  | errorLimit => exact isDashed_append ⟨"-error-limit=", rfl⟩ _

theorem isFormless_of_not_isDashed (h : ¬ IsDashed argument) : IsFormless argument := by
  constructor
  · rintro name rfl
    exact h (isDashed_append ⟨"-backend=", rfl⟩ name)
  · rintro (rfl | rfl)
    · exact h ⟨"-parallel", rfl⟩
    · exact h ⟨"p", rfl⟩
  · rintro word rfl
    exact h (isDashed_append ⟨"-parallel-threshold=", rfl⟩ word)
  · rintro word rfl
    exact h (isDashed_append ⟨"-error-limit=", rfl⟩ word)

/-- What does not start as options do is passed over. -/
theorem call_of_not_isDashed (h : ¬ IsDashed argument) (o : Options) :
    o.call argument = (.ok false, o) := by
  rw [call_formless (isFormless_of_not_isDashed h), if_neg h]

/-- What starts as options do but spells none is refused, and nothing is written. -/
theorem call_of_malformed (hdash : IsDashed argument) (h : ∀ c, ¬ Spells argument c) :
    ∃ e, Refused argument e ∧ ∀ o : Options, o.call argument = (.error e, o) := by
  by_cases hbackend : ∃ name, argument = "--backend=" ++ name
  · rcases hbackend with ⟨name, rfl⟩
    have hname := Backend.ofName_of_not_named fun b hb => h _ (.backend hb)
    exact ⟨_, .backend, fun o => by rw [call_backend, hname]⟩
  · rw [not_exists] at hbackend
    refine ⟨.invalid argument, .other hbackend, fun o => ?_⟩
    by_cases hthreshold : ∃ word, argument = "--parallel-threshold=" ++ word
    · rcases hthreshold with ⟨word, rfl⟩
      rw [call_threshold, count_of_not_isCount fun n hn => h _ (.threshold hn)]
    · by_cases herrorLimit : ∃ word, argument = "--error-limit=" ++ word
      · rcases herrorLimit with ⟨word, rfl⟩
        rw [call_errorLimit, count_of_not_isCount fun n hn => h _ (.errorLimit hn)]
      · have hparallel : ¬ (argument = "--parallel" ∨ argument = "-p") := by
          rintro (rfl | rfl)
          · exact h _ .long
          · exact h _ .short
        rw [call_formless ⟨hbackend, hparallel, not_exists.1 hthreshold, not_exists.1 herrorLimit⟩,
          if_pos hdash]

/-- An argument spells one choice at most, since a call does one thing. -/
theorem eq_of_spells {c d : Choice} (hc : Spells argument c) (hd : Spells argument d) : c = d := by
  apply Choice.eq_of_into
  intro o
  have hcall := call_of_spells hc o
  rw [call_of_spells hd] at hcall
  exact (Prod.mk.inj hcall).2.symm

/-! ## Several calls -/

/-- The options after arguments were taken one after the other, wrong ones included. -/
def afterAll (o : Options) (arguments : List String) : Options :=
  arguments.foldl (fun o argument => (o.call argument).2) o

theorem afterAll_cons (o : Options) (argument : String) (arguments : List String) :
    o.afterAll (argument :: arguments) = (o.call argument).2.afterAll arguments :=
  rfl

theorem afterAll_append (o : Options) (xs ys : List String) :
    o.afterAll (xs ++ ys) = (o.afterAll xs).afterAll ys :=
  List.foldl_append

/-- What a call does with the options: it makes the choice that is spelled, if there is one. -/
theorem call_cases (argument : String) :
    (∃ c, Spells argument c ∧ ∀ o : Options, (o.call argument).2 = c.into o) ∨
      (∀ c, ¬ Spells argument c) ∧ ∀ o : Options, (o.call argument).2 = o := by
  by_cases hspells : ∃ c, Spells argument c
  · rcases hspells with ⟨c, hc⟩
    exact .inl ⟨c, hc, fun o => by rw [call_of_spells hc]⟩
  · rw [not_exists] at hspells
    refine .inr ⟨hspells, fun o => ?_⟩
    by_cases hdash : IsDashed argument
    · rcases call_of_malformed hdash hspells with ⟨e, -, he⟩
      rw [he]
    · rw [call_of_not_isDashed hdash]

/-- The value that the last of the arguments chooses, if one of them chooses a value. -/
inductive LastChosen {α : Type} (choice : α → Choice) : List String → Option α → Prop
  | never {arguments : List String} :
      (∀ a ∈ arguments, ∀ x, ¬ Spells a (choice x)) → LastChosen choice arguments none
  | last {before after : List String} {argument : String} {x : α} :
      Spells argument (choice x) → (∀ a ∈ after, ∀ y, ¬ Spells a (choice y)) →
      LastChosen choice (before ++ argument :: after) (some x)

section LastChosen

variable {α : Type} {choice : α → Choice}

theorem LastChosen.here {x : α} (h : Spells argument (choice x)) {after : List String}
    (hafter : ∀ a ∈ after, ∀ y, ¬ Spells a (choice y)) :
    LastChosen choice (argument :: after) (some x) :=
  @LastChosen.last _ _ [] _ _ _ h hafter

theorem LastChosen.cons {arguments : List String} {x : α}
    (h : LastChosen choice arguments (some x)) (argument : String) :
    LastChosen choice (argument :: arguments) (some x) := by
  cases h with
  | @last before _ _ _ hx hafter => exact @LastChosen.last _ _ (argument :: before) _ _ _ hx hafter

/--
A field that one kind of choice sets, and no other choice changes, is set by the last of that kind.
The induction is on the arguments, and starts from any options, since each call leaves others.
-/
theorem exists_lastChosen {β : Type} (field : Options → β) (value : α → β)
    (hset : ∀ x o, field ((choice x).into o) = value x)
    (hkeep : ∀ c, (∀ x, c ≠ choice x) → ∀ o, field (c.into o) = field o) (arguments : List String)
    (o : Options) : ∃ chosen, LastChosen choice arguments chosen ∧
      field (o.afterAll arguments) = (chosen.map value).getD (field o) := by
  induction arguments generalizing o with
  | nil => exact ⟨none, .never (by simp), rfl⟩
  | cons a rest ih =>
    rcases ih (o.call a).2 with ⟨chosen, hchosen, hfield⟩
    rw [← afterAll_cons] at hfield
    cases chosen with
    | some y => exact ⟨some y, hchosen.cons a, hfield⟩
    | none =>
      have hnever : ∀ b ∈ rest, ∀ x, ¬ Spells b (choice x) := by
        cases hchosen with
        | never h => exact h
      rcases call_cases a with ⟨c, hc, hcall⟩ | ⟨hnone, hcall⟩
      · rw [hcall] at hfield
        by_cases hchoice : ∃ x, c = choice x
        · rcases hchoice with ⟨x, rfl⟩
          exact ⟨some x, .here hc hnever, hfield.trans (hset x o)⟩
        · rw [not_exists] at hchoice
          have hother : ∀ x, ¬ Spells a (choice x) := fun x hx => hchoice x (eq_of_spells hc hx)
          exact ⟨none, .never (List.forall_mem_cons.2 ⟨hother, hnever⟩),
            hfield.trans (hkeep c hchoice o)⟩
      · rw [hcall] at hfield
        exact ⟨none, .never (List.forall_mem_cons.2 ⟨fun x => hnone _, hnever⟩), hfield⟩

end LastChosen

/-- What arguments decide, if they are applied to the defaults. -/
structure Decides (arguments : List String) (o : Options) : Prop where
  backend : ∃ chosen, LastChosen .backend arguments chosen ∧
    o.backend = chosen.getD default.backend
  threshold : ∃ chosen, LastChosen .threshold arguments chosen ∧
    o.threshold = chosen.getD default.threshold
  errorLimit : LastChosen .errorLimit arguments o.errorLimit
  parallel : o.parallel = true ↔
    ∃ a ∈ arguments, Spells a .parallel ∨ ∃ n, Spells a (.threshold n)
  capture : o.capture = default.capture

/-- Whether a choice makes runs parallel is told by the options after it. -/
theorem parallel_call (o : Options) : (o.call argument).2.parallel = true ↔
    o.parallel = true ∨ Spells argument .parallel ∨ ∃ n, Spells argument (.threshold n) := by
  constructor
  · intro h
    rcases call_cases argument with ⟨c, hc, hcall⟩ | ⟨-, hcall⟩
    · rw [hcall] at h
      cases c with
      | backend => exact .inl h
      | parallel => exact .inr (.inl hc)
      | threshold n => exact .inr (.inr ⟨n, hc⟩)
      | errorLimit => exact .inl h
    · rw [hcall] at h
      exact .inl h
  · rintro (h | h | ⟨n, h⟩)
    · rcases call_cases argument with ⟨c, -, hcall⟩ | ⟨-, hcall⟩
      · rw [hcall]
        cases c <;> first | rfl | exact h
      · rw [hcall]
        exact h
    · rw [call_of_spells h]
      rfl
    · rw [call_of_spells h]
      rfl

/-- Runs are parallel once an option has asked for it, as none takes it back. -/
theorem parallel_afterAll (arguments : List String) (o : Options) :
    (o.afterAll arguments).parallel = true ↔
      o.parallel = true ∨ ∃ a ∈ arguments, Spells a .parallel ∨ ∃ n, Spells a (.threshold n) := by
  induction arguments generalizing o with
  | nil => simp [afterAll]
  | cons a rest ih =>
    rw [afterAll_cons, ih, parallel_call, List.exists_mem_cons_iff, or_assoc]

theorem capture_afterAll (arguments : List String) (o : Options) :
    (o.afterAll arguments).capture = o.capture := by
  induction arguments generalizing o with
  | nil => rfl
  | cons a rest ih =>
    rw [afterAll_cons, ih]
    rcases call_cases a with ⟨c, -, hcall⟩ | ⟨-, hcall⟩
    · rw [hcall]
      cases c <;> rfl
    · rw [hcall]

/-- The last choice of each kind counts, and the defaults where there is none. -/
theorem decides_afterAll (arguments : List String) :
    Decides arguments (default.afterAll arguments) := by
  constructor
  · rcases exists_lastChosen Options.backend id (fun _ _ => rfl)
      (fun _ h => Choice.backend_into h) arguments default with ⟨chosen, hchosen, hfield⟩
    rw [Option.map_id] at hfield
    exact ⟨chosen, hchosen, hfield⟩
  · rcases exists_lastChosen Options.threshold id (fun _ _ => rfl)
      (fun _ h => Choice.threshold_into h) arguments default with ⟨chosen, hchosen, hfield⟩
    rw [Option.map_id] at hfield
    exact ⟨chosen, hchosen, hfield⟩
  · rcases exists_lastChosen Options.errorLimit some (fun _ _ => rfl)
      (fun _ h => Choice.errorLimit_into h) arguments default with ⟨chosen, hchosen, hfield⟩
    have hlimit : (default.afterAll arguments).errorLimit = chosen := by
      cases chosen <;> exact hfield
    rwa [hlimit]
  · rw [parallel_afterAll]
    exact ⟨fun h => h.resolve_left (by decide), .inr⟩
  · exact capture_afterAll arguments default

/-! ## Order -/

/-- The arguments do not spell options of one kind. -/
def Apart (a b : String) : Prop :=
  ∀ c d, Spells a c → Spells b d → c.kind ≠ d.kind

theorem call_comm {a b : String} (h : Apart a b) (o : Options) :
    ((o.call a).2.call b).2 = ((o.call b).2.call a).2 := by
  rcases call_cases a with ⟨c, hc, ha⟩ | ⟨-, ha⟩
  · rcases call_cases b with ⟨d, hd, hb⟩ | ⟨-, hb⟩
    · rw [ha, hb, ha, hb]
      exact Choice.into_comm (Ne.symm (h c d hc hd)) o
    · rw [hb, hb]
  · rw [ha, ha]

/-- Arguments that are no options of one kind can change places. -/
theorem afterAll_swap {a b : String} (h : Apart a b) (o : Options) (before after : List String) :
    o.afterAll (before ++ a :: b :: after) = o.afterAll (before ++ b :: a :: after) := by
  rw [afterAll_append, afterAll_append, afterAll_cons, afterAll_cons, afterAll_cons, afterAll_cons,
    call_comm h]

/-! ## Command lines -/

/-- The first argument that is not an option. -/
def operand? (arguments : List String) : Option String :=
  arguments.find? fun argument => decide (¬ IsDashed argument)

theorem apply_of_call {o left : Options} {isOption : Bool}
    (h : o.call argument = (.ok isOption, left)) :
    o.apply argument = .ok (if isOption then some left else none) := by
  rw [apply, h]

theorem apply_of_refused {o left : Options} {e : OptionError}
    (h : o.call argument = (.error e, left)) : o.apply argument = .error e := by
  rw [apply, h]

/-- Reading a command line succeeds if no argument is refused, and calls all arguments in order. -/
theorem applyAll_eq_ok_iff {o left : Options} {operand path : Option String}
    {arguments : List String} :
    o.applyAll operand arguments = .ok (left, path) ↔
      (∀ a ∈ arguments, IsDashed a → ∃ c, Spells a c) ∧ o.afterAll arguments = left ∧
        operand.or (operand? arguments) = path := by
  induction arguments generalizing o operand with
  | nil => simp [applyAll, afterAll, operand?]
  | cons a rest ih =>
    rw [applyAll, afterAll_cons, List.forall_mem_cons]
    by_cases hdash : IsDashed a
    · have hoperand : operand? (a :: rest) = operand? rest := by simp [operand?, hdash]
      rw [hoperand]
      by_cases hspells : ∃ c, Spells a c
      · rcases hspells with ⟨c, hc⟩
        rw [apply_of_call (call_of_spells hc o), call_of_spells hc]
        simp [ih, hdash, Exists.intro c hc]
      · rcases call_of_malformed hdash (not_exists.1 hspells) with ⟨e, -, he⟩
        rw [apply_of_refused (he o)]
        simp [hdash, hspells]
    · have hoperand : operand? (a :: rest) = some a := by simp [operand?, hdash]
      rw [hoperand, apply_of_call (call_of_not_isDashed hdash o), call_of_not_isDashed hdash]
      simp [ih, hdash]

/-! ## All laws -/

/-- What a call answers, and what it leaves. -/
structure Answers (o : Options) (argument : String) : Prop where
  fails_iff : (∃ e, (o.call argument).1 = .error e) ↔
    IsDashed argument ∧ ¬ ∃ c, Spells argument c
  /-- A failure says what is wrong with the argument, and leaves the options as they were. -/
  of_error : ∀ e, (o.call argument).1 = .error e → Refused argument e ∧ (o.call argument).2 = o
  passes_iff : (o.call argument).1 = .ok false ↔ ¬ IsDashed argument
  of_false : (o.call argument).1 = .ok false → (o.call argument).2 = o
  /-- Any other argument is an option, and its choice is made. -/
  of_spells : ∀ c, Spells argument c → o.call argument = (.ok true, c.into o)

theorem answers_call (o : Options) (argument : String) : Answers o argument := by
  by_cases hdash : IsDashed argument
  · by_cases hspells : ∃ c, Spells argument c
    · rcases hspells with ⟨c, hc⟩
      have hcall := call_of_spells hc o
      constructor
      · simp [hcall, Exists.intro c hc]
      · simp [hcall]
      · simp [hcall, hdash]
      · simp [hcall]
      · exact fun d hd => call_of_spells hd o
    · rcases call_of_malformed hdash (not_exists.1 hspells) with ⟨e, he, hcall⟩
      constructor
      · simp [hcall, hdash, hspells]
      · simpa [hcall] using he
      · simp [hcall, hdash]
      · simp [hcall]
      · exact fun d hd => absurd ⟨d, hd⟩ hspells
  · have hcall := call_of_not_isDashed hdash o
    constructor
    · simp [hcall, hdash]
    · simp [hcall]
    · simp [hcall, hdash]
    · simp [hcall]
    · exact fun d hd => absurd (isDashed_of_spells hd) hdash

theorem mode_eq_parallel_iff (o : Options) (n : Nat) :
    o.mode = .parallel n ↔ o.parallel = true ∧ o.threshold = n := by
  unfold mode
  cases o.parallel <;> simp

/--
Options fold predictably.  Each call fails, passes the argument over or makes the choice that it
spells, and only the last of these changes the options.  After any arguments the last choice of each
kind counts; failures on the way make no difference, but a command line is read only if there is
none.  Arguments that do not spell options of one kind can change places anywhere.  Runs are parallel,
from the threshold on, exactly if that was asked for.
-/
theorem arguments_fold :
    (∀ (o : Options) (argument : String), Answers o argument) ∧
    (∀ arguments, Decides arguments (default.afterAll arguments)) ∧
    (∀ (arguments : List String) (left : Options) (path : Option String),
      default.applyAll none arguments = .ok (left, path) ↔
        (∀ a ∈ arguments, IsDashed a → ∃ c, Spells a c) ∧
          default.afterAll arguments = left ∧ operand? arguments = path) ∧
    (∀ (o : Options) (before after : List String) (a b : String), Apart a b →
      o.afterAll (before ++ a :: b :: after) = o.afterAll (before ++ b :: a :: after)) ∧
    ∀ (o : Options) (n : Nat), o.mode = .parallel n ↔ o.parallel = true ∧ o.threshold = n :=
  ⟨answers_call, decides_afterAll, fun _ _ _ => applyAll_eq_ok_iff,
    fun o before after _ _ h => afterAll_swap h o before after, mode_eq_parallel_iff⟩

/--
A threshold with a plus sign and a backend change places, next to the name of no backend and a path.
A line without such a name is read.
-/
theorem arguments_fold_mixed :
    let before := ["--backend=jit", "--backend=llvm"]
    let after := ["p.json", "--error-limit=3"]
    let line := before ++ "--parallel-threshold=+064" :: "--backend=interp" :: after
    Apart "--parallel-threshold=+064" "--backend=interp" ∧
      default.afterAll line = ⟨.interp, true, 64, false, some 3⟩ ∧
      Decides line (default.afterAll line) ∧
      default.afterAll line =
        default.afterAll (before ++ "--backend=interp" :: "--parallel-threshold=+064" :: after) ∧
      (default.call "--backend=llvm").1 = .error (.unknownBackend "llvm") ∧
      Refused "--backend=llvm" (.unknownBackend "llvm") ∧
      default.applyAll none ["p.json", "--backend=interp", "q.json"] =
        .ok (default, some "p.json") ∧
      (∀ a ∈ ["p.json", "--backend=interp", "q.json"], IsDashed a → ∃ c, Spells a c) ∧
      (default.afterAll line).mode = .parallel 64 := by
  intro before after line
  have hthreshold : Spells "--parallel-threshold=+064" (.threshold 64) :=
    @Spells.threshold "+064" 64 ⟨by decide, .inr ⟨['0', '6', '4'], rfl, 1, rfl⟩⟩
  have hbackend : Spells "--backend=interp" (.backend .interp) := .backend .interp
  have hapart : Apart "--parallel-threshold=+064" "--backend=interp" := by
    intro c d hc hd
    rw [eq_of_spells hc hthreshold, eq_of_spells hd hbackend]
    decide
  have hline : default.afterAll line = ⟨.interp, true, 64, false, some 3⟩ := by decide
  have hllvm : (default.call "--backend=llvm").1 = .error (.unknownBackend "llvm") := by decide
  have hread : default.applyAll none ["p.json", "--backend=interp", "q.json"] =
    .ok (default, some "p.json") := by rfl
  rcases arguments_fold with ⟨hanswers, hdecides, happly, hswap, hmode⟩
  exact ⟨hapart, hline, hdecides line, hswap default before after _ _ hapart, hllvm,
    ((hanswers default _).of_error _ hllvm).1, hread, ((happly _ _ _).1 hread).1,
    (hmode _ 64).2 ⟨by rw [hline], by rw [hline]⟩⟩

end Options
end SeqCalc
