import Mathlib.Data.Finset.Card
import SeqCalc.Program.Workspace
import SeqCalc.Proofs.Program.Interchange
import SeqCalc.Proofs.Program.Unfolding

/-!
# Interning

A stored arena has a list of names but no index of them.  The list may be empty and it may have a
text several times; the index, which is built when the first text is interned, then has the last
position.  From the list alone one can tell what the index says, so that it makes no difference when
it was built, and a workspace may be stored and loaded at any time.

Main results:

- `Workspace.Ready.intern`: what one call answers and leaves, by the list of names.
- `Workspace.Ready.internAll_congr`: workspaces with the same arena answer alike.
- `Workspace.Ready.names_internAll`: the list of names after several calls.
- `Arena.interns`: interned texts keep their names, before and after an arena is loaded.
-/

namespace SeqCalc

/-! ## Last positions -/

/-- The last position at which a list has a text. -/
structure LastAt (names : List String) (text : String) (i : Nat) : Prop where
  getElem? : names[i]? = some text
  last : ∀ j, i < j → names[j]? ≠ some text

variable {names : List String} {text : String} {i j : Nat}

theorem LastAt.mem (h : LastAt names text i) : text ∈ names :=
  List.mem_of_getElem? h.getElem?

theorem LastAt.unique (hi : LastAt names text i) (hj : LastAt names text j) : i = j := by
  rcases Nat.lt_trichotomy i j with hlt | heq | hlt
  · exact absurd hj.getElem? (hi.last j hlt)
  · exact heq
  · exact absurd hi.getElem? (hj.last i hlt)

theorem lastAt_zero_of_not_mem (h : text ∉ names) : LastAt (text :: names) text 0 := by
  refine ⟨rfl, fun j hj hat => ?_⟩
  obtain ⟨k, rfl⟩ : ∃ k, j = k + 1 := ⟨j - 1, by omega⟩
  exact h (List.mem_of_getElem? hat)

theorem LastAt.cons (h : LastAt names text i) (name : String) :
    LastAt (name :: names) text (i + 1) := by
  refine ⟨h.getElem?, fun j hj => ?_⟩
  obtain ⟨k, rfl⟩ : ∃ k, j = k + 1 := ⟨j - 1, by omega⟩
  exact h.last k (by omega)

theorem exists_lastAt (h : text ∈ names) : ∃ i, LastAt names text i := by
  induction names with
  | nil => contradiction
  | cons name names ih =>
    by_cases hlater : text ∈ names
    · rcases ih hlater with ⟨i, hi⟩
      exact ⟨i + 1, hi.cons name⟩
    · rcases List.mem_cons.1 h with rfl | hmem
      · exact ⟨0, lastAt_zero_of_not_mem hlater⟩
      · exact absurd hmem hlater

theorem LastAt.append (h : LastAt names text i) {more : List String} (hmore : text ∉ more) :
    LastAt (names ++ more) text i := by
  have hlt : i < names.length := (List.getElem?_eq_some_iff.1 h.getElem?).1
  refine ⟨by rw [List.getElem?_append_left hlt, h.getElem?], fun j hj hat => ?_⟩
  by_cases hin : j < names.length
  · rw [List.getElem?_append_left hin] at hat
    exact h.last j hj hat
  · rw [List.getElem?_append_right (Nat.not_lt.1 hin)] at hat
    exact hmore (List.mem_of_getElem? hat)

theorem lastAt_append_singleton (names : List String) (text : String) :
    LastAt (names ++ [text]) text names.length := by
  refine ⟨List.getElem?_concat_length, fun j hj hat => ?_⟩
  have hlength : (names ++ [text]).length ≤ j := by
    rw [List.length_append, List.length_singleton]
    exact hj
  rw [List.getElem?_eq_none hlength] at hat
  contradiction

/-! ## New names -/

/-- The arena with one more name. -/
def Arena.withName (a : Arena) (text : String) : Arena :=
  { a with names := a.names.push text }

/-- The texts that are no names yet, each of them once, in the order of their first occurrence. -/
def newNames (names texts : List String) : List String :=
  (texts.filter fun text => decide (text ∉ names)).eraseDups

theorem mem_newNames {texts : List String} :
    text ∈ newNames names texts ↔ text ∈ texts ∧ text ∉ names := by
  rw [newNames, List.mem_eraseDups, List.mem_filter, decide_eq_true_eq]

theorem newNames_of_mem (h : text ∈ names) (texts : List String) :
    newNames names (text :: texts) = newNames names texts := by
  rw [newNames, List.filter_cons_of_neg (by simpa using h), newNames]

theorem newNames_of_not_mem (h : text ∉ names) (texts : List String) :
    newNames names (text :: texts) = text :: newNames (names ++ [text]) texts := by
  rw [newNames, List.filter_cons_of_pos (by simpa using h), List.eraseDups_cons, List.filter_filter,
    newNames]
  congr 3
  funext other
  rw [Bool.eq_iff_iff]
  simp [and_comm]

theorem nodup_newNames (names texts : List String) : (newNames names texts).Nodup := by
  induction texts generalizing names with
  | nil => exact List.nodup_nil
  | cons text texts ih =>
    by_cases hmem : text ∈ names
    · rw [newNames_of_mem hmem]
      exact ih names
    · rw [newNames_of_not_mem hmem]
      refine List.nodup_cons.2 ⟨fun hagain => ?_, ih _⟩
      exact (mem_newNames.1 hagain).2 (List.mem_append_right names List.mem_cons_self)

theorem length_newNames (names texts : List String) :
    (newNames names texts).length = (texts.toFinset \ names.toFinset).card := by
  rw [← List.toFinset_card_of_nodup (nodup_newNames names texts)]
  congr 1
  ext text
  rw [List.mem_toFinset, mem_newNames, Finset.mem_sdiff, List.mem_toFinset, List.mem_toFinset]

theorem length_newNames_le (names texts : List String) :
    (newNames names texts).length ≤ texts.length := by
  rw [length_newNames]
  exact (Finset.card_le_card Finset.sdiff_subset).trans (List.toFinset_card_le texts)

/-! ## Indexes -/

/-- The index has the last position of every name. -/
structure Indexes (index : Std.HashMap String NameId) (names : List String) : Prop where
  found : ∀ {text : String} {i : Nat}, LastAt names text i → index[text]? = some ⟨tableIndex i⟩
  missing : ∀ {text : String}, text ∉ names → index[text]? = none

theorem Indexes.push {index : Std.HashMap String NameId} (h : Indexes index names) (text : String) :
    Indexes (index.insert text ⟨tableIndex names.length⟩) (names ++ [text]) := by
  constructor
  · intro other i hi
    rw [Std.HashMap.getElem?_insert]
    by_cases hsame : text = other
    · subst hsame
      rw [if_pos (beq_self_eq_true text), hi.unique (lastAt_append_singleton names text)]
    · have hnew : other ∉ [text] := by simpa using Ne.symm hsame
      have hold : other ∈ names := (List.mem_append.1 hi.mem).resolve_right hnew
      rcases exists_lastAt hold with ⟨k, hk⟩
      rw [if_neg (by simpa using hsame), h.found hk, hi.unique (hk.append hnew)]
  · intro other hother
    have hne : text ≠ other ∧ other ∉ names := by
      simp only [List.mem_append, List.mem_singleton, not_or] at hother
      exact ⟨Ne.symm hother.2, hother.1⟩
    rw [Std.HashMap.getElem?_insert, if_neg (by simpa using hne.1), h.missing hne.2]

namespace Workspace

theorem getElem?_indexFrom_of_not_mem (h : text ∉ names) (start : Nat)
    (index : Std.HashMap String NameId) : (indexFrom start names index)[text]? = index[text]? := by
  induction names generalizing start index with
  | nil => rfl
  | cons name names ih =>
    have hne : name ≠ text := fun heq => h (heq ▸ List.mem_cons_self)
    rw [indexFrom, ih (fun hmem => h (List.mem_cons_of_mem name hmem)),
      Std.HashMap.getElem?_insert, if_neg (by simpa using hne)]

/-- Of equal names the last one counts. -/
theorem getElem?_indexFrom (h : LastAt names text i) (start : Nat)
    (index : Std.HashMap String NameId) :
    (indexFrom start names index)[text]? = some ⟨tableIndex (start + i)⟩ := by
  induction names generalizing start index i with
  | nil => exact absurd h.mem List.not_mem_nil
  | cons name names ih =>
    rw [indexFrom]
    by_cases hlater : text ∈ names
    · rcases exists_lastAt hlater with ⟨k, hk⟩
      rw [ih hk, h.unique (hk.cons name), Nat.add_assoc, Nat.add_comm 1 k]
    · obtain rfl : text = name := (List.mem_cons.1 h.mem).resolve_right hlater
      rw [getElem?_indexFrom_of_not_mem hlater, Std.HashMap.getElem?_insert_self,
        h.unique (lastAt_zero_of_not_mem hlater), Nat.add_zero]

theorem indexes_indexFrom (names : List String) : Indexes (indexFrom 0 names ∅) names := by
  constructor
  · intro text i hi
    rw [getElem?_indexFrom hi, Nat.zero_add]
  · intro text htext
    rw [getElem?_indexFrom_of_not_mem htext, Std.HashMap.getElem?_empty]

/-! ## One call -/

/-- There is no index yet, or it has the last position of every name. -/
def Ready (w : Workspace) : Prop :=
  w.index = ∅ ∨ Indexes w.index w.arena.names.toList

theorem ready_ofArena (a : Arena) : (ofArena a).Ready :=
  .inl rfl

theorem arena_indexed (w : Workspace) : w.indexed.arena = w.arena := by
  unfold indexed
  split <;> rfl

variable {w : Workspace}

/-- Whenever a text is looked up, the index has the last position of every name. -/
theorem Ready.indexes (h : w.Ready) : Indexes w.indexed.index w.arena.names.toList := by
  rcases h with hempty | hindexes
  · -- an index is built now, unless there are no names, and that index is empty too
    have hbuilt : w.indexed.index = indexFrom 0 w.arena.names.toList ∅ := by
      unfold indexed
      split
      · exact congrArg _ hempty
      · rename_i hnone
        have hnames : w.arena.names = #[] := by simpa [hempty] using hnone
        rw [hnames, hempty]
        rfl
    rw [hbuilt]
    exact indexes_indexFrom _
  · have hkept : w.indexed = w := by
      refine if_neg fun hand => ?_
      rw [Bool.and_eq_true, Bool.not_eq_true', Array.isEmpty_eq_false_iff_exists_mem] at hand
      rcases hand with ⟨hempty, name, hname⟩
      rcases exists_lastAt (Array.mem_toList_iff.2 hname) with ⟨i, hi⟩
      have hfound := hindexes.found hi
      rw [Std.HashMap.getElem?_of_isEmpty hempty] at hfound
      contradiction
    rw [hkept]
    exact hindexes

/-- A text that is a name is answered with its last position, and no table grows. -/
theorem Ready.intern_of_lastAt (h : w.Ready) (hi : LastAt w.arena.names.toList text i) :
    (w.intern text).1 = ⟨tableIndex i⟩ ∧ (w.intern text).2.arena = w.arena ∧
      (w.intern text).2.Ready := by
  have hintern : w.intern text = (⟨tableIndex i⟩, w.indexed) := by
    unfold intern
    dsimp only
    rw [h.indexes.found hi]
  rw [hintern]
  refine ⟨rfl, w.arena_indexed, .inr ?_⟩
  rw [arena_indexed]
  exact h.indexes

/-- A text that is no name yet becomes the last one. -/
theorem Ready.intern_of_not_mem (h : w.Ready) (hnew : text ∉ w.arena.names.toList) :
    (w.intern text).1 = ⟨tableIndex w.arena.names.size⟩ ∧
      (w.intern text).2.arena = w.arena.withName text ∧ (w.intern text).2.Ready := by
  have hintern : w.intern text = (⟨tableIndex w.arena.names.size⟩,
      ⟨w.arena.withName text,
        w.indexed.index.insert text ⟨tableIndex w.arena.names.size⟩⟩) := by
    unfold intern
    dsimp only
    rw [h.indexes.missing hnew, arena_indexed]
    rfl
  rw [hintern]
  refine ⟨rfl, rfl, .inr ?_⟩
  have hpush := h.indexes.push text
  rwa [Array.length_toList, ← Array.toList_push] at hpush

/-- All that a call does depends on the arena alone. -/
theorem Ready.intern_congr {v : Workspace} (hv : v.Ready) (hw : w.Ready)
    (harena : v.arena = w.arena) (text : String) :
    (v.intern text).1 = (w.intern text).1 ∧ (v.intern text).2.arena = (w.intern text).2.arena := by
  by_cases hmem : text ∈ v.arena.names.toList
  · rcases exists_lastAt hmem with ⟨i, hi⟩
    rcases hv.intern_of_lastAt hi with ⟨hname, htables, -⟩
    rcases hw.intern_of_lastAt (harena ▸ hi) with ⟨hname', htables', -⟩
    exact ⟨hname.trans hname'.symm, htables.trans (harena.trans htables'.symm)⟩
  · rcases hv.intern_of_not_mem hmem with ⟨hname, htables, -⟩
    rcases hw.intern_of_not_mem (harena ▸ hmem) with ⟨hname', htables', -⟩
    rw [hname, hname', htables, htables', harena]
    exact ⟨rfl, rfl⟩

theorem Ready.intern (h : w.Ready) (text : String) : (w.intern text).2.Ready := by
  by_cases hmem : text ∈ w.arena.names.toList
  · rcases exists_lastAt hmem with ⟨i, hi⟩
    exact (h.intern_of_lastAt hi).2.2
  · exact (h.intern_of_not_mem hmem).2.2

/-! ## Several calls -/

theorem Ready.internAll (h : w.Ready) (texts : List String) : (w.internAll texts).2.Ready := by
  induction texts generalizing w with
  | nil => exact h
  | cons text texts ih => exact ih (h.intern text)

/-- Workspaces with the same arena answer alike, and go on with the same arena. -/
theorem Ready.internAll_congr {v : Workspace} (hv : v.Ready) (hw : w.Ready)
    (harena : v.arena = w.arena) (texts : List String) :
    (v.internAll texts).1 = (w.internAll texts).1 ∧
      (v.internAll texts).2.arena = (w.internAll texts).2.arena := by
  induction texts generalizing v w with
  | nil => exact ⟨rfl, harena⟩
  | cons text texts ih =>
    rcases hv.intern_congr hw harena text with ⟨hname, htables⟩
    rcases ih (hv.intern text) (hw.intern text) htables with ⟨hnames, hrest⟩
    exact ⟨congrArg₂ List.cons hname hnames, hrest⟩

theorem internAll_append (w : Workspace) (xs ys : List String) :
    (w.internAll (xs ++ ys)).2 = ((w.internAll xs).2.internAll ys).2 := by
  induction xs generalizing w with
  | nil => rfl
  | cons x xs ih => exact ih (w.intern x).2

/-- Several calls add the new texts to the names, and change nothing else. -/
theorem Ready.arena_internAll (h : w.Ready) (texts : List String) :
    (w.internAll texts).2.arena =
      { w.arena with
        names := w.arena.names ++ (newNames w.arena.names.toList texts).toArray } := by
  induction texts generalizing w with
  | nil => simp [Workspace.internAll, newNames]
  | cons text texts ih =>
    refine (ih (h.intern text)).trans ?_
    by_cases hmem : text ∈ w.arena.names.toList
    · rcases exists_lastAt hmem with ⟨i, hi⟩
      rw [(h.intern_of_lastAt hi).2.1, newNames_of_mem hmem]
    · rw [(h.intern_of_not_mem hmem).2.1, newNames_of_not_mem hmem]
      simp [Arena.withName]

/-- The answer to a call is the last position of the text afterwards. -/
theorem Ready.lastAt_intern (h : w.Ready)
    (hsize : (w.intern text).2.arena.names.size < UInt32.size) :
    LastAt (w.intern text).2.arena.names.toList text (w.intern text).1.toNat := by
  by_cases hmem : text ∈ w.arena.names.toList
  · rcases exists_lastAt hmem with ⟨i, hi⟩
    rcases h.intern_of_lastAt hi with ⟨hname, harena, -⟩
    have hlt : i < w.arena.names.size := by
      rw [← Array.length_toList]
      exact (List.getElem?_eq_some_iff.1 hi.getElem?).1
    rw [harena] at hsize ⊢
    rw [hname, NameId.toNat, Arena.toNat_tableIndex (hlt.trans hsize)]
    exact hi
  · rcases h.intern_of_not_mem hmem with ⟨hname, harena, -⟩
    rw [harena, Arena.withName, Array.size_push] at hsize
    rw [harena, hname, NameId.toNat, Arena.toNat_tableIndex (Nat.lt_of_succ_lt hsize),
      Arena.withName, Array.toList_push, ← Array.length_toList]
    exact lastAt_append_singleton _ text

end Workspace

/-! ## Loaded arenas -/

namespace Arena

theorem tableIndex_toNat (n : UInt32) : tableIndex n.toNat = n :=
  UInt32.toNat_inj.1 (toNat_tableIndex n.toNat_lt)

theorem name_of_lastAt {a : Arena} {name : NameId} (h : LastAt a.names.toList text name.toNat) :
    a.name name = text := by
  rw [Arena.name, Array.getD_eq_getD_getElem?, ← Array.getElem?_toList, h.getElem?,
    Option.getD_some]

/-- The workspace after an arena was loaded and texts were interned, from left to right. -/
def interned (a : Arena) (texts : List String) : Workspace :=
  ((Workspace.ofArena a).internAll texts).2

/--
A text is interned with the answer `name`, in an arena `a` that was loaded, after some texts and
before others.  A new arena is loaded with no names.
-/
structure Interns (a : Arena) (before : List String) (text : String) (after : List String)
    (name : NameId) : Prop where
  /-- The answer is the name of the text, then and later. -/
  name_eq : (a.interned (before ++ text :: after)).arena.name name = text
  /-- Whenever the text is interned again, the answer is the same. -/
  again : ((a.interned (before ++ text :: after)).intern text).1 = name
  /-- Of a text that was loaded, the answer is the last position, and nothing is added. -/
  loaded : text ∈ a.names → LastAt a.names.toList text name.toNat ∧
    (a.interned (before ++ [text])).arena = (a.interned before).arena
  /-- A text that is there adds nothing. -/
  known : text ∈ (a.interned before).arena.names →
    (a.interned (before ++ [text])).arena = (a.interned before).arena
  /-- A text that is not there goes to the end. -/
  fresh : text ∉ (a.interned before).arena.names →
    name.toNat = (a.interned before).arena.names.size ∧
      (a.interned (before ++ [text])).arena = (a.interned before).arena.withName text
  /-- No position changes its text. -/
  kept : ∀ i, i < (a.interned before).arena.names.size →
    (a.interned (before ++ text :: after)).arena.names[i]? = (a.interned before).arena.names[i]?
  /-- There is one more name for each different text that was not loaded. -/
  size_eq : (a.interned (before ++ text :: after)).arena.names.size =
    a.names.size + ((before ++ text :: after).toFinset \ a.names.toList.toFinset).card
  /-- The stored arena can be loaded, and that changes no answer and no name. -/
  reloaded : ∃ b : Arena,
    (Json.parse? (a.interned before).arena.toJson.print).bind Arena.ofJson? = some b ∧
      ∀ texts, ((Workspace.ofArena b).internAll texts).1 = ((a.interned before).internAll texts).1 ∧
        ∀ n, (b.interned texts).arena.name n =
          ((a.interned before).internAll texts).2.arena.name n

variable {a : Arena}

theorem ready_interned (a : Arena) (texts : List String) : (a.interned texts).Ready :=
  (Workspace.ready_ofArena a).internAll texts

theorem interned_append (a : Arena) (xs ys : List String) :
    a.interned (xs ++ ys) = ((a.interned xs).internAll ys).2 :=
  Workspace.internAll_append _ xs ys

theorem names_interned (a : Arena) (texts : List String) :
    (a.interned texts).arena.names.toList =
      a.names.toList ++ newNames a.names.toList texts := by
  rw [interned, (Workspace.ready_ofArena a).arena_internAll texts]
  simp [Workspace.ofArena]

/-- Texts that are interned later go to the end of the names. -/
theorem names_append (a : Arena) (xs ys : List String) :
    (a.interned (xs ++ ys)).arena.names.toList =
      (a.interned xs).arena.names.toList ++ newNames (a.interned xs).arena.names.toList ys := by
  rw [interned_append, (a.ready_interned xs).arena_internAll ys]
  simp

theorem size_interned_le (a : Arena) (xs ys : List String) :
    (a.interned xs).arena.names.size ≤ (a.interned (xs ++ ys)).arena.names.size := by
  rw [← Array.length_toList, ← Array.length_toList, names_append, List.length_append]
  exact Nat.le_add_right _ _

/-- The answer to a call is the last position of its text from then on. -/
theorem lastAt_interned (a : Arena) (before : List String) (text : String) (after : List String)
    (hsize : (a.interned (before ++ text :: after)).arena.names.size < UInt32.size) :
    LastAt (a.interned (before ++ text :: after)).arena.names.toList text
      ((a.interned before).intern text).1.toNat := by
  have hnow : a.interned (before ++ [text]) = ((a.interned before).intern text).2 :=
    a.interned_append before [text]
  rw [List.append_cons] at hsize ⊢
  have hlast : LastAt (a.interned (before ++ [text])).arena.names.toList text
      ((a.interned before).intern text).1.toNat := by
    have hsizenow := Nat.lt_of_le_of_lt (a.size_interned_le (before ++ [text]) after) hsize
    rw [hnow] at hsizenow ⊢
    exact (a.ready_interned before).lastAt_intern hsizenow
  -- the text is there, so it is not among those that are added after it
  rw [names_append]
  exact hlast.append fun hmem => (mem_newNames.1 hmem).2 hlast.mem

/-- Interned texts keep their names, before and after an arena is loaded. -/
theorem interns (a : Arena) (before : List String) (text : String) (after : List String)
    (hsize : (a.interned (before ++ text :: after)).arena.names.size < UInt32.size) :
    a.Interns before text after ((a.interned before).intern text).1 := by
  have hready := a.ready_interned before
  have hnow : a.interned (before ++ [text]) = ((a.interned before).intern text).2 :=
    a.interned_append before [text]
  have hkept := a.lastAt_interned before text after hsize
  have hsizenow : (a.interned (before ++ [text])).arena.names.size < UInt32.size := by
    rw [List.append_cons] at hsize
    exact Nat.lt_of_le_of_lt (a.size_interned_le (before ++ [text]) after) hsize
  have hlast := a.lastAt_interned before text [] hsizenow
  constructor
  · exact name_of_lastAt hkept
  · rw [((a.ready_interned _).intern_of_lastAt hkept).1, NameId.toNat, tableIndex_toNat]
  · intro hmem
    rcases exists_lastAt (Array.mem_toList_iff.2 hmem) with ⟨i, hi⟩
    have hold : text ∉ newNames a.names.toList (before ++ [text]) := fun hnew =>
      (mem_newNames.1 hnew).2 hi.mem
    have hthere : LastAt (a.interned before).arena.names.toList text i := by
      rw [names_interned]
      exact hi.append fun hnew => (mem_newNames.1 hnew).2 hi.mem
    rw [names_interned] at hlast
    rw [hlast.unique (hi.append hold), hnow]
    exact ⟨hi, (hready.intern_of_lastAt hthere).2.1⟩
  · intro hmem
    rcases exists_lastAt (Array.mem_toList_iff.2 hmem) with ⟨i, hi⟩
    rw [hnow, (hready.intern_of_lastAt hi).2.1]
  · intro hmem
    rcases hready.intern_of_not_mem (fun h => hmem (Array.mem_toList_iff.1 h)) with
      ⟨hname, harena, -⟩
    rw [hnow, harena, Arena.withName, Array.size_push] at hsizenow
    rw [hname, NameId.toNat, toNat_tableIndex (Nat.lt_of_succ_lt hsizenow), hnow, harena]
    exact ⟨rfl, rfl⟩
  · intro i hi
    rw [← Array.length_toList] at hi
    rw [← Array.getElem?_toList, names_append, List.getElem?_append_left hi, Array.getElem?_toList]
  · rw [← length_newNames, ← Array.length_toList, names_interned, List.length_append,
      Array.length_toList]
  · refine ⟨_, (Arena.lawful.bind_parse?_print _).2, fun texts => ?_⟩
    rcases (Workspace.ready_ofArena _).internAll_congr hready rfl texts with ⟨hnames, harena⟩
    exact ⟨hnames, fun n => congrArg (fun b => b.name n) harena⟩

/-- Of a text that was loaded twice, the last position is the name. -/
theorem interns_twice_loaded :
    let a : Arena := ⟨#[], #["x", "y", "x"], #[]⟩
    let name := ((a.interned ["z"]).intern "x").1
    (a.interned (["z"] ++ "x" :: ["z", "w"])).arena.names.size < UInt32.size ∧
      (a.interned (["z"] ++ "x" :: ["z", "w"])).arena.names = #["x", "y", "x", "z", "w"] ∧
      a.Interns ["z"] "x" ["z", "w"] name ∧ name.toNat = 2 := by
  intro a name
  have hnames :
      (a.interned (["z"] ++ "x" :: ["z", "w"])).arena.names = #["x", "y", "x", "z", "w"] := by
    rw [← Array.toList_inj, names_interned]
    decide
  have hsize : (a.interned (["z"] ++ "x" :: ["z", "w"])).arena.names.size < UInt32.size := by
    rw [hnames]
    decide
  have hinterns := a.interns ["z"] "x" ["z", "w"] hsize
  have hlast : LastAt a.names.toList "x" 2 := lastAt_append_singleton ["x", "y"] "x"
  exact ⟨hsize, hnames, hinterns, (hinterns.loaded (by simp [a])).1.unique hlast⟩

end Arena
end SeqCalc
