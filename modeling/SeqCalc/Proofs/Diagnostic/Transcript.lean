import Mathlib.Data.List.Nodup
import SeqCalc.Diagnostic.Emitter

/-!
# Transcripts of an emitter

A transcript notes every call of an emitter together with what the emitter answered, the calls
that a scope or a collection makes for itself among them.  What the notes say about each other
follows call by call.

Main results:

- `Emitter.Traces.listeners_eq`: who is attached after the calls of a transcript.
- `Emitter.Traces.ids_eq`: every attachment has an id of its own.
- `Emitter.Traces.heard_eq`: a listener hears what is reported until it is detached, and no more.
-/

namespace SeqCalc

/-- A call of an emitter, with its answer. -/
inductive Note where
  /-- A listener was attached, by itself or for a scope. -/
  | attached (l : Listener) (forScope : Bool)
  | detached (id : ListenerId) (found : Bool) (forScope : Bool)
  | reported (d : Diagnostic) (hearers : List Listener)
  | opened
  | collected (kept : Option (List Diagnostic))
  | state (e : Emitter)
  /-- There is no attachment with that number, so that nothing was called. -/
  | missed

namespace Note

/-- The call takes one emitter to the other, and its answer is noted. -/
def Fits (n : Note) (e e' : Emitter) : Prop :=
  match n with
  | attached l _ => e.attach l.name = (l.id, e')
  | detached id found _ => e.detach id = (found, e')
  | reported d hearers => e.report d = (hearers, e')
  | opened => e' = e.openFrame
  | collected kept => e.closeFrame = (kept, e')
  | state seen => seen = e ∧ e' = e
  | missed => e' = e

def attached? : Note → Option Listener
  | attached l _ => some l
  | _ => none

def detaches (id : ListenerId) : Note → Bool
  | detached other _ _ => other == id
  | _ => false

def reported? : Note → Option Diagnostic
  | reported d _ => some d
  | _ => none

/-- Who heard what. -/
def heard : Note → List (Listener × Diagnostic)
  | reported d hearers => hearers.map (·, d)
  | _ => []

variable {id : ListenerId}

theorem attached?_of_detaches (n : Note) (h : n.detaches id = true) : n.attached? = none := by
  cases n <;> first | rfl | cases h

theorem reported?_of_detaches (n : Note) (h : n.detaches id = true) : n.reported? = none := by
  cases n <;> first | rfl | cases h

end Note

/-- The attachments that were made, in order. -/
def attachments (notes : List Note) : List Listener :=
  notes.filterMap Note.attached?

/-- The diagnostics that were reported, in order. -/
def reports (notes : List Note) : List Diagnostic :=
  notes.filterMap Note.reported?

/-- What was heard under an id, in order. -/
def heardBy (id : ListenerId) (notes : List Note) : List (Listener × Diagnostic) :=
  (notes.flatMap Note.heard).filter (·.1.id == id)

/-- The listeners that were attached and not detached later, in the order of their attachment. -/
def standing : List Note → List Listener
  | [] => []
  | n :: later =>
    (n.attached?.filter fun l => !later.any (·.detaches l.id)).toList ++ standing later

/-- The calls of a transcript lead from one state of an emitter to another. -/
inductive Emitter.Traces : Emitter → List Note → Emitter → Prop
  | nil (e : Emitter) : Traces e [] e
  | cons {e mid e' : Emitter} {n : Note} {later : List Note} :
      n.Fits e mid → Traces mid later e' → Traces e (n :: later) e'

section Lists

variable {n : Note} {before later : List Note} {id : ListenerId}

@[simp]
theorem attachments_cons :
    attachments (n :: later) = n.attached?.toList ++ attachments later := by
  cases h : n.attached? <;> simp [attachments, h]

@[simp]
theorem attachments_append :
    attachments (before ++ later) = attachments before ++ attachments later :=
  List.filterMap_append

@[simp]
theorem reports_cons : reports (n :: later) = n.reported?.toList ++ reports later := by
  cases h : n.reported? <;> simp [reports, h]

@[simp]
theorem heardBy_append : heardBy id (before ++ later) = heardBy id before ++ heardBy id later := by
  simp [heardBy]

theorem heardBy_cons :
    heardBy id (n :: later) = n.heard.filter (·.1.id == id) ++ heardBy id later := by
  simp [heardBy]

theorem mem_attachments_of_mem_standing {l : Listener} {notes : List Note}
    (h : l ∈ standing notes) : l ∈ attachments notes := by
  induction notes with
  | nil => exact h
  | cons n later ih =>
    rw [attachments_cons, List.mem_append]
    rcases List.mem_append.1 h with h | h
    · refine .inl (Option.mem_toList.2 ?_)
      exact (Option.filter_eq_some_iff.1 (Option.mem_toList.1 h)).1
    · exact .inr (ih h)

end Lists

/-! ## One call -/

/-- What a call does to everything but the frames. -/
structure Note.Effect (n : Note) (e e' : Emitter) : Prop where
  listeners_eq : e'.listeners = e.listeners.filter (fun l => !n.detaches l.id) ++ n.attached?.toList
  id_eq : ∀ l, n.attached? = some l → l.id = ⟨e.nextId⟩
  nextId_eq : e'.nextId = e.nextId + n.attached?.toList.length
  errorCount_eq : e'.errorCount = e.errorCount + n.reported?.toList.length
  limit_eq : e'.limit = e.limit
  heard_eq : n.heard = n.reported?.toList.flatMap fun d => e.listeners.map (·, d)

theorem Note.Fits.effect {n : Note} {e e' : Emitter} (h : n.Fits e e') : n.Effect e e' := by
  cases n with
  | attached l forScope =>
    simp only [Fits, Emitter.attach, Prod.mk.injEq] at h
    rcases h with ⟨hid, rfl⟩
    refine ⟨by simp [detaches, attached?, hid], ?_, rfl, rfl, rfl, rfl⟩
    rintro l ⟨rfl⟩
    exact hid.symm
  | detached id found forScope =>
    simp only [Fits, Emitter.detach, Prod.mk.injEq] at h
    rcases h with ⟨-, rfl⟩
    refine ⟨?_, nofun, rfl, rfl, rfl, rfl⟩
    simp only [detaches, attached?, Option.toList_none, List.append_nil]
    exact List.filter_congr fun l _ => by simp [bne, Bool.beq_comm]
  | reported d hearers =>
    simp only [Fits, Emitter.report, Prod.mk.injEq] at h
    rcases h with ⟨rfl, rfl⟩
    exact ⟨by simp [detaches, attached?], nofun, rfl, rfl, rfl, by simp [heard, reported?]⟩
  | opened =>
    cases h
    exact ⟨by simp [detaches, attached?, Emitter.openFrame], nofun, rfl, rfl, rfl, rfl⟩
  | collected kept =>
    simp only [Fits, Emitter.closeFrame] at h
    split at h
    all_goals
      cases h
      exact ⟨by simp [detaches, attached?], nofun, rfl, rfl, rfl, rfl⟩
  | state seen =>
    rcases h with ⟨-, rfl⟩
    exact ⟨by simp [detaches, attached?], nofun, rfl, rfl, rfl, rfl⟩
  | missed =>
    cases h
    exact ⟨by simp [detaches, attached?], nofun, rfl, rfl, rfl, rfl⟩

namespace Emitter.Traces

variable {e e' : Emitter} {before later notes : List Note}

/-- A transcript can be followed up to any note. -/
theorem split (h : Traces e (before ++ later) e') :
    ∃ mid, Traces e before mid ∧ Traces mid later e' := by
  induction before generalizing e with
  | nil => exact ⟨e, .nil e, h⟩
  | cons n before ih =>
    cases h with
    | cons hfits hrest =>
      rcases ih hrest with ⟨mid, hbefore, hlater⟩
      exact ⟨mid, .cons hfits hbefore, hlater⟩

theorem append {mid : Emitter} (h : Traces e before mid) (hlater : Traces mid later e') :
    Traces e (before ++ later) e' := by
  induction h with
  | nil => exact hlater
  | cons hfits _ ih => exact .cons hfits (ih hlater)

theorem single {n : Note} (h : n.Fits e e') : Traces e [n] e' :=
  .cons h (.nil e')

/-! ## Who is attached -/

/-- Those stay attached that were so and are not detached, and those that join them. -/
theorem listeners_eq (h : Traces e notes e') :
    e'.listeners =
      e.listeners.filter (fun l => !notes.any (·.detaches l.id)) ++ standing notes := by
  induction h with
  | nil e => simp [standing]
  | @cons e mid e' n later hfits _ ih =>
    rw [ih, hfits.effect.listeners_eq, List.filter_append, List.filter_filter, List.append_assoc]
    congr 1
    · exact List.filter_congr fun l _ => by simp [Bool.and_comm]
    · rw [standing]
      congr 1
      cases n.attached? with
      | none => rfl
      | some l => cases hlater : !later.any (·.detaches l.id) <;> simp [Option.filter, hlater]

/-- The ids of the attachments count on from the first one that is free. -/
theorem ids_eq (h : Traces e notes e') :
    (attachments notes).map Listener.id =
        (List.range' e.nextId (attachments notes).length).map ListenerId.mk ∧
      e'.nextId = e.nextId + (attachments notes).length := by
  induction h with
  | nil e => simp [attachments]
  | @cons e mid e' n later hfits _ ih =>
    have hnext := hfits.effect.nextId_eq
    rw [attachments_cons]
    cases hattached : n.attached? with
    | none =>
      rw [hattached] at hnext
      simpa [hnext] using ih
    | some l =>
      have hid := hfits.effect.id_eq l hattached
      rw [hattached] at hnext
      simp only [Option.toList_some, List.length_singleton] at hnext
      rw [hnext] at ih
      refine ⟨?_, ?_⟩
      · simp [hid, ih.1, List.range'_succ]
      · simp [ih.2]
        omega

theorem limit_eq (h : Traces e notes e') : e'.limit = e.limit := by
  induction h with
  | nil => rfl
  | cons hfits _ ih => rw [ih, hfits.effect.limit_eq]

theorem errorCount_eq (h : Traces e notes e') :
    e'.errorCount = e.errorCount + (reports notes).length := by
  induction h with
  | nil => rfl
  | cons hfits _ ih =>
    rw [ih, hfits.effect.errorCount_eq, reports_cons, List.length_append]
    omega

/-! ## Who hears what -/

/-- Nothing is heard under an id that nobody has. -/
theorem heardBy_eq_nil (h : Traces e notes e') {id : ListenerId}
    (hold : ∀ l ∈ e.listeners, l.id ≠ id) (hnew : ∀ l ∈ attachments notes, l.id ≠ id) :
    heardBy id notes = [] := by
  induction h with
  | nil => rfl
  | @cons e mid e' n later hfits _ ih =>
    have hmid : ∀ l ∈ mid.listeners, l.id ≠ id := by
      intro l hl
      rw [hfits.effect.listeners_eq] at hl
      rcases List.mem_append.1 hl with hl | hl
      · exact hold l (List.mem_of_mem_filter hl)
      · exact hnew l (by simp [attachments_cons, Option.mem_toList.1 hl])
    rw [heardBy_cons, ih hmid fun l hl => hnew l (by simp [attachments_cons, hl]), List.append_nil,
      hfits.effect.heard_eq, List.filter_eq_nil_iff]
    intro x hx
    simp only [List.mem_flatMap, List.mem_map] at hx
    rcases hx with ⟨d, -, l, hl, rfl⟩
    simpa using hold l hl

/-- A listener hears every report until it is detached, and no other. -/
theorem heardBy_eq (h : Traces e notes e') {l : Listener}
    (hold : e.listeners.filter (·.id == l.id) = [l]) (hnew : ∀ k ∈ attachments notes, k.id ≠ l.id) :
    heardBy l.id notes = (reports (notes.takeWhile fun n => !n.detaches l.id)).map (l, ·) := by
  induction h with
  | nil => rfl
  | @cons e mid e' n later hfits hlater ih =>
    have hlisteners := hfits.effect.listeners_eq
    have hheard : n.heard.filter (·.1.id == l.id) = n.reported?.toList.map (l, ·) := by
      rw [hfits.effect.heard_eq]
      cases n.reported? with
      | none => rfl
      | some d => simp [List.filter_map, Function.comp_def, hold]
    have hlaterNew : ∀ k ∈ attachments later, k.id ≠ l.id :=
      fun k hk => hnew k (by simp [attachments_cons, hk])
    rw [heardBy_cons, hheard]
    cases hdetaches : n.detaches l.id with
    | true =>
      -- from here on nobody has the id
      have hgone : ∀ k ∈ mid.listeners, k.id ≠ l.id := by
        intro k hk hid
        rw [hlisteners, n.attached?_of_detaches hdetaches] at hk
        simp [hid, hdetaches] at hk
      rw [hlater.heardBy_eq_nil hgone hlaterNew, n.reported?_of_detaches hdetaches]
      simp [hdetaches, reports]
    | false =>
      have hstays : mid.listeners.filter (·.id == l.id) = [l] := by
        have hjoins : n.attached?.toList.filter (·.id == l.id) = [] := by
          rw [List.filter_eq_nil_iff]
          intro k hk
          simpa using hnew k (by simp [attachments_cons, Option.mem_toList.1 hk])
        have hkept : (e.listeners.filter fun k => !n.detaches k.id).filter (·.id == l.id) =
            e.listeners.filter (·.id == l.id) := by
          rw [List.filter_filter]
          refine List.filter_congr fun k _ => ?_
          by_cases hid : k.id = l.id <;> simp [hid, hdetaches]
        rw [hlisteners, List.filter_append, hkept, hjoins, hold, List.append_nil]
      rw [ih hstays hlaterNew, List.takeWhile_cons_of_pos (by simp [hdetaches]), reports_cons,
        List.map_append]

/-! ## From the first call on -/

section Start

variable {limit : Option Nat}

/-- The attached listeners are those that were attached and not detached since. -/
theorem listeners_eq_standing (h : Traces (withLimit limit) notes e) :
    e.listeners = standing notes := by
  rw [h.listeners_eq]
  rfl

theorem nodup_ids (h : Traces (withLimit limit) notes e) :
    ((attachments notes).map Listener.id).Nodup := by
  rw [h.ids_eq.1]
  refine List.Nodup.map ?_ List.nodup_range'
  rintro i j ⟨rfl⟩
  rfl

/-- Each attachment hears what is reported until it is detached, and nothing else. -/
theorem heard_eq {l : Listener} {forScope : Bool}
    (h : Traces (withLimit limit) (before ++ .attached l forScope :: later) e) :
    heardBy l.id (before ++ .attached l forScope :: later) =
      (reports (later.takeWhile fun n => !n.detaches l.id)).map (l, ·) := by
  have hnodup := h.nodup_ids
  simp only [attachments_append, attachments_cons, List.map_append] at hnodup
  rcases List.nodup_append.1 hnodup with ⟨-, hlater, hdisjoint⟩
  have hbefore : ∀ k ∈ attachments before, k.id ≠ l.id := fun k hk =>
    hdisjoint k.id (List.mem_map_of_mem hk) l.id (by simp [Note.attached?])
  have hafter : ∀ k ∈ attachments later, k.id ≠ l.id := fun k hk hid =>
    (List.nodup_cons.1 hlater).1 (hid ▸ List.mem_map_of_mem hk)
  rcases h.split with ⟨mid, htraces, hrest⟩
  cases hrest with
  | @cons _ mid' _ _ _ hfits hrest =>
    have hattached : mid'.listeners.filter (·.id == l.id) = [l] := by
      have hnone : (standing before).filter (·.id == l.id) = [] := by
        rw [List.filter_eq_nil_iff]
        intro k hk
        simpa using hbefore k (mem_attachments_of_mem_standing hk)
      rw [hfits.effect.listeners_eq, htraces.listeners_eq_standing]
      simp [Note.detaches, Note.attached?, hnone]
    rw [heardBy_append, heardBy_cons, htraces.heardBy_eq_nil nofun hbefore,
      hrest.heardBy_eq hattached hafter]
    rfl

/-- A report is heard by those that are attached, in the order of their attachment. -/
theorem hearers_eq {d : Diagnostic} {hearers : List Listener}
    (h : Traces (withLimit limit) (before ++ .reported d hearers :: later) e) :
    hearers = standing before := by
  rcases h.split with ⟨mid, htraces, hrest⟩
  cases hrest with
  | cons hfits _ =>
    rw [← htraces.listeners_eq_standing]
    exact (congrArg Prod.fst hfits).symm

end Start

end Emitter.Traces

end SeqCalc
