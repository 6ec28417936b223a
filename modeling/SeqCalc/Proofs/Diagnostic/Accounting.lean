import SeqCalc.Execution.Compile
import SeqCalc.Proofs.Diagnostic.Frames
import SeqCalc.Proofs.Diagnostic.Transcript

/-!
# Emitter accounting

Requests to an emitter nest: a scope and a collection have requests of their own inside.  Whatever
they are, listeners hear what is reported while they are attached, a collection answers for the
reports made in it and not in a collection further inside, and both leave the emitter as they found
it but for what was explicitly asked for.

Main results:

- `Session.traces_run`: the transcript of a request tells what the request does and what is seen.
- `Session.frames_run`: a request adds its own reports to the innermost frame.
- `Session.listeners_run`: a request changes the listeners by its explicit calls alone.
- `Session.Reached.accounted`: what the calls up to any moment say about each other.
- `SoundProgram.check_eq`: a check fails exactly if there is something to report.
-/

namespace SeqCalc

/-! ## Requests -/

namespace Request

mutual

/-- The reports of a request that are not made inside a collection. -/
def ownReports : Request → List Diagnostic
  | .report d => [d]
  | .scoped _ body => ownReportsAll body
  | .attach _ | .detach _ | .detachId _ | .collect _ | .state => []

def ownReportsAll : List Request → List Diagnostic
  | [] => []
  | request :: rest => request.ownReports ++ ownReportsAll rest

end

end Request

/-- What an observer sees of a call. -/
def Note.events : Note → List Event
  | attached l forScope => if forScope then [] else [.attached l.id]
  | detached _ found forScope => if forScope then [.scopeLeft] else [.detached found]
  | reported d hearers => hearers.map (.heard · d)
  | opened => []
  | collected kept => [.collected kept]
  | state e => [.state e]
  | missed => [.detached false]

/-- What a call does to the listeners if it was asked for explicitly. -/
def Note.edit (listeners : List Listener) : Note → List Listener
  | attached l false => listeners ++ [l]
  | detached id _ false => listeners.filter (·.id != id)
  | _ => listeners

namespace Session

/-- The session inside a scope. -/
def enterScope (s : Session) (name : String) : Session :=
  s.advance (s.emitter.attach name).2 []

/-- The session inside a collection. -/
def enterCollect (s : Session) : Session :=
  s.advance s.emitter.openFrame []

mutual

/-- The calls that a request makes. -/
def transcript (s : Session) : Request → List Note
  | .attach name => [.attached ⟨(s.emitter.attach name).1, name⟩ false]
  | .detach n =>
    match s.attached[n]? with
    | none => [.missed]
    | some id => [.detached id (s.emitter.detach id).1 false]
  | .detachId id => [.detached id (s.emitter.detach id).1 false]
  | .report d => [.reported d (s.emitter.report d).1]
  | .scoped name body =>
    let id := (s.emitter.attach name).1
    let inner := (s.enterScope name).runAll body
    .attached ⟨id, name⟩ true :: (s.enterScope name).transcriptAll body ++
      [.detached id (inner.emitter.detach id).1 true]
  | .collect body =>
    .opened :: s.enterCollect.transcriptAll body ++
      [.collected (s.enterCollect.runAll body).emitter.closeFrame.1]
  | .state => [.state s.emitter]

def transcriptAll (s : Session) : List Request → List Note
  | [] => []
  | request :: rest => s.transcript request ++ (s.run request).transcriptAll rest

end

mutual

/-- The transcript of a request leads to the emitter after it, and tells everything that is seen. -/
theorem traces_run (s : Session) (r : Request) :
    s.emitter.Traces (s.transcript r) (s.run r).emitter ∧
      (s.run r).events = s.events ++ (s.transcript r).flatMap Note.events :=
  match r with
  | .attach name => ⟨.single rfl, rfl⟩
  | .detach n => by
    unfold transcript run
    cases s.attached[n]? with
    | none => exact ⟨.single rfl, rfl⟩
    | some id => exact ⟨.single rfl, rfl⟩
  | .detachId id => ⟨.single rfl, rfl⟩
  | .report d => ⟨.single rfl, by simp [transcript, run, advance, Note.events]⟩
  | .scoped name body => by
    rcases traces_runAll (s.enterScope name) body with ⟨hbody, hevents⟩
    have hentered : (s.enterScope name).events = s.events := List.append_nil _
    have hfirst : s.emitter.Traces [.attached ⟨(s.emitter.attach name).1, name⟩ true]
        (s.enterScope name).emitter := .single rfl
    refine ⟨(hfirst.append hbody).append (.single rfl), ?_⟩
    change ((s.enterScope name).runAll body).events ++ [.scopeLeft] = _
    rw [hevents, hentered]
    simp [transcript, Note.events]
  | .collect body => by
    rcases traces_runAll s.enterCollect body with ⟨hbody, hevents⟩
    have hentered : s.enterCollect.events = s.events := List.append_nil _
    have hfirst : s.emitter.Traces [.opened] s.enterCollect.emitter := .single rfl
    refine ⟨(hfirst.append hbody).append (.single rfl), ?_⟩
    change (s.enterCollect.runAll body).events ++
      [.collected (s.enterCollect.runAll body).emitter.closeFrame.1] = _
    rw [hevents, hentered]
    simp [transcript, Note.events]
  | .state => ⟨.single ⟨rfl, rfl⟩, rfl⟩

theorem traces_runAll (s : Session) (rs : List Request) :
    s.emitter.Traces (s.transcriptAll rs) (s.runAll rs).emitter ∧
      (s.runAll rs).events = s.events ++ (s.transcriptAll rs).flatMap Note.events := by
  cases rs with
  | nil => exact ⟨.nil s.emitter, by simp [transcriptAll, runAll]⟩
  | cons r rest =>
    rcases traces_run s r with ⟨hfirst, hevents⟩
    rcases traces_runAll (s.run r) rest with ⟨hrest, hmore⟩
    exact ⟨hfirst.append hrest, by rw [runAll, hmore, hevents, transcriptAll]; simp⟩

end

mutual

/-- A request adds its own reports to the innermost frame, and leaves the others as they are. -/
theorem frames_run (s : Session) (r : Request) :
    (s.run r).emitter.frames = recorded s.emitter.limit r.ownReports s.emitter.frames :=
  match r with
  | .attach name => (recorded_nil ..).symm
  | .detach n => by
    unfold run
    cases s.attached[n]? with
    | none => exact (recorded_nil ..).symm
    | some id => exact (recorded_nil ..).symm
  | .detachId id => (recorded_nil ..).symm
  | .report d => by
    cases hframes : s.emitter.frames <;>
      simp [run, advance, Emitter.report, Request.ownReports, recorded, hframes]
  | .scoped name body => frames_runAll (s.enterScope name) body
  | .collect body => by
    have hclose := Emitter.closeFrame_of_recorded (frames_runAll s.enterCollect body)
    change (s.enterCollect.runAll body).emitter.closeFrame.2.frames = _
    rw [hclose]
    exact (recorded_nil ..).symm
  | .state => (recorded_nil ..).symm

theorem frames_runAll (s : Session) (rs : List Request) :
    (s.runAll rs).emitter.frames =
      recorded s.emitter.limit (Request.ownReportsAll rs) s.emitter.frames := by
  cases rs with
  | nil => exact (recorded_nil ..).symm
  | cons r rest =>
    have hlimit : (s.run r).emitter.limit = s.emitter.limit := (s.traces_run r).1.limit_eq
    rw [runAll, frames_runAll (s.run r) rest, frames_run s r, hlimit, Request.ownReportsAll,
      recorded_append]

end

/-- A collection answers for its own reports. -/
theorem closeFrame_runAll (s : Session) (body : List Request) :
    (s.enterCollect.runAll body).emitter.closeFrame.1 =
      answerFor s.emitter.limit (Request.ownReportsAll body) :=
  congrArg Prod.fst (Emitter.closeFrame_of_recorded (frames_runAll s.enterCollect body))

end Session

/-! ## Listeners -/

/-- The explicit calls of a transcript, applied to a list of listeners. -/
def edited (listeners : List Listener) (notes : List Note) : List Listener :=
  notes.foldl Note.edit listeners

/-- The explicit calls do not bring back who was detached. -/
theorem filter_edited {id : ListenerId} {notes : List Note} (listeners : List Listener)
    (hnew : ∀ l ∈ attachments notes, l.id ≠ id) :
    (edited listeners notes).filter (·.id != id) =
      edited (listeners.filter (·.id != id)) notes := by
  induction notes generalizing listeners with
  | nil => rfl
  | cons n later ih =>
    have hlater : ∀ l ∈ attachments later, l.id ≠ id := fun l hl => hnew l (by simp [hl])
    have hedit : (n.edit listeners).filter (·.id != id) =
        n.edit (listeners.filter (·.id != id)) := by
      cases n with
      | attached l forScope =>
        have hid : l.id ≠ id := hnew l (by simp [Note.attached?])
        cases forScope <;> simp [Note.edit, hid]
      | detached other found forScope =>
        cases forScope with
        | true => rfl
        | false =>
          simp only [Note.edit, List.filter_filter]
          exact List.filter_congr fun l _ => Bool.and_comm ..
      | reported | opened | collected | state | missed => rfl
    rw [edited, List.foldl_cons]
    exact (ih _ hlater).trans (by rw [hedit]; rfl)

namespace Emitter

/-- The ids of the attached listeners were given out. -/
def IdsGiven (e : Emitter) : Prop :=
  ∀ l ∈ e.listeners, l.id.index < e.nextId

variable {e e' : Emitter} {notes : List Note}

theorem Traces.nextId_le (h : Traces e notes e') {l : Listener} (hl : l ∈ attachments notes) :
    e.nextId ≤ l.id.index := by
  have hid : l.id ∈ (attachments notes).map Listener.id := List.mem_map_of_mem hl
  rw [h.ids_eq.1] at hid
  rcases List.mem_map.1 hid with ⟨i, hi, heq⟩
  rw [← heq]
  exact (List.mem_range'_1.1 hi).1

theorem Traces.idsGiven (h : Traces e notes e') (he : e.IdsGiven) : e'.IdsGiven := by
  induction h with
  | nil => exact he
  | @cons e mid e' n later hfits _ ih =>
    apply ih
    intro l hl
    rw [hfits.effect.listeners_eq] at hl
    rw [hfits.effect.nextId_eq]
    rcases List.mem_append.1 hl with hl | hl
    · exact Nat.lt_add_right _ (he l (List.mem_of_mem_filter hl))
    · have hattached := Option.mem_toList.1 hl
      rw [hfits.effect.id_eq l hattached, hattached]
      simp

end Emitter

namespace Session

theorem idsGiven_enterScope {s : Session} (h : s.emitter.IdsGiven) (name : String) :
    (s.enterScope name).emitter.IdsGiven := by
  have hfirst : s.emitter.Traces [.attached ⟨(s.emitter.attach name).1, name⟩ true]
      (s.enterScope name).emitter := .single rfl
  exact hfirst.idsGiven h

mutual

/-- A request changes the listeners as its explicit calls do. -/
theorem listeners_run (s : Session) (h : s.emitter.IdsGiven) (r : Request) :
    (s.run r).emitter.listeners = edited s.emitter.listeners (s.transcript r) :=
  match r with
  | .attach name => rfl
  | .detach n => by
    unfold run transcript
    cases s.attached[n]? with
    | none => rfl
    | some id => rfl
  | .detachId id => rfl
  | .report d => rfl
  | .scoped name body => by
    have hbody := listeners_runAll (s.enterScope name) (idsGiven_enterScope h name) body
    have hnew : ∀ l ∈ attachments ((s.enterScope name).transcriptAll body),
        l.id ≠ (s.emitter.attach name).1 := by
      intro l hl hid
      have hle := (traces_runAll (s.enterScope name) body).1.nextId_le hl
      rw [hid] at hle
      exact absurd hle (Nat.not_succ_le_self _)
    have hold : s.emitter.listeners.filter (·.id != (s.emitter.attach name).1) =
        s.emitter.listeners := by
      rw [List.filter_eq_self]
      intro l hl
      have hlt := h l hl
      simp only [bne_iff_ne]
      intro hid
      rw [hid] at hlt
      exact absurd hlt (Nat.lt_irrefl _)
    have hentered : (s.enterScope name).emitter.listeners =
        s.emitter.listeners ++ [⟨(s.emitter.attach name).1, name⟩] := rfl
    change ((s.enterScope name).runAll body).emitter.listeners.filter
      (·.id != (s.emitter.attach name).1) = _
    rw [hbody, filter_edited _ hnew, hentered, List.filter_append, hold]
    simp [transcript, edited, Note.edit]
  | .collect body => by
    have hbody := listeners_runAll s.enterCollect h body
    have hclose := Emitter.closeFrame_of_recorded (frames_runAll s.enterCollect body)
    change (s.enterCollect.runAll body).emitter.closeFrame.2.listeners = _
    rw [hclose, hbody]
    simp [transcript, edited, Note.edit, enterCollect, advance, Emitter.openFrame]
  | .state => rfl

theorem listeners_runAll (s : Session) (h : s.emitter.IdsGiven) (rs : List Request) :
    (s.runAll rs).emitter.listeners = edited s.emitter.listeners (s.transcriptAll rs) := by
  cases rs with
  | nil => rfl
  | cons r rest =>
    have hnext := (s.traces_run r).1.idsGiven h
    rw [runAll, listeners_runAll (s.run r) hnext rest, listeners_run s h r, transcriptAll, edited,
      edited, edited, List.foldl_append]

end

/-! ## Accounts -/

/--
The sessions of an emitter at the moments when something can be asked of it, inside a scope or a
collection too, each with the calls up to then.
-/
inductive Reached (limit : Option Nat) : Session → List Note → Prop
  | start : Reached limit (.start limit) []
  | run {s : Session} {notes : List Note} (r : Request) :
      Reached limit s notes → Reached limit (s.run r) (notes ++ s.transcript r)
  | enterScope {s : Session} {notes : List Note} (name : String) :
      Reached limit s notes → Reached limit (s.enterScope name)
        (notes ++ [.attached ⟨(s.emitter.attach name).1, name⟩ true])
  | enterCollect {s : Session} {notes : List Note} :
      Reached limit s notes → Reached limit s.enterCollect (notes ++ [.opened])

/-- What the calls up to a moment say about each other and about the emitter. -/
structure Accounted (limit : Option Nat) (s : Session) (notes : List Note) : Prop where
  /-- The transcript tells everything that was seen. -/
  events_eq : s.events = notes.flatMap Note.events
  /-- A report is heard by the attached listeners, in the order of their attachment. -/
  hearers_eq : ∀ before d hearers later, notes = before ++ .reported d hearers :: later →
    hearers = standing before
  /-- An attachment hears what is reported until it is detached, in order, and nothing else. -/
  heard_eq : ∀ before l forScope later, notes = before ++ .attached l forScope :: later →
    heardBy l.id notes = (reports (later.takeWhile fun n => !n.detaches l.id)).map (l, ·)
  /-- The attachments have the ids from zero on, one after the other. -/
  ids_eq : (attachments notes).map Listener.id =
    (List.range (attachments notes).length).map ListenerId.mk
  next_id : ∀ name, (s.emitter.attach name).1 = ⟨(attachments notes).length⟩
  /-- Exactly an attached id is found when it is to be detached. -/
  found_iff : ∀ id, (s.emitter.detach id).1 = true ↔ ∃ l ∈ standing notes, l.id = id
  listeners_eq : s.emitter.listeners = standing notes
  errorCount_eq : s.emitter.errorCount = (reports notes).length
  /-- A collection answers for its own reports alone, and leaves the frames as they were. -/
  collect_answer : ∀ body, s.transcript (.collect body) =
    .opened :: s.enterCollect.transcriptAll body ++
      [.collected (answerFor limit (Request.ownReportsAll body))]
  collect_frames : ∀ body, (s.run (.collect body)).emitter.frames = s.emitter.frames
  collect_listeners : ∀ body, (s.run (.collect body)).emitter.listeners =
    edited s.emitter.listeners (s.enterCollect.transcriptAll body)
  /-- A scope leaves the frames as they were, with its own reports in the innermost. -/
  scope_frames : ∀ name body, (s.run (.scoped name body)).emitter.frames =
    recorded limit (Request.ownReportsAll body) s.emitter.frames
  scope_listeners : ∀ name body, (s.run (.scoped name body)).emitter.listeners =
    edited s.emitter.listeners ((s.enterScope name).transcriptAll body)

variable {limit : Option Nat} {s : Session} {notes : List Note}

theorem Reached.traces (h : Reached limit s notes) :
    Emitter.Traces (.withLimit limit) notes s.emitter ∧ s.events = notes.flatMap Note.events := by
  induction h with
  | start => exact ⟨.nil _, rfl⟩
  | @run s notes r _ ih =>
    rcases s.traces_run r with ⟨htraces, hevents⟩
    exact ⟨ih.1.append htraces, by rw [hevents, ih.2, List.flatMap_append]⟩
  | enterScope name _ ih =>
    exact ⟨ih.1.append (.single rfl), by simp [Session.enterScope, advance, ih.2, Note.events]⟩
  | enterCollect _ ih =>
    exact ⟨ih.1.append (.single rfl), by simp [Session.enterCollect, advance, ih.2, Note.events]⟩

/-- Requests carried out one after the other lead to a moment when something can be asked. -/
theorem Reached.runAll (h : Reached limit s notes) (rs : List Request) :
    Reached limit (s.runAll rs) (notes ++ s.transcriptAll rs) := by
  induction rs generalizing s notes with
  | nil => simpa [Session.runAll, transcriptAll] using h
  | cons r rest ih => simpa [Session.runAll, transcriptAll] using ih (h.run r)

theorem Reached.accounted (h : Reached limit s notes) : Accounted limit s notes := by
  rcases h.traces with ⟨htraces, hevents⟩
  have hlimit : s.emitter.limit = limit := htraces.limit_eq
  have hids : s.emitter.IdsGiven := htraces.idsGiven nofun
  have hlisteners := htraces.listeners_eq_standing
  exact
    { events_eq := hevents
      hearers_eq := by
        rintro before d hearers later rfl
        exact htraces.hearers_eq
      heard_eq := by
        rintro before l forScope later rfl
        exact htraces.heard_eq
      ids_eq := by
        rw [htraces.ids_eq.1, List.range_eq_range']
        rfl
      next_id := fun name => by
        change ListenerId.mk s.emitter.nextId = _
        rw [htraces.ids_eq.2]
        exact congrArg ListenerId.mk (Nat.zero_add _)
      found_iff := fun id => by simp [Emitter.detach, hlisteners]
      listeners_eq := hlisteners
      errorCount_eq := htraces.errorCount_eq.trans (Nat.zero_add _)
      collect_answer := fun body => by rw [transcript, closeFrame_runAll, hlimit]
      collect_frames := fun body => (s.frames_run (.collect body)).trans (recorded_nil ..)
      collect_listeners := fun body => by
        rw [s.listeners_run hids]
        simp [transcript, edited, Note.edit]
      scope_frames := fun name body => by
        rw [s.frames_run, hlimit]
        rfl
      scope_listeners := fun name body => by
        rw [s.listeners_run hids]
        simp [transcript, edited, Note.edit] }

end Session

/-! ## Checking -/

/-- A check fails exactly if there is something to report, whatever the limit is. -/
theorem SoundProgram.check_eq (p : SoundProgram) (e : Emitter) :
    (p.check e).1 =
      if p.infer.diagnostics = [] then .ok p.infer
      else .error (limited e.limit p.infer.diagnostics) := by
  simp only [check, Emitter.collect_eq, answerFor]
  by_cases hnone : p.infer.diagnostics = []
  · simp [hnone]
  · simp [hnone]

namespace Session

/--
However requests to an emitter nest, listeners, collections and counters give account of exactly the
reports that concern them; so no limit makes a failing check pass.
-/
theorem accounts_at_every_moment (limit : Option Nat) :
    (∀ rs, Reached limit ((start limit).runAll rs) ((start limit).transcriptAll rs)) ∧
      (∀ s notes, Reached limit s notes → Accounted limit s notes) ∧
      ∀ (p : SoundProgram) (e : Emitter), (p.check e).1 =
        if p.infer.diagnostics = [] then .ok p.infer
        else .error (limited e.limit p.infer.diagnostics) :=
  ⟨fun rs => Reached.start.runAll rs, fun _ _ h => h.accounted, SoundProgram.check_eq⟩

/-- A listener is attached around two nested collections, and a scope inside detaches it. -/
def nestedRequests : List Request :=
  [.attach "outer",
    .collect [
      .report (.ofCode .badSyntax),
      .scoped "inner" [
        .report (.ofCode .undefinedVariable),
        .collect [.report (.ofCode .typeMismatch)],
        .detach 0,
        .report (.ofCode .badSyntax)]],
    .detach 0]

theorem accounts_of_nested_requests :
    Reached (some 1) ((start (some 1)).runAll nestedRequests)
        ((start (some 1)).transcriptAll nestedRequests) ∧
      Accounted (some 1) ((start (some 1)).runAll nestedRequests)
        ((start (some 1)).transcriptAll nestedRequests) ∧
      ((start (some 1)).runAll nestedRequests).emitter.errorCount = 4 := by
  have haccounts := accounts_at_every_moment (some 1)
  have hreached := haccounts.1 nestedRequests
  exact ⟨hreached, haccounts.2.1 _ _ hreached, rfl⟩

end Session
end SeqCalc
