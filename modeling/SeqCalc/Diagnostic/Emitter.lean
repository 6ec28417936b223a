import SeqCalc.Diagnostic.Basic

/-!
# The diagnostic emitter

Every reported diagnostic goes to all attached listeners and into the innermost open collection
frame.  A frame counts all its reports but keeps only as many as the limit allows, so that a limit
hides errors without forgiving them.

Main results:

- `Emitter.errorCount_report`: every report counts once.
- `Emitter.closeFrame_openFrame`: opening and closing a frame changes nothing else.
-/

namespace SeqCalc

/-- Names one attachment of a listener. -/
structure ListenerId where
  index : Nat
deriving DecidableEq, Repr, Inhabited

def ListenerId.inspect (id : ListenerId) : String :=
  s!"ListenerId({id.index})"

/-- A listener, known by its name, while it is attached. -/
structure Listener where
  id : ListenerId
  name : String
deriving DecidableEq, Repr, Inhabited

/-- What one collection has gathered: the kept diagnostics in order, and how many were reported. -/
structure Frame where
  kept : List Diagnostic
  reported : Nat
deriving DecidableEq, Repr, Inhabited

def Frame.empty : Frame :=
  ⟨[], 0⟩

/-- Count a report, and keep it while the limit allows. -/
def Frame.push (f : Frame) (limit : Option Nat) (d : Diagnostic) : Frame :=
  let reported := f.reported + 1
  if limit.any (· < reported) then { f with reported := reported }
  else ⟨f.kept ++ [d], reported⟩

/-- The state of an emitter; frames are listed innermost first. -/
structure Emitter where
  listeners : List Listener
  frames : List Frame
  nextId : Nat
  limit : Option Nat
  errorCount : Nat
deriving DecidableEq, Repr, Inhabited

namespace Emitter

/-- An emitter without listeners whose frames keep at most `limit` diagnostics. -/
def withLimit (limit : Option Nat) : Emitter :=
  ⟨[], [], 0, limit, 0⟩

/-! ## Listeners -/

/-- Attach a listener under an id that was never used before. -/
def attach (e : Emitter) (name : String) : ListenerId × Emitter :=
  let id : ListenerId := ⟨e.nextId⟩
  (id, { e with listeners := e.listeners ++ [⟨id, name⟩], nextId := e.nextId + 1 })

/-- Detach a listener; tells whether it was attached. -/
def detach (e : Emitter) (id : ListenerId) : Bool × Emitter :=
  (e.listeners.any (·.id == id), { e with listeners := e.listeners.filter (·.id != id) })

/-! ## Reports and frames -/

/-- Report a diagnostic: the listeners that hear it, in the order of their attachment. -/
def report (e : Emitter) (d : Diagnostic) : List Listener × Emitter :=
  (e.listeners,
    { e with
      errorCount := e.errorCount + 1
      frames := match e.frames with
        | [] => []
        | frame :: outer => frame.push e.limit d :: outer })

/-- Report several diagnostics, one after the other. -/
def reportAll (e : Emitter) (ds : List Diagnostic) : Emitter :=
  ds.foldl (fun e d => (e.report d).2) e

def openFrame (e : Emitter) : Emitter :=
  { e with frames := Frame.empty :: e.frames }

/-- Close the innermost frame: what it kept, unless nothing was reported into it. -/
def closeFrame (e : Emitter) : Option (List Diagnostic) × Emitter :=
  match e.frames with
  | [] => (none, e)
  | frame :: outer =>
    (if frame.reported = 0 then none else some frame.kept, { e with frames := outer })

/-- Report diagnostics inside a frame of their own. -/
def collect (e : Emitter) (ds : List Diagnostic) : Option (List Diagnostic) × Emitter :=
  (e.openFrame.reportAll ds).closeFrame

def hasErrors (e : Emitter) : Bool :=
  decide (0 < e.errorCount)

/-- The sizes of an emitter, for a developer. -/
def inspect (e : Emitter) : String :=
  "DiagnosticEmitter \x7b listeners: " ++ toString e.listeners.length ++ ", frames: " ++
    toString e.frames.length ++ ", error_count: " ++ toString e.errorCount ++ ", .. \x7d"

@[simp]
theorem errorCount_report (e : Emitter) (d : Diagnostic) :
    (e.report d).2.errorCount = e.errorCount + 1 :=
  rfl

@[simp]
theorem closeFrame_openFrame (e : Emitter) : e.openFrame.closeFrame = (none, e) :=
  rfl

end Emitter

/-! ## Sessions -/

/-- What one may ask of an emitter. -/
inductive Request where
  | attach (name : String)
  /-- Detach the listener of the `n`-th `attach`, counted from zero. -/
  | detach (n : Nat)
  /-- Detach whatever is attached under an id. -/
  | detachId (id : ListenerId)
  | report (d : Diagnostic)
  /-- Do the requests while one more listener is attached. -/
  | scoped (name : String) (body : List Request)
  /-- Do the requests inside a frame of their own. -/
  | collect (body : List Request)
  | state
deriving Repr, Inhabited

/-- What an observer of an emitter sees. -/
inductive Event where
  | attached (id : ListenerId)
  | detached (found : Bool)
  | heard (listener : Listener) (d : Diagnostic)
  | scopeLeft
  | collected (kept : Option (List Diagnostic))
  | state (e : Emitter)
deriving Repr, Inhabited

/-- An emitter, the listeners attached to it by `attach` requests, and what was seen so far. -/
structure Session where
  emitter : Emitter
  attached : List ListenerId
  events : List Event
deriving Repr, Inhabited

namespace Session

def start (limit : Option Nat) : Session :=
  ⟨.withLimit limit, [], []⟩

/-- Go on with another emitter state after further events. -/
def advance (s : Session) (e : Emitter) (events : List Event) : Session :=
  { s with emitter := e, events := s.events ++ events }

mutual

/-- Carry a request out. -/
def run (s : Session) : Request → Session
  | .attach name =>
    let (id, e) := s.emitter.attach name
    { s.advance e [.attached id] with attached := s.attached ++ [id] }
  | .detach n =>
    match s.attached[n]? with
    | none => s.advance s.emitter [.detached false]
    | some id =>
      let (found, e) := s.emitter.detach id
      s.advance e [.detached found]
  | .detachId id =>
    let (found, e) := s.emitter.detach id
    s.advance e [.detached found]
  | .report d =>
    let (listeners, e) := s.emitter.report d
    s.advance e (listeners.map (.heard · d))
  | .scoped name body =>
    let (id, e) := s.emitter.attach name
    let inner := (s.advance e []).runAll body
    inner.advance (inner.emitter.detach id).2 [.scopeLeft]
  | .collect body =>
    let inner := (s.advance s.emitter.openFrame []).runAll body
    let (kept, e) := inner.emitter.closeFrame
    inner.advance e [.collected kept]
  | .state => s.advance s.emitter [.state s.emitter]

/-- Carry requests out one after the other. -/
def runAll (s : Session) : List Request → Session
  | [] => s
  | request :: rest => (s.run request).runAll rest

end

end Session
end SeqCalc
