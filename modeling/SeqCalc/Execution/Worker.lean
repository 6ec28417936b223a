import SeqCalc.Execution.Run

/-!
# The worker

A worker runs one program at a time beside those who submit programs to it.  A submitter first
reserves the worker by its busy flag and then sends the job; the worker receives a job, runs it on
an empty memory, clears the flag and only then sends the reply.  Each of these is an action of its
own, so that the actions of any number of submitters may come between those of the worker.  When
nobody is left to submit, the queue is closed; the worker goes on with what is in it and then stops.

Main results:

- `Worker.act_reserve_eq_none_iff`: a reservation is refused exactly while the flag is set.
-/

namespace SeqCalc

/-- A submitted program and what it runs with. -/
structure Job where
  id : Nat
  program : CompiledProgram
  mode : Mode
  sink : Sink

/-- What a submitter gets back: the final memory or the error, and what was printed. -/
structure Reply where
  result : Except ExecError Memory
  sink : Sink
deriving Inhabited

structure Worker where
  /-- Set from the moment a job is reserved until it has run. -/
  busy : Bool
  /-- Jobs whose submitters hold the flag and have still to send them. -/
  reserved : List Job
  /-- Jobs sent and not yet received. -/
  queue : List Job
  active : Option (Job × Run)
  /-- A reply that waits to be sent. -/
  outgoing : Option (Nat × Reply)
  /-- Replies sent and not yet waited for. -/
  replies : List (Nat × Reply)
  /-- Jobs that were asked to stop. -/
  cancelled : List Nat
  /-- Set once nobody can submit any more. -/
  closed : Bool
  /-- Set once the worker has left its loop. -/
  stopped : Bool

/-- Why the worker has no memory to hand back. -/
inductive WorkerError where
  /-- It was reserved by another job. -/
  | busy
  | exec (e : ExecError)
deriving DecidableEq, Repr, Inhabited

def WorkerError.message : WorkerError → String
  | .busy => "a program is already running"
  | .exec e => e.fault.message

/-- One step of a submitter or of the worker. -/
inductive Action where
  | reserve (job : Job)
  | send (id : Nat)
  | receive
  | advance
  | clear
  | reply
  | wait (id : Nat)
  | cancel (id : Nat)
  | close
  | stop

namespace Worker

def idle : Worker :=
  ⟨false, [], [], none, none, [], [], false, false⟩

/-- The reply of a run that has ended. -/
def replyOf (r : Run) : Option Reply :=
  r.result?.map fun result =>
    match result with
    | .ok () => ⟨.ok r.state.memory, r.state.sink⟩
    | .error e => ⟨.error e, r.state.sink⟩

/-- The worker after an action; none if the action cannot happen now. -/
def act (w : Worker) : Action → Option Worker
  | .reserve job =>
    if w.busy || w.closed then none else some { w with busy := true, reserved := w.reserved ++ [job] }
  | .send id =>
    (w.reserved.find? (·.id == id)).map fun job =>
      { w with reserved := w.reserved.filter (·.id != id), queue := w.queue ++ [job] }
  | .receive =>
    match w.active, w.outgoing, w.queue with
    | none, none, job :: queue =>
      let run := Run.start job.mode job.program job.sink (w.cancelled.contains job.id)
      some { w with queue := queue, active := some (job, run) }
    | _, _, _ => none
  | .advance =>
    match w.active with
    | some (job, run) =>
      if run.result?.isSome then none else some { w with active := some (job, run.advance) }
    | none => none
  | .clear =>
    match w.active with
    | some (job, run) =>
      (replyOf run).map fun reply =>
        { w with busy := false, active := none, outgoing := some (job.id, reply) }
    | none => none
  | .reply =>
    w.outgoing.map fun reply => { w with outgoing := none, replies := w.replies ++ [reply] }
  | .wait id =>
    if w.replies.any (·.1 == id) then
      some { w with replies := w.replies.filter (·.1 != id) }
    else
      none
  | .cancel id =>
    some
      { w with
        cancelled := id :: w.cancelled
        active := w.active.map fun (job, run) =>
          if job.id = id then (job, run.cancel) else (job, run) }
  | .close =>
    -- a submitter that holds the flag is still there to send its job
    if w.closed || !w.reserved.isEmpty then none else some { w with closed := true }
  | .stop =>
    match w.active, w.outgoing, w.queue with
    | none, none, [] => if w.closed && !w.stopped then some { w with stopped := true } else none
    | _, _, _ => none

theorem act_reserve_eq_none_iff {w : Worker} (hopen : w.closed = false) (job : Job) :
    w.act (.reserve job) = none ↔ w.busy = true := by
  simp [act, hopen]

/-! ## The worker's own steps -/

/-- The next step of the worker itself, if it has one. -/
def step? (w : Worker) : Option Worker :=
  (w.act .reply).or ((w.act .clear).or ((w.act .advance).or ((w.act .receive).or (w.act .stop))))

/-- Whether a statement is being evaluated. -/
def isEvaluating (w : Worker) : Bool :=
  match w.active with
  | some (_, run) => run.isInside
  | none => false

/-- At most `n` steps of the worker, up to the next moment when a statement is being evaluated. -/
def untilEvaluating : Nat → Worker → Worker
  | 0, w => w
  | n + 1, w =>
    if w.isEvaluating then w
    else match w.step? with
      | some w' => untilEvaluating n w'
      | none => w

/-- At most `n` steps of the worker. -/
def proceed : Nat → Worker → Worker
  | 0, w => w
  | n + 1, w =>
    match w.step? with
    | some w' => proceed n w'
    | none => w

/-- Steps from one statement to the next, or from the last one to the reply. -/
def stepsBetween : Nat :=
  5

/-! ## Calls -/

/-- Reserve the worker and send a job; refused while the worker is busy. -/
def submit (w : Worker) (job : Job) : Except WorkerError Worker :=
  match (w.act (.reserve job)).bind fun w => w.act (.send job.id) with
  | some w => .ok w
  | none => .error .busy

/-- Let the statement that is being evaluated finish, and go on to the next one. -/
def release (w : Worker) : Worker :=
  if w.isEvaluating then (w.proceed 1).untilEvaluating stepsBetween else w

/-- The reply to a job, and the worker without it. -/
def wait? (w : Worker) (id : Nat) : Option (Reply × Worker) := do
  let reply ← w.replies.find? (·.1 == id)
  let w ← w.act (.wait id)
  return (reply.2, w)

/-- Submit a job to an idle worker and wait for the reply. -/
def runAlone (job : Job) : Except WorkerError Reply := do
  let w ← idle.submit job
  match (w.proceed (Run.stepsFor job.program + 3)).wait? job.id with
  | some (reply, _) => .ok reply
  | none => .error .busy

end Worker
end SeqCalc
