import Mathlib.Data.List.Perm.Basic
import SeqCalc.Proofs.Execution.Stages

/-!
# Ledgers

Any number of submitters share a worker, and their steps come between each other's and between
those of the worker in any order.  A ledger follows them: it notes the accepted jobs, the moves of
each job's run, and the replies that were waited for.  That it is right about the worker is proved
from one action to the next.

Main results:

- `Accounts.step`: every accepted job is in flight or has one answer.
- `History.step`: the run of a job has made the moves of this job and no others.
- `Ledger.Sound.enterAll`: both stay so whatever happens, and each job comes closer to its reply.
-/

namespace SeqCalc

open scoped List

/-! ## Ledgers -/

/-- A worker, and a record of what has happened to its jobs. -/
structure Ledger where
  worker : Worker
  /-- The accepted jobs, in the order of their acceptance. -/
  accepted : List Job
  /-- The steps of the runs and the requests to stop them, each with the id of the job. -/
  moves : List (Nat × Run.Move)
  /-- The replies that were waited for. -/
  received : List (Nat × Reply)

/-- The job that an action gets accepted. -/
def Action.job? : Action → Option Job
  | reserve job => some job
  | _ => none

theorem Action.job?_of_serves {a : Action} {id : Nat} (h : a.serves id = true) : a.job? = none := by
  cases a <;> first | rfl | cases h

namespace Worker

/-- The moves of runs that an action makes. -/
def moved (w : Worker) : Action → List (Nat × Run.Move)
  | .advance => w.active.toList.map fun x => (x.1.id, .advance)
  | .cancel id => [(id, .cancel)]
  | _ => []

/-- The replies that an action hands out. -/
def handed (w : Worker) : Action → List (Nat × Reply)
  | .wait id => w.replies.filter (·.1 == id)
  | _ => []

end Worker

/-- The moves of one job among those of all. -/
def movesOf (id : Nat) (moves : List (Nat × Run.Move)) : List Run.Move :=
  (moves.filter (·.1 == id)).map Prod.snd

namespace Ledger

def start : Ledger :=
  ⟨.idle, [], [], []⟩

/-- The ledger after an action, if it can happen; every submission has a handle of its own. -/
def enter (l : Ledger) (a : Action) : Option Ledger :=
  if ∀ job ∈ a.job?, job.id ∉ l.accepted.map Job.id then
    (l.worker.act a).map fun w =>
      ⟨w, l.accepted ++ a.job?.toList, l.moves ++ l.worker.moved a, l.received ++ l.worker.handed a⟩
  else none

/-- The ledger after some actions, if they can happen in this order. -/
def enterAll (l : Ledger) (actions : List Action) : Option Ledger :=
  actions.foldlM enter l

/-- The answers that were given: those to be sent, those sent, and those waited for. -/
def answers (l : Ledger) : List (Nat × Reply) :=
  l.worker.outgoing.toList ++ l.worker.replies ++ l.received

/-- The answers that have reached their handle. -/
def delivered (l : Ledger) : List (Nat × Reply) :=
  l.worker.replies ++ l.received

end Ledger

/-! ## Answers -/

/-- Answers move on, from the one to be sent to those that were waited for, and none gets lost. -/
theorem Stage.Step.answers_perm {s s' : Stage} {a : Action}
    {replies replies' : List (Nat × Reply)} {cancelled cancelled' : List Nat}
    (h : Stage.Step replies cancelled s a s' replies' cancelled') (hclear : a ≠ .clear)
    (received : List (Nat × Reply)) :
    s'.outgoing?.toList ++ replies' ++ (received ++ (s.worker replies cancelled).handed a) ~
      s.outgoing?.toList ++ replies ++ received := by
  cases h with
  | clear => exact absurd rfl hclear
  | reply answer hwaits =>
    rw [hwaits, Stage.outgoing?_sent]
    simp only [Worker.handed, List.append_nil, Option.toList_none, List.nil_append]
    exact List.perm_append_comm.append_right received
  | wait id hsent =>
    have hsplit : replies.filter (·.1 == id) ++ replies.filter (·.1 != id) ~ replies :=
      List.filter_append_perm _ replies
    have hanswers : replies.filter (·.1 != id) ++ (received ++ replies.filter (·.1 == id)) ~
        replies ++ received :=
      calc
        _ ~ (received ++ replies.filter (·.1 == id)) ++ replies.filter (·.1 != id) :=
          List.perm_append_comm
        _ = received ++ (replies.filter (·.1 == id) ++ replies.filter (·.1 != id)) :=
          List.append_assoc ..
        _ ~ received ++ replies := hsplit.append_left received
        _ ~ replies ++ received := List.perm_append_comm
    simp only [Worker.handed, Stage.replies_worker, List.append_assoc]
    exact hanswers.append_left _
  | cancel id =>
    rw [Stage.outgoing?_cancel]
    simp only [Worker.handed, List.append_nil]
    exact .refl _
  | close hclose =>
    rw [(Stage.eq_of_close? hclose).2.2.1]
    simp only [Worker.handed, List.append_nil]
    exact .refl _
  | reserve | send | receive | advance | stop =>
    simp only [Worker.handed, List.append_nil]
    exact .refl _

/-! ## Accounts -/

/-- At a stage, every accepted job holds the flag or has one answer, and none has two. -/
structure Accounts (s : Stage) (accepted : List Job) (answers : List (Nat × Reply)) : Prop where
  nodup : (accepted.map Job.id).Nodup
  once : (accepted.map Job.id).Perm (s.job?.toList.map Job.id ++ answers.map Prod.fst)
  latest : ∀ job, s.job? = some job → accepted.getLast? = some job

namespace Accounts

variable {s s' : Stage} {accepted : List Job} {answers : List (Nat × Reply)}

theorem mem_accepted (h : Accounts s accepted answers) {job : Job} (hjob : s.job? = some job) :
    job ∈ accepted :=
  List.mem_of_getLast? (h.latest job hjob)

theorem eq_of_id_eq (h : Accounts s accepted answers) {job other : Job} (hjob : job ∈ accepted)
    (hother : other ∈ accepted) (hid : other.id = job.id) : other = job :=
  List.inj_on_of_nodup_map h.nodup hother hjob hid

/-- The job that holds the flag has no answer. -/
theorem not_answered (h : Accounts s accepted answers) {job : Job} (hjob : s.job? = some job)
    {answer : Nat × Reply} (hanswer : answer ∈ answers) : job.id ≠ answer.1 := by
  have hnodup := h.once.nodup_iff.1 h.nodup
  rw [hjob] at hnodup
  intro hid
  exact (List.nodup_append.1 hnodup).2.2 job.id (by simp) answer.1
    (List.mem_map_of_mem hanswer) hid

/-- The accounts stay right as long as the job and the answers stay. -/
theorem congr (h : Accounts s accepted answers) {accepted' : List Job}
    (haccepted : accepted' = accepted) (hjob : s'.job? = s.job?) {answers' : List (Nat × Reply)}
    (hanswers : answers' ~ answers) : Accounts s' accepted' answers' where
  nodup := haccepted ▸ h.nodup
  once := by
    rw [haccepted, hjob]
    exact h.once.trans ((hanswers.map Prod.fst).symm.append_left _)
  latest := by
    rw [haccepted, hjob]
    exact h.latest

/-- A job that is accepted while the worker is free holds the flag. -/
theorem reserve {job : Job} {outgoing : Option (Nat × Reply)} {closed : Bool}
    (h : Accounts (.free outgoing closed) accepted answers)
    (hfresh : job.id ∉ accepted.map Job.id) :
    Accounts (.reserved job outgoing) (accepted ++ [job]) answers where
  nodup := by
    rw [List.map_append]
    exact h.nodup.append (List.nodup_singleton _) (by simpa using hfresh)
  once := by
    rw [List.map_append]
    exact List.perm_append_comm.trans (h.once.cons job.id)
  latest := by
    rintro job ⟨rfl⟩
    exact List.getLast?_concat

variable {replies replies' received : List (Nat × Reply)} {cancelled cancelled' : List Nat}

/-- Every step keeps the accounts right. -/
theorem step {a : Action} (hstep : Stage.Step replies cancelled s a s' replies' cancelled')
    (h : Accounts s accepted (s.outgoing?.toList ++ replies ++ received))
    (hnew : ∀ job ∈ a.job?, job.id ∉ accepted.map Job.id) :
    Accounts s' (accepted ++ a.job?.toList) (s'.outgoing?.toList ++ replies' ++
      (received ++ (s.worker replies cancelled).handed a)) := by
  have hanswers := fun hclear => hstep.answers_perm hclear received
  cases hstep with
  | reserve job outgoing =>
    exact (h.reserve (hnew job rfl)).congr rfl rfl (hanswers (by rintro ⟨⟩))
  | clear job run closed reply hended =>
    simp only [Action.job?, Option.toList_none, List.append_nil, Worker.handed]
    exact ⟨h.nodup, h.once, by rintro _ ⟨⟩⟩
  | reply => exact h.congr (List.append_nil _) s.job?_sent (hanswers (by rintro ⟨⟩))
  | cancel id => exact h.congr (List.append_nil _) (s.job?_cancel id) (hanswers (by rintro ⟨⟩))
  | close hclose =>
    exact h.congr (List.append_nil _) (Stage.eq_of_close? hclose).1 (hanswers (by rintro ⟨⟩))
  | send | receive | advance | wait | stop =>
    refine h.congr (List.append_nil _) ?_ (hanswers (by rintro ⟨⟩))
    rfl

end Accounts

/-! ## Histories -/

section Moves

variable {id : Nat} {moves : List (Nat × Run.Move)}

@[simp]
theorem movesOf_append (more : List (Nat × Run.Move)) :
    movesOf id (moves ++ more) = movesOf id moves ++ movesOf id more := by
  simp [movesOf]

@[simp]
theorem movesOf_self (move : Run.Move) : movesOf id [(id, move)] = [move] := by
  simp [movesOf]

theorem mem_movesOf {move : Run.Move} : move ∈ movesOf id moves ↔ (id, move) ∈ moves := by
  simp [movesOf]

theorem movesOf_of_ne {other : Nat} (h : other ≠ id) (move : Run.Move) :
    movesOf id [(other, move)] = [] := by
  simp [movesOf, h]

/-- Before it takes a step of its own, a run only notes the requests to stop. -/
theorem Job.after_of_advance_notMem (job : Job) {moves : List Run.Move} (h : .advance ∉ moves) :
    job.run.after moves =
      .start job.mode job.program job.sink (decide (Run.Move.cancel ∈ moves)) := by
  induction moves using List.reverseRecOn with
  | nil => rfl
  | append_singleton moves move ih =>
    rw [List.mem_append, not_or] at h
    rw [Run.after_append, ih h.1]
    cases move with
    | advance => simp at h
    | cancel => simp [Run.move, Run.cancel, Run.start]

/-- A request to stop does not change the reply of a run that has ended. -/
theorem Worker.replyOf_cancel (r : Run) : replyOf r.cancel = replyOf r :=
  rfl

end Moves

/--
At a stage, the run of each job has made the moves of this job and no others; its answer is the
reply of that run.
-/
structure History (s : Stage) (cancelled : List Nat) (accepted : List Job)
    (moves : List (Nat × Run.Move)) (answers : List (Nat × Reply)) : Prop where
  asked : ∀ id, id ∈ cancelled ↔ .cancel ∈ movesOf id moves
  still : ∀ id, .advance ∈ movesOf id moves →
    id ∈ accepted.map Job.id ∧ ∀ job, s.waiting? = some job → job.id ≠ id
  running : ∀ job run, s.running? = some (job, run) → run = job.run.after (movesOf job.id moves)
  own : ∀ answer ∈ answers, ∃ job ∈ accepted, job.id = answer.1 ∧
    Worker.replyOf (job.run.after (movesOf answer.1 moves)) = some answer.2

namespace History

variable {s s' : Stage} {accepted : List Job} {moves : List (Nat × Run.Move)}
  {answers : List (Nat × Reply)} {cancelled cancelled' : List Nat}

/-- The history stays right as long as nothing moves. -/
theorem congr (h : History s cancelled accepted moves answers) {accepted' : List Job}
    (haccepted : accepted' = accepted) {moves' : List (Nat × Run.Move)} (hmoves : moves' = moves)
    (hwaiting : s'.waiting? = s.waiting?) (hrunning : s'.running? = s.running?)
    {answers' : List (Nat × Reply)} (hanswers : answers' ⊆ answers) :
    History s' cancelled accepted' moves' answers' := by
  subst haccepted hmoves
  exact
    { asked := h.asked
      still := fun id hid => ⟨(h.still id hid).1, hwaiting ▸ (h.still id hid).2⟩
      running := hrunning ▸ h.running
      own := fun answer hanswer => h.own answer (hanswers hanswer) }

section Moving

variable {job : Job} {run : Run} {closed : Bool} {outgoing : Option (Nat × Reply)}

/-- A job that is new has not moved. -/
theorem reserve (h : History (.free outgoing closed) cancelled accepted moves answers)
    (hfresh : job.id ∉ accepted.map Job.id) :
    History (.reserved job outgoing) cancelled (accepted ++ [job]) moves answers where
  asked := h.asked
  still := by
    intro id hid
    have hold := (h.still id hid).1
    refine ⟨by rw [List.map_append]; exact List.mem_append_left _ hold, ?_⟩
    rintro job ⟨rfl⟩ rfl
    exact hfresh hold
  running := by rintro _ _ ⟨⟩
  own := by
    intro answer hanswer
    rcases h.own answer hanswer with ⟨job, hjob, hreply⟩
    exact ⟨job, List.mem_append_left _ hjob, hreply⟩

/-- A job that is received has been asked to stop or not, and has not moved otherwise. -/
theorem receive (h : History (.queued job outgoing closed) cancelled accepted moves answers) :
    History (.running job (.start job.mode job.program job.sink (cancelled.contains job.id)) closed)
      cancelled accepted moves answers where
  asked := h.asked
  still := fun id hid => ⟨(h.still id hid).1, by rintro _ ⟨⟩⟩
  running := by
    rintro job run ⟨rfl, rfl⟩
    have hstill : .advance ∉ movesOf job.id moves := fun hmem => (h.still _ hmem).2 job rfl rfl
    rw [job.after_of_advance_notMem hstill, List.contains_eq_mem]
    simp only [h.asked]
  own := h.own

/-- A step of the run is a move of its job. -/
theorem advance (h : History (.running job run closed) cancelled accepted moves answers)
    (haccounts : Accounts (.running job run closed) accepted answers) :
    History (.running job run.advance closed) cancelled accepted
      (moves ++ [(job.id, .advance)]) answers where
  asked := by
    intro id
    simp [h.asked, mem_movesOf]
  still := by
    intro id hmem
    refine ⟨?_, by rintro _ ⟨⟩⟩
    by_cases hid : job.id = id
    · subst hid
      exact List.mem_map_of_mem (haccounts.mem_accepted rfl)
    · rw [movesOf_append, movesOf_of_ne hid, List.append_nil] at hmem
      exact (h.still id hmem).1
  running := by
    rintro job run ⟨rfl, rfl⟩
    rw [movesOf_append, movesOf_self, Run.after_append, ← h.running job run rfl]
    rfl
  own := by
    intro answer hanswer
    have hne : job.id ≠ answer.1 := haccounts.not_answered rfl hanswer
    rw [movesOf_append, movesOf_of_ne hne, List.append_nil]
    exact h.own answer hanswer

/-- The answer to a job is the reply of its run. -/
theorem clear (h : History (.running job run closed) cancelled accepted moves answers)
    (haccounts : Accounts (.running job run closed) accepted answers) {reply : Reply}
    (hended : Worker.replyOf run = some reply) :
    History (.free (some (job.id, reply)) closed) cancelled accepted moves
      ((job.id, reply) :: answers) where
  asked := h.asked
  still := fun id hid => ⟨(h.still id hid).1, by rintro _ ⟨⟩⟩
  running := by rintro _ _ ⟨⟩
  own := by
    intro answer hanswer
    rcases List.mem_cons.1 hanswer with rfl | hanswer
    · exact ⟨job, haccounts.mem_accepted rfl, rfl, by rw [← h.running job run rfl, hended]⟩
    · exact h.own answer hanswer

/-- A request to stop is a move of the job that is asked, and changes no answer. -/
theorem cancel (h : History s cancelled accepted moves answers) (id : Nat) :
    History (s.cancel id) (id :: cancelled) accepted (moves ++ [(id, .cancel)]) answers where
  asked := by
    intro other
    simp [h.asked, mem_movesOf, or_comm]
  still := by
    intro other hmem
    rw [Stage.waiting?_cancel]
    exact h.still other (by simpa [mem_movesOf] using hmem)
  running := by
    intro job run hrun
    cases s with
    | running job run closed =>
      cases hrun
      have hbefore := h.running job run rfl
      by_cases hid : job.id = id
      · rw [if_pos hid, hid, movesOf_append, movesOf_self, Run.after_append, ← hid, ← hbefore]
        rfl
      · rw [if_neg hid, movesOf_append, movesOf_of_ne (Ne.symm hid), List.append_nil, ← hbefore]
    | free | reserved | queued | stopped => cases hrun
  own := by
    intro answer hanswer
    rcases h.own answer hanswer with ⟨job, hjob, hid, hreply⟩
    refine ⟨job, hjob, hid, ?_⟩
    by_cases hne : id = answer.1
    · rw [movesOf_append, hne, movesOf_self, Run.after_append]
      exact (Worker.replyOf_cancel _).trans hreply
    · rw [movesOf_append, movesOf_of_ne hne, List.append_nil, hreply]

end Moving

variable {replies replies' received : List (Nat × Reply)}

/-- Every step keeps the history right. -/
theorem step {a : Action} (hstep : Stage.Step replies cancelled s a s' replies' cancelled')
    (haccounts : Accounts s accepted (s.outgoing?.toList ++ replies ++ received))
    (h : History s cancelled accepted moves (s.outgoing?.toList ++ replies ++ received))
    (hnew : ∀ job ∈ a.job?, job.id ∉ accepted.map Job.id) :
    History s' cancelled' (accepted ++ a.job?.toList)
      (moves ++ (s.worker replies cancelled).moved a) (s'.outgoing?.toList ++ replies' ++
        (received ++ (s.worker replies cancelled).handed a)) := by
  have hanswers := fun hclear => (hstep.answers_perm hclear received).subset
  have hsame : accepted ++ [] = accepted := List.append_nil accepted
  have hnone : moves ++ [] = moves := List.append_nil moves
  cases hstep with
  | reserve job outgoing =>
    exact (h.reserve (hnew job rfl)).congr rfl hnone rfl rfl (hanswers (by rintro ⟨⟩))
  | receive job closed =>
    exact h.receive.congr hsame hnone rfl rfl (hanswers (by rintro ⟨⟩))
  | advance job run closed hgoing =>
    exact (h.advance haccounts).congr hsame rfl rfl rfl (hanswers (by rintro ⟨⟩))
  | clear job run closed reply hended =>
    have hkept : received ++ [] = received := List.append_nil received
    refine (h.clear haccounts hended).congr hsame hnone rfl rfl ?_
    rw [Worker.handed.eq_def, hkept]
    exact List.Subset.refl _
  | cancel id => exact (h.cancel id).congr hsame rfl rfl rfl (hanswers (by rintro ⟨⟩))
  | reply answer hwaits =>
    exact h.congr hsame hnone s.waiting?_sent s.running?_sent (hanswers (by rintro ⟨⟩))
  | close hclose =>
    rcases Stage.eq_of_close? hclose with ⟨-, hwaiting, -, hrunning⟩
    exact h.congr hsame hnone hwaiting hrunning (hanswers (by rintro ⟨⟩))
  | send | wait | stop =>
    refine h.congr hsame hnone ?_ ?_ (hanswers (by rintro ⟨⟩))
    all_goals rfl

end History

/-! ## Courses of events -/

namespace Ledger

/-- A ledger is right about its worker, which is at this stage. -/
structure Sound (l : Ledger) (s : Stage) : Prop where
  worker_eq : l.worker = s.worker l.worker.replies l.worker.cancelled
  accounts : Accounts s l.accepted (s.outgoing?.toList ++ l.worker.replies ++ l.received)
  history : History s l.worker.cancelled l.accepted l.moves
    (s.outgoing?.toList ++ l.worker.replies ++ l.received)

theorem sound_start : start.Sound (.free none false) where
  worker_eq := rfl
  accounts := ⟨.nil, .nil, by rintro _ ⟨⟩⟩
  history :=
    { asked := fun _ => by simp [start, Worker.idle, movesOf]
      still := by rintro _ ⟨⟩
      running := by rintro _ _ ⟨⟩
      own := by rintro _ ⟨⟩ }

variable {l l' : Ledger} {s : Stage}

/-- An action keeps a ledger right, and takes no accepted job farther from its reply. -/
theorem Sound.enter (h : l.Sound s) {a : Action} (henter : l.enter a = some l') :
    ∃ s', l'.Sound s' ∧ l'.accepted = l.accepted ++ a.job?.toList ∧
      ∀ job ∈ l.accepted,
        s'.stepsTo job.id ≤ s.stepsTo job.id - (if a.serves job.id then 1 else 0) := by
  unfold Ledger.enter at henter
  split at henter
  case isFalse => cases henter
  case isTrue hnew =>
    rcases Option.map_eq_some_iff.1 henter with ⟨w, hact, rfl⟩
    rw [h.worker_eq] at hact
    rcases Stage.Step.of_act hact with ⟨s', replies', cancelled', hstep, rfl⟩
    have haccounts := h.accounts.step hstep hnew
    have hhistory := h.history.step hstep h.accounts hnew
    rw [← h.worker_eq] at haccounts hhistory
    refine ⟨s', ⟨by simp, by simpa using haccounts, by simpa using hhistory⟩, rfl, ?_⟩
    intro job hjob
    apply hstep.stepsTo_le
    rintro new rfl hid
    exact hnew new rfl (hid ▸ List.mem_map_of_mem hjob)

/-- Actions keep a ledger right, and each that serves a job brings it closer to its reply. -/
theorem Sound.enterAll (h : l.Sound s) {actions : List Action}
    (henter : l.enterAll actions = some l') :
    ∃ s', l'.Sound s' ∧ l.accepted ⊆ l'.accepted ∧
      ∀ job ∈ l.accepted,
        s'.stepsTo job.id ≤ s.stepsTo job.id - actions.countP (·.serves job.id) := by
  induction actions generalizing l s with
  | nil =>
    cases henter
    exact ⟨s, h, List.Subset.refl _, fun job _ => by simp⟩
  | cons a actions ih =>
    rcases Option.bind_eq_some_iff.1 henter with ⟨next, hfirst, hrest⟩
    rcases h.enter hfirst with ⟨mid, hmid, haccepted, hone⟩
    rcases ih hmid hrest with ⟨s', hs', hsubset, hmany⟩
    have hkept : l.accepted ⊆ next.accepted := haccepted ▸ List.subset_append_left ..
    refine ⟨s', hs', fun job hjob => hsubset (hkept hjob), ?_⟩
    intro job hjob
    have hfirst := hone job hjob
    have hrest := hmany job (hkept hjob)
    rw [List.countP_cons]
    omega

/-! ## What holds at every moment -/

theorem Sound.outgoing_eq (h : l.Sound s) : l.worker.outgoing = s.outgoing? := by
  rw [h.worker_eq, Stage.outgoing_worker]

theorem Sound.inFlight_eq (h : l.Sound s) : l.worker.inFlight = s.job?.toList := by
  rw [h.worker_eq, Stage.inFlight_worker]

theorem Sound.busy_eq (h : l.Sound s) : l.worker.busy = s.job?.isSome := by
  rw [h.worker_eq, Stage.busy_worker]

theorem Sound.answers_eq (h : l.Sound s) :
    l.answers = s.outgoing?.toList ++ l.worker.replies ++ l.received := by
  rw [answers, h.outgoing_eq]

/-- A job without steps left has its reply. -/
theorem Sound.delivered_of_stepsTo (h : l.Sound s) {job : Job} (hjob : job ∈ l.accepted)
    (hsteps : s.stepsTo job.id = 0) : job.id ∈ l.delivered.map Prod.fst := by
  rcases Stage.stepsTo_eq_zero hsteps with ⟨hflag, hwaits⟩
  have hplace := h.accounts.once.subset (List.mem_map_of_mem hjob)
  simp only [List.map_append, List.append_assoc, List.mem_append, List.mem_map,
    Option.mem_toList] at hplace
  rcases hplace with ⟨other, hother, hid⟩ | ⟨answer, hanswer, hid⟩ | hdelivered
  · exact absurd hid (hflag other hother)
  · exact absurd hid (hwaits answer hanswer)
  · simpa [delivered] using hdelivered

/-- No job has more steps left than its program asks for and a few around them. -/
theorem Sound.stepsTo_le (h : l.Sound s) {job : Job} (hjob : job ∈ l.accepted) :
    s.stepsTo job.id ≤ Run.stepsFor job.program + 5 := by
  apply Stage.stepsTo_le
  · intro other hother hid
    exact h.accounts.eq_of_id_eq hjob (h.accounts.mem_accepted hother) hid
  · intro other run hrun
    rw [h.history.running other run hrun]
    exact Nat.le_trans (other.run.stepsLeft_after _) (Nat.sub_le ..)

end Ledger

end SeqCalc
