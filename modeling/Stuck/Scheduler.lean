import Stuck.Tasks
import Mathlib.Algebra.GroupWithZero.Nat
import Mathlib.Data.Int.Notation

/-! The scheduler (src/runtime.rs) with its workers, its tasks and the sessions that wake them
(src/task/session.rs). Every access to the scheduler's state, to the `unblocking_coroutines` of a
task or to the status of a session is a step of its own, so steps of different threads interleave
in any order. Whoever calls `set_value` and wins against a coroutine has two further steps,
`Task::wake` and `Scheduler::resume`. -/
namespace Scheduler

open TransitionSystem SharedTypes Tasks

/-- The session of a call of `session`, or of the `JoinHandle` of a task. -/
inductive SessionId where
  | user (i : ℕ)
  | handle (task : ℕ)
  deriving DecidableEq, Repr

/-- Who owns a `SessionWaker`: a thread of its own, or a task, which uses it while it runs. -/
inductive Holder where
  | thread
  | task (task : ℕ)
  deriving DecidableEq, Repr

/-- The `join_value` of coroutine `co` of a task, with its `SessionJoiner`, which is the thread where
there is no task, and its `interruptible` flag. -/
structure Join where
  task : ℕ
  co : ℕ
  thread : Bool
  interruptible : Bool
  deriving DecidableEq, Repr

inductive SessionState where
  | empty
  | joining
  | value
  | joined
  deriving DecidableEq, Repr

/-- What called the `set_value` that succeeded. -/
inductive Winner where
  | waker
  | fault
  | interrupt (reason : String)
  deriving DecidableEq, Repr

/-- A `set_value` or a registration of a joiner is one step here: between its exchange and its
release store nobody else gets on. `winner`, `cancellations` and `unreachable` record which
`set_value` succeeded, how often the cancellation ran and whether `join_value` found an unexpected
status; no operation reads them. -/
structure Session where
  state : SessionState
  join : Option Join
  wakers : ℕ
  holders : List Holder
  winner : Option Winner
  cancellations : ℕ
  unreachable : Bool

/-- A `SessionTask` that a winner carries to `Task::wake`. -/
structure Wake where
  session : SessionId
  task : ℕ
  co : ℕ
  deriving DecidableEq, Repr

inductive Mode where
  | serving
  | draining
  | sweeping
  | exited
  | panicked
  deriving DecidableEq, Repr

/-- Where a worker stands: between two calls of `run`, with a task from the queue, in its `sched` or
`abort`, at the return of `sched`, with a task that it grabbed, or after an `abort`. -/
inductive Pc where
  | idle
  | popped (task : ℕ)
  | holding (task : ℕ)
  | returned (task : ℕ) (flow : SchedFlow)
  | grabbed (task : ℕ)
  | aborted (task : ℕ)
  deriving DecidableEq, Repr

/-- `ambient` is the thread-local `TASK`. -/
structure Worker where
  mode : Mode
  ambient : Option ℕ
  pc : Pc
  deriving DecidableEq, Repr

/-- `waking` are the wins whose `Task::wake` is to come, and `carried` the tasks whose
`Scheduler::resume` is to come. -/
structure Config (n : ℕ) where
  runq : List ℕ
  registry : List ℕ
  stopped : ℤ
  tasks : ℕ → Tasks.Task SessionId
  created : ℕ
  workers : Fin n → Worker
  sessions : SessionId → Session
  waking : List Wake
  carried : List ℕ

/-- The waker of a `JoinHandle` stays with main. -/
def SessionId.holders : SessionId → List Holder
  | .user _ => [.thread]
  | .handle _ => []

def initial (n : ℕ) : Config n where
  runq := []
  registry := []
  stopped := -1
  tasks _ := .new
  created := 0
  workers _ := ⟨.serving, none, .idle⟩
  sessions s := ⟨.empty, none, 1, s.holders, none, 0, false⟩
  waking := []
  carried := []

-- numerals name the workers of runtimes with one and with two of them
instance oneWorker : NeZero (1 : ℕ) := ⟨Nat.one_ne_zero⟩
instance twoWorkers : NeZero (2 : ℕ) := ⟨Nat.succ_ne_zero 1⟩

variable {n : ℕ}

def Config.setTask (c : Config n) (t : ℕ) (task : Tasks.Task SessionId) : Config n :=
  { c with tasks := Function.update c.tasks t task }

def Config.setWorker (c : Config n) (w : Fin n) (worker : Worker) : Config n :=
  { c with workers := Function.update c.workers w worker }

def Config.setPc (c : Config n) (w : Fin n) (pc : Pc) : Config n :=
  c.setWorker w { c.workers w with pc }

def Config.setSession (c : Config n) (s : SessionId) (session : Session) : Config n :=
  { c with sessions := Function.update c.sessions s session }

/-- `SessionJoint::set_value` on session `s`; nothing when it hands the value back. -/
def Config.setValue (c : Config n) (s : SessionId) (winner : Winner) : Option (Config n) :=
  let session := { c.sessions s with state := .value, winner := some winner }
  match (c.sessions s).state with
  | .empty | .joining => some (c.setSession s session)
  | .value | .joined => none

/-- The `SessionTask` that a successful `set_value` on `s` returns. -/
def Config.joinerTask (c : Config n) (s : SessionId) : List Wake :=
  match (c.sessions s).state, (c.sessions s).join with
  | .joining, some ⟨t, co, false, _⟩ => [⟨s, t, co⟩]
  | _, _ => []

/-- `SessionJoint::wake` or `SessionJoint::fault` up to `wake_task`. -/
def Config.win (c : Config n) (s : SessionId) (winner : Winner) : Config n :=
  match c.setValue s winner with
  | some d => { d with waking := c.waking ++ c.joinerTask s }
  | none => c

/-- A coroutine of the task runs. -/
def Config.runs (c : Config n) (t : ℕ) : Bool :=
  (List.finRange n).any fun w => (c.workers w).pc = .holding t &&
    (match (c.tasks t).control with
    | .running .. => true
    | _ => false)

def Config.acts (c : Config n) : Holder → Bool
  | .thread => true
  | .task t => c.runs t

/-- The end of `join_value`: it takes the value of `s`. -/
def Session.leave (session : Session) : Session :=
  match session.state with
  | .value => { session with state := .joined }
  | _ => { session with unreachable := true }

/-- A `join_value` that finds the session empty and registers its joiner. -/
def Config.register (c : Config n) (s : SessionId) (join : Join) : Option (Config n) :=
  match (c.sessions s).state, (c.sessions s).join with
  | .empty, none => some (c.setSession s
      { c.sessions s with state := .joining, join := some join })
  | _, _ => none

/-- `join_value` loads the status after `wait_value` and leaves unless it is still joining. -/
def Config.recheck (c : Config n) (s : SessionId) (ready : Bool) : Option (Config n) :=
  if ready = decide ((c.sessions s).state ≠ .joining) then
    some (if ready then c.setSession s (c.sessions s).leave else c)
  else none

/-- What the code of coroutine `co` of task `t` does to the sessions. All but a join needs
`task::current()`, and a join without a task parks the thread. -/
def Config.consultOp (c : Config n) (w : Fin n) (t co : ℕ) : Op SessionId → Option (Config n)
  | .wait s interruptible =>
    if (c.workers w).ambient.isSome then c.register s ⟨t, co, false, interruptible⟩ else none
  | .thread s interruptible =>
    if (c.workers w).ambient.isNone then c.register s ⟨t, co, true, interruptible⟩ else none
  | .settle ready =>
    match ((c.tasks t).coroutines co).cancelling with
    | s :: _ => c.recheck s ready
    | [] => none
  | .finish entered => if entered = (c.workers w).ambient.isSome then some c else none
  | .spawn _ | .yieldCoroutine | .yieldTask | .suspend | .resume _ =>
    if (c.workers w).ambient.isSome then some c else none

/-- `SessionJoint::interrupt` of a blocked coroutine, which is not asked while it cancels. -/
def Config.consultVisit (c : Config n) (t co : ℕ) (reason : Reason) (won : Bool) :
    Option (Config n) :=
  match (c.tasks t).blockingCoroutines.find? (·.1 = co) with
  | some (_, .session s) =>
    if ((c.tasks t).coroutines co).isCancelling then (if won then none else some c)
    else match c.setValue s (.interrupt reason.msg) with
      | some d => if won then some d else none
      | none => if won then none else some c
  | _ => if won then none else some c

/-- The part of the sessions in a step of the task `t` that worker `w` executes. -/
def Config.consult (c : Config n) (w : Fin n) (t : ℕ) :
    Tasks.Event SessionId → Option (Config n)
  | .visit co won =>
    match (c.tasks t).control with
    | .interrupting reason _ => c.consultVisit t co reason won
    | _ => none
  | .op op =>
    match (c.tasks t).control with
    | .running _ co => c.consultOp w t co op
    | _ => none
  | .awake ready =>
    match (c.tasks t).control with
    | .running _ co =>
      match ((c.tasks t).coroutines co).stage with
      | .waiting wait =>
        if wait.cancellation ∧ ((c.tasks t).coroutines co).status = .aborting then
          some (c.setSession wait.session { c.sessions wait.session with
            cancellations := (c.sessions wait.session).cancellations + 1 })
        else c.recheck wait.session ready
      | _ => none
    | _ => none
  | .unpark =>
    match (c.tasks t).control with
    | .running _ co =>
      match ((c.tasks t).coroutines co).stage with
      | .thread s => c.recheck s true
      | _ => none
    | _ => none
  | .final =>
    if ((c.tasks t).coroutines main).stage.isParked then some (c.win (.handle t) .waker)
    else some c
  | .next | .tail | .interrupt _ | .endInterrupt | .abortNext => some c
  | .wake _ | .grab | .begin | .stop => none

/-- Where the worker stands after the step. -/
def pcAfter (t : ℕ) (task task' : Tasks.Task SessionId) : Tasks.Event SessionId → Pc
  | .tail =>
    match task.tail.2 with
    | some flow => .returned t flow
    | none => .holding t
  | _ =>
    match task'.control with
    | .ceased => .returned t .cease
    | .aborted => .aborted t
    | _ => .holding t

def Config.run (c : Config n) (w : Fin n) (e : Tasks.Event SessionId) : Option (Config n) :=
  match (c.workers w).pc with
  | .holding t =>
    match c.consult w t e, (c.tasks t).step e with
    | some d, some task => some ((d.setTask t task).setPc w (pcAfter t (c.tasks t) task e))
    | _, _ => none
  | _ => none

/-- A worker starts `Task::sched`, within a `Scope`, or after the stop `Task::abort`. -/
def Config.enter (c : Config n) (w : Fin n) : Option (Config n) :=
  match c.workers w with
  | ⟨.panicked, _, _⟩ => none
  | ⟨.sweeping, ambient, .popped t⟩ =>
    match (c.tasks t).step .stop with
    | some task => some ((c.setTask t task).setWorker w ⟨.sweeping, ambient, .holding t⟩)
    | none => none
  | ⟨mode, none, .popped t⟩ =>
    match (c.tasks t).step .begin with
    | some task => some ((c.setTask t task).setWorker w ⟨mode, some t, .holding t⟩)
    | none => none
  | ⟨_, some other, .popped t⟩ => some (c.setWorker w ⟨.panicked, some other, .popped t⟩)
  | _ => none

/-- The `Scope` is dropped and `Scheduler::run` handles the flow, or `Scheduler::serve` forgets the
aborted task. -/
def Config.leave (c : Config n) (w : Fin n) : Option (Config n) :=
  match c.workers w with
  | ⟨.panicked, _, _⟩ => none
  | ⟨mode, ambient, .returned t flow⟩ =>
    if ambient = some t then
      let d := c.setWorker w ⟨mode, none, .idle⟩
      match flow with
      | .yield => some { d with runq := c.runq ++ [t] }
      | .block => some d
      | .cease => some { d with registry := c.registry.erase t }
    else some (c.setWorker w ⟨.panicked, none, .returned t flow⟩)
  | ⟨mode, ambient, .aborted t⟩ =>
    some { c.setWorker w ⟨mode, ambient, .idle⟩ with registry := c.registry.erase t }
  | _ => none

/-- `drop` and `wake` are those of a `SessionWaker`; `claim` is a join that finds a value. `spawn` is
`Scheduler::sched` of a new task and `stop` the two calls in `Runtime::drop`, the second of which
waits for the timer, that is, for the last worker. A sweep grabs and queues its tasks one by one. -/
inductive Event (n : ℕ) where
  | stop
  | spawn
  | clone (s : SessionId) (holder : Holder)
  | give (s : SessionId) (holder next : Holder)
  | drop (s : SessionId) (holder : Holder)
  | wake (s : SessionId) (holder : Holder)
  | push (wake : Wake)
  | resume (t : ℕ)
  | pop (w : Fin n)
  | enter (w : Fin n)
  | run (w : Fin n) (e : Tasks.Event SessionId)
  | claim (w : Fin n) (s : SessionId) (interruptible : Bool)
  | leave (w : Fin n)
  | retire (w : Fin n)
  | sweep (w : Fin n)
  | grab (w : Fin n) (t : ℕ)
  | enqueue (w : Fin n)
  | exit (w : Fin n)

/-- The loops of `Scheduler::serve` that take tasks off the queue. -/
def Config.serves (c : Config n) : Mode → Bool
  | .serving => c.stopped < 0
  | .draining => c.stopped = n
  | .sweeping => true
  | .exited | .panicked => false

def Config.step (c : Config n) : Event n → Option (Config n)
  | .stop =>
    if c.stopped = -1 ∨ c.stopped = n then some { c with stopped := c.stopped + 1 } else none
  | .spawn =>
    some { c.setTask c.created .new with
      runq := c.runq ++ [c.created]
      registry := c.registry ++ [c.created]
      created := c.created + 1 }
  | .clone s holder =>
    if holder ∈ (c.sessions s).holders ∧ c.acts holder then
      some (c.setSession s { c.sessions s with
        holders := (c.sessions s).holders ++ [holder]
        wakers := (c.sessions s).wakers + 1 })
    else none
  | .give s holder next =>
    if holder ∈ (c.sessions s).holders ∧ c.acts holder then
      some (c.setSession s { c.sessions s with
        holders := (c.sessions s).holders.erase holder ++ [next] })
    else none
  | .drop s holder =>
    if holder ∈ (c.sessions s).holders ∧ c.acts holder then
      let d := c.setSession s { c.sessions s with
        holders := (c.sessions s).holders.erase holder
        wakers := (c.sessions s).wakers - 1 }
      some (if (c.sessions s).wakers = 1 then d.win s .fault else d)
    else none
  | .wake s holder =>
    if holder ∈ (c.sessions s).holders ∧ c.acts holder then
      let d := c.setSession s { c.sessions s with
        holders := (c.sessions s).holders.erase holder }
      some (d.win s .waker)
    else none
  | .push wake =>
    if wake ∈ c.waking then
      let (task, waking) := (c.tasks wake.task).wake wake.co
      some { c.setTask wake.task task with
        waking := c.waking.erase wake
        carried := if waking then c.carried ++ [wake.task] else c.carried }
    else none
  | .resume t =>
    if t ∈ c.carried then
      some { c with carried := c.carried.erase t, runq := c.runq ++ [t] }
    else none
  | .pop w =>
    match (c.workers w).pc, c.runq with
    | .idle, t :: rest =>
      if c.serves (c.workers w).mode then some { c.setPc w (.popped t) with runq := rest } else none
    | _, _ => none
  | .enter w => c.enter w
  | .run w e => c.run w e
  | .claim w s interruptible =>
    match (c.workers w).pc with
    | .holding t =>
      match (c.tasks t).control, (c.sessions s).state, (c.sessions s).join with
      | .running _ co, .value, none =>
        if ((c.tasks t).coroutines co).stage matches .code then
          some (c.setSession s { c.sessions s with
            state := .joined
            join := some ⟨t, co, (c.workers w).ambient.isNone, interruptible⟩ })
        else none
      | _, _, _ => none
    | _ => none
  | .leave w => c.leave w
  | .retire w =>
    match c.workers w with
    | ⟨.serving, ambient, .idle⟩ =>
      if 0 ≤ c.stopped then
        let mode : Mode := if c.stopped + 1 = n then .draining else .exited
        some { c.setWorker w ⟨mode, ambient, .idle⟩ with stopped := c.stopped + 1 }
      else none
    | _ => none
  | .sweep w =>
    match c.workers w with
    | ⟨.draining, ambient, .idle⟩ =>
      if c.stopped ≠ n then some (c.setWorker w ⟨.sweeping, ambient, .idle⟩) else none
    | _ => none
  | .grab w t =>
    match c.workers w with
    | ⟨.sweeping, ambient, .idle⟩ =>
      if t ∈ c.registry then
        let (task, grabbed) := (c.tasks t).grab
        some ((c.setTask t task).setWorker w
          ⟨.sweeping, ambient, if grabbed then .grabbed t else .idle⟩)
      else none
    | _ => none
  | .enqueue w =>
    match (c.workers w).pc with
    | .grabbed t => some { c.setPc w .idle with runq := c.runq ++ [t] }
    | _ => none
  | .exit w =>
    match c.workers w with
    | ⟨.sweeping, ambient, .idle⟩ =>
      if c.registry = [] then some (c.setWorker w ⟨.exited, ambient, .idle⟩) else none
    | _ => none

def system (n : ℕ) : System (Config n) (Event n) where
  init := initial n
  step := Config.step

end Scheduler
