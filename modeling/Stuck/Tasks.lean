import Stuck.TransitionSystem
import Stuck.SharedTypes
import Mathlib.Logic.Function.Basic
import Mathlib.Data.List.Perm.Basic

/-! One task (src/task.rs): its coroutines, the collections that hold them between their runs, and
where the `Task::sched` or `Task::abort` that executes it stands. A step touches one thing that
other threads can see: `unblocking_coroutines` with `running`, or a session, whose answer then is
part of the event. A coroutine is known by its address, and addresses are reused. -/
namespace Tasks

open TransitionSystem SharedTypes

variable {S : Type*}

/-- `task::Status`. -/
inductive Status where
  | running | completing | completed
  deriving DecidableEq, Repr

inductive SchedFlow where
  | yield | block | cease
  deriving DecidableEq, Repr

/-- Who calls `Task::abort`: `Task::sched` after main or in a deadlock, or `Scheduler::serve`. -/
inductive Reason where
  | terminated | deadlock | stopped
  deriving DecidableEq, Repr

def Reason.msg : Reason → String
  | .terminated => "task main terminated"
  | .deadlock => "deadlock suspending coroutines"
  | .stopped => "runtime stopped"

/-- The `&dyn Yielding` of a blocked coroutine: a session, `INTERRUPTIBLE` or `UNINTERRUPTIBLE`. -/
inductive Yielding (S : Type*) where
  | session (session : S)
  | interruptible
  | uninterruptible
  deriving DecidableEq, Repr

/-- One call of `wait_value` in a `join_value` with the flag `interruptible`. `cancellation` says
that the `Interruption` is `Cancellation`. -/
structure Wait (S : Type*) where
  session : S
  interruptible : Bool
  cancellation : Bool
  deriving DecidableEq, Repr

/-- What `Task::block` inserts. -/
def Wait.yielding (wait : Wait S) : Yielding S :=
  if wait.cancellation then .interruptible
  else if wait.interruptible then .session wait.session
  else .uninterruptible

/-- Where a coroutine goes on: there is none at the address, in code of its own, after the
`co.suspend()` of `Task::block`, in `wait_on_thread`, or in `Builder::spawn` after the main
function. -/
inductive Stage (S : Type*) where
  | vacant
  | code
  | waiting (wait : Wait S)
  | thread (session : S)
  | parked
  deriving DecidableEq, Repr

def Stage.isVacant : Stage S → Bool
  | .vacant => true
  | _ => false

def Stage.isParked : Stage S → Bool
  | .parked => true
  | _ => false

/-- `cancelling` are the sessions whose cancellation runs on the stack, the innermost first. -/
structure Coroutine (S : Type*) where
  status : CoroutineStatus
  stage : Stage S
  cancelling : List S

def Coroutine.new : Coroutine S := ⟨.running, .code, []⟩
def Coroutine.dropped : Coroutine S := ⟨.completed, .vacant, []⟩

def Coroutine.intoAbort (co : Coroutine S) : Coroutine S :=
  { co with status := co.status.intoAbort }

def Coroutine.isCancelling (co : Coroutine S) : Bool := co.status == .cancelling

/-- The loop that calls `run_coroutine`. -/
inductive Frame where
  | sched
  | abort (reason : Reason)
  deriving DecidableEq, Repr

inductive Panic where
  | noRunningTask
  | assertion
  deriving DecidableEq, Repr

/-- Where the thread that executes the task stands; `rest` are the blocked coroutines the
`drain_filter` has not seen yet. -/
inductive Control where
  | resting
  | loop
  | running (frame : Frame) (co : ℕ)
  | tail
  | interrupt (reason : Reason)
  | interrupting (reason : Reason) (rest : List ℕ)
  | aborting (reason : Reason)
  | final (reason : Reason)
  | ceased
  | aborted
  | panicked (panic : Panic)
  deriving DecidableEq, Repr

def Frame.head : Frame → Control
  | .sched => .loop
  | .abort reason => .aborting reason

/-- A coroutine that runs is in no collection, so an insertion never meets its key. -/
structure Task (S : Type*) where
  status : Status
  yielding : Bool
  runningCoroutines : List ℕ
  yieldingCoroutines : List ℕ
  suspendingCoroutines : List ℕ
  blockingCoroutines : List (ℕ × Yielding S)
  unblockingCoroutines : List ℕ
  running : Bool
  coroutines : ℕ → Coroutine S
  control : Control

/-- The address of the main coroutine, which is dropped last. -/
def main : ℕ := 0

/-- `Task::with_main`. -/
def Task.new : Task S where
  status := .running
  yielding := false
  runningCoroutines := [main]
  yieldingCoroutines := []
  suspendingCoroutines := []
  blockingCoroutines := []
  unblockingCoroutines := []
  running := true
  coroutines := Function.update (fun _ => .dropped) main .new
  control := .resting

def Task.setCoroutine (t : Task S) (co : ℕ) (coroutine : Coroutine S) : Task S :=
  { t with coroutines := Function.update t.coroutines co coroutine }

def Task.setControl (t : Task S) (control : Control) : Task S := { t with control }

/-- One round of the loop of `Task::unblock`. -/
def Task.unblockOne (t : Task S) (co : ℕ) : Task S :=
  if co ∈ t.blockingCoroutines.map Prod.fst then
    { t with
      blockingCoroutines := t.blockingCoroutines.eraseP (·.1 = co)
      runningCoroutines := t.runningCoroutines ++ [co] }
  else t

def Task.unblock (t : Task S) (block : Bool) : Task S × Bool :=
  if t.blockingCoroutines = [] then (t, false)
  else if block ∧ t.unblockingCoroutines = [] then ({ t with running := false }, false)
  else
    (t.unblockingCoroutines.foldl Task.unblockOne { t with unblockingCoroutines := [] }, true)

/-- `Task::interrupt` up to the blocking coroutines; the suspending ones are drained in any
order. -/
def Task.interrupt (t : Task S) (reason : Reason) (order : List ℕ) : Task S :=
  { t with
    runningCoroutines := t.runningCoroutines ++ t.yieldingCoroutines ++ order
    yieldingCoroutines := []
    suspendingCoroutines := []
    coroutines := fun co => if co ∈ order then (t.coroutines co).intoAbort else t.coroutines co
    control := .interrupting reason (t.blockingCoroutines.map Prod.fst) }

/-- `Yielding::interrupt`; `won` is the answer of a session. -/
def Yielding.interrupt (won : Bool) : Yielding S → Bool
  | .session _ => won
  | .interruptible => true
  | .uninterruptible => false

/-- One round of the `drain_filter` of `Task::interrupt`. -/
def Task.visit (t : Task S) (co : ℕ) (yielding : Yielding S) (won : Bool) : Task S :=
  if !(t.coroutines co).isCancelling && yielding.interrupt won then
    { t with
      blockingCoroutines := t.blockingCoroutines.eraseP (·.1 = co)
      runningCoroutines := t.runningCoroutines ++ [co] }.setCoroutine co
        (t.coroutines co).intoAbort
  else t

/-- The end of `Task::interrupt` and the test of `Task::abort` after it. Without a coroutine to run
the loop spins. -/
def Task.endInterrupt (t : Task S) (reason : Reason) : Task S :=
  let t := (t.unblock false).1
  if t.runningCoroutines ≠ [] then t.setControl (.aborting reason)
  else if t.blockingCoroutines ≠ [] then t.setControl (.interrupt reason)
  else t.setControl (.final reason)

/-- The start of `Task::sched`. -/
def Task.begin (t : Task S) : Task S :=
  ({ t with
    runningCoroutines := t.runningCoroutines ++ t.yieldingCoroutines
    yieldingCoroutines := []
    control := .loop }.unblock false).1

/-- The loop of `Task::sched` and the test after it. -/
def Task.next (t : Task S) : Task S :=
  if !t.yielding ∧ t.status = .running then
    match t.runningCoroutines with
    | co :: rest => { t with runningCoroutines := rest, control := .running .sched co }
    | [] => t.setControl .tail
  else if t.status = .completing then t.setControl (.interrupt .terminated)
  else t.setControl .tail

/-- The inner loop of `Task::abort`. -/
def Task.abortNext (t : Task S) (reason : Reason) : Task S :=
  match t.runningCoroutines with
  | co :: rest => { t with runningCoroutines := rest, control := .running (.abort reason) co }
  | [] => t.setControl (.interrupt reason)

/-- The end of `Task::sched`; no flow when it goes on to `abort`. -/
def Task.tail (t : Task S) : Task S × Option SchedFlow :=
  let t := { t with yielding := false }
  if t.yieldingCoroutines ≠ [] then (t.setControl .resting, some .yield)
  else if t.blockingCoroutines = [] then
    if t.suspendingCoroutines ≠ [] then (t.setControl (.interrupt .deadlock), none)
    else (t.setControl .ceased, some .cease)
  else
    let (t, unblocked) := t.unblock true
    (t.setControl .resting, some (if unblocked then .yield else .block))

/-- `run_coroutine` of a coroutine that completes. -/
def Task.complete (t : Task S) (co : ℕ) : Task S :=
  { t with status := if co = main then .completed else t.status }.setCoroutine co .dropped

/-- The end of `Task::abort`: main sends its result and completes, and the two assertions hold. A
main that is not parked would do something else. -/
def Task.final (t : Task S) (reason : Reason) : Task S :=
  if (t.coroutines main).stage.isParked then
    (t.complete main).setControl
      (match reason with
      | .terminated => .tail
      | .deadlock => .ceased
      | .stopped => .aborted)
  else t.setControl (.panicked .assertion)

def Task.resume (t : Task S) (co : ℕ) : Task S :=
  if co ∈ t.suspendingCoroutines then
    { t with
      suspendingCoroutines := t.suspendingCoroutines.erase co
      runningCoroutines := t.runningCoroutines ++ [co] }
  else t

def Task.suspend (t : Task S) (frame : Frame) (co : ℕ) : Task S :=
  { t with
    suspendingCoroutines := t.suspendingCoroutines ++ [co]
    control := frame.head }

/-- `Task::block` up to the suspension of the coroutine. -/
def Task.block (t : Task S) (frame : Frame) (co : ℕ) (wait : Wait S) : Task S :=
  { t with
    blockingCoroutines := t.blockingCoroutines ++ [(co, wait.yielding)]
    control := frame.head }.setCoroutine co { t.coroutines co with stage := .waiting wait }

def Task.yieldCoroutine (t : Task S) (frame : Frame) (co : ℕ) : Task S :=
  if t.status ≠ .running then t
  else { t with
    yieldingCoroutines := t.yieldingCoroutines ++ [co]
    control := frame.head }

def Task.yieldTask (t : Task S) (frame : Frame) (co : ℕ) : Task S :=
  { t with yielding := true }.yieldCoroutine frame co

def Task.spawn (t : Task S) (co : ℕ) : Task S :=
  if t.status ≠ .running then t
  else { t with runningCoroutines := t.runningCoroutines ++ [co] }.setCoroutine co .new

/-- `join_value` after `wait_value`: it waits on while the session is joining, and otherwise leaves
with a value or a panic. -/
def Task.recheck (t : Task S) (frame : Frame) (co : ℕ) (session : S) (interruptible ready : Bool) :
    Task S :=
  if ready then t.setCoroutine co { t.coroutines co with stage := .code }
  else t.block frame co ⟨session, interruptible, false⟩

/-- A coroutine goes on after the `co.suspend()` of `Task::block`. -/
def Task.awake (t : Task S) (frame : Frame) (co : ℕ) (wait : Wait S) (ready : Bool) : Task S :=
  if wait.cancellation ∧ (t.coroutines co).status = .aborting then
    t.setCoroutine co
      { status := .cancelling
        stage := .code
        cancelling := wait.session :: (t.coroutines co).cancelling }
  else t.recheck frame co wait.session wait.interruptible ready

/-- The cancellation of `session` returns or panics. -/
def Task.settle (t : Task S) (frame : Frame) (co : ℕ) (session : S) (rest : List S)
    (ready : Bool) : Task S :=
  (t.setCoroutine co { t.coroutines co with status := .aborting, cancelling := rest }).recheck
    frame co session false ready

/-- The function of a coroutine returns or panics; main then asks for `current()`. -/
def Task.finish (t : Task S) (frame : Frame) (co : ℕ) (entered : Bool) : Task S :=
  if co = main then
    if entered then
      { t with status := .completing, control := frame.head }.setCoroutine co
        { t.coroutines co with stage := .parked }
    else t.setControl (.panicked .noRunningTask)
  else (t.complete co).setControl frame.head

def Task.wake (t : Task S) (co : ℕ) : Task S × Bool :=
  let waking := t.unblockingCoroutines = [] ∧ t.running = false
  ({ t with
    running := t.running || decide waking
    unblockingCoroutines := t.unblockingCoroutines ++ [co] }, decide waking)

def Task.grab (t : Task S) : Task S × Bool := ({ t with running := true }, !t.running)

/-- What the code of a coroutine may do to its task. `thread` joins a session without a task, and
`entered` says whether there is one. -/
inductive Op (S : Type*) where
  | spawn (co : ℕ)
  | yieldCoroutine
  | yieldTask
  | suspend
  | resume (co : ℕ)
  | wait (session : S) (interruptible : Bool)
  | thread (session : S) (interruptible : Bool)
  | settle (ready : Bool)
  | finish (entered : Bool)

def Task.op (t : Task S) (frame : Frame) (co : ℕ) : Op S → Option (Task S)
  | .spawn new => if (t.coroutines new).stage.isVacant then some (t.spawn new) else none
  | .yieldCoroutine => some (t.yieldCoroutine frame co)
  | .yieldTask => some (t.yieldTask frame co)
  | .suspend => some (t.suspend frame co)
  | .resume other => some (t.resume other)
  | .wait session interruptible =>
    some (t.block frame co ⟨session, interruptible, !interruptible⟩)
  | .thread session _ => some (t.setCoroutine co { t.coroutines co with stage := .thread session })
  | .settle ready =>
    match (t.coroutines co).cancelling with
    | session :: rest => some (t.settle frame co session rest ready)
    | [] => none
  | .finish entered =>
    match (t.coroutines co).cancelling with
    | [] => some (t.finish frame co entered)
    | _ :: _ => none

/-- `wake` and `grab` come from other threads, the rest from the one that executes the task. -/
inductive Event (S : Type*) where
  | wake (co : ℕ)
  | grab
  | begin
  | stop
  | next
  | tail
  | interrupt (order : List ℕ)
  | visit (co : ℕ) (won : Bool)
  | endInterrupt
  | abortNext
  | final
  | op (op : Op S)
  | awake (ready : Bool)
  | unpark

def Task.step (t : Task S) : Event S → Option (Task S)
  | .wake co => some (t.wake co).1
  | .grab => some t.grab.1
  | .begin =>
    match t.control with
    | .resting => some t.begin
    | _ => none
  | .stop =>
    match t.control with
    | .resting => some (t.setControl (.interrupt .stopped))
    | _ => none
  | .next =>
    match t.control with
    | .loop => some t.next
    | _ => none
  | .tail =>
    match t.control with
    | .tail => some t.tail.1
    | _ => none
  | .interrupt order =>
    match t.control with
    | .interrupt reason =>
      if order.isPerm t.suspendingCoroutines then some (t.interrupt reason order) else none
    | _ => none
  | .visit co won =>
    match t.control with
    | .interrupting reason rest =>
      match t.blockingCoroutines.find? (·.1 = co) with
      | some (_, yielding) =>
        if co ∈ rest then
          some ((t.visit co yielding won).setControl (.interrupting reason (rest.erase co)))
        else none
      | none => none
    | _ => none
  | .endInterrupt =>
    match t.control with
    | .interrupting reason [] => some (t.endInterrupt reason)
    | _ => none
  | .abortNext =>
    match t.control with
    | .aborting reason => some (t.abortNext reason)
    | _ => none
  | .final =>
    match t.control with
    | .final reason => some (t.final reason)
    | _ => none
  | .op op =>
    match t.control with
    | .running frame co =>
      match (t.coroutines co).stage with
      | .code => t.op frame co op
      | _ => none
    | _ => none
  | .awake ready =>
    match t.control with
    | .running frame co =>
      match (t.coroutines co).stage with
      | .waiting wait => some (t.awake frame co wait ready)
      | _ => none
    | _ => none
  | .unpark =>
    match t.control with
    | .running _ co =>
      match (t.coroutines co).stage with
      | .thread _ => some (t.setCoroutine co { t.coroutines co with stage := .code })
      | _ => none
    | _ => none

def system (S : Type*) : System (Task S) (Event S) where
  init := .new
  step := Task.step

end Tasks
