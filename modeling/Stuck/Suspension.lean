import Stuck.TransitionSystem
import Stuck.SharedTypes
import Mathlib.Logic.Function.Basic

/-! The suspensions of one task (src/coroutine/suspension.rs) and the part of the task that
suspends and resumes coroutines on them (`Task::suspend`, `Task::resume`, `Task::interrupt`).
Coroutines are cooperative, so an operation runs up to its return or its suspension in one step.
A selector that is applied wakes a joint or a session of its own, in a step of its own. A `select!`
that has watched a handle gives it back with `unwatch`, whether it returns or unwinds; one that
panics in `Witness::drop` before it comes to this handle is left out. -/
namespace Suspension

open TransitionSystem SharedTypes

inductive SuspensionState (T P : Type*) where
  | empty
  | value (value : T)
  | panicked (error : PanicError P)
  | joining (co : ℕ)
  | selector (identifier : ℕ)
  | joined
  deriving DecidableEq, Repr

/-- Where the `Suspension`, or the `JoinHandle` around it, is: with its holder, borrowed by one
`select!` branch whose selector was applied or not, selected, in `join` of a coroutine, or gone. -/
inductive Handle (T P : Type*) where
  | held
  | selecting (identifier : ℕ) (applied : Bool)
  | granted
  | waiting (co : ℕ)
  | concluded (result : Except (PanicError P) T)
  | unreachable
  | dropped
  deriving DecidableEq

/-- `SuspensionJoint` with its handles. `sends` records every `wake` with its answer, `early` that
a `join` did not suspend, and `strayed` that a coroutine was resumed which was not suspended on
this joint; no operation reads them. -/
structure Joint (T P : Type*) where
  state : SuspensionState T P
  wakers : ℕ
  resumptions : ℕ
  handle : Handle T P
  sends : List (T × Except T Unit)
  early : Bool
  strayed : Bool

/-- A coroutine is suspended on a joint, or was and is back in the running queue. -/
inductive Stage where
  | free
  | suspended (joint : ℕ)
  | resumed (joint : ℕ)
  deriving DecidableEq, Repr

variable {T P : Type*}

def SuspensionState.isReady : SuspensionState T P → Bool
  | .value _ | .panicked _ => true
  | _ => false

/-- `cancel` and `wake` leave such a state. -/
def SuspensionState.isSettled : SuspensionState T P → Bool
  | .value _ | .panicked _ | .joined => true
  | _ => false

/-- `Selector::apply`. -/
def Handle.apply : Handle T P → Handle T P
  | .selecting identifier _ => .selecting identifier true
  | handle => handle

/-- A joint and the coroutine that it asks the task to resume. -/
def Joint.replace (joint : Joint T P) (state : SuspensionState T P) : Joint T P × Option ℕ :=
  match joint.state with
  | .joining co => ({ joint with state }, some co)
  | .selector _ => ({ joint with state, handle := joint.handle.apply }, none)
  | _ => ({ joint with state }, none)

def Joint.cancel (joint : Joint T P) (error : PanicError P) : Joint T P × Option ℕ :=
  if joint.state.isSettled then (joint, none) else joint.replace (.panicked error)

def Joint.answer (joint : Joint T P) (value : T) (result : Except T Unit) : Joint T P :=
  { joint with sends := joint.sends ++ [(value, result)] }

def Joint.wake (joint : Joint T P) (value : T) : Joint T P × Option ℕ :=
  if joint.state.isSettled then (joint.answer value (.error value), none)
  else (joint.answer value (.ok ())).replace (.value value)

def Joint.setResult (joint : Joint T P) : Except P T → Joint T P × Option ℕ
  | .ok value => joint.wake value
  | .error payload => joint.cancel (.unwind payload)

/-- `Resumption::drop`. -/
def Joint.removeWaker (joint : Joint T P) : Joint T P × Option ℕ :=
  let joint := { joint with wakers := joint.wakers - 1, resumptions := joint.resumptions - 1 }
  if joint.wakers = 0 then joint.cancel (.static "suspend: no resumption") else (joint, none)

/-- `Resumption::into_joint` forgets the handle and leaves the count. -/
def Joint.intoJoint (joint : Joint T P) : Joint T P :=
  { joint with resumptions := joint.resumptions - 1 }

def SuspensionState.conclude : SuspensionState T P → Handle T P
  | .value v => .concluded (.ok v)
  | .panicked e => .concluded (.error e)
  | _ => .unreachable

def Joint.take (joint : Joint T P) : Joint T P :=
  { joint with state := .joined, handle := joint.state.conclude }

def Joint.new : Joint T P where
  state := .empty
  wakers := 1
  resumptions := 1
  handle := .held
  sends := []
  early := false
  strayed := false

/-- `joints j` is the joint of the `j`-th call of `suspension`, which nothing touches before. -/
structure Config (T P : Type*) where
  joints : ℕ → Joint T P
  coroutines : ℕ → Stage

def initial : Config T P where
  joints _ := .new
  coroutines _ := .free

def Config.setJoint (c : Config T P) (j : ℕ) (joint : Joint T P) : Config T P :=
  { c with joints := Function.update c.joints j joint }

def Config.setStage (c : Config T P) (co : ℕ) (stage : Stage) : Config T P :=
  { c with coroutines := Function.update c.coroutines co stage }

/-- `Task::resume`. -/
def Config.resume (c : Config T P) (co : ℕ) : Config T P :=
  match c.coroutines co with
  | .suspended j => c.setStage co (.resumed j)
  | _ => c

/-- `SuspensionJoint::wake_coroutine` of joint `j`, where there is a coroutine to wake. -/
def Config.wakeCoroutine (c : Config T P) (j : ℕ) : Joint T P × Option ℕ → Config T P
  | (joint, none) => c.setJoint j joint
  | (joint, some co) =>
    let strayed := joint.strayed || decide (c.coroutines co ≠ .suspended j)
    (c.setJoint j { joint with strayed }).resume co

/-- `SuspensionJoint::join` by coroutine `co`. -/
def Config.join (c : Config T P) (co j : ℕ) : Config T P :=
  let joint := { c.joints j with state := .joining co }
  match (c.joints j).state with
  | .empty => (c.setJoint j { joint with handle := .waiting co }).setStage co (.suspended j)
  | .value value =>
    c.setJoint j { joint with handle := .concluded (.ok value), early := true }
  | .panicked error =>
    c.setJoint j { joint with handle := .concluded (.error error), early := true }
  | _ => c.setJoint j { joint with handle := .unreachable }

/-- `JoinHandle::watch_permit`. -/
def Joint.watch (joint : Joint T P) (identifier : ℕ) : Joint T P :=
  match joint.state with
  | .value _ | .panicked _ | .joined => { joint with handle := .selecting identifier true }
  | .empty =>
    { joint with state := .selector identifier, handle := .selecting identifier false }
  | _ => { joint with handle := .unreachable }

/-- `JoinHandle::unwatch_permit`, after which the `select!` has `won` this branch or not. -/
def Joint.unwatch (joint : Joint T P) (identifier : ℕ) (won : Bool) : Joint T P :=
  let handle := if won then .granted else .held
  match joint.state with
  | .selector other =>
    if other = identifier then { joint with state := .empty, handle }
    else { joint with handle := .unreachable }
  | _ => { joint with handle }

/-- `resume` is `Resumption::resume` or `send`, `join` is `Suspension::suspend` or
`JoinHandle::join`, `run` is the running queue reaching a resumed coroutine, and `abandon` is
`Suspension::drop`. -/
inductive Event (T P : Type*) where
  | clone (j : ℕ)
  | resume (j : ℕ) (value : T)
  | setResult (j : ℕ) (result : Except P T)
  | drop (j : ℕ)
  | join (co j : ℕ)
  | run (co : ℕ)
  | interrupt (co : ℕ) (reason : String)
  | abandon (j : ℕ)
  | trySelect (j : ℕ)
  | watch (j identifier : ℕ)
  | unwatch (j : ℕ) (won : Bool)
  | consume (j : ℕ)

/-- A handle that a `select!` has watched is free again when it is unwatched, and not before. -/
def Config.step (c : Config T P) : Event T P → Option (Config T P)
  | .clone j =>
    let joint := c.joints j
    if joint.resumptions = 0 then none
    else some (c.setJoint j
      { joint with wakers := joint.wakers + 1, resumptions := joint.resumptions + 1 })
  | .resume j value =>
    if (c.joints j).resumptions = 0 then none
    else some (c.wakeCoroutine j ((c.joints j).intoJoint.wake value))
  | .setResult j result =>
    if (c.joints j).resumptions = 0 then none
    else some (c.wakeCoroutine j ((c.joints j).intoJoint.setResult result))
  | .drop j =>
    if (c.joints j).resumptions = 0 then none
    else some (c.wakeCoroutine j (c.joints j).removeWaker)
  | .join co j =>
    match c.coroutines co, (c.joints j).handle with
    | .free, .held => some (c.join co j)
    | _, _ => none
  | .run co =>
    match c.coroutines co with
    | .resumed j => some ((c.setJoint j (c.joints j).take).setStage co .free)
    | _ => none
  | .interrupt co reason =>
    match c.coroutines co with
    | .suspended j =>
      some ((c.setJoint j ((c.joints j).cancel (.static reason)).1).setStage co (.resumed j))
    | _ => none
  | .abandon j =>
    match (c.joints j).handle with
    | .held =>
      some (c.setJoint j
        { ((c.joints j).cancel (.static "suspension dropped")).1 with handle := .dropped })
    | _ => none
  | .trySelect j =>
    match (c.joints j).handle with
    | .held =>
      if (c.joints j).state.isReady then some (c.setJoint j { c.joints j with handle := .granted })
      else none
    | _ => none
  | .watch j identifier =>
    match (c.joints j).handle with
    | .held => some (c.setJoint j ((c.joints j).watch identifier))
    | _ => none
  | .unwatch j won =>
    match (c.joints j).handle with
    | .selecting identifier applied =>
      if won && !applied then none
      else some (c.setJoint j ((c.joints j).unwatch identifier won))
    | _ => none
  | .consume j =>
    match (c.joints j).handle with
    | .granted => some (c.setJoint j (c.joints j).take)
    | _ => none

def system (T P : Type*) : System (Config T P) (Event T P) where
  init := initial
  step := Config.step

end Suspension
