import Stuck.Census
import Stuck.OneShot
import Stuck.SharedTypes
import Mathlib.Logic.Function.Basic

/-! One session (src/task/session.rs): its owner, any number of waker handles and the interrupts
of the owner's task run over one status word, one cell and one count of wakers. Every atomic
operation and every access to the cell is a step of its own. -/
namespace Session

open TransitionSystem OneShot SharedTypes

inductive SessionStatus where
  | empty | value | joining | joined
  deriving DecidableEq, Repr

/-- The bits of the status word: the status over the release flag. -/
structure Word where
  status : SessionStatus
  release : Bool
  deriving DecidableEq, Repr

def SessionStatus.into (status : SessionStatus) : Word := ⟨status, false⟩
def SessionStatus.intoRelease (status : SessionStatus) : Word := ⟨status, true⟩

inductive SessionValue (T P : Type*) where
  | value (value : T)
  | panic (error : PanicError P)
  deriving DecidableEq, Repr

/-- A `SessionTask` is known by its coroutine. -/
inductive SessionJoiner where
  | task (coroutine : ℕ)
  | thread
  deriving DecidableEq, Repr

variable {T P : Type*}

/-- `none` is `unreachable_unchecked`. -/
def SessionValue.intoValue : SessionValue T P → Option T
  | .value v => some v
  | .panic _ => none

def SessionValue.intoPanic : SessionValue T P → Option (PanicError P)
  | .panic e => some e
  | .value _ => none

def SessionValue.into : SessionValue T P → Except (PanicError P) T
  | .value v => .ok v
  | .panic e => .error e

/-- What the union `SessionState` holds; a value that is taken leaves it vacant. -/
inductive Slot (T P : Type*) where
  | vacant
  | value (value : SessionValue T P)
  | joiner (joiner : SessionJoiner)
  deriving DecidableEq, Repr

structure SessionJoint (T P : Type*) where
  status : Word
  state : Slot T P

/-- The next operation of a `set_value`. `undefined` is a read of the wrong union field. -/
inductive SetPc where
  | load
  | casEmpty
  | casJoining
  | takeJoiner
  | write (joiner : Option SessionJoiner)
  | unpark
  | store (task : Option ℕ)
  | ok (task : Option ℕ)
  | err
  | undefined
  deriving DecidableEq, Repr

/-- `SessionJoint::set_value`. `spurious` is the failure a weak exchange may report without a
cause. -/
def setValue (joint : SessionJoint T P) (value : SessionValue T P) (spurious : Bool) :
    SetPc → Option (SessionJoint T P × SetPc)
  | .load =>
    match joint.status.status with
    | .empty => some (joint, .casEmpty)
    | .joining => some (joint, .casJoining)
    | _ => some (joint, .err)
  | .casEmpty =>
    if joint.status = SessionStatus.empty.into then
      some ({ joint with status := SessionStatus.value.into }, .write none)
    else if joint.status.status = .joining then some (joint, .casJoining)
    else some (joint, .err)
  | .casJoining =>
    if spurious = false ∧ joint.status = SessionStatus.joining.intoRelease then
      some ({ joint with status := SessionStatus.value.into }, .takeJoiner)
    else if joint.status.status ≠ .joining then some (joint, .err)
    else some (joint, .casJoining)
  | .takeJoiner =>
    match joint.state with
    | .joiner joiner => some ({ joint with state := .vacant }, .write (some joiner))
    | _ => some (joint, .undefined)
  | .write none => some ({ joint with state := .value value }, .store none)
  | .write (some (.task coroutine)) =>
    some ({ joint with state := .value value }, .store (some coroutine))
  | .write (some .thread) => some ({ joint with state := .value value }, .unpark)
  | .unpark => some (joint, .store none)
  | .store task => some ({ joint with status := SessionStatus.value.intoRelease }, .ok task)
  | .ok _ | .err | .undefined => none

/-- The next operation of a `join_value`; `waiting` is `wait_value` up to the load that follows
it. -/
inductive JoinPc (T P : Type*) where
  | load
  | casEmpty
  | writeJoiner
  | store
  | waiting
  | claim
  | take
  | returned (value : SessionValue T P)
  | unreachable
  | undefined
  deriving DecidableEq, Repr

def SessionStatus.afterLoad : SessionStatus → JoinPc T P
  | .joining => .waiting
  | .value => .claim
  | _ => .unreachable

/-- `SessionJoint::join_value`. A block or park may return without a cause. -/
def joinValue (joint : SessionJoint T P) (joiner : SessionJoiner) (spurious : Bool) :
    JoinPc T P → Option (SessionJoint T P × JoinPc T P)
  | .load =>
    if joint.status.status = .empty then some (joint, .casEmpty)
    else some (joint, joint.status.status.afterLoad)
  | .casEmpty =>
    if joint.status = SessionStatus.empty.into then
      some ({ joint with status := SessionStatus.joining.into }, .writeJoiner)
    else some (joint, joint.status.status.afterLoad)
  | .writeJoiner => some ({ joint with state := .joiner joiner }, .store)
  | .store => some ({ joint with status := SessionStatus.joining.intoRelease }, .waiting)
  | .waiting => some (joint, joint.status.status.afterLoad)
  | .claim =>
    if spurious = false ∧ joint.status = SessionStatus.value.intoRelease then
      some ({ joint with status := SessionStatus.joined.intoRelease }, .take)
    else if joint.status.status ≠ .value then some (joint, .unreachable)
    else some (joint, .claim)
  | .take =>
    match joint.state with
    | .value value => some ({ joint with state := .vacant }, .returned value)
    | _ => some (joint, .undefined)
  | .returned _ | .unreachable | .undefined => none

inductive DropPc where
  | load
  | casEmpty
  | claim
  | take
  | done
  | undefined
  deriving DecidableEq, Repr

def SessionStatus.afterDrop (status : SessionStatus) : DropPc :=
  if status = .value then .claim else .done

/-- `SessionJoint::drop_value`. After a take the loop goes on with the old status. -/
def dropValue (joint : SessionJoint T P) (spurious : Bool) :
    DropPc → Option (SessionJoint T P × DropPc)
  | .load =>
    if joint.status.status = .empty then some (joint, .casEmpty)
    else some (joint, joint.status.status.afterDrop)
  | .casEmpty =>
    if joint.status = SessionStatus.empty.into then
      some ({ joint with status := SessionStatus.joined.intoRelease }, .done)
    else some (joint, joint.status.status.afterDrop)
  | .claim =>
    if spurious = false ∧ joint.status = SessionStatus.value.intoRelease then
      some ({ joint with status := SessionStatus.joined.intoRelease }, .take)
    else some (joint, joint.status.status.afterDrop)
  | .take =>
    match joint.state with
    | .value _ => some ({ joint with state := .vacant }, .claim)
    | _ => some (joint, .undefined)
  | .done | .undefined => none

/-- The operations that end in a `set_value`: `SessionWaker::wake`, `send` and `set_result`, the
drop of the last waker, and `Yielding::interrupt`. -/
inductive Call (T P : Type*) where
  | wake (value : T)
  | send (value : T)
  | setResult (result : Except P T)
  | fault
  | interrupt (reason : String)
  deriving DecidableEq

def Call.value : Call T P → SessionValue T P
  | .wake value | .send value => .value value
  | .setResult (.ok value) => .value value
  | .setResult (.error payload) => .panic (.unwind payload)
  | .fault => .panic (.static "session: no wakeup")
  | .interrupt reason => .panic (.static reason)

/-- A `wake` or `send` of a waker. -/
def Call.delivers : Call T P → Bool
  | .wake _ | .send _ => true
  | _ => false

inductive Answer (T : Type*) where
  | woke (woke : Bool)
  | sent (result : Except T Unit)
  | done
  | undefined
  deriving DecidableEq

def Call.accept : Call T P → Answer T
  | .wake _ | .interrupt _ => .woke true
  | .send _ => .sent (.ok ())
  | .setResult _ | .fault => .done

/-- The answer to a `set_value` that hands `value` back. -/
def Call.refuse (value : SessionValue T P) : Call T P → Answer T
  | .wake _ => if value.intoValue.isSome then .woke false else .undefined
  | .send _ =>
    match value.intoValue with
    | some value => .sent (.error value)
    | none => .undefined
  | .setResult (.ok _) => if value.intoValue.isSome then .done else .undefined
  | .setResult (.error _) | .fault => if value.intoPanic.isSome then .done else .undefined
  | .interrupt _ => if value.intoPanic.isSome then .woke false else .undefined

/-- A handle, or one `set_value` with what surrounds it. -/
inductive Agent (T P : Type*) where
  | unused
  | handle
  | setting (call : Call T P) (pc : SetPc)
  | waking (call : Call T P) (task : ℕ)
  | finished (call : Call T P) (accepted : Bool) (answer : Answer T)
  | dropped
  deriving DecidableEq

/-- `joins` is `JoinHandle::join` and not `Session::wait`. -/
structure Join where
  joins : Bool
  joiner : SessionJoiner
  interruptible : Bool
  deriving DecidableEq, Repr

inductive Conclusion (T P : Type*) where
  | returned (value : T)
  | panicked (error : PanicError P)
  | joined (result : Except (PanicError P) T)
  deriving DecidableEq

def Join.conclude (join : Join) (value : SessionValue T P) : Conclusion T P :=
  if join.joins then .joined value.into
  else match value.into with
    | .ok value => .returned value
    | .error error => .panicked error

inductive Owner (T P : Type*) where
  | idle
  | joining (join : Join) (pc : JoinPc T P)
  | finished (join : Join) (conclusion : Conclusion T P)
  | dropping (pc : DropPc)
  deriving DecidableEq

def Owner.over : Owner T P → Bool
  | .finished .. => true
  | .dropping pc => pc == .done
  | _ => false

def Agent.over : Agent T P → Bool
  | .unused | .dropped | .finished .. => true
  | _ => false

/-- `disposal` is the `drop_value` that runs when the last `Arc` is gone. `outcome` records the
exchange that wins the session; no operation reads it. -/
structure Config (T P : Type*) where
  joint : SessionJoint T P
  wakers : ℕ
  agents : ℕ → Agent T P
  created : ℕ
  owner : Owner T P
  disposal : Option DropPc
  outcome : Cell (ℕ × SessionValue T P)

def initial : Config T P where
  joint := ⟨SessionStatus.empty.into, .vacant⟩
  wakers := 1
  agents := Function.update (fun _ => .unused) 0 .handle
  created := 1
  owner := .idle
  disposal := none
  outcome := .pending

def Config.setAgent (c : Config T P) (i : ℕ) (agent : Agent T P) : Config T P :=
  { c with agents := Function.update c.agents i agent }

def Config.addAgent (c : Config T P) (agent : Agent T P) : Config T P :=
  { c with agents := Function.update c.agents c.created agent, created := c.created + 1 }

def SetPc.claimed : SetPc → Bool
  | .takeJoiner | .write _ | .unpark | .store _ | .ok _ => true
  | _ => false

/-- One step of agent `i`; `wake_task` runs after a successful `set_value`, unless it is the task
itself that interrupts. -/
def Config.advance (c : Config T P) (i : ℕ) (spurious : Bool) : Option (Config T P) :=
  match c.agents i with
  | .setting call (.ok task) =>
    match call, task with
    | .interrupt _, _ | _, none => some (c.setAgent i (.finished call true call.accept))
    | _, some task => some (c.setAgent i (.waking call task))
  | .setting call .err => some (c.setAgent i (.finished call false (call.refuse call.value)))
  | .setting call pc =>
    (setValue c.joint call.value spurious pc).map fun (joint, next) =>
      let outcome := if !pc.claimed && next.claimed then c.outcome.fire (i, call.value)
        else c.outcome
      { c with joint, outcome }.setAgent i (.setting call next)
  | .waking call _ => some (c.setAgent i (.finished call true call.accept))
  | _ => none

/-- `SessionWaker::drop`: `fetch_sub` and the fault of the last one. -/
def Config.dropWaker (c : Config T P) (i : ℕ) : Config T P :=
  { c with wakers := c.wakers - 1 }.setAgent i
    (if c.wakers = 1 then .setting .fault .load else .dropped)

def Config.stepDrop (c : Config T P) (spurious : Bool) (pc : DropPc) :
    Option (Config T P × DropPc) :=
  (dropValue c.joint spurious pc).map fun (joint, next) =>
    let outcome := if pc = .casEmpty ∧ c.joint.status = SessionStatus.empty.into then
      c.outcome.cancel else c.outcome
    ({ c with joint, outcome }, next)

def Config.stepOwner (c : Config T P) (spurious : Bool) : Option (Config T P) :=
  match c.owner with
  | .joining join (.returned value) => some { c with owner := .finished join (join.conclude value) }
  | .joining join pc =>
    (joinValue c.joint join.joiner spurious pc).map fun (joint, next) =>
      { c with joint, owner := .joining join next }
  | .dropping pc =>
    (c.stepDrop spurious pc).map fun (d, next) => { d with owner := .dropping next }
  | _ => none

/-- The task interrupts while its coroutine is blocked; nothing keeps a stale wake-up from running
the owner meanwhile. -/
def Config.interruptible (c : Config T P) : Bool :=
  match c.owner with
  | .joining ⟨_, .task _, true⟩ .waiting => true
  | _ => false

inductive Event (T P : Type*) where
  | clone (i : ℕ)
  | call (i : ℕ) (call : Call T P)
  | drop (i : ℕ)
  | interrupt (reason : String)
  | advance (i : ℕ) (spurious : Bool)
  | join (join : Join)
  | abandon
  | owner (spurious : Bool)
  | dispose (spurious : Bool)

/-- A handle is used by one thread at a time; `wake`, `send` and `set_result` consume it without
a drop. The count of wakers cannot wrap, as each has an `Arc` and those abort long before. -/
def Config.step (c : Config T P) : Event T P → Option (Config T P)
  | .clone i =>
    match c.agents i with
    | .handle => some ({ c with wakers := c.wakers + 1 }.addAgent .handle)
    | _ => none
  | .call i call =>
    match c.agents i, call with
    | .handle, .wake _ | .handle, .send _ | .handle, .setResult _ =>
      some (c.setAgent i (.setting call .load))
    | _, _ => none
  | .drop i =>
    match c.agents i with
    | .handle => some (c.dropWaker i)
    | _ => none
  | .interrupt reason =>
    if c.interruptible then some (c.addAgent (.setting (.interrupt reason) .load)) else none
  | .advance i spurious => c.advance i spurious
  | .join join =>
    match c.owner with
    | .idle => some { c with owner := .joining join .load }
    | _ => none
  | .abandon =>
    match c.owner with
    | .idle => some { c with owner := .dropping .load }
    | _ => none
  | .owner spurious => c.stepOwner spurious
  | .dispose spurious =>
    match c.disposal with
    | none =>
      if c.owner.over && (List.range c.created).all fun i => (c.agents i).over then
        some { c with disposal := some .load }
      else none
    | some pc => (c.stepDrop spurious pc).map fun (d, next) => { d with disposal := some next }

def system (T P : Type*) : System (Config T P) (Event T P) where
  init := initial
  step := Config.step

end Session
