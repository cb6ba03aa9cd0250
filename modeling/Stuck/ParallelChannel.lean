import Stuck.OneShot
import Stuck.WaitQueue
import Stuck.SharedTypes
import Mathlib.Logic.Function.Basic

/-! One parallel channel (src/channel/parallel.rs, with the permit consumption of
src/channel/shared.rs) under any number of calls by tasks, plain threads and selects.
The mutex makes each critical section one event. A call that blocks waits on a one-shot
cell: the session of a task, the `ThreadWaker` of a thread, or the waker that all
selectors of one `select!` share. Other channels and sockets of that `select!` appear
only through the event `elsewhere`. To drop a value does nothing: the code drops that of a sender
who is gone under the mutex, where a `Drop` of the caller's would run. -/
namespace ParallelChannel

open TransitionSystem OneShot SharedTypes

inductive Caller where
  | task (status : CoroutineStatus)
  | thread
  deriving DecidableEq, Repr

inductive Op (T : Type*) where
  | send (caller : Caller) (value : T)
  | recv (caller : Caller)
  | select (caller : Caller) (slice : Slice) (identifier : ℕ)
  deriving DecidableEq, Repr

/-- What a waker puts into the cell of a waiting call. -/
inductive Outcome (T : Type*) where
  | sent (result : Except (SendError T) Unit)
  | permit (permit : Permit)
  | received (value : Option T)
  | selected (index : ℕ) (permit : Permit)
  | elsewhere

/-- The progress of one call. `watched` lists the branches that a `select!` has to unwatch in
this channel, a cancelled cell is a wait that panics, `permitted` is a `select!` that has
returned with a permit it has not consumed, and `elsewhere` one that has returned with a branch of
another channel. -/
inductive Call (T : Type*) where
  | unused
  | waiting (op : Op T) (watched : List ℕ) (cell : Cell (Outcome T))
  | permitted (op : Op T) (index : ℕ) (permit : Permit)
  | elsewhere
  | sent (value : T) (result : Except (TrySendError T) Unit)
  | received (result : Except TryRecvError T)
  | panicked (op : Op T)

variable {T : Type*}

def Call.pending : Call T → Bool
  | .waiting _ _ cell => cell.isPending
  | _ => false

def Call.fire : Call T → Outcome T → Call T
  | .waiting op watched cell, outcome => .waiting op watched (cell.fire outcome)
  | call, _ => call

def Call.cancel : Call T → Call T
  | .waiting op watched cell => .waiting op watched cell.cancel
  | call => call

def Call.watch : Call T → ℕ → Call T
  | .waiting op watched cell, index => .waiting op (watched ++ [index]) cell
  | call, _ => call

def Call.unwatch : Call T → ℕ → Call T
  | .waiting op watched cell, index => .waiting op (watched.erase index) cell
  | call, _ => call

/-- The frame of `Select::select` lives: its identifier is the address of one of its locals. -/
def Call.identifies : Call T → ℕ → Bool
  | .waiting (.select _ _ identifier) watched cell, other =>
    identifier == other && !(cell.isCancelled && watched.isEmpty)
  | _, _ => false

inductive Waiter (T : Type*) where
  | task (waker : ℕ) (value : T)
  | thread (waker : ℕ) (value : T)
  | selector (s : Selector)

def Waiter.matches : Waiter T → ℕ → Bool
  | .selector s, identifier => s.identify identifier
  | _, _ => false

inductive RecvWaiter where
  | selector (s : Selector)
  | task (session : ℕ)
  | thread (waker : ℕ)

def RecvWaiter.matches : RecvWaiter → ℕ → Bool
  | .selector s, identifier => s.identify identifier
  | _, _ => false

structure State (T : Type*) where
  closed : Bool
  sendPermits : ℕ
  recvPermits : ℕ
  bound : ℕ
  deque : List T
  senders : List (Waiter T)
  receivers : List RecvWaiter

/-- `State<T>`, its mutex and the calls. `accepted` and `handed` record every push to and
pop from the deque with the call it is made for; no operation reads them. -/
structure Config (T : Type*) extends State T where
  poisoned : Bool
  calls : ℕ → Call T
  created : ℕ
  accepted : List (ℕ × T)
  handed : List (ℕ × T)

def State.recvableLen (s : State T) : ℕ := s.deque.length + s.sendPermits
def State.isFull (s : State T) : Bool := s.recvableLen == s.bound
def State.isEmpty (s : State T) : Bool := decide (s.deque.length ≤ s.recvPermits)
def State.isRecvable (s : State T) : Bool := s.recvableLen != 0

def State.selectSendPermit (s : State T) : Option Permit × State T :=
  if s.closed then (some .closed, s)
  else if !s.isFull then (some .consume, { s with sendPermits := s.sendPermits + 1 })
  else (none, s)

def State.selectRecvPermit (s : State T) : Option Permit × State T :=
  if !s.isEmpty then (some .consume, { s with recvPermits := s.recvPermits + 1 })
  else if s.closed then
    if s.sendPermits != 0 then (none, s)
    else if s.deque.isEmpty then (some .closed, s)
    else (some .consume, { s with recvPermits := s.recvPermits + 1 })
  else (none, s)

def initial (capacity : Capacity) : Config T where
  closed := false
  sendPermits := 0
  recvPermits := 0
  bound := capacity.max
  deque := []
  senders := []
  receivers := []
  poisoned := false
  calls _ := .unused
  created := 0
  accepted := []
  handed := []

def Config.setState (c : Config T) (s : State T) : Config T := { c with toState := s }

/-- The next call id starts as `call`. -/
def Config.begin (c : Config T) (call : Call T) : Config T :=
  { c with calls := Function.update c.calls c.created call, created := c.created + 1 }

def Config.finish (c : Config T) (i : ℕ) (call : Call T) : Config T :=
  { c with calls := Function.update c.calls i call }

/-- The effect of `SessionWaker::wake`, `Selector::apply` and `ThreadWaker::wake`; the first
two return whether the cell was pending, the last one does not look. -/
def Config.fire (c : Config T) (i : ℕ) (outcome : Outcome T) : Config T :=
  c.finish i ((c.calls i).fire outcome)

def Config.poison (c : Config T) : Config T := { c with poisoned := true }

def Config.enqueueSender (c : Config T) (waiter : Waiter T) : Config T :=
  { c with senders := c.senders ++ [waiter] }

def Config.enqueueReceiver (c : Config T) (waiter : RecvWaiter) : Config T :=
  { c with receivers := c.receivers ++ [waiter] }

def Config.pushBack (c : Config T) (i : ℕ) (value : T) : Config T :=
  { c with deque := c.deque ++ [value], accepted := c.accepted ++ [(i, value)] }

/-- The deque loses its front `value`, and `rest` stays. -/
def Config.popFront (c : Config T) (i : ℕ) (value : T) (rest : List T) : Config T :=
  { c with deque := rest, handed := c.handed ++ [(i, value)] }

/-- The loop of `State::wake_sender`: the argument is what is left of the queue. -/
def Config.wakeSenders (c : Config T) : List (Waiter T) → Config T
  | [] => { c with senders := [] }
  | .task waker value :: rest =>
    if (c.calls waker).pending then
      ({ c with senders := rest }.fire waker (.sent (.ok ()))).pushBack waker value
    else c.wakeSenders rest
  | .thread waker value :: rest =>
    ({ c with senders := rest }.pushBack waker value).fire waker (.sent (.ok ()))
  | .selector s :: rest =>
    if (c.calls s.waker).pending then
      { c with senders := rest, sendPermits := c.sendPermits + 1 }.fire s.waker
        (.selected s.index .consume)
    else c.wakeSenders rest

def Config.wakeSender (c : Config T) : Config T := c.wakeSenders c.senders

/-- The loop of `State::wake_receiver`; its `unwrap` panics on an empty deque. -/
def Config.wakeReceivers (c : Config T) : List RecvWaiter → Config T
  | [] => { c with receivers := [] }
  | .selector s :: rest =>
    if (c.calls s.waker).pending then
      { c with receivers := rest, recvPermits := c.recvPermits + 1 }.fire s.waker
        (.selected s.index .consume)
    else c.wakeReceivers rest
  | .task session :: rest =>
    if (c.calls session).pending then
      { c with receivers := rest, recvPermits := c.recvPermits + 1 }.fire session
        (.permit .consume)
    else c.wakeReceivers rest
  | .thread waker :: rest =>
    match c.deque with
    | [] => { c with receivers := rest }.poison
    | value :: deque =>
      ({ c with receivers := rest }.popFront waker value deque).fire waker (.received (some value))

def Config.wakeReceiver (c : Config T) : Config T := c.wakeReceivers c.receivers

def Config.closeSender (c : Config T) : Waiter T → Config T
  | .task waker value | .thread waker value => c.fire waker (.sent (.error (.closed value)))
  | .selector s => c.fire s.waker (.selected s.index .closed)

def Config.closeSenders (c : Config T) : Config T :=
  c.senders.foldl Config.closeSender { c with senders := [] }

def Config.closeReceiver (c : Config T) : RecvWaiter → Config T
  | .selector s => c.fire s.waker (.selected s.index .closed)
  | .task session => c.fire session (.permit .closed)
  | .thread waker => c.fire waker (.received none)

def Config.closeReceivers (c : Config T) : Config T :=
  c.receivers.foldl Config.closeReceiver { c with receivers := [] }

def Config.close (c : Config T) : Config T :=
  let c := { c with closed := true }.closeSenders
  if !c.isRecvable then c.closeReceivers else c

/-- `Channel::recv` up to its return or its wait. `task::session()` panics for an aborting
coroutine while the guard is held. -/
def Config.recv (c : Config T) (caller : Caller) (trying : Bool) : Config T :=
  if c.isEmpty then
    if c.closed && !c.isRecvable then c.begin (.received (.error .closed))
    else if trying then c.begin (.received (.error .empty))
    else match caller with
      | .task .aborting => (c.begin (.panicked (.recv caller))).poison
      | .task _ =>
        (c.enqueueReceiver (.task c.created)).begin (.waiting (.recv caller) [] .pending)
      | .thread =>
        (c.enqueueReceiver (.thread c.created)).begin (.waiting (.recv caller) [] .pending)
  else match c.deque with
    | [] => c.wakeSender.begin (.received (.error .closed))
    | value :: rest =>
      let d := ((c.begin (.received (.ok value))).popFront c.created value rest).wakeSender
      -- debug_assert!(state.recvable_len() <= state.bound)
      if d.recvableLen ≤ d.bound then d
      else (d.finish c.created (.panicked (.recv caller))).poison

def Config.send (c : Config T) (caller : Caller) (trying : Bool) (value : T) : Config T :=
  if c.closed then c.begin (.sent value (.error (.closed value)))
  else if !c.isFull then
    ((c.begin (.sent value (.ok ()))).pushBack c.created value).wakeReceiver
  else if trying then c.begin (.sent value (.error (.full value)))
  else match caller with
    | .task .aborting => (c.begin (.panicked (.send caller value))).poison
    | .task _ =>
      (c.enqueueSender (.task c.created value)).begin (.waiting (.send caller value) [] .pending)
    | .thread =>
      (c.enqueueSender (.thread c.created value)).begin (.waiting (.send caller value) [] .pending)

def Config.consumeSendPermit (c : Config T) (i : ℕ) (op : Op T) (value : T) : Config T :=
  if c.sendPermits = 0 then (c.finish i (.panicked op)).poison
  else
    let d := { c with sendPermits := c.sendPermits - 1 }
    if d.isFull then (d.finish i (.panicked op)).poison
    else
      let d := (d.finish i (.sent value (.ok ()))).pushBack i value
      if !d.closed then d.wakeReceiver
      else if !d.isRecvable then d.closeReceivers
      else d

/-- `recv_permits -= 1` panics on underflow. -/
def Config.consumeRecvPermit (c : Config T) (i : ℕ) (op : Op T) : Config T :=
  let full := c.isFull
  if c.recvPermits = 0 then (c.finish i (.panicked op)).poison
  else
    let d := { c with recvPermits := c.recvPermits - 1 }
    match d.deque with
    | [] => d.finish i (.received (.error .closed))
    | value :: rest =>
      let d := (d.finish i (.received (.ok value))).popFront i value rest
      if d.closed then
        if !d.isRecvable then d.closeReceivers else d
      else if full then d.wakeSender
      else d

def Config.watchSendPermit (c : Config T) (selector : Selector) : Config T × Bool :=
  match c.selectSendPermit with
  | (some permit, s) =>
    let d := c.setState s
    if (c.calls selector.waker).pending then
      (d.fire selector.waker (.selected selector.index permit), true)
    else if permit = .consume then ({ d with sendPermits := d.sendPermits - 1 }, true)
    else (d, true)
  | (none, _) => (c.enqueueSender (.selector selector), false)

def Config.watchRecvPermit (c : Config T) (selector : Selector) : Config T × Bool :=
  match c.selectRecvPermit with
  | (some permit, s) =>
    let d := c.setState s
    if (c.calls selector.waker).pending then
      (d.fire selector.waker (.selected selector.index permit), true)
    else if permit = .consume then ({ d with recvPermits := d.recvPermits - 1 }, true)
    else (d, true)
  | (none, _) => (c.enqueueReceiver (.selector selector), false)

/-- A receiver that leaves the queue unwoken is dropped, and with it the only waker of a
task's session: its wait panics with "session: no wakeup". -/
def Config.dropReceiver (c : Config T) : RecvWaiter → Config T
  | .task session => c.finish session (c.calls session).cancel
  | _ => c

def Config.removeReceiver (c : Config T) (position : ℕ) : Config T :=
  match c.receivers[position]? with
  | some waiter => { c with receivers := c.receivers.eraseIdx position }.dropReceiver waiter
  | none => c

/-- `Channel::unwatch_send_permit`: the position is found in `senders` and removed from
`receivers`. -/
def Config.unwatchSendPermit (c : Config T) (identifier : ℕ) : Config T :=
  match c.senders.findIdx? (·.matches identifier) with
  | some position => c.removeReceiver position
  | none => c

def Config.unwatchRecvPermit (c : Config T) (identifier : ℕ) : Config T :=
  match c.receivers.findIdx? (·.matches identifier) with
  | some position => c.removeReceiver position
  | none => c

/-- `trySelect` is one `select_permit` of `Select::try_select` that is granted, `select` the
start of the watch loop, `watch` and `unwatch` its calls on one branch; `ready` is what
`Waiter::is_ready` answers after the watch, which may lag behind another waker. `cancel` is a
wait that panics: an interruption by `Task::interrupt`, or the fault of a `select!` whose wakers
are gone. -/
inductive Event (T : Type*) where
  | send (caller : Caller) (trying : Bool) (value : T)
  | recv (caller : Caller) (trying : Bool)
  | resume (call : ℕ)
  | cancel (call : ℕ)
  | trySelect (caller : Caller) (slice : Slice) (identifier index : ℕ)
  | select (caller : Caller) (slice : Slice) (identifier : ℕ)
  | watch (call : ℕ) (index : ℕ) (ready : Bool)
  | elsewhere (call : ℕ)
  | unwatch (call : ℕ) (index : ℕ)
  | consumeSend (call : ℕ) (value : T)
  | consumeRecv (call : ℕ)
  | close
  deriving DecidableEq, Repr

/-- The return of a wait; a `select!` has unwatched its branches by then. A thread waits on the
condition variable of the mutex, whose `unwrap` panics once that is poisoned. -/
def Config.resume (c : Config T) (i : ℕ) : Option (Config T) :=
  match c.calls i with
  | .waiting (.send caller value) _ (.fired (.sent result)) =>
    if caller = .thread ∧ c.poisoned then some (c.finish i (.panicked (.send caller value)))
    else some (c.finish i (.sent value (result.mapError SendError.toTrySendError)))
  | .waiting (.recv _) _ (.fired (.permit .closed)) =>
    some (c.finish i (.received (.error .closed)))
  | .waiting (.recv caller) _ (.fired (.permit .consume)) =>
    if c.poisoned then some (c.finish i (.panicked (.recv caller)))
    else some (c.consumeRecvPermit i (.recv caller))
  | .waiting (.recv caller) _ (.fired (.received value)) =>
    if c.poisoned then some (c.finish i (.panicked (.recv caller)))
    else match value with
      | none => some (c.finish i (.received (.error .closed)))
      | some value => some (c.finish i (.received (.ok value)))
  | .waiting (.select caller slice identifier) [] (.fired (.selected index permit)) =>
    some (c.finish i (.permitted (.select caller slice identifier) index permit))
  | .waiting (.select ..) [] (.fired .elsewhere) => some (c.finish i .elsewhere)
  | _ => none

def Config.cancel (c : Config T) (i : ℕ) : Option (Config T) :=
  match c.calls i with
  | .waiting (.send .thread _) _ _ | .waiting (.recv .thread) _ _ => none
  | .waiting _ _ .pending => some (c.finish i (c.calls i).cancel)
  | _ => none

def Config.trySelect (c : Config T) (caller : Caller) (slice : Slice) (identifier index : ℕ) :
    Option (Config T) :=
  let grant : Option Permit × State T → Option (Config T)
    | (some permit, s) =>
      some ((c.setState s).begin (.permitted (.select caller slice identifier) index permit))
    | (none, _) => none
  match slice[index]? with
  | some (some .send) => grant c.selectSendPermit
  | some (some .recv) => grant c.selectRecvPermit
  | _ => none

/-- A watch that finds the waiter ready breaks the loop before the branch is counted. -/
def Config.checked (c : Config T) (i : ℕ) (index : ℕ) (available ready : Bool) :
    Option (Config T) :=
  if ready = false then some (c.finish i ((c.calls i).watch index))
  else if available = true ∧ (c.calls i).pending = false then some c
  else none

def Config.watch (c : Config T) (i : ℕ) (index : ℕ) (ready : Bool) : Option (Config T) :=
  match c.calls i with
  | .waiting (.select _ slice identifier) _ cell =>
    if cell.isCancelled then none
    else match slice[index]? with
      | some (some .send) =>
        let (d, available) := c.watchSendPermit ⟨index, i, identifier⟩
        d.checked i index available ready
      | some (some .recv) =>
        let (d, available) := c.watchRecvPermit ⟨index, i, identifier⟩
        d.checked i index available ready
      | _ => none
  | _ => none

/-- `Witness::drop` runs when the wait is over, whether it returns or panics. -/
def Config.unwatch (c : Config T) (i : ℕ) (index : ℕ) : Option (Config T) :=
  match c.calls i with
  | .waiting (.select caller slice identifier) watched cell =>
    if cell.isPending ∨ index ∉ watched then none
    else
      let call := Call.unwatch (.waiting (.select caller slice identifier) watched cell) index
      match slice[index]? with
      | some (some .send) => some ((c.unwatchSendPermit identifier).finish i call)
      | some (some .recv) => some ((c.unwatchRecvPermit identifier).finish i call)
      | _ => none
  | _ => none

/-- `Sender::consume_permit`: `Permit::Closed` detaches the handle without the channel. -/
def Config.consumeSend (c : Config T) (i : ℕ) (value : T) : Option (Config T) :=
  match c.calls i with
  | .permitted (.select caller slice identifier) index permit =>
    if slice[index]? ≠ some (some .send) then none
    else match permit with
      | .closed => some (c.finish i (.sent value (.error (.closed value))))
      | .consume =>
        if c.poisoned then none
        else some (c.consumeSendPermit i (.select caller slice identifier) value)
  | _ => none

def Config.consumeRecv (c : Config T) (i : ℕ) : Option (Config T) :=
  match c.calls i with
  | .permitted (.select caller slice identifier) index permit =>
    if slice[index]? ≠ some (some .recv) then none
    else match permit with
      | .closed => some (c.finish i (.received (.error .closed)))
      | .consume =>
        if c.poisoned then none
        else some (c.consumeRecvPermit i (.select caller slice identifier))
  | _ => none

/-- A call that finds the mutex poisoned panics in `lock().unwrap()` and changes nothing, so
it is no step. -/
def Config.step (c : Config T) : Event T → Option (Config T)
  | .send caller trying value => if c.poisoned then none else some (c.send caller trying value)
  | .recv caller trying => if c.poisoned then none else some (c.recv caller trying)
  | .resume i => c.resume i
  | .cancel i => c.cancel i
  | .trySelect caller slice identifier index =>
    if c.poisoned then none else c.trySelect caller slice identifier index
  | .select caller slice identifier =>
    if caller = .task .aborting then none
    else if (List.range c.created).any fun j => (c.calls j).identifies identifier then none
    else some (c.begin (.waiting (.select caller slice identifier) [] .pending))
  | .watch i index ready => if c.poisoned then none else c.watch i index ready
  | .elsewhere i =>
    match c.calls i with
    | .waiting (.select ..) _ .pending => some (c.fire i .elsewhere)
    | _ => none
  | .unwatch i index => if c.poisoned then none else c.unwatch i index
  | .consumeSend i value => c.consumeSend i value
  | .consumeRecv i => c.consumeRecv i
  | .close => if c.poisoned then none else some c.close

def system (T : Type*) (capacity : Capacity) : System (Config T) (Event T) where
  init := initial capacity
  step := Config.step

end ParallelChannel
