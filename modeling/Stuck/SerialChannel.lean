import Stuck.OneShot
import Stuck.SharedTypes
import Mathlib.Logic.Function.Basic

/-! One serial channel (src/channel/serial.rs) under the coroutines of one task. Coroutines are
cooperative: an operation runs up to its return or its suspension in one step. A blocked `send` or
`recv` waits on a suspension of its own and tries again when it resumes; a `select!` waits on the
one-shot cell that its selectors share. -/
namespace SerialChannel

open TransitionSystem OneShot SharedTypes

inductive Waker where
  | selector (s : Selector)
  | resumption (call : ℕ)
  deriving DecidableEq, Repr

def Waker.matches : Waker → ℕ → Bool
  | .selector s, identifier => s.identify identifier
  | .resumption _, _ => false

/-- The progress of one call. A `select!` waits for the index of a branch of this channel or for
another selectable (`none`), and `counted` are the branches it unwatches at its end. `permitted` is
a `select!` that evaluates the value it sends, `woken` when it had to wait for its permit. -/
inductive Call (T : Type*) where
  | unused
  | sending (value : T) (cell : Cell Unit)
  | receiving (cell : Cell Unit)
  | selecting (slice : Slice) (identifier : ℕ) (counted : List ℕ) (cell : Cell (Option ℕ))
  | permitted (woken : Bool)
  | sent (value : T) (result : Except (TrySendError T) Unit)
  | received (result : Except TryRecvError T)
  | elsewhere
  | interrupted
  | panicked (reason : String)
  deriving DecidableEq

variable {T : Type*}

/-- `Resumption::resume` of the call's suspension. -/
def Call.resume : Call T → Call T
  | .sending value cell => .sending value (cell.fire ())
  | .receiving cell => .receiving (cell.fire ())
  | call => call

def Call.fire : Call T → Option ℕ → Call T
  | .selecting slice identifier counted cell, index =>
    .selecting slice identifier counted (cell.fire index)
  | call, _ => call

/-- A selector of this call is applied and not refused. -/
def Call.applies : Call T → Bool
  | .selecting _ _ _ cell => cell.isPending
  | _ => false

def Call.interrupt : Call T → Option (Call T)
  | .sending value .pending => some (.sending value .cancelled)
  | .receiving .pending => some (.receiving .cancelled)
  | .selecting slice identifier counted .pending =>
    some (.selecting slice identifier counted .cancelled)
  | _ => none

def Call.identifies : Call T → ℕ → Bool
  | .selecting _ identifier _ _, other => identifier == other
  | _, _ => false

structure State (T : Type*) where
  closed : Bool
  bound : ℕ
  deque : List T
  senders : List Waker
  receivers : List Waker

structure Config (T : Type*) extends State T where
  calls : ℕ → Call T
  created : ℕ

def State.isFull (s : State T) : Bool := s.bound == s.deque.length
def State.isSendable (s : State T) : Bool := s.closed || !s.isFull
def State.isRecvable (s : State T) : Bool := !s.deque.isEmpty || s.closed

/-- Whether `select_permit` of an endpoint grants a permit, which is `Permit::Consume`. -/
def State.isReady (s : State T) : Side → Bool
  | .send => s.isSendable
  | .recv => s.isRecvable

def initial (capacity : Capacity) : Config T where
  closed := false
  bound := capacity.max
  deque := []
  senders := []
  receivers := []
  calls _ := .unused
  created := 0

def Config.begin (c : Config T) (call : Call T) : Config T :=
  { c with calls := Function.update c.calls c.created call, created := c.created + 1 }

def Config.finish (c : Config T) (i : ℕ) (call : Call T) : Config T :=
  { c with calls := Function.update c.calls i call }

/-- `Waker::wake`. -/
def Config.wake (c : Config T) : Waker → Config T × Bool
  | .selector s =>
    if (c.calls s.waker).applies then
      (c.finish s.waker ((c.calls s.waker).fire (some s.index)), true)
    else (c, false)
  | .resumption call => (c.finish call (c.calls call).resume, true)

/-- The loop of `State::wake_sender`: the argument is what is left of the queue. -/
def Config.wakeSenders (c : Config T) : List Waker → Config T
  | [] => { c with senders := [] }
  | waker :: rest =>
    let (d, woke) := { c with senders := rest }.wake waker
    if woke then d else c.wakeSenders rest

def Config.wakeSender (c : Config T) : Config T := c.wakeSenders c.senders

def Config.wakeReceivers (c : Config T) : List Waker → Config T
  | [] => { c with receivers := [] }
  | waker :: rest =>
    let (d, woke) := { c with receivers := rest }.wake waker
    if woke then d else c.wakeReceivers rest

def Config.wakeReceiver (c : Config T) : Config T := c.wakeReceivers c.receivers

def Config.wakeAll (c : Config T) (wakers : List Waker) : Config T :=
  wakers.foldl (fun d waker => (d.wake waker).1) c

def Config.close (c : Config T) : Config T :=
  let d := { c with closed := true, senders := [] }.wakeAll c.senders
  { d with receivers := [] }.wakeAll c.receivers

/-- One turn of the loop of `Channel::send` for call `i`. -/
def Config.send (c : Config T) (i : ℕ) (trying : Bool) (value : T) : Config T :=
  if c.closed then c.finish i (.sent value (.error (.closed value)))
  else if !c.isFull then
    ({ c with deque := c.deque ++ [value] }.finish i (.sent value (.ok ()))).wakeReceiver
  else if trying then c.finish i (.sent value (.error (.full value)))
  else { c with senders := c.senders ++ [Waker.resumption i] }.finish i (.sending value .pending)

/-- One turn of the loop of `Channel::recv` for call `i`. -/
def Config.recv (c : Config T) (i : ℕ) (trying : Bool) : Config T :=
  match c.deque with
  | value :: rest => ({ c with deque := rest }.finish i (.received (.ok value))).wakeSender
  | [] =>
    if c.closed then c.finish i (.received (.error .closed))
    else if trying then c.finish i (.received (.error .empty))
    else { c with receivers := c.receivers ++ [Waker.resumption i] }.finish i (.receiving .pending)

def Config.consumeSendPermit (c : Config T) (i : ℕ) (value : T) : Config T :=
  let d := c.send i true value
  match d.calls i with
  | .sent _ (.error (.full _)) => d.finish i (.panicked "not ready to send")
  | _ => d

def Config.consumeRecvPermit (c : Config T) (i : ℕ) : Config T :=
  let d := c.recv i true
  match d.calls i with
  | .received (.error .empty) => d.finish i (.panicked "not ready to recv")
  | _ => d

/-- `watch_permit` of the branch at `index`. -/
def Config.watch (c : Config T) (slice : Slice) (i identifier index : ℕ) : Config T :=
  match slice[index]? with
  | some (some .send) => { c with senders := c.senders ++ [.selector ⟨index, i, identifier⟩] }
  | some (some .recv) => { c with receivers := c.receivers ++ [.selector ⟨index, i, identifier⟩] }
  | _ => c

def Config.unwatch (c : Config T) (slice : Slice) (identifier index : ℕ) : Config T :=
  match slice[index]? with
  | some (some .send) => { c with senders := c.senders.eraseP (·.matches identifier) }
  | some (some .recv) => { c with receivers := c.receivers.eraseP (·.matches identifier) }
  | _ => c

def Slice.endpoints (slice : Slice) (start : ℕ) : List ℕ :=
  ((List.range slice.length).rotate start).filter fun index => (slice[index]?.join).isSome

/-- `Select::select` up to its wait, after a `try_select` that found no branch ready; `start` is
the rotation of its `Enumerator`. With `broken` another selectable fires it: the watch loop ends
after so many endpoints of this channel, and the last of them is not counted if `skipped`. -/
def Config.select (c : Config T) (slice : Slice) (identifier start : ℕ) (broken : Option ℕ)
    (skipped : Bool) : Option (Config T) :=
  if (slice.any fun endpoint => endpoint.any c.isReady) ||
      (List.range c.created).any fun j => (c.calls j).identifies identifier then none
  else
    let watched := match broken with
      | none => Slice.endpoints slice start
      | some n => (Slice.endpoints slice start).take n
    let counted := if broken.isSome && skipped then watched.dropLast else watched
    let cell := if broken.isSome then .fired none else .pending
    let d := watched.foldl (fun d index => d.watch slice c.created identifier index) c
    some (d.begin (.selecting slice identifier counted cell))

/-- `sent` and `received` start a `send` or `recv`, `resume` lets a woken coroutine run, and
`forfeit` is a permitted `select!` whose value expression does not return. -/
inductive Event (T : Type*) where
  | send (trying : Bool) (value : T)
  | recv (trying : Bool)
  | resume (call : ℕ)
  | interrupt (call : ℕ)
  | trySelect (slice : Slice) (index : ℕ)
  | select (slice : Slice) (identifier start : ℕ) (broken : Option ℕ) (skipped : Bool)
  | elsewhere (call : ℕ)
  | consumeSend (call : ℕ) (value : T)
  | forfeit (call : ℕ)
  | close
  deriving DecidableEq, Repr

/-- A `select!` that has got the branch at `index`: it consumes a receive at once and goes on to
the value of a send. -/
def Config.selected (c : Config T) (i : ℕ) (side : Side) : Config T :=
  match side with
  | .send => c.finish i (.permitted true)
  | .recv => c.consumeRecvPermit i

def Config.resume (c : Config T) (i : ℕ) : Option (Config T) :=
  match c.calls i with
  | .sending value (.fired ()) => some (c.send i false value)
  | .receiving (.fired ()) => some (c.recv i false)
  | .sending _ .cancelled | .receiving .cancelled => some (c.finish i .interrupted)
  | .selecting slice identifier counted cell =>
    let d := counted.foldl (fun d index => d.unwatch slice identifier index) c
    match cell with
    | .pending => none
    | .fired none => some (d.finish i .elsewhere)
    | .fired (some index) => slice[index]?.join.map fun side => d.selected i side
    | .cancelled => some (d.finish i .interrupted)
  | _ => none

def Config.step (c : Config T) : Event T → Option (Config T)
  | .send trying value => some ((c.begin (.sending value .pending)).send c.created trying value)
  | .recv trying => some ((c.begin (.receiving .pending)).recv c.created trying)
  | .resume i => c.resume i
  | .interrupt i => (c.calls i).interrupt.map fun call => c.finish i call
  | .trySelect slice index =>
    match slice[index]?.join with
    | some .send => if c.isSendable then some (c.begin (.permitted false)) else none
    | some .recv =>
      if c.isRecvable then
        some ((c.begin (.receiving .pending)).consumeRecvPermit c.created)
      else none
    | none => none
  | .select slice identifier start broken skipped => c.select slice identifier start broken skipped
  | .elsewhere i =>
    match c.calls i with
    | .selecting slice identifier counted .pending =>
      some (c.finish i (.selecting slice identifier counted (.fired none)))
    | _ => none
  | .consumeSend i value =>
    match c.calls i with
    | .permitted _ => some (c.consumeSendPermit i value)
    | _ => none
  | .forfeit i =>
    match c.calls i with
    | .permitted _ => some (c.finish i .interrupted)
    | _ => none
  | .close => some c.close

def system (T : Type*) (capacity : Capacity) : System (Config T) (Event T) where
  init := initial capacity
  step := Config.step

end SerialChannel
