import Stuck.TransitionSystem
import Mathlib.Algebra.Group.Nat.Defs
import Mathlib.Data.List.Nodup
import Mathlib.Logic.Function.Basic

/-! Sockets, their entries in the slab of `Registry` and the poller thread (src/net/mod.rs and
src/net/tcp.rs). A step is what one thread does up to its next access to the slab (under its mutex),
the queue of unused tokens, epoll or a channel of a socket. There is one runtime, with one registry:
a socket is registered and dropped on its own workers. -/
namespace Net

open TransitionSystem

/-- `Token(usize::MAX)`. -/
def WAKER_TOKEN : ℕ := 2 ^ 64 - 1

inductive Direction where
  | readable | writable
  deriving DecidableEq, Repr

/-- A channel of bound 2 to a socket, as its receiver finds it. `poisoned` is the channel's mutex. -/
structure Inbox where
  signals : ℕ
  poisoned : Bool
  deriving DecidableEq, Repr

/-- `try_send(())`, its error ignored; `none` is the panic of `lock().unwrap()`. -/
def Inbox.trySend (inbox : Inbox) : Option Inbox :=
  if inbox.poisoned then none
  else some { inbox with signals := if inbox.signals < 2 then inbox.signals + 1 else inbox.signals }

/-- The entry of the slab, by the socket that receives from its channels. -/
inductive Entry where
  | reader (socket : ℕ)
  | stream (socket : ℕ)
  deriving DecidableEq, Repr

def Entry.socket : Entry → ℕ
  | .reader socket | .stream socket => socket

/-- `mio::event::Event`. -/
structure Readiness where
  token : ℕ
  readable : Bool
  writable : Bool
  error : Bool
  readClosed : Bool
  writeClosed : Bool
  deriving DecidableEq, Repr

/-- The conditions of `check_readable` and `check_writable`. -/
def Readiness.wakes (ev : Readiness) : Direction → Bool
  | .readable => ev.readable || ev.error || ev.readClosed
  | .writable => ev.writable || ev.error || ev.writeClosed

inductive Call where
  | bind | connect | accept
  deriving DecidableEq, Repr

/-- From `register_entry` on: the stages of a call, of what it returned, and the ends. `connected`
is a stream that `connect` has not returned yet, `reader` and `writer` are a half that is left alone,
`deregistered` has its token still to be sent. -/
inductive Stage where
  | inserted | refused | waiting | blocked | connected
  | listener | stream | split | reader | writer
  | deregistered
  | dropped | failed | abandoned
  deriving DecidableEq, Repr

/-- A `TcpListener`, a `TcpStream` or at least one half is there. -/
def Stage.live : Stage → Bool
  | .listener | .stream | .split | .reader | .writer => true
  | _ => false

/-- A call, of `Drop` in the last case, is in progress that has the token. -/
def Stage.calling : Stage → Bool
  | .inserted | .refused | .waiting | .blocked | .connected | .deregistered => true
  | _ => false

/-- epoll may report events of the socket: from a successful `register` to `deregister`, or to the
close of the socket where an unwinding call drops it. -/
def Stage.watched : Stage → Bool
  | .waiting | .blocked | .connected => true
  | stage => stage.live

/-- The directions whose `recv` the holders call. -/
def Stage.receives : Stage → Direction → Bool
  | .listener, .readable | .reader, .readable | .writer, .writable => true
  | .stream, _ | .split, _ => true
  | _, _ => false

/-- What is dropped: a listener or a whole stream, or a half. -/
inductive Part where
  | whole | reader | writer
  deriving DecidableEq, Repr

/-- The `Drop`s. `Rc::into_inner` returns the stream to the half that is dropped last. -/
def Stage.drop : Stage → Part → Option Stage
  | .listener, .whole | .stream, .whole => some .deregistered
  | .split, .reader => some .writer
  | .split, .writer => some .reader
  | .reader, .reader | .writer, .writer => some .deregistered
  | _, _ => none

structure Socket where
  call : Call
  token : ℕ
  stage : Stage
  readable : Inbox
  writable : Inbox
  deriving DecidableEq, Repr

def Socket.new (call : Call) (token : ℕ) : Socket := ⟨call, token, .inserted, ⟨0, false⟩, ⟨0, false⟩⟩

def Socket.entry (s : Socket) (id : ℕ) : Entry :=
  match s.call with
  | .bind => .reader id
  | .connect | .accept => .stream id

def Socket.inbox (s : Socket) : Direction → Inbox
  | .readable => s.readable
  | .writable => s.writable

def Socket.setInbox (s : Socket) (inbox : Inbox) : Direction → Socket
  | .readable => { s with readable := inbox }
  | .writable => { s with writable := inbox }

/-- Dropping a sender to it panics: `remove_sender` locks the channel. -/
def Socket.poisoned (s : Socket) : Bool := s.readable.poisoned || s.writable.poisoned

/-- Takes a signal out of an inbox. -/
def Socket.recv (s : Socket) (d : Direction) : Option Socket :=
  if (s.inbox d).signals = 0 ∨ (s.inbox d).poisoned = true then none
  else some (s.setInbox { s.inbox d with signals := (s.inbox d).signals - 1 } d)

inductive Action where
  | register (ok : Bool)
  | block
  | writable
  | interrupted
  | takeError (failed : Bool)
  | receive (d : Direction)
  | poison (d : Direction)
  | intoSplit
  | drop (part : Part)
  deriving DecidableEq, Repr

/-- What the call in progress or the holder does on its own. `block` to `interrupted` are the
`writable.recv()` of `TcpStream::new`, whose panic drops the socket. `receive` is a `recv` of
`accept`, `read` or `write`; `poison` is the panic of one in an aborting coroutine, under the mutex
of the channel. (In `TcpStream::new` that panic ends the process, in the drop of the receiver.) A
stream whose `take_error` finds an error is dropped by `connect`. -/
def Socket.act (s : Socket) : Action → Option Socket
  | .register ok =>
    if s.stage = .inserted then
      some { s with
        stage := if ok = false then .refused else if s.call = .bind then .listener else .waiting }
    else none
  | .block =>
    if s.stage = .waiting ∧ s.writable.signals = 0 then some { s with stage := .blocked } else none
  | .writable =>
    if s.stage = .waiting ∨ s.stage = .blocked then
      (s.recv .writable).map fun s =>
        { s with stage := if s.call = .connect then .connected else .stream }
    else none
  | .interrupted => if s.stage = .blocked then some { s with stage := .abandoned } else none
  | .takeError failed =>
    if s.stage = .connected then
      some { s with stage := if failed = true then .deregistered else .stream }
    else none
  | .receive d => if s.stage.receives d = true then s.recv d else none
  | .poison d =>
    if s.stage.receives d = true ∧ (s.inbox d).signals = 0 ∧ (s.inbox d).poisoned = false then
      some (s.setInbox { s.inbox d with poisoned := true } d)
    else none
  | .intoSplit => if s.stage = .stream then some { s with stage := .split } else none
  | .drop part => (s.stage.drop part).map fun stage => { s with stage := stage }

/-- The loop of `Poller::serve`. In `waking` it is in `wake_events` and holds the mutex of the slab;
with no event left it frees tokens. -/
inductive Poller where
  | polling
  | polled (batch : List Readiness)
  | waking (rest : List Readiness) (stopped : Bool)
  | ended
  deriving DecidableEq, Repr

/-- The events that `wake_events` has still to process. -/
def Poller.pending : Poller → List Readiness
  | .polled batch => batch
  | .waking rest _ => rest
  | .polling | .ended => []

def Poller.locks : Poller → Bool
  | .waking _ _ => true
  | _ => false

/-- `freeing` is the queue of unused tokens, `poisoned` the mutex of the slab. `sent` lists the calls
of `try_send` in `wake_events`; no operation reads it. -/
structure Registry where
  entries : ℕ → Option Entry
  poisoned : Bool
  freeing : List ℕ
  sockets : List Socket
  poller : Poller
  sent : List (ℕ × Direction)

/-- `failed` is a call whose socket could not be made (or accepted), `send` the second part of
`deregister_event_source`. -/
inductive Event where
  | failed (call : Call)
  | registerEntry (call : Call) (key : ℕ)
  | unregisterEntry (id : ℕ)
  | act (id : ℕ) (action : Action)
  | send (id : ℕ)
  | pollError (interrupted : Bool)
  | poll (batch : List Readiness)
  | lock
  | wake
  | free
  | unlock
  deriving DecidableEq, Repr

def Registry.setSocket (r : Registry) (id : ℕ) (s : Socket) : Registry :=
  { r with sockets := r.sockets.set id s }

/-- `Slab::insert` of the entry of a new socket. -/
def Registry.insert (r : Registry) (call : Call) (key : ℕ) : Registry :=
  { r with
    entries := Function.update r.entries key (some ((Socket.new call key).entry r.sockets.length))
    sockets := r.sockets ++ [Socket.new call key] }

/-- `Slab::remove` and the drop of the entry. A panic in either poisons the mutex. -/
def Registry.remove (r : Registry) (key : ℕ) : Registry :=
  match r.entries key with
  | none => { r with poisoned := true }
  | some entry =>
    { r with
      entries := Function.update r.entries key none
      poisoned := r.poisoned || r.sockets[entry.socket]?.any Socket.poisoned }

/-- `check_readable` and `check_writable`. -/
def Registry.check (r : Registry) (ev : Readiness) (id : ℕ) (d : Direction) : Registry :=
  if ev.wakes d = false ∨ r.poisoned = true then r
  else
    match r.sockets[id]? with
    | none => r
    | some s =>
      match (s.inbox d).trySend with
      | none => { r with poisoned := true }
      | some inbox => { r.setSocket id (s.setInbox inbox d) with sent := r.sent ++ [(id, d)] }

/-- What `wake_events` does with one event that is not the waker's. -/
def Registry.wakeEvent (r : Registry) (ev : Readiness) : Registry :=
  match r.entries ev.token with
  | none => r
  | some (.reader id) => r.check ev id .readable
  | some (.stream id) => (r.check ev id .readable).check ev id .writable

/-- The poller goes on unless it has panicked. -/
def Registry.goOn (r : Registry) (poller : Poller) : Registry :=
  { r with poller := if r.poisoned = true then .ended else poller }

/-- What epoll may report: events of the sockets it watches, and of the waker. -/
def Registry.reports (r : Registry) (ev : Readiness) : Bool :=
  ev.token == WAKER_TOKEN || r.sockets.any fun s => s.stage.watched && s.token == ev.token

/-- The slab picks any vacant key below `usize::MAX`. A call that finds the mutex poisoned unwinds. -/
def step (r : Registry) : Event → Option Registry
  | .failed _ => some r
  | .registerEntry call key =>
    if r.poller.locks = true ∨ key ≥ WAKER_TOKEN ∨ (r.entries key).isSome = true then none
    else if r.poisoned = true then some r
    else some (r.insert call key)
  | .unregisterEntry id =>
    match r.sockets[id]? with
    | some s =>
      if s.stage = .refused ∧ r.poller.locks = false then
        if r.poisoned = true then some (r.setSocket id { s with stage := .abandoned })
        else some ((r.remove s.token).setSocket id { s with stage := .failed })
      else none
    | none => none
  | .act id action =>
    match r.sockets[id]? with
    | some s => (s.act action).map (r.setSocket id)
    | none => none
  | .send id =>
    match r.sockets[id]? with
    | some s =>
      if s.stage = .deregistered then
        some { r.setSocket id { s with stage := .dropped } with freeing := r.freeing ++ [s.token] }
      else none
    | none => none
  | .pollError interrupted =>
    if r.poller = .polling then
      some { r with poller := if interrupted = true then .polling else .ended }
    else none
  | .poll batch =>
    if r.poller = .polling ∧ batch.all r.reports = true then
      some { r with poller := .polled batch }
    else none
  | .lock =>
    match r.poller with
    | .polled batch => some (r.goOn (.waking batch false))
    | _ => none
  | .wake =>
    match r.poller with
    | .waking (ev :: rest) stopped =>
      if ev.token = WAKER_TOKEN then some (r.goOn (.waking rest true))
      else some ((r.wakeEvent ev).goOn (.waking rest stopped))
    | _ => none
  | .free =>
    match r.poller, r.freeing with
    | .waking [] stopped, token :: rest =>
      some (({ r with freeing := rest }.remove token).goOn (.waking [] stopped))
    | _, _ => none
  | .unlock =>
    match r.poller, r.freeing with
    | .waking [] stopped, [] => some { r with poller := if stopped then .ended else .polling }
    | _, _ => none

def system : System Registry Event :=
  ⟨⟨fun _ => none, false, [], [], .polling, []⟩, step⟩

end Net
