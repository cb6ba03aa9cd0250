import Stuck.EdgeTrigger
import Stuck.UringRequests

/-! The thread of the io_uring poller, `Poller::serve` (src/io/poller/linux.rs), with its eventfd:
the kernel notes an answer in the eventfd after it has put it into the completion queue, the poller
of src/net/mod.rs turns the edge into a signal of the channel `readable`, and `Uring::consume` reads
the eventfd before it looks at the queue. `IoUring::submit` succeeds and takes the whole queue, and
the 8 bytes that the read of the eventfd writes into an empty array are left out. `Runtime::drop`
joins the thread before it stops that poller. -/
namespace Uring

open TransitionSystem EdgeTrigger

/-- Whether the thread is not in `Uring::consume`, is about to read the eventfd there, or is about
to go through the completion queue. -/
inductive Stage where
  | outside
  | consuming
  | collecting
  deriving DecidableEq, Repr

/-- `posted` counts the completions that the kernel has yet to note in the eventfd. `stopping` says
that the channel `closing` is closed and `heard` that the thread has seen it (`is_drained`);
`closed` and `drained` are the same for the channel of requests. -/
structure Service where
  uring : State
  stage : Stage
  eventfd : Bool
  posted : ℕ
  readable : Line
  stopping : Bool
  heard : Bool
  closed : Bool
  drained : Bool
  ended : Bool

def Service.new : Service where
  uring := .new
  stage := .outside
  eventfd := false
  posted := 0
  readable := .new
  stopping := false
  heard := false
  closed := false
  drained := false
  ended := false

/-- The bound of the channel that `register_reader` makes. -/
def readableBound : ℕ := 2

/-- The condition of the `while` is false. -/
def Service.finished (s : Service) : Bool := s.uring.isEmpty && s.drained

/-- The thread is at the top of its loop. -/
def Service.AtTop (s : Service) : Prop :=
  s.ended = false ∧ s.stage = .outside ∧ s.uring.control = .idle

/-- The thread is in `select!`. -/
def Service.Selecting (s : Service) : Prop := s.AtTop ∧ s.finished = false

instance (s : Service) : Decidable s.AtTop := inferInstanceAs (Decidable (_ ∧ _))

instance (s : Service) : Decidable s.Selecting := inferInstanceAs (Decidable (_ ∧ _))

/-- A call that the pool serves instead. -/
def Event.pooled : Event → Bool
  | .send request => request.operation.opCode = .truncate
  | .cancel opcode _ _ => opcode = .truncate
  | _ => false

/-- `call` is `Requester::send` or `cancel`, `leave` the drop of the last `Requester`, `stop` is
`Stopper::stop`, and `spurious` an edge that no completion is behind. The kernel completes a
request, `inline` in `IoUring::submit` or else with a note in the eventfd (`signal`). `collect` and
`deliver` are the poller, and the rest is the thread: a branch of `select!` (`receive`, `hear`,
`take`), a part of `submit` or `consume`, or the end of the loop. -/
inductive ServeEvent where
  | call (event : Event)
  | leave
  | stop
  | spurious
  | complete (i : ℕ) (result : ℤ) (inline : Bool)
  | signal
  | collect (readable : Bool)
  | deliver
  | receive
  | hear
  | take
  | tryRecv
  | flush
  | read
  | consume
  | finish
  deriving DecidableEq, Repr

/-- The event comes from neither the thread nor the kernel. -/
def ServeEvent.foreign : ServeEvent → Bool
  | .call _ | .leave | .stop | .spurious => true
  | _ => false

def Service.lift (s : Service) (event : Event) (stage : Stage) : Option Service :=
  (s.uring.step event).map fun uring => { s with uring, stage }

/-- The thread receives from the channel of requests with the event, or finds it at its end. -/
def Service.recv (s : Service) (event : Event) : Option Service :=
  if s.drained then none
  else if s.uring.channel = [] then if s.closed then some { s with drained := true } else none
  else s.lift event s.stage

def Service.step (s : Service) : ServeEvent → Option Service
  | .call event =>
    if event.isCall ∧ (s.closed = false ∨ event.pooled) then s.lift event s.stage else none
  | .leave => some { s with closed := true }
  | .stop => some { s with stopping := true }
  | .spurious => some { s with readable := s.readable.raise }
  | .complete i result inline =>
    if inline = true ∧ ¬ (s.stage = .consuming ∧ s.uring.control = .submitted) then none
    else (s.uring.step (.complete i result)).map fun uring =>
      { s with uring, posted := if inline then s.posted else s.posted + 1 }
  | .signal =>
    if 0 < s.posted then
      some { s with posted := s.posted - 1, eventfd := true, readable := s.readable.raise }
    else none
  | .collect readable =>
    if s.readable.edge = true ∧ (s.eventfd = true → readable = true) then
      some { s with readable := s.readable.collect readable.toNat }
    else none
  | .deliver =>
    if 0 < s.readable.transit then
      some { s with readable := s.readable.deliver readableBound }
    else none
  | .receive => if s.Selecting then s.recv .receive else none
  | .hear =>
    if s.Selecting ∧ s.heard = false ∧ s.stopping = true then
      some { s with heard := true, closed := s.closed || !s.drained }
    else none
  | .take =>
    if s.Selecting ∧ 0 < s.readable.signals then
      some { s with readable := s.readable.take, stage := .consuming }
    else none
  | .tryRecv =>
    match s.uring.control with
    | .receiving max => if s.uring.entries.length < max then s.recv .tryRecv else none
    | _ => none
  | .flush => s.lift .flush .consuming
  | .read =>
    if s.stage = .consuming then some { s with stage := .collecting, eventfd := false } else none
  | .consume => if s.stage = .collecting then s.lift .consume .outside else none
  | .finish => if s.AtTop ∧ s.finished = true then some { s with ended := true } else none

def service : System Service ServeEvent where
  init := .new
  step := Service.step

variable {s t : Service}

/-- What an event does, and when it can happen. The thread, the kernel and the callers act on the
ring as in `Uring.system`, and no other event touches it. -/
inductive Serves (s : Service) : ServeEvent → Service → Prop where
  | called {event : Event} {uring : State} (call : event.isCall = true)
    (accepted : s.closed = false ∨ event.pooled = true)
    (fires : system.step s.uring event = some uring) : Serves s (.call event) { s with uring }
  | left : Serves s .leave { s with closed := true }
  | stopped : Serves s .stop { s with stopping := true }
  | spurious : Serves s .spurious { s with readable := s.readable.raise }
  | completed {i : ℕ} {result : ℤ} {uring : State}
    (fires : system.step s.uring (.complete i result) = some uring) :
    Serves s (.complete i result false) { s with uring, posted := s.posted + 1 }
  | inlined {i : ℕ} {result : ℤ} {uring : State} (consuming : s.stage = .consuming)
    (submitted : s.uring.control = .submitted)
    (fires : system.step s.uring (.complete i result) = some uring) :
    Serves s (.complete i result true) { s with uring }
  | signalled (posted : 0 < s.posted) : Serves s .signal
      { s with posted := s.posted - 1, eventfd := true, readable := s.readable.raise }
  | collected {readable : Bool} (edge : s.readable.edge = true)
    (told : s.eventfd = true → readable = true) :
    Serves s (.collect readable) { s with readable := s.readable.collect readable.toNat }
  | delivered (transit : 0 < s.readable.transit) :
    Serves s .deliver { s with readable := s.readable.deliver readableBound }
  | received {uring : State} (selecting : s.Selecting) (open' : s.drained = false)
    (fires : system.step s.uring .receive = some uring) : Serves s .receive { s with uring }
  | triedRecv {uring : State} (open' : s.drained = false)
    (fires : system.step s.uring .tryRecv = some uring) : Serves s .tryRecv { s with uring }
  | drained {event : ServeEvent} (own : event.foreign = false) (open' : s.drained = false)
    (empty : s.uring.channel = []) (closed : s.closed = true) :
    Serves s event { s with drained := true }
  | heard (selecting : s.Selecting) (unheard : s.heard = false) (stopping : s.stopping = true) :
    Serves s .hear { s with heard := true, closed := s.closed || !s.drained }
  | taken (selecting : s.Selecting) (signals : 0 < s.readable.signals) :
    Serves s .take { s with readable := s.readable.take, stage := .consuming }
  | flushed {uring : State} (fires : system.step s.uring .flush = some uring) :
    Serves s .flush { s with uring, stage := .consuming }
  | read (consuming : s.stage = .consuming) :
    Serves s .read { s with stage := .collecting, eventfd := false }
  | consumed {uring : State} (collecting : s.stage = .collecting)
    (fires : system.step s.uring .consume = some uring) :
    Serves s .consume { s with uring, stage := .outside }
  | ended (top : s.AtTop) (finished : s.finished = true) : Serves s .finish { s with ended := true }

theorem lift_eq_some {event : Event} {stage : Stage} (h : s.lift event stage = some t) :
    ∃ uring, system.step s.uring event = some uring ∧ t = { s with uring, stage } := by
  obtain ⟨uring, hu, rfl⟩ := Option.map_eq_some_iff.mp h
  exact ⟨uring, hu, rfl⟩

theorem recv_serves {event : Event} {e : ServeEvent} (own : e.foreign = false)
    (h : s.recv event = some t)
    (hs : ∀ uring, s.drained = false → system.step s.uring event = some uring →
      Serves s e { s with uring }) : Serves s e t := by
  unfold Service.recv at h
  obtain ⟨hopen, h⟩ := Option.ite_none_left_eq_some.mp h
  have hd := Bool.eq_false_iff.mpr hopen
  by_cases hc : s.uring.channel = []
  · rw [if_pos hc] at h
    obtain ⟨hclosed, ⟨⟩⟩ := Option.ite_none_right_eq_some.mp h
    exact .drained own hd hc hclosed
  · rw [if_neg hc] at h
    obtain ⟨uring, hu, rfl⟩ := lift_eq_some h
    exact hs uring hd hu

theorem service_serves {e : ServeEvent} (h : service.step s e = some t) : Serves s e t := by
  change s.step e = some t at h
  cases e with
  | call event =>
    obtain ⟨⟨hc, ha⟩, hl⟩ := Option.ite_none_right_eq_some.mp h
    obtain ⟨uring, hu, rfl⟩ := lift_eq_some hl
    exact .called hc ha hu
  | leave => cases h; exact .left
  | stop => cases h; exact .stopped
  | spurious => cases h; exact .spurious
  | complete i result inline =>
    obtain ⟨hi, hm⟩ := Option.ite_none_left_eq_some.mp h
    obtain ⟨uring, hu, rfl⟩ := Option.map_eq_some_iff.mp hm
    cases inline with
    | false => exact .completed hu
    | true =>
      obtain ⟨hs, hc⟩ := not_not.mp (not_and.mp hi rfl)
      exact .inlined hs hc hu
  | signal =>
    obtain ⟨hp, ⟨⟩⟩ := Option.ite_none_right_eq_some.mp h
    exact .signalled hp
  | collect readable =>
    obtain ⟨⟨he, ht⟩, ⟨⟩⟩ := Option.ite_none_right_eq_some.mp h
    exact .collected he ht
  | deliver =>
    obtain ⟨ht, ⟨⟩⟩ := Option.ite_none_right_eq_some.mp h
    exact .delivered ht
  | receive =>
    obtain ⟨hs, hr⟩ := Option.ite_none_right_eq_some.mp h
    exact recv_serves rfl hr fun uring hd hu => .received hs hd hu
  | hear =>
    obtain ⟨⟨hs, hh, hst⟩, ⟨⟩⟩ := Option.ite_none_right_eq_some.mp h
    exact .heard hs hh hst
  | take =>
    obtain ⟨⟨hs, hp⟩, ⟨⟩⟩ := Option.ite_none_right_eq_some.mp h
    exact .taken hs hp
  | tryRecv =>
    simp only [Service.step] at h
    split at h
    · obtain ⟨_, hr⟩ := Option.ite_none_right_eq_some.mp h
      exact recv_serves rfl hr fun uring hd hu => .triedRecv hd hu
    · cases h
  | flush =>
    obtain ⟨uring, hu, rfl⟩ := lift_eq_some h
    exact .flushed hu
  | read =>
    obtain ⟨hs, ⟨⟩⟩ := Option.ite_none_right_eq_some.mp h
    exact .read hs
  | consume =>
    obtain ⟨hs, hl⟩ := Option.ite_none_right_eq_some.mp h
    obtain ⟨uring, hu, rfl⟩ := lift_eq_some hl
    exact .consumed hs hu
  | finish =>
    obtain ⟨⟨ht, hf⟩, ⟨⟩⟩ := Option.ite_none_right_eq_some.mp h
    exact .ended ht hf

end Uring
