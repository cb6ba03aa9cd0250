import Stuck.PendingTable
import Stuck.TransitionSystem
import Mathlib.Data.Int.Notation
import Mathlib.Order.Basic

/-! The io_uring poller (src/io/poller/uring.rs, linux.rs): the channel of requests, the thread
that batches and submits them, and the kernel. The kernel takes the whole submission queue, and
completes what it has taken in any order, each entry once. -/
namespace Uring

open TransitionSystem PendingTable

/-- A session that waits for the answer of a request. `userData` is its address, which a later
session may get again; `id` tells sessions apart for the proofs, and no operation reads it. -/
structure Session where
  userData : ℕ
  id : ℕ
  deriving DecidableEq, Repr

/-- `Operation`. A `Cancel` names its target by the address alone. -/
inductive Operation where
  | open (path : ℕ) (flags : ℤ) (mode : ℕ)
  | read (fd : ℤ) (buf len : ℕ) (offset : ℤ)
  | write (fd : ℤ) (buf len : ℕ) (offset : ℤ)
  | fsync (fd : ℤ) (onlyData : Bool)
  | cancel (target : Session)
  | truncate (fd : ℤ) (size : ℕ)
  | stat (fd : ℤ) (path metadata : ℕ)
  deriving DecidableEq, Repr

inductive OpCode where
  | open | read | write | fsync | cancel | truncate | stat
  deriving DecidableEq, Repr

def Operation.opCode : Operation → OpCode
  | .open _ _ _ => .open
  | .read _ _ _ _ => .read
  | .write _ _ _ _ => .write
  | .fsync _ _ => .fsync
  | .cancel _ => .cancel
  | .truncate _ _ => .truncate
  | .stat _ _ _ => .stat

def Operation.target? : Operation → Option Session
  | .cancel target => some target
  | _ => none

/-- `result` is the waker of the session. -/
structure Request where
  result : Session
  operation : Operation
  deriving DecidableEq, Repr

/-- The operations of a submission entry, with their arguments. -/
inductive Sqe where
  | openAt (dirfd : ℤ) (path : ℕ) (flags : ℤ) (mode : ℕ)
  | read (fd : ℤ) (buf len offset : ℕ)
  | write (fd : ℤ) (buf len offset : ℕ)
  | fsync (fd : ℤ) (flags : ℕ)
  | statx (fd : ℤ) (path stat flags mask : ℕ)
  | asyncCancel (userData : ℕ)
  deriving DecidableEq, Repr

/-- `session` is whose entry it is; neither the poller nor the kernel reads it. -/
structure Entry where
  sqe : Sqe
  userData : ℕ
  session : ℕ
  deriving DecidableEq, Repr

def atFdcwd : ℤ := -100
def fsyncDatasync : ℕ := 1
def atSymlinkNofollow : ℕ := 256
def atStatxSyncAsStat : ℕ := 0
def atEmptyPath : ℕ := 4096
def statxAll : ℕ := 4095
def ecanceled : ℤ := 125

def asU32 (x : ℕ) : ℕ := (BitVec.ofNat 32 x).toNat

/-- An `isize` as a `u64`. -/
def asU64 (x : ℤ) : ℕ := (BitVec.ofInt 64 x).toNat

/-- `Request::uring_entry`; `unreachable!` is `none`. -/
def Request.uringEntry (request : Request) : Option Entry :=
  let sqe : Option Sqe := match request.operation with
    | .open path flags mode => some (.openAt atFdcwd path flags mode)
    | .read fd buf len offset => some (.read fd buf (asU32 len) (asU64 offset))
    | .write fd buf len offset => some (.write fd buf (asU32 len) (asU64 offset))
    | .fsync fd onlyData => some (.fsync fd (if onlyData then fsyncDatasync else 0))
    | .stat fd path metadata => some (.statx fd path metadata
        (atSymlinkNofollow ||| atStatxSyncAsStat ||| atEmptyPath) statxAll)
    | .truncate _ _ => none
    | .cancel target => some (.asyncCancel target.userData)
  sqe.map fun sqe => ⟨sqe, request.result.userData, request.result.id⟩

/-- An entry of the completion queue; the poller reads the `user_data` of its entry. -/
structure Completion where
  entry : Entry
  result : ℤ
  deriving DecidableEq, Repr

/-- `Result<i32>`; an error is its `errno`. -/
abbrev Answer := Except ℤ ℤ

def Completion.answer (completion : Completion) : Answer :=
  if completion.result < 0 then .error (-completion.result) else .ok completion.result

/-- The thread between two selects, inside the loop of `submit` over the channel, and between
`IoUring::submit` and `consume`. -/
inductive Control where
  | idle
  | receiving (max : ℕ)
  | submitted
  deriving DecidableEq, Repr

/-- A panic of the thread. -/
inductive Crash where
  | truncate
  | full
  | unknown
  deriving DecidableEq, Repr

/-- `received`, `submitted` and `woken` record the requests taken from the channel, the entries
given to the kernel and the wakes; no operation reads them. -/
structure State where
  channel : List Request
  pool : List Request
  entries : List Entry
  requests : AList fun _ : ℕ => Request
  submission : List Entry
  control : Control
  inFlight : List Entry
  completions : List Completion
  received : List Request
  submitted : List Entry
  woken : List (ℕ × Answer)
  crash : Option Crash

def State.new : State where
  channel := []
  pool := []
  entries := []
  requests := ∅
  submission := []
  control := .idle
  inFlight := []
  completions := []
  received := []
  submitted := []
  woken := []
  crash := none

def submissionCapacity : ℕ := 4096

def State.wake (s : State) (waker : Session) (answer : Answer) : State :=
  { s with woken := s.woken ++ [(waker.id, answer)] }

/-- The end of `State::push`. -/
def State.register (s : State) (request : Request) : State :=
  match request.uringEntry with
  | some entry =>
    { s with requests := s.requests.insert request.result.userData request,
             entries := s.entries ++ [entry] }
  | none => { s with crash := some .truncate }

/-- `State::push`. -/
def State.push (s : State) (request : Request) : State :=
  match request.operation with
  | .cancel target =>
    match s.requests.lookup target.userData with
    | none => s.wake request.result (.ok 0)
    | some cancelled =>
      match s.entries.findIdx? fun entry => entry.userData = target.userData with
      | some i =>
        let s := s.wake request.result (.ok 0)
        let s := { s with entries := swapRemove s.entries i,
                          requests := s.requests.erase target.userData }
        s.wake cancelled.result (.error ecanceled)
      | none => s.register request
  | _ => s.register request

/-- `push_multiple`, `entries.clear()` and `IoUring::submit`, which succeeds and takes the whole
queue; the code unwraps it. -/
def State.flush (s : State) : State :=
  if s.entries.length ≤ submissionCapacity - s.submission.length then
    let queue := s.submission ++ s.entries
    { s with submission := [], entries := [], control := .submitted,
             inFlight := s.inFlight ++ queue, submitted := s.submitted ++ queue }
  else { s with crash := some .full }

/-- The body of the loop of `Uring::consume`. -/
def State.collect (s : State) (completion : Completion) : State :=
  match s.requests.lookup completion.entry.userData with
  | some request =>
    { s with requests := s.requests.erase completion.entry.userData }.wake request.result
      completion.answer
  | none => { s with crash := some .unknown }

/-- `Uring::consume`. Its read of 8 bytes of the eventfd into an array of none is left out. -/
def State.consume (s : State) : State :=
  s.completions.foldl State.collect { s with completions := [], control := .idle }

/-- `Uring::is_empty`. -/
def State.isEmpty (s : State) : Bool := s.requests.entries.isEmpty

/-- `Requester::send`. -/
def State.send (s : State) (request : Request) : State :=
  if request.operation.opCode = .truncate then { s with pool := s.pool ++ [request] }
  else { s with channel := s.channel ++ [request] }

/-- `Requester::cancel` up to the wait; the pool ignores cancels. -/
def State.cancel (s : State) (opcode : OpCode) (target waker : Session) : State :=
  if opcode = .truncate then s
  else { s with channel := s.channel ++ [⟨waker, .cancel target⟩] }

/-- All requests that were ever sent to the thread. -/
def State.sent (s : State) : List Request := s.received ++ s.channel

def State.wokenIds (s : State) : List ℕ := s.woken.map Prod.fst

/-- The requests without an answer, in the channel or beyond it. -/
def State.outstanding (s : State) : List Request :=
  s.sent.filter fun request => request.result.id ∉ s.wokenIds

/-- What the callers keep to: every request has a session of its own, at an address that neither
another outstanding request nor the target of an outstanding cancel has; a cancel follows its
target, whose address is still its own. -/
def State.Admits (s : State) (request : Request) : Prop :=
  (∀ q ∈ s.sent, q.result.id ≠ request.result.id) ∧
  (∀ q ∈ s.outstanding, q.result.userData ≠ request.result.userData ∧
    ∀ target ∈ q.operation.target?, target.userData ≠ request.result.userData) ∧
  ∀ target ∈ request.operation.target?, target.userData ≠ request.result.userData ∧
    (∃ q ∈ s.sent, q.result = target) ∧
    ∀ q ∈ s.outstanding, q.result.userData = target.userData → q.result = target

instance (s : State) (request : Request) : Decidable (s.Admits request) :=
  inferInstanceAs (Decidable (_ ∧ _ ∧ _))

/-- `send` and `cancel` are the callers, `complete` is the kernel, and the rest are the steps of
`Uring::submit` and `consume`. -/
inductive Event where
  | send (request : Request)
  | cancel (opcode : OpCode) (target waker : Session)
  | receive
  | tryRecv
  | flush
  | complete (i : ℕ) (result : ℤ)
  | consume
  deriving DecidableEq, Repr

/-- `submit` gets a request from `select!` and takes more from the channel while there is room.
`try_recv` may find nothing at any time, so `flush` may end the batch at any length. -/
def State.step (s : State) : Event → Option State
  | .send request =>
    if request.operation.opCode = .truncate ∨ s.Admits request then some (s.send request)
    else none
  | .cancel opcode target waker =>
    if opcode = .truncate ∨ s.Admits ⟨waker, .cancel target⟩ then
      some (s.cancel opcode target waker)
    else none
  | .receive =>
    match s.control, s.channel with
    | .idle, request :: rest =>
      let max := submissionCapacity - s.submission.length
      some ({ s with channel := rest, received := s.received ++ [request],
                     control := .receiving max }.push request)
    | _, _ => none
  | .tryRecv =>
    match s.control, s.channel with
    | .receiving max, request :: rest =>
      if s.entries.length < max then
        some ({ s with channel := rest, received := s.received ++ [request] }.push request)
      else none
    | _, _ => none
  | .flush =>
    match s.control with
    | .receiving _ => some s.flush
    | _ => none
  | .complete i result =>
    match s.inFlight[i]? with
    | some entry => some { s with inFlight := s.inFlight.eraseIdx i,
                                  completions := s.completions ++ [⟨entry, result⟩] }
    | none => none
  | .consume =>
    match s.control with
    | .idle | .submitted => some s.consume
    | .receiving _ => none

def system : System State Event where
  init := .new
  step := State.step

end Uring
