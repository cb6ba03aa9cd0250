import Mathlib.Data.Nat.Notation

/-! Types that several components of the runtime exchange. -/
namespace SharedTypes

/-- `coroutine::Status`. -/
inductive CoroutineStatus where
  | running | aborting | cancelling | completed
  deriving DecidableEq, Repr

/-- `coroutine::Status::into_abort`. -/
def CoroutineStatus.intoAbort : CoroutineStatus → CoroutineStatus
  | .running | .aborting => .aborting
  | status => status

/-- `channel::shared::Permit`. -/
inductive Permit where
  | closed | consume
  deriving DecidableEq, Repr

/-- `channel::SendError`. -/
inductive SendError (T : Type*) where
  | closed (value : T)
  deriving DecidableEq, Repr

/-- `channel::TrySendError`. -/
inductive TrySendError (T : Type*) where
  | full (value : T)
  | closed (value : T)
  deriving DecidableEq, Repr

/-- `channel::TryRecvError`. -/
inductive TryRecvError where
  | empty | closed
  deriving DecidableEq, Repr

/-- `impl From<SendError<T>> for TrySendError<T>`. -/
def SendError.toTrySendError {T : Type*} : SendError T → TrySendError T
  | .closed value => .closed value

/-- The value an error hands back to its sender. -/
def TrySendError.value {T : Type*} : TrySendError T → T
  | .full value | .closed value => value

inductive Side where
  | send | recv
  deriving DecidableEq, Repr

/-- The entries of a `select!` slice that are endpoints of the channel at hand; `none` is a
disabled entry or another selectable. -/
abbrev Slice := List (Option Side)

/-- The bound of a channel: `bounded` asserts that it is positive, `unbounded` takes
`usize::MAX`. -/
structure Capacity where
  max : ℕ
  positive : 0 < max

/-- `crate::error::PanicError`, over the payloads `Any` that a panic carries. -/
inductive PanicError (P : Type*) where
  | static (reason : String)
  | unwind (payload : P)
  deriving DecidableEq, Repr

/-- `select::Selector`: the branch it belongs to, the `select!` whose waker it fires, and
the address that identifies the registration. -/
structure Selector where
  index : ℕ
  waker : ℕ
  identifier : ℕ
  deriving DecidableEq, Repr

def Selector.identify (selector : Selector) (identifier : ℕ) : Bool :=
  selector.identifier == identifier

end SharedTypes
