import Stuck.OneShot
import Stuck.SharedTypes
import Mathlib.Data.List.Basic
import Mathlib.Data.List.Count

/-! The parker of a plain thread that runs a `select!` (src/select/thread.rs). Each section under
the mutex is one step, `thread::park` is a step of its own, and other code may set the token of
the thread or use it up while the thread is not in `park`. -/
namespace ThreadParker

open TransitionSystem OneShot SharedTypes

/-- `Value<T>`. -/
inductive Value (α P : Type*) where
  | empty
  | ready (value : α)
  | panic (error : PanicError P)
  | joined
  | cancelled
  deriving DecidableEq, Repr

/-- An `Unparker`. `unparking` is inside `unpark` and before its lock; `answered` keeps what
`unpark` was called with and what it returned. -/
inductive Handle (α : Type*) where
  | held
  | unparking (value : α)
  | answered (value : α) (result : Bool)
  | dropped
  deriving DecidableEq, Repr

/-- The `Parker`. `passing` is before the lock of a pass of the loop, `parked` after the unlock of
a pass that found nothing. -/
inductive Stage (α P : Type*) where
  | owned
  | passing
  | parked
  | returned (value : α)
  | panicked (error : PanicError P)
  | dropped
  deriving DecidableEq, Repr

/-- Panics that no caller has asked for. -/
inductive Crash where
  | joined
  | cancelled
  | underflow
  | poisoned
  deriving DecidableEq, Repr

structure State (α P : Type*) where
  unparkers : ℕ
  value : Value α P
  poisoned : Bool
  token : Bool
  stage : Stage α P
  handles : List (Handle α)
  crash : Option Crash
  deriving DecidableEq, Repr

variable {α P : Type*}

/-- `parker()`. -/
def State.new (α P : Type*) : State α P where
  unparkers := 1
  value := .empty
  poisoned := false
  token := false
  stage := .owned
  handles := [.held]
  crash := none

def Value.isEmpty : Value α P → Bool
  | .empty => true
  | _ => false

def Value.isSet : Value α P → Bool
  | .ready _ | .panic _ => true
  | _ => false

def Stage.isOwned : Stage α P → Bool
  | .owned => true
  | _ => false

def Stage.isPassing : Stage α P → Bool
  | .passing => true
  | _ => false

def Stage.isParked : Stage α P → Bool
  | .parked => true
  | _ => false

/-- The thread runs the loop of `Parker::park`. -/
def Stage.inPark (stage : Stage α P) : Bool := stage.isPassing || stage.isParked

def allDropped : PanicError P := .static "all unparkers dropped"

/-- `self.state.lock().unwrap()` and the section behind it. -/
def State.lock (s : State α P) (locked : State α P) : State α P :=
  if s.poisoned then { s with crash := some .poisoned } else locked

/-- A pass of the loop in `Parker::park`. A panic unwinds with the guard and poisons the mutex. -/
def State.pass (s : State α P) : State α P :=
  let value := s.value
  let s := { s with value := .joined }
  match value with
  | .empty => { s with value := .empty, stage := .parked }
  | .joined => { s with poisoned := true, crash := some .joined }
  | .cancelled => { s with poisoned := true, crash := some .cancelled }
  | .ready value => { s with stage := .returned value }
  | .panic error => { s with poisoned := true, stage := .panicked error }

/-- `Parker::drop`. -/
def State.dropParker (s : State α P) : State α P :=
  let s := { s with stage := .dropped }
  if s.value.isEmpty then { s with value := .cancelled } else s

/-- `Unparker::unpark` from its lock on. -/
def State.unpark (s : State α P) (h : ℕ) (value : α) : State α P :=
  match s.value with
  | .empty =>
    { s with value := .ready value, token := true, handles := s.handles.set h (.answered value true) }
  | _ => { s with handles := s.handles.set h (.answered value false) }

/-- `Unparker::drop`. -/
def State.dropUnparker (s : State α P) (h : ℕ) : State α P :=
  if s.unparkers = 0 then { s with poisoned := true, crash := some .underflow }
  else
    let s := { s with unparkers := s.unparkers - 1, handles := s.handles.set h .dropped }
    if s.unparkers = 0 ∧ s.value.isEmpty then { s with value := .panic allDropped, token := true }
    else s

/-- `Unparker::clone`. -/
def State.clone (s : State α P) : State α P :=
  { s with unparkers := s.unparkers + 1, handles := s.handles ++ [.held] }

inductive Event (α : Type*) where
  | clone (h : ℕ)
  | call (h : ℕ) (value : α)
  | unpark (h : ℕ)
  | dropUnparker (h : ℕ)
  | isReady
  | park
  | pass
  | unparked
  | spurious
  | dropParker
  | stray
  | spend
  deriving DecidableEq, Repr

def State.step (s : State α P) : Event α → Option (State α P)
  | .clone h =>
    match s.handles[h]? with
    | some .held => some (s.lock s.clone)
    | _ => none
  | .call h value =>
    match s.handles[h]? with
    | some .held => some { s with handles := s.handles.set h (.unparking value) }
    | _ => none
  | .unpark h =>
    match s.handles[h]? with
    | some (.unparking value) => some (s.lock (s.unpark h value))
    | _ => none
  | .dropUnparker h =>
    match s.handles[h]? with
    | some .held => some (s.lock (s.dropUnparker h))
    | _ => none
  | .isReady => if s.stage.isOwned then some (s.lock s) else none
  | .park => if s.stage.isOwned then some { s with stage := .passing } else none
  | .pass => if s.stage.isPassing then some (s.lock s.pass) else none
  | .unparked =>
    if s.stage.isParked ∧ s.token then some { s with token := false, stage := .passing } else none
  | .spurious => if s.stage.isParked then some { s with stage := .passing } else none
  | .dropParker => if s.stage.isOwned then some (s.lock s.dropParker) else none
  | .stray => some { s with token := true }
  | .spend => if s.stage.inPark then none else some { s with token := false }

def system (α P : Type*) : System (State α P) (Event α) where
  init := .new α P
  step := State.step

theorem Stage.isOwned_iff {stage : Stage α P} : stage.isOwned = true ↔ stage = .owned := by
  cases stage <;> simp [Stage.isOwned]

theorem Stage.isPassing_iff {stage : Stage α P} : stage.isPassing = true ↔ stage = .passing := by
  cases stage <;> simp [Stage.isPassing]

theorem Stage.isParked_iff {stage : Stage α P} : stage.isParked = true ↔ stage = .parked := by
  cases stage <;> simp [Stage.isParked]

/-- What an event does, and when it can happen. -/
inductive Moves (s : State α P) : Event α → State α P → Prop where
  | clone {h : ℕ} (held : s.handles[h]? = some .held) : Moves s (.clone h) (s.lock s.clone)
  | call {h : ℕ} {value : α} (held : s.handles[h]? = some .held) :
    Moves s (.call h value) { s with handles := s.handles.set h (.unparking value) }
  | unpark {h : ℕ} {value : α} (calling : s.handles[h]? = some (.unparking value)) :
    Moves s (.unpark h) (s.lock (s.unpark h value))
  | dropUnparker {h : ℕ} (held : s.handles[h]? = some .held) :
    Moves s (.dropUnparker h) (s.lock (s.dropUnparker h))
  | isReady (owned : s.stage = .owned) : Moves s .isReady (s.lock s)
  | park (owned : s.stage = .owned) : Moves s .park { s with stage := .passing }
  | pass (passing : s.stage = .passing) : Moves s .pass (s.lock s.pass)
  | unparked (parked : s.stage = .parked) (token : s.token = true) :
    Moves s .unparked { s with token := false, stage := .passing }
  | spurious (parked : s.stage = .parked) : Moves s .spurious { s with stage := .passing }
  | dropParker (owned : s.stage = .owned) : Moves s .dropParker (s.lock s.dropParker)
  | stray : Moves s .stray { s with token := true }
  | spend (elsewhere : s.stage.inPark = false) : Moves s .spend { s with token := false }

theorem step_moves {s t : State α P} {e : Event α} (hstep : (system α P).step s e = some t) :
    Moves s e t := by
  change s.step e = some t at hstep
  cases e with
  | clone h | call h value | unpark h | dropUnparker h =>
    simp only [State.step] at hstep
    split at hstep
    · cases hstep
      constructor
      assumption
    · cases hstep
  | isReady | park | dropParker =>
    simp only [State.step] at hstep
    split at hstep
    · cases hstep
      constructor
      exact Stage.isOwned_iff.mp (by assumption)
    · cases hstep
  | pass =>
    simp only [State.step] at hstep
    split at hstep
    · cases hstep
      exact .pass (Stage.isPassing_iff.mp (by assumption))
    · cases hstep
  | spurious =>
    simp only [State.step] at hstep
    split at hstep
    · cases hstep
      exact .spurious (Stage.isParked_iff.mp (by assumption))
    · cases hstep
  | unparked =>
    simp only [State.step] at hstep
    split at hstep
    case isTrue hp =>
      cases hstep
      exact .unparked (Stage.isParked_iff.mp hp.1) hp.2
    · cases hstep
  | stray =>
    cases hstep
    exact .stray
  | spend =>
    simp only [State.step] at hstep
    split at hstep
    · cases hstep
    case isFalse hp =>
      cases hstep
      exact .spend (by simpa using hp)

end ThreadParker
