import Stuck.TransitionSystem
import Mathlib.Logic.Function.Basic

/-! The timer of the runtime (src/time.rs): a timing wheel over wrapping `u64` arithmetic, with
a ring of one list for each of the next 2^14 ticks and five rings of 2^10 lists above it.
A failed assertion or an index out of range is `none`. -/
namespace Time

open TransitionSystem

def timeLeastShift : UInt64 := 14
def timeLeastValue : UInt64 := 1 <<< timeLeastShift
def timeLeastMask : UInt64 := timeLeastValue - 1

def timeLevelCount : ℕ := 5
def timeLevelShift : UInt64 := 10
def timeLevelValue : UInt64 := 1 <<< timeLevelShift
def timeLevelMask : UInt64 := timeLevelValue - 1

/-- A node of a list; `session` is a `SessionWaker<()>`. -/
structure Node (σ : Type*) where
  expire : UInt64
  session : σ
  deriving DecidableEq, Repr

/-- `woken` records each wake of a session with the time of its tick; no operation reads it. -/
structure Timer (σ : Type*) where
  time : UInt64
  least : ℕ → List (Node σ)
  level : ℕ → ℕ → List (Node σ)
  woken : List (UInt64 × σ)

variable {σ : Type*}

def Timer.new (σ : Type*) : Timer σ where
  time := 0
  least _ := []
  level _ _ := []
  woken := []

/-- The place of a list in the two arrays. -/
inductive Slot where
  | least (index : ℕ)
  | level (level index : ℕ)
  deriving DecidableEq, Repr

def Slot.inRange : Slot → Bool
  | .least index => decide (index < timeLeastValue.toNat)
  | .level i index => decide (i < timeLevelCount ∧ index < timeLevelValue.toNat)

def Timer.list (t : Timer σ) : Slot → List (Node σ)
  | .least index => t.least index
  | .level i index => t.level i index

def Timer.setList (t : Timer σ) (list : List (Node σ)) : Slot → Timer σ
  | .least index => { t with least := Function.update t.least index list }
  | .level i index =>
    { t with level := Function.update t.level i (Function.update (t.level i) index list) }

/-- `List::insert`. -/
def Timer.insert (t : Timer σ) (slot : Slot) (node : Node σ) : Option (Timer σ) :=
  if slot.inRange then some (t.setList (t.list slot ++ [node]) slot) else none

/-- `List::clear`. -/
def Timer.clear (t : Timer σ) (slot : Slot) : Option (List (Node σ) × Timer σ) :=
  if slot.inRange then some (t.list slot, t.setList [] slot) else none

/-- The loop of `Timer::queue_node`. `rest` is how often the level can still be increased before
the assertion fails. -/
def farSlot (expire time : UInt64) (rest level : ℕ) (exp2 : UInt64) : Option Slot :=
  let exp2 := exp2 <<< timeLevelShift
  let mask := exp2 - 1
  if expire ||| mask = time ||| mask then
    let shift := timeLeastShift + UInt64.ofNat level * timeLevelShift
    let value := (expire >>> shift) &&& timeLevelMask
    let index := (value - 1).toNat
    some (.level level index)
  else match rest with
    | 0 => none
    | rest + 1 => farSlot expire time rest (level + 1) exp2

def Timer.queueNode (t : Timer σ) (node : Node σ) : Option (Timer σ) :=
  if node.expire - t.time < timeLeastValue then
    t.insert (.least (node.expire &&& timeLeastMask).toNat) node
  else
    (farSlot node.expire t.time timeLevelCount 0 (1 <<< timeLeastShift)).bind
      fun slot => t.insert slot node

def Timer.queueList (t : Timer σ) (list : List (Node σ)) : Option (Timer σ) :=
  list.foldlM Timer.queueNode t

/-- The loop of `Timer::tick` over the digits of the time. -/
def turnedSlot (rest level : ℕ) (time : UInt64) : Option Slot :=
  let value := time &&& timeLevelMask
  if value ≠ 0 then
    let index := (value - 1).toNat
    some (.level level index)
  else match rest with
    | 0 => none
    | rest + 1 => turnedSlot rest (level + 1) (time >>> timeLevelShift)

/-- A list comes down when the digits below its own have turned over. -/
def Timer.cascade (t : Timer σ) : Option (Timer σ) :=
  if t.time &&& timeLeastMask = 0 then
    (turnedSlot timeLevelCount 0 (t.time >>> timeLeastShift)).bind fun slot =>
      (t.clear slot).bind fun (list, t) => t.queueList list
  else some t

def Timer.wake (t : Timer σ) (list : List (Node σ)) : Timer σ :=
  { t with woken := t.woken ++ list.map fun node => (t.time, node.session) }

def Timer.tick (t : Timer σ) : Option (Timer σ) :=
  { t with time := t.time + 1 }.cascade.bind fun t =>
    (t.clear (.least (t.time &&& timeLeastMask).toNat)).map fun (list, t) => Timer.wake t list

/-- The loop of `Timer::update`; the ticks it can take are counted down. -/
def Timer.tickTo (time : UInt64) : ℕ → Timer σ → Option (Timer σ)
  | 0, t => some t
  | ticks + 1, t => if t.time < time then t.tick.bind (Timer.tickTo time ticks) else some t

def Timer.update (t : Timer σ) (time : UInt64) : Option (Timer σ) :=
  t.tickTo time (time.toNat - t.time.toNat)

def Timer.timeout (t : Timer σ) (timeout : UInt64) (session : σ) : Option (Timer σ) :=
  t.queueNode ⟨t.time + timeout, session⟩

inductive Op (σ : Type*) where
  | timeout (timeout : UInt64) (session : σ)
  | update (time : UInt64)
  deriving DecidableEq, Repr

def Timer.step (t : Timer σ) : Op σ → Option (Timer σ)
  | .timeout timeout session => t.timeout timeout session
  | .update time => t.update time

def system (σ : Type*) : System (Timer σ) (Op σ) where
  init := .new σ
  step := Timer.step

end Time
