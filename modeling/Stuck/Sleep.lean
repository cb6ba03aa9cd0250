import Stuck.TimeExact
import Mathlib.Data.Rat.Floor
import Mathlib.Tactic.Linarith

/-! `sleep`, the ticker thread and the timer task (src/time.rs). Real time is rational, in
milliseconds, and passes between any two events. The ticker samples it at instants at least one
millisecond apart, the message channel is first in first out, and the timer task takes the next
message or the next tick whenever it likes. -/
namespace Sleep

open TransitionSystem Time

/-- `std::time::Duration`. -/
structure Duration where
  secs : UInt64
  nanos : ℕ
  subsec : nanos < 1000000000
  deriving DecidableEq, Repr

/-- The length in milliseconds. -/
def Duration.length (d : Duration) : ℚ := d.secs.toNat * 1000 + d.nanos / 1000000

/-- `Duration::as_millis`, a `u128`. -/
def Duration.asMillis (d : Duration) : ℕ := d.secs.toNat * 1000 + d.nanos / 1000000

inductive Message where
  | timeout (timeout : UInt64) (session : ℕ)
  | updateTime (time : UInt64)
  | stop
  deriving DecidableEq, Repr

/-- One call of `sleep`, with the instant it was issued at. -/
inductive Call where
  | unused
  | issued (instant : ℚ) (duration : Duration)
  | waiting (instant : ℚ) (duration : Duration)
  | yielding (instant : ℚ) (duration : Duration)
  | woken (instant : ℚ) (duration : Duration) (wake : ℚ)
  | panicked
  deriving DecidableEq, Repr

/-- `started`, `sampled`, `time` and `ticking` belong to the ticker: when it started, when it last
sampled, the time it last sent, and whether it still runs. `timer` is gone once its task has
panicked, and `target` is the argument of the `update` it is in or has left. -/
structure Config where
  now : ℚ
  started : ℚ
  sampled : ℚ
  time : UInt64
  ticking : Bool
  queue : List Message
  closed : Bool
  timer : Option (Timer ℕ)
  target : UInt64
  calls : ℕ → Call
  created : ℕ

def initial (boot started : ℚ) : Config where
  now := boot
  started := started
  sampled := started
  time := 0
  ticking := true
  queue := []
  closed := false
  timer := some (.new ℕ)
  target := 0
  calls _ := .unused
  created := 0

def Config.begin (c : Config) (call : Call) : Config :=
  { c with calls := Function.update c.calls c.created call, created := c.created + 1 }

def Config.finish (c : Config) (i : ℕ) (call : Call) : Config :=
  { c with calls := Function.update c.calls i call }

/-- `start.elapsed().as_millis() as u64`. -/
def Config.elapsed (c : Config) : UInt64 := UInt64.ofNat ⌊c.now - c.started⌋₊

/-- One round of the loop of `tickr`. -/
def Config.sample (c : Config) : Option Config :=
  if c.ticking = true ∧ c.sampled + 1 ≤ c.now then
    let d := { c with sampled := c.now }
    if c.time < c.elapsed then
      if c.closed then some { d with time := c.elapsed, ticking := false }
      else some { d with time := c.elapsed, queue := c.queue ++ [.updateTime c.elapsed] }
    else some d
  else none

/-- `sleep` up to the message it sends or the coroutine it yields to. -/
def Config.sleep (c : Config) (duration : Duration) : Config :=
  let millis := UInt64.ofNat duration.asMillis
  if millis = 0 then c.begin (.yielding c.now duration) else c.begin (.issued c.now duration)

def Config.send (c : Config) (i : ℕ) : Option Config :=
  match c.calls i with
  | .issued instant duration =>
    if c.closed then some (c.finish i .panicked)
    else
      let millis := UInt64.ofNat duration.asMillis
      some ({ c with queue := c.queue ++ [Message.timeout millis i] }.finish i (.waiting instant duration))
  | _ => none

def Config.yielded (c : Config) (i : ℕ) : Option Config :=
  match c.calls i with
  | .yielding instant duration => some (c.finish i (.woken instant duration c.now))
  | _ => none

def Config.wake (c : Config) (i : ℕ) : Config :=
  match c.calls i with
  | .waiting instant duration => c.finish i (.woken instant duration c.now)
  | _ => c

def Config.wakeAll (c : Config) (sessions : List ℕ) : Config := sessions.foldl Config.wake c

/-- The timer task takes a message when it is done with the last one. -/
def Config.process (c : Config) : Option Config :=
  match c.timer, c.queue with
  | some t, message :: rest =>
    if t.time < c.target then none
    else
      let d := { c with queue := rest }
      match message with
      | .timeout timeout session => some { d with timer := t.timeout (timeout + 1) session }
      | .updateTime time => some { d with target := time }
      | .stop => some { d with closed := true }
  | _, _ => none

/-- One tick of the `update` that the timer is in, with the wakes it makes. -/
def Config.tick (c : Config) : Option Config :=
  match c.timer with
  | some t =>
    if t.time < c.target then
      match t.tick with
      | some t' =>
        let wakes := t'.woken.drop t.woken.length
        some ({ c with timer := some t' }.wakeAll (wakes.map Prod.snd))
      | none => some { c with timer := none }
    else none
  | none => none

inductive Event where
  | elapse (span : ℚ)
  | sample
  | sleep (duration : Duration)
  | send (call : ℕ)
  | yielded (call : ℕ)
  | process
  | tick
  | stop
  deriving DecidableEq, Repr

def Config.step (c : Config) : Event → Option Config
  | .elapse span => if 0 ≤ span then some { c with now := c.now + span } else none
  | .sample => c.sample
  | .sleep duration => some (c.sleep duration)
  | .send i => c.send i
  | .yielded i => c.yielded i
  | .process => c.process
  | .tick => c.tick
  | .stop => some (if c.closed then c else { c with queue := c.queue ++ [.stop] })

def system (boot started : ℚ) : System Config Event where
  init := initial boot started
  step := Config.step

end Sleep
