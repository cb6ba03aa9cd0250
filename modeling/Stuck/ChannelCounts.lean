import Stuck.HandleCounting
import Stuck.ParallelChannelClosing
import Stuck.SerialChannelClosing

/-! The two kinds of channels under their handles: when the counters close them, and nothing
else but `Receiver::close` does. -/
namespace HandleCounting

open TransitionSystem OneShot SharedTypes

variable {T : Type*}

/-- A wait that panics has left its handle; a `select!` leaves when its branches are unwatched. -/
def parallelStage : ParallelChannel.Call T → Stage
  | .permitted _ _ permit => .permitted permit
  | .sent _ (.error (.closed _)) | .received (.error .closed) => .returned true
  | .sent .. | .received _ | .elsewhere | .panicked _ => .returned false
  | .waiting (.send ..) _ .cancelled | .waiting (.recv _) _ .cancelled => .returned false
  | .waiting (.select ..) [] .cancelled => .returned false
  | .waiting .. | .unused => .running

def parallelRole : ParallelChannel.Event T → Role
  | .send .. => .call .send
  | .recv .. => .call .recv
  | .trySelect _ slice _ _ | .select _ slice _ => .select slice
  | .consumeSend i _ | .consumeRecv i => .consume i
  | .close => .close
  | .resume _ | .cancel _ | .watch .. | .elsewhere _ | .unwatch .. => .inner

def parallelPicks (c : ParallelChannel.Config T) : ParallelChannel.Event T → Option (ℕ × ℕ)
  | .trySelect _ _ _ index => some (c.created, index)
  | .resume i =>
    match c.calls i with
    | .waiting (.select ..) [] (.fired (.selected index _)) => some (i, index)
    | _ => none
  | _ => none

def parallel (T : Type*) (capacity : Capacity) :
    Kind (ParallelChannel.Config T) (ParallelChannel.Event T) where
  system := ParallelChannel.system T capacity
  closed c := c.closed
  poisoned c := c.poisoned
  close := .close
  created c := c.created
  stage c i := parallelStage (c.calls i)
  role := parallelRole
  picks := parallelPicks

def serialStage : SerialChannel.Call T → Stage
  | .permitted _ => .permitted .consume
  | .sent _ (.error (.closed _)) | .received (.error .closed) => .returned true
  | .sent .. | .received _ | .elsewhere | .interrupted | .panicked _ => .returned false
  | .unused | .sending .. | .receiving _ | .selecting .. => .running

def serialRole : SerialChannel.Event T → Role
  | .send .. => .call .send
  | .recv _ => .call .recv
  | .trySelect slice _ | .select slice _ _ _ _ => .select slice
  | .consumeSend i _ => .consume i
  | .close => .close
  | .resume _ | .interrupt _ | .elsewhere _ | .forfeit _ => .inner

def serialPicks (c : SerialChannel.Config T) : SerialChannel.Event T → Option (ℕ × ℕ)
  | .trySelect _ index => some (c.created, index)
  | .resume i =>
    match c.calls i with
    | .selecting _ _ _ (.fired (some index)) => some (i, index)
    | _ => none
  | _ => none

/-- There is no mutex. -/
def serial (T : Type*) (capacity : Capacity) :
    Kind (SerialChannel.Config T) (SerialChannel.Event T) where
  system := SerialChannel.system T capacity
  closed c := c.closed
  poisoned _ := false
  close := .close
  created c := c.created
  stage c i := serialStage (c.calls i)
  role := serialRole
  picks := serialPicks

theorem parallelRole_close {e : ParallelChannel.Event T} (h : parallelRole e = .close) :
    e = .close := by
  cases e with
  | close => rfl
  | _ => cases h

theorem serialRole_close {e : SerialChannel.Event T} (h : serialRole e = .close) :
    e = .close := by
  cases e with
  | close => rfl
  | _ => cases h

theorem parallelStage_sealed {call : ParallelChannel.Call T}
    (h : parallelStage call = .permitted .closed) : call.sealed = true := by
  cases call with
  | permitted op index permit =>
    cases h
    rfl
  | waiting op watched cell =>
    cases op <;> cases watched <;> rcases cell with _ | o | _ <;> cases h
  | sent value result => rcases result with (_ | _) | _ <;> cases h
  | received result => rcases result with (_ | _) | _ <;> cases h
  | unused | elsewhere | panicked _ => cases h

theorem serialStage_consume {call : SerialChannel.Call T} :
    serialStage call ≠ .permitted .closed := by
  intro h
  cases call with
  | sent value result => rcases result with (_ | _) | _ <;> cases h
  | received result => rcases result with (_ | _) | _ <;> cases h
  | _ => cases h

theorem parallel_lawful (capacity : Capacity) : (parallel T capacity).Lawful where
  opened := rfl
  stays c e d hr hs hrole := by
    refine ParallelChannel.closed_step hr hs ?_
    rintro rfl
    exact hrole rfl
  role_close := rfl
  closes c e d hs hrole := ParallelChannel.close_step hs (parallelRole_close hrole)
  closable c hp := by
    have hp : c.poisoned = false := hp
    change (ParallelChannel.Config.step c .close).isSome = true
    simp [ParallelChannel.Config.step, hp]
  promised c i hr hs := ParallelChannel.sealed_closed hr (parallelStage_sealed hs)

theorem serial_lawful (capacity : Capacity) : (serial T capacity).Lawful where
  opened := rfl
  stays c e d _ hs hrole := by
    refine SerialChannel.closed_step hs ?_
    rintro rfl
    exact hrole rfl
  role_close := rfl
  closes c e d hs hrole := by
    cases serialRole_close hrole
    cases hs
    exact SerialChannel.close_closed c
  closable _ _ := rfl
  promised _ _ _ hs := absurd hs serialStage_consume

/-- The counters of a serial channel are always right, those of a parallel one in the runs in which
no last handle of a side finds the mutex poisoned. -/
theorem handles_counted (T : Type*) (capacity : Capacity) :
    (∀ ρ : Execution (handled (parallel T capacity)),
      (∀ c, ρ.Visits c → Counted (parallel T capacity) c) ↔
        ∀ c ev, ρ.Takes c ev → ¬ c.poisons (parallel T capacity) ev) ∧
    ∀ c, Reachable (handled (serial T capacity)) c → Counted (serial T capacity) c := by
  refine ⟨counted_iff (parallel_lawful capacity), fun c hc => ?_⟩
  obtain ⟨ρ, hv⟩ := hc.visited
  refine (counted_iff (serial_lawful capacity) ρ).mpr (fun c ev _ hp => ?_) c hv
  cases ev with
  | shut side h =>
    have hpoisoned : false = true := hp.1
    cases hpoisoned
  | _ => exact hp

/-- An aborting coroutine poisons the mutex, and then the only sender is dropped. -/
def poisonedRun : Execution (handled (parallel ℕ ⟨1, Nat.one_pos⟩)) where
  events := [.call .recv 0 (.recv (.task .aborting) false), .settle 0, .drop .send 0,
    .shut .send 0]
  fires := by decide +kernel

theorem poisoned_channel_stays_open :
    poisonedRun.final.channel.closed = false ∧
      poisonedRun.final.tally .send = ⟨0, [.dropped]⟩ ∧
      ¬ Counted (parallel ℕ ⟨1, by decide⟩) poisonedRun.final := by
  have hopen : poisonedRun.final.channel.closed = false := by decide +kernel
  have htally : poisonedRun.final.tally .send = ⟨0, [.dropped]⟩ := by decide +kernel
  refine ⟨hopen, htally, fun hc => ?_⟩
  have hclosed := hc.closed .send fun handle hm => by
    rw [htally] at hm
    cases List.mem_singleton.mp hm
    rfl
  exact absurd (hopen.symm.trans hclosed) Bool.false_ne_true

end HandleCounting
