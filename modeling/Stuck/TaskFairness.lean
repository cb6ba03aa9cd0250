import Stuck.FifoQueues
import Stuck.TaskResidency

/-! Nobody overtakes: the run queue of the scheduler and the running coroutines of a task are served
in their order, and nobody is in them twice. -/
namespace Tasks

open TransitionSystem

variable {S : Type*} {t u : Task S}

/-- The coroutine that a step takes off `running_coroutines`. -/
def Task.popped (t : Task S) : Event S → List ℕ
  | .next => if !t.yielding ∧ t.status = .running then t.runningCoroutines.head?.toList else []
  | .abortNext => t.runningCoroutines.head?.toList
  | _ => []

theorem prefix_unblock (t : Task S) (block : Bool) :
    t.runningCoroutines <+: (t.unblock block).1.runningCoroutines := by
  obtain ⟨added, _, _, _, h⟩ := t.unblock_eq block
  rw [h]
  exact List.prefix_append _ _

theorem prefix_tail (t : Task S) : t.runningCoroutines <+: t.tail.1.runningCoroutines := by
  unfold Task.tail
  dsimp only
  split
  · exact List.prefix_refl _
  · split
    · split
      · exact List.prefix_refl _
      · exact List.prefix_refl _
    · exact prefix_unblock { t with yielding := false } true

/-- A coroutine that goes on may push others, and never pops. -/
theorem prefix_op {frame : Frame} {co : ℕ} {op : Op S} (h : t.op frame co op = some u) :
    t.runningCoroutines <+: u.runningCoroutines := by
  cases op with
  | spawn new =>
    simp only [Task.op] at h
    split at h <;> cases h
    unfold Task.spawn
    split
    · exact List.prefix_refl _
    · exact List.prefix_append _ _
  | yieldCoroutine =>
    cases h
    unfold Task.yieldCoroutine
    split <;> exact List.prefix_refl _
  | yieldTask =>
    cases h
    unfold Task.yieldTask Task.yieldCoroutine
    split <;> exact List.prefix_refl _
  | suspend | wait session interruptible | thread session interruptible =>
    cases h
    exact List.prefix_refl _
  | resume other =>
    cases h
    unfold Task.resume
    split
    · exact List.prefix_append _ _
    · exact List.prefix_refl _
  | settle ready =>
    simp only [Task.op] at h
    split at h <;> cases h
    unfold Task.settle Task.recheck
    split <;> exact List.prefix_refl _
  | finish entered =>
    simp only [Task.op] at h
    split at h <;> cases h
    unfold Task.finish
    split
    · split <;> exact List.prefix_refl _
    · exact List.prefix_refl _

theorem popped_step {e : Event S} (hs : t.step e = some u) :
    t.runningCoroutines <+: t.popped e ++ u.runningCoroutines := by
  cases step_moves hs with
  | wake | grab | stop | unpark => exact List.prefix_refl _
  | begin =>
    apply (List.prefix_append t.runningCoroutines t.yieldingCoroutines).trans
    exact prefix_unblock { t with
      runningCoroutines := t.runningCoroutines ++ t.yieldingCoroutines
      yieldingCoroutines := []
      control := .loop } false
  | next =>
    simp only [Task.popped, Task.next]
    by_cases hrun : !t.yielding ∧ t.status = .running
    · rw [if_pos hrun, if_pos hrun]
      cases t.runningCoroutines with
      | nil => exact List.nil_prefix
      | cons co rest => exact List.prefix_refl _
    · rw [if_neg hrun, if_neg hrun]
      split <;> exact List.prefix_refl _
  | tail => exact prefix_tail t
  | @interrupt reason order =>
    have hadded : t.runningCoroutines <+:
        t.runningCoroutines ++ (t.yieldingCoroutines ++ order) := List.prefix_append _ _
    rwa [← List.append_assoc] at hadded
  | @visit co won reason rest yielding =>
    obtain ⟨added, _, _, he, _⟩ := t.visit_eq co yielding won
    rw [he]
    exact List.prefix_append _ _
  | @endInterrupt reason =>
    obtain ⟨control, he⟩ := t.endInterrupt_eq reason
    rw [he]
    exact prefix_unblock t false
  | abortNext =>
    simp only [Task.popped, Task.abortNext]
    cases t.runningCoroutines with
    | nil => exact List.nil_prefix
    | cons co rest => exact List.prefix_refl _
  | final =>
    unfold Task.final
    split <;> exact List.prefix_refl _
  | op _ _ acts => exact prefix_op acts
  | awake =>
    unfold Task.awake
    split
    · exact List.prefix_refl _
    · unfold Task.recheck
      split <;> exact List.prefix_refl _

theorem running_fifo : Fifo (system S) Task.runningCoroutines Task.popped :=
  ⟨fun _ _ _ hs => popped_step hs⟩

theorem Conserved.nodup (h : Conserved t) : t.runningCoroutines.Nodup := by
  rw [List.nodup_iff_count_le_one]
  intro co
  have hheld := h.held co
  rw [Task.held, Task.count_places] at hheld
  have := Bool.toNat_le (t.coroutines co).stage.isActive
  omega

/-- A coroutine that can run goes on after those in front of it, once each, and before every
coroutine that becomes runnable later: no run overtakes it, whatever yields, wakes, is spawned or
is interrupted on the way. -/
theorem coroutines_fair (h : Reachable (system S) t) {front back : List ℕ} {co : ℕ}
    (hq : t.runningCoroutines = front ++ co :: back) {es : List (Event S)}
    (hr : (system S).runFrom t es = some u) :
    (front ++ co :: back).Nodup ∧
      ((system S).trace Task.popped t es <+: front ∨
        front ++ [co] <+: (system S).trace Task.popped t es) := by
  constructor
  · rw [← hq]
    exact (reachable_conserved h).nodup
  · exact running_fifo.waits hq hr

/-- Main spawns two coroutines and yields. -/
def turnsRun : Execution (system ℕ) where
  events := [.begin, .next, .op (.spawn 1), .op (.spawn 2), .op .yieldCoroutine]
  fires := by decide +kernel

/-- The first of them spawns a third one, and the second is next. -/
def spawningTail : List (Event ℕ) := [.next, .op (.spawn 3), .op .suspend, .next]

theorem turns_fair : turnsRun.final.runningCoroutines = [1] ++ 2 :: [] ∧
    ([1] ++ 2 :: [] : List ℕ).Nodup ∧
    ((system ℕ).trace Task.popped turnsRun.final spawningTail <+: [1] ∨
      [1] ++ [2] <+: (system ℕ).trace Task.popped turnsRun.final spawningTail) :=
  have hq : turnsRun.final.runningCoroutines = [1] ++ 2 :: [] := by decide +kernel
  have hr : ((system ℕ).runFrom turnsRun.final spawningTail).isSome = true := by decide +kernel
  ⟨hq, coroutines_fair turnsRun.final_reachable hq (Option.some_get hr).symm⟩

end Tasks

namespace Scheduler

open TransitionSystem SharedTypes Tasks

variable {n : ℕ} {c d : Config n}

/-- The task that a step takes off the run queue. -/
def Config.popped (c : Config n) : Event n → List ℕ
  | .pop _ => c.runq.head?.toList
  | _ => []

/-- Every step but a pop leaves the run queue or pushes behind it. -/
theorem popped_move {e : Event n} (hs : c.step e = some d) : c.runq <+: c.popped e ++ d.runq := by
  cases move_of_step hs with
  | pop _ hr =>
    rw [Config.popped, hr]
    exact List.prefix_refl _
  | spawn | resume | yield | enqueue => exact List.prefix_append _ _
  | fault | wake =>
    rw [(win_talks _ _).runq]
    exact List.prefix_refl _
  | run _ hm =>
    have hrunq := (consult_talks hm).runq
    change c.runq <+: _
    exact hrunq ▸ List.prefix_refl _
  | stop | clone | give | drop | push | enter | abort | reenter | claim | block | cease | exchanged
  | forget | retire | sweep | grab | exit => exact List.prefix_refl _

theorem runq_fifo : Fifo (system n) Config.runq Config.popped :=
  ⟨fun _ _ _ hs => popped_move hs⟩

theorem Resident.nodup (h : Resident c) : c.runq.Nodup := by
  rw [List.nodup_iff_count_le_one]
  intro t
  have hp := h.placed t
  have hone := List.nodup_iff_count_le_one.mp h.single t
  unfold Config.places at hp
  omega

/-- A queued task is taken after the tasks in front of it, once each, and before every task that is
queued later: neither a task that keeps yielding nor a woken or a spawned one overtakes it. -/
theorem tasks_fair (h : Reachable (system n) c) {front back : List ℕ} {t : ℕ}
    (hq : c.runq = front ++ t :: back) {es : List (Event n)}
    (hr : (system n).runFrom c es = some d) :
    (front ++ t :: back).Nodup ∧
      ((system n).trace Config.popped c es <+: front ∨
        front ++ [t] <+: (system n).trace Config.popped c es) := by
  constructor
  · rw [← hq]
    exact (reachable_resident h).nodup
  · exact runq_fifo.waits hq hr

/-- Of three tasks the first is with a worker. -/
def queuedRun : Execution (system 2) where
  events := [.spawn, .spawn, .spawn, .pop 0]
  fires := by decide +kernel

/-- It yields, and the task behind it is next. -/
def yieldingTail : List (Event 2) :=
  [.enter 0, .run 0 .next, .run 0 (.op .yieldTask), .run 0 .next, .run 0 .tail, .leave 0, .pop 1]

theorem queued_fair : queuedRun.final.runq = [] ++ 1 :: [2] ∧
    ([] ++ 1 :: [2] : List ℕ).Nodup ∧
    ((system 2).trace Config.popped queuedRun.final yieldingTail <+: [] ∨
      [] ++ [1] <+: (system 2).trace Config.popped queuedRun.final yieldingTail) :=
  have hq : queuedRun.final.runq = [] ++ 1 :: [2] := by decide +kernel
  have hr : ((system 2).runFrom queuedRun.final yieldingTail).isSome = true := by decide +kernel
  ⟨hq, tasks_fair queuedRun.final_reachable hq (Option.some_get hr).symm⟩

end Scheduler
