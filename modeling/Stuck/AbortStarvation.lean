import Stuck.WinningWakers

/-! `Task::abort` keeps its worker while its coroutines are blocked. When all workers are in it, a
task in the run queue does not run, and if it has to wake one of the blocked coroutines, nobody
goes on. -/
namespace Tasks

open SharedTypes

variable {S : Type*} {t u : Task S} {e : Event S}

/-- Blocked coroutines and none to run. -/
def Task.stuck (t : Task S) : Bool :=
  t.runningCoroutines.isEmpty && !t.blockingCoroutines.isEmpty

def Control.inPass : Control → Bool
  | .interrupt _ | .interrupting _ _ => true
  | _ => false

/-- The loop of `Task::abort` spins. A pass counts from its start, also the first one, whose
`interrupt` may yet find a coroutine to run. -/
def Task.spins (t : Task S) : Bool := t.control.inPass && t.stuck

/-- A step with which a task starts to spin: the last coroutine of `sched` or of `abort` has
stopped, or there was none. -/
def Task.startsToSpin (t : Task S) : Event S → Bool
  | .next => t.stuck && decide (t.status = .completing)
  | .abortNext | .stop => t.stuck
  | _ => false

theorem Task.spins_iff : t.spins = true ↔
    t.control.inPass = true ∧ t.runningCoroutines = [] ∧ t.blockingCoroutines ≠ [] := by
  simp [Task.spins, Task.stuck]

theorem Task.stuck_iff : t.stuck = true ↔
    t.runningCoroutines = [] ∧ t.blockingCoroutines ≠ [] := by
  simp [Task.stuck]

theorem Frame.head_not_inPass (frame : Frame) : frame.head.inPass = false := by
  cases frame <;> rfl

section Ops

variable {frame : Frame} {co : ℕ}

theorem Task.recheck_not_inPass (hc : t.control.inPass = false) {session : S}
    {interruptible ready : Bool} :
    (t.recheck frame co session interruptible ready).control.inPass = false := by
  unfold Task.recheck
  split
  · exact hc
  · exact frame.head_not_inPass

theorem Task.op_not_inPass (hc : t.control = .running frame co) {op : Op S}
    (hs : t.op frame co op = some u) : u.control.inPass = false := by
  have hp : t.control.inPass = false := by rw [hc]; rfl
  cases op with
  | spawn new =>
    simp only [Task.op] at hs
    split at hs <;> cases hs
    unfold Task.spawn
    split
    · exact hp
    · exact hp
  | yieldCoroutine =>
    cases hs
    unfold Task.yieldCoroutine
    split
    · exact hp
    · exact frame.head_not_inPass
  | yieldTask =>
    cases hs
    unfold Task.yieldTask Task.yieldCoroutine
    split
    · exact hp
    · exact frame.head_not_inPass
  | suspend => cases hs; exact frame.head_not_inPass
  | resume other =>
    cases hs
    unfold Task.resume
    split
    · exact hp
    · exact hp
  | wait session interruptible => cases hs; exact frame.head_not_inPass
  | thread session interruptible => cases hs; exact hp
  | settle ready =>
    simp only [Task.op] at hs
    split at hs <;> cases hs
    exact Task.recheck_not_inPass (t := t.setCoroutine co _) hp
  | finish entered =>
    simp only [Task.op] at hs
    split at hs <;> cases hs
    unfold Task.finish
    split
    · split
      · exact frame.head_not_inPass
      · rfl
    · exact frame.head_not_inPass

end Ops

theorem Task.tail_not_spinning (t : Task S) : t.tail.1.spins = false := by
  unfold Task.tail
  dsimp only
  split
  · rfl
  · split
    next hb =>
      split
      · simp [Task.spins, Task.stuck, Task.setControl, hb]
      · rfl
    next => rfl

/-- A task spins after a step that starts it, or because it did before. -/
theorem spins_step (hs : t.step e = some u) (hu : u.spins = true) :
    e.isQuiet = true ∧ (t.spins = true ∨ t.startsToSpin e = true) := by
  obtain ⟨hpass, hnone, hsome⟩ := Task.spins_iff.mp hu
  cases step_moves hs with
  | wake => exact ⟨rfl, Or.inl hu⟩
  | grab => exact ⟨rfl, Or.inl hu⟩
  | begin =>
    rw [Task.begin, Task.control_unblock] at hpass
    cases hpass
  | stop => exact ⟨rfl, Or.inr (Task.stuck_iff.mpr ⟨hnone, hsome⟩)⟩
  | next =>
    refine ⟨rfl, Or.inr ?_⟩
    revert hpass hnone hsome
    unfold Task.next
    split
    · split <;> simp [Control.inPass, Task.setControl]
    · split
      next hstatus =>
        intro _ hnone hsome
        simp only [Task.startsToSpin, hstatus, decide_true, Bool.and_true]
        exact Task.stuck_iff.mpr ⟨hnone, hsome⟩
      next => simp [Control.inPass, Task.setControl]
  | tail =>
    rw [Task.tail_not_spinning] at hu
    cases hu
  | interrupt hc =>
    simp only [Task.interrupt, List.append_eq_nil_iff] at hnone
    exact ⟨rfl, Or.inl (Task.spins_iff.mpr ⟨by rw [hc]; rfl, hnone.1.1, hsome⟩)⟩
  | @visit co won reason rest yielding hc =>
    have hkept : t.visit co yielding won = t := by
      revert hnone
      unfold Task.visit
      split
      · intro hnone
        simp [Task.setControl, Task.setCoroutine] at hnone
      · intro _
        rfl
    rw [hkept] at hnone hsome
    exact ⟨rfl, Or.inl (Task.spins_iff.mpr ⟨by rw [hc]; rfl, hnone, hsome⟩)⟩
  | @endInterrupt reason hc =>
    obtain ⟨control, hend⟩ := t.endInterrupt_eq reason
    rw [hend] at hnone hsome
    have hr : (t.unblock false).1.runningCoroutines = [] := hnone
    have hb : (t.unblock false).1.blockingCoroutines ≠ [] := hsome
    obtain ⟨added, blocking, unblocking, running, he⟩ := t.unblock_eq false
    have hsub := (t.quiet_unblock false).blocking
    rw [he] at hr
    refine ⟨rfl, Or.inl (Task.spins_iff.mpr ⟨by rw [hc]; rfl, ?_, fun hnil => ?_⟩)⟩
    · exact (List.append_eq_nil_iff.mp hr).1
    · rw [hnil] at hsub
      exact hb (List.subset_nil.mp hsub)
  | abortNext =>
    refine ⟨rfl, Or.inr ?_⟩
    revert hpass hnone hsome
    unfold Task.abortNext
    split
    · simp [Control.inPass]
    next hr =>
      intro _ _ hsome
      exact Task.stuck_iff.mpr ⟨hr, hsome⟩
  | final =>
    revert hpass
    unfold Task.final
    split
    · dsimp only [Task.setControl]
      split <;> simp [Control.inPass]
    · simp [Control.inPass, Task.setControl]
  | op hc _ acts =>
    rw [Task.op_not_inPass hc acts] at hpass
    cases hpass
  | awake hc =>
    have hp : t.control.inPass = false := by rw [hc]; rfl
    revert hpass
    unfold Task.awake
    split
    · intro hpass
      change t.control.inPass = true at hpass
      rw [hp] at hpass
      cases hpass
    · rw [Task.recheck_not_inPass hp]
      simp
  | unpark hc =>
    change t.control.inPass = true at hpass
    rw [hc] at hpass
    cases hpass

/-- A step that starts a task to spin changes only its control. -/
theorem started (hs : t.step e = some u) (hstart : t.startsToSpin e = true) :
    u.spins = true ∧ u.coroutines = t.coroutines ∧
      u.blockingCoroutines = t.blockingCoroutines := by
  cases e with
  | stop =>
    obtain ⟨hnone, hsome⟩ := Task.stuck_iff.mp hstart
    cases step_moves hs
    exact ⟨Task.spins_iff.mpr ⟨rfl, hnone, hsome⟩, rfl, rfl⟩
  | next =>
    simp only [Task.startsToSpin, Bool.and_eq_true, decide_eq_true_eq] at hstart
    obtain ⟨hnone, hsome⟩ := Task.stuck_iff.mp hstart.1
    cases step_moves hs
    rw [Task.next, if_neg (by simp [hstart.2]), if_pos hstart.2]
    exact ⟨Task.spins_iff.mpr ⟨rfl, hnone, hsome⟩, rfl, rfl⟩
  | abortNext =>
    obtain ⟨hnone, hsome⟩ := Task.stuck_iff.mp hstart
    cases step_moves hs
    rw [Task.abortNext, hnone]
    exact ⟨Task.spins_iff.mpr ⟨rfl, hnone, hsome⟩, rfl, rfl⟩
  | wake _ | grab | begin | tail | interrupt _ | visit _ _ | endInterrupt | final | op _ | awake _
  | unpark => cases hstart

end Tasks

namespace Scheduler

open TransitionSystem SharedTypes Tasks

variable {n : ℕ} {c d : Config n} {s : SessionId}

def Config.spins (c : Config n) (w : Fin n) : Bool :=
  match (c.workers w).pc with
  | .holding t => (c.tasks t).spins
  | _ => false

/-- The sessions that blocked coroutines of the task wait for and nobody has woken. -/
def Config.awaited (c : Config n) (t : ℕ) : List SessionId :=
  (c.tasks t).blockingCoroutines.flatMap fun e =>
    ((c.tasks t).coroutines e.1).stage.opens.filter fun s => (c.sessions s).state = .joining

def Pc.task : Pc → Option ℕ
  | .popped t | .holding t => some t
  | _ => none

/-- A task of a worker waits for `s`. -/
def Config.Awaits (c : Config n) (s : SessionId) : Prop :=
  ∃ w, ∃ t ∈ (c.workers w).pc.task.toList, s ∈ c.awaited t

/-- Task `u` owns a waker of such a session. -/
def Config.Owes (c : Config n) (u : ℕ) : Prop :=
  ∃ w, ∃ t ∈ (c.workers w).pc.task.toList, ∃ s ∈ c.awaited t,
    Holder.task u ∈ (c.sessions s).holders

/-- All workers spin while a runnable task has the waker. -/
def Starved (c : Config n) : Prop := (∀ w, c.spins w = true) ∧ ∃ u ∈ c.runq, c.Owes u

def Config.startsToSpin (c : Config n) : Event n → Bool
  | .run w e =>
    match (c.workers w).pc with
    | .holding t => (c.tasks t).startsToSpin e
    | _ => false
  | .enter w =>
    match c.workers w with
    | ⟨.sweeping, _, .popped t⟩ => (c.tasks t).startsToSpin .stop
    | _ => false
  | _ => false

/-- The last worker starts to spin beside a runnable task that has the waker, or a task that has it
becomes runnable, or a runnable task gets it, when all of them spin. A worker spins from the start
of the pass, before its `interrupt` has been tried. -/
def Starves (c : Config n) : Event n → Prop
  | .run w e => c.startsToSpin (.run w e) = true ∧ (∀ v, v ≠ w → c.spins v = true) ∧
      ∃ u ∈ c.runq, c.Owes u
  | .enter w => c.startsToSpin (.enter w) = true ∧ (∀ v, v ≠ w → c.spins v = true) ∧
      ∃ u ∈ c.runq, c.Owes u
  | .give s _ next => (∀ w, c.spins w = true) ∧ c.Awaits s ∧ ∃ u ∈ c.runq, next = .task u
  | .resume u => (∀ w, c.spins w = true) ∧ c.Owes u
  | .spawn => (∀ w, c.spins w = true) ∧ c.Owes c.created
  | _ => False

section Decidable

variable (c : Config n)

instance (s : SessionId) : Decidable (c.Awaits s) :=
  inferInstanceAs (Decidable (∃ w, ∃ t ∈ (c.workers w).pc.task.toList, s ∈ c.awaited t))

instance (u : ℕ) : Decidable (c.Owes u) :=
  inferInstanceAs (Decidable (∃ w, ∃ t ∈ (c.workers w).pc.task.toList, ∃ s ∈ c.awaited t,
    Holder.task u ∈ (c.sessions s).holders))

instance : ∀ e : Event n, Decidable (Starves c e)
  | .run w e => inferInstanceAs (Decidable (c.startsToSpin (.run w e) = true ∧
      (∀ v, v ≠ w → c.spins v = true) ∧ ∃ u ∈ c.runq, c.Owes u))
  | .enter w => inferInstanceAs (Decidable (c.startsToSpin (.enter w) = true ∧
      (∀ v, v ≠ w → c.spins v = true) ∧ ∃ u ∈ c.runq, c.Owes u))
  | .give s _ next => inferInstanceAs (Decidable ((∀ w, c.spins w = true) ∧ c.Awaits s ∧
      ∃ u ∈ c.runq, next = .task u))
  | .resume u => inferInstanceAs (Decidable ((∀ w, c.spins w = true) ∧ c.Owes u))
  | .spawn => inferInstanceAs (Decidable ((∀ w, c.spins w = true) ∧ c.Owes c.created))
  | .stop | .clone .. | .drop .. | .wake .. | .push _ | .pop _ | .claim .. | .leave _ | .retire _
  | .sweep _ | .grab .. | .enqueue _ | .exit _ => inferInstanceAs (Decidable False)

end Decidable

theorem mem_task {w : Fin n} {t : ℕ} (h : t ∈ (c.workers w).pc.task.toList) :
    (c.workers w).pc = .popped t ∨ (c.workers w).pc = .holding t := by
  revert h
  unfold Pc.task
  split
  next hp => intro h; rw [hp]; simp at h; exact Or.inl (by rw [h])
  next hp => intro h; rw [hp]; simp at h; exact Or.inr (by rw [h])
  next => simp

theorem spins_iff {w : Fin n} : c.spins w = true ↔
    ∃ t, (c.workers w).pc = .holding t ∧ (c.tasks t).spins = true := by
  unfold Config.spins
  constructor
  · intro h
    split at h
    next t hp => exact ⟨t, hp, h⟩
    next => cases h
  · rintro ⟨t, hp, h⟩
    rw [hp]
    exact h

theorem mem_awaited {t : ℕ} : s ∈ c.awaited t ↔ ∃ e ∈ (c.tasks t).blockingCoroutines,
    s ∈ ((c.tasks t).coroutines e.1).stage.opens ∧ (c.sessions s).state = .joining := by
  simp [Config.awaited]

/-- No session is awaited anew, and no task gets a waker. -/
structure Config.Settles (c d : Config n) : Prop where
  tasks : ∀ w t, t ∈ (d.workers w).pc.task.toList →
    t ∈ (c.workers w).pc.task.toList ∧ (c.tasks t).Quiet (d.tasks t)
  joining : ∀ s, (d.sessions s).state = .joining → (c.sessions s).state = .joining
  holders : ∀ s u, Holder.task u ∈ (d.sessions s).holders → Holder.task u ∈ (c.sessions s).holders

theorem Config.Settles.awaited (h : c.Settles d) {w : Fin n} {t : ℕ}
    (ht : t ∈ (d.workers w).pc.task.toList) (hs : s ∈ d.awaited t) : s ∈ c.awaited t := by
  obtain ⟨e, he, ho, hj⟩ := mem_awaited.mp hs
  have hq := (h.tasks w t ht).2
  rw [hq.stages] at ho
  exact mem_awaited.mpr ⟨e, hq.blocking he, ho, h.joining s hj⟩

theorem Config.Owes.settled {u : ℕ} (hu : d.Owes u) (h : c.Settles d) : c.Owes u := by
  obtain ⟨w, t, ht, s, hs, hh⟩ := hu
  exact ⟨w, t, (h.tasks w t ht).1, s, h.awaited ht hs, h.holders s u hh⟩

/-- The same coroutines wait for the same sessions, under the same owners. -/
theorem Config.Owes.same {u : ℕ} (h : c.Owes u)
    (hpc : ∀ w t, t ∈ (c.workers w).pc.task.toList → t ∈ (d.workers w).pc.task.toList ∧
      (d.tasks t).coroutines = (c.tasks t).coroutines ∧
      (d.tasks t).blockingCoroutines = (c.tasks t).blockingCoroutines)
    (hs : d.sessions = c.sessions) : d.Owes u := by
  obtain ⟨w, t, ht, s, hw, hh⟩ := h
  obtain ⟨ht', hcs, hb⟩ := hpc w t ht
  refine ⟨w, t, ht', s, ?_, by rw [hs]; exact hh⟩
  rw [mem_awaited, hcs, hb, hs]
  exact mem_awaited.mp hw

theorem Talk.holders {w : Fin n} {t : ℕ} {e : Tasks.Event SessionId} (h : Talk c w t e d)
    (s : SessionId) : (d.sessions s).holders = (c.sessions s).holders := by
  have hupdate : ∀ {s' y}, y.holders = (c.sessions s').holders →
      ((c.setSession s' y).sessions s).holders = (c.sessions s).holders := by
    intro s' y hy
    by_cases hs : s = s'
    · subst hs
      simpa [Config.setSession] using hy
    · simp [Config.setSession, Function.update_of_ne hs]
  cases h with
  | silent => rfl
  | interrupted | registered | cancelled => exact hupdate rfl
  | left =>
    refine hupdate ?_
    unfold Session.leave
    split <;> rfl
  | delivered =>
    unfold Config.win
    split
    next hm =>
      obtain ⟨_, rfl⟩ := setValue_eq hm
      exact hupdate rfl
    next => rfl

theorem Talk.quiet_joining {w : Fin n} {t : ℕ} {e : Tasks.Event SessionId} (h : Talk c w t e d)
    (he : e.isQuiet = true) (hs : (d.sessions s).state = .joining) :
    (c.sessions s).state = .joining := by
  rcases h.joining hs with ⟨hold, _⟩ | ⟨_, _, op, _, rfl, hop, _⟩
  · exact hold
  · rcases hop with rfl | rfl <;> cases he

theorem resting_of_enter {t u : Tasks.Task SessionId} {e : Tasks.Event SessionId}
    (he : e = .begin ∨ e = .stop) (hs : t.step e = some u) : t.spins = false := by
  have hc : t.control = .resting := by
    rcases he with rfl | rfl
    · cases step_moves hs with
      | begin hc => exact hc
    · cases step_moves hs with
      | stop hc => exact hc
  simp [Task.spins, hc, Control.inPass]

/-- The task of a worker that was popped or runs has been created. -/
theorem Resident.task_created (h : Resident c) {w : Fin n} {t : ℕ}
    (ht : t ∈ (c.workers w).pc.task.toList) : t < c.created := by
  refine h.known t (h.registered (w := w) ?_)
  rcases mem_task ht with hp | hp
  · rw [hp]
    simp [Pc.holds]
  · rw [hp]
    simp [Pc.holds]

section Moves

variable {e : Event n}

/-- The workers stay, and what they hold takes no step of its own. -/
theorem settles_of (hw : d.workers = c.workers)
    (ht : ∀ w t, t ∈ (c.workers w).pc.task.toList → (c.tasks t).Quiet (d.tasks t))
    (hj : ∀ s, (d.sessions s).state = .joining → (c.sessions s).state = .joining)
    (hh : ∀ s u, Holder.task u ∈ (d.sessions s).holders →
      Holder.task u ∈ (c.sessions s).holders) : c.Settles d := by
  refine ⟨fun w t hm => ?_, hj, hh⟩
  rw [hw] at hm
  exact ⟨hm, ht w t hm⟩

/-- A session changes and is not joining anew, and no task gets a waker of it. -/
theorem settles_setSession {y : Session}
    (hj : y.state = .joining → (c.sessions s).state = .joining)
    (hh : ∀ u, Holder.task u ∈ y.holders → Holder.task u ∈ (c.sessions s).holders) :
    c.Settles (c.setSession s y) := by
  refine settles_of rfl (fun _ _ _ => .refl _) (fun s' hs' => ?_) (fun s' u hu => ?_)
  · by_cases hs : s' = s
    · subst hs
      exact hj (by simpa [Config.setSession] using hs')
    · simpa [Config.setSession, Function.update_of_ne hs] using hs'
  · by_cases hs : s' = s
    · subst hs
      exact hh u (by simpa [Config.setSession] using hu)
    · simpa [Config.setSession, Function.update_of_ne hs] using hu

theorem settles_win (s : SessionId) (winner : Winner) : c.Settles (c.win s winner) := by
  unfold Config.win
  split
  next m hm =>
    obtain ⟨_, rfl⟩ := setValue_eq hm
    have hk : c.Settles (c.setSession s
        { c.sessions s with state := .value, winner := some winner }) :=
      settles_setSession nofun fun _ hu => hu
    exact ⟨hk.tasks, hk.joining, hk.holders⟩
  next => exact settles_of rfl (fun _ _ _ => .refl _) (fun _ h => h) fun _ _ h => h

/-- A task steps while its worker holds it, and nobody comes to wait. -/
theorem settles_step {w : Fin n} {t : ℕ} {task : Tasks.Task SessionId} {worker : Worker}
    (ht : t ∈ (c.workers w).pc.task.toList) (hworker : worker.pc = .holding t)
    (hq : (c.tasks t).Quiet task) (hw : d.workers = Function.update c.workers w worker)
    (htasks : d.tasks = Function.update c.tasks t task)
    (hj : ∀ s, (d.sessions s).state = .joining → (c.sessions s).state = .joining)
    (hh : ∀ s u, Holder.task u ∈ (d.sessions s).holders →
      Holder.task u ∈ (c.sessions s).holders) : c.Settles d := by
  refine ⟨fun v t' hm => ⟨?_, ?_⟩, hj, hh⟩
  · rw [hw] at hm
    by_cases hv : v = w
    · subst hv
      rw [Function.update_self, hworker] at hm
      rw [List.mem_singleton.mp hm]
      exact ht
    · rwa [Function.update_of_ne hv] at hm
  · rw [htasks]
    by_cases htt : t' = t
    · rw [htt, Function.update_self]
      exact hq
    · rw [Function.update_of_ne htt]
      exact .refl _

/-- The other workers spin on as they did. -/
theorem spins_other (hres : Resident c) {w v : Fin n} {t : ℕ} {task : Tasks.Task SessionId}
    {worker : Worker} (hold : (c.workers w).pc.holds t = true)
    (hw : d.workers = Function.update c.workers w worker)
    (htasks : d.tasks = Function.update c.tasks t task) (hv : v ≠ w) : d.spins v = c.spins v := by
  unfold Config.spins
  rw [hw, Function.update_of_ne hv]
  split
  next t' hp =>
    have hne : t' ≠ t := by
      rintro rfl
      exact hv (hres.one_holder (w := v) (t := t') (by rw [hp]; simp [Pc.holds]) hold)
    rw [htasks, Function.update_of_ne hne]
  next => rfl

theorem Starved.of_setSession {y : Session} (h : Starved (c.setSession s y))
    (hj : y.state = .joining → (c.sessions s).state = .joining)
    (hh : ∀ u, Holder.task u ∈ y.holders → Holder.task u ∈ (c.sessions s).holders) :
    Starved c := by
  obtain ⟨hspin, u, hu, howes⟩ := h
  exact ⟨hspin, u, hu, howes.settled (settles_setSession hj hh)⟩

theorem Starved.of_win {winner : Winner} (h : Starved (c.win s winner)) : Starved c := by
  obtain ⟨hspin, u, hu, howes⟩ := h
  have ht := win_talks (c := c) s winner
  refine ⟨fun w => ?_, u, ht.runq ▸ hu, howes.settled (settles_win s winner)⟩
  have hw := hspin w
  rw [Config.spins, ht.workers, ht.tasks] at hw
  exact hw

theorem starves_of_spawn (hres : Resident c) (hd : Starved { c.setTask c.created .new with
    runq := c.runq ++ [c.created]
    registry := c.registry ++ [c.created]
    created := c.created + 1 }) : Starved c ∨ Starves c .spawn := by
  obtain ⟨hspin, u, hu, howes⟩ := hd
  have hsame : ∀ t, t < c.created →
      Function.update c.tasks c.created .new t = c.tasks t := fun t ht =>
    Function.update_of_ne (Nat.ne_of_lt ht) _ _
  have hall : ∀ w, c.spins w = true := by
    intro w
    obtain ⟨t, hp, ht⟩ := spins_iff.mp (hspin w)
    have hlt := hres.task_created (w := w) (t := t) (by
      change (c.workers w).pc = .holding t at hp
      rw [hp]
      simp [Pc.task])
    refine spins_iff.mpr ⟨t, hp, ?_⟩
    simpa [Config.setTask, hsame t hlt] using ht
  have hsettles : c.Settles { c.setTask c.created .new with
      runq := c.runq ++ [c.created]
      registry := c.registry ++ [c.created]
      created := c.created + 1 } := by
    refine settles_of rfl (fun w t ht => ?_) (fun _ h => h) fun _ _ h => h
    simpa [Config.setTask, hsame t (hres.task_created ht)] using Task.Quiet.refl _
  have hc := howes.settled hsettles
  rcases List.mem_append.mp hu with hu | hu
  · exact Or.inl ⟨hall, u, hu, hc⟩
  · rw [List.mem_singleton.mp hu] at hc
    exact Or.inr ⟨hall, hc⟩

theorem starves_of_give {s : SessionId} {holder next : Holder}
    (hd : Starved (c.setSession s { c.sessions s with
      holders := (c.sessions s).holders.erase holder ++ [next] })) :
    Starved c ∨ Starves c (.give s holder next) := by
  obtain ⟨hspin, u, hu, howes⟩ := hd
  by_cases hnew : next = .task u ∧ c.Awaits s
  · exact Or.inr ⟨hspin, hnew.2, u, hu, hnew.1⟩
  · obtain ⟨w, t, ht, s', hs', hh⟩ := howes
    refine Or.inl ⟨hspin, u, hu, w, t, ht, s', ?_⟩
    by_cases hss : s' = s
    · subst hss
      have haw : s' ∈ c.awaited t := by
        rw [mem_awaited] at hs' ⊢
        simpa [Config.setSession] using hs'
      refine ⟨haw, ?_⟩
      simp only [Config.setSession, Function.update_self] at hh
      rcases List.mem_append.mp hh with hh | hh
      · exact List.mem_of_mem_erase hh
      · exact absurd ⟨(List.mem_singleton.mp hh).symm, w, t, ht, haw⟩ hnew
    · refine ⟨?_, by simpa [Config.setSession, Function.update_of_ne hss] using hh⟩
      rw [mem_awaited] at hs' ⊢
      simpa [Config.setSession, Function.update_of_ne hss] using hs'

theorem Starved.of_push {wake : Wake} (hd : Starved
    { c.setTask wake.task ((c.tasks wake.task).wake wake.co).1 with
      waking := c.waking.erase wake
      carried := if ((c.tasks wake.task).wake wake.co).2 then c.carried ++ [wake.task]
        else c.carried }) : Starved c := by
  obtain ⟨hspin, u, hu, howes⟩ := hd
  have hupdate : ∀ t, (c.tasks t).Quiet
      (Function.update c.tasks wake.task ((c.tasks wake.task).wake wake.co).1 t) ∧
      (Function.update c.tasks wake.task ((c.tasks wake.task).wake wake.co).1 t).spins =
        (c.tasks t).spins := by
    intro t
    by_cases ht : t = wake.task
    · subst ht
      rw [Function.update_self]
      exact ⟨.of_eq rfl (List.Subset.refl _), rfl⟩
    · rw [Function.update_of_ne ht]
      exact ⟨.refl _, rfl⟩
  refine ⟨fun w => ?_, u, hu, howes.settled (settles_of rfl (fun _ t _ => (hupdate t).1)
    (fun _ h => h) fun _ _ h => h)⟩
  obtain ⟨t, hp, ht⟩ := spins_iff.mp (hspin w)
  exact spins_iff.mpr ⟨t, hp, (hupdate t).2 ▸ ht⟩

/-- The last worker of a sweep begins to abort the task that it popped. -/
theorem starves_of_abort (hres : Resident c) {w : Fin n} {ambient : Option ℕ} {t : ℕ}
    {task : Tasks.Task SessionId} (hw : c.workers w = ⟨.sweeping, ambient, .popped t⟩)
    (ht : (c.tasks t).step .stop = some task)
    (hd : Starved ((c.setTask t task).setWorker w ⟨.sweeping, ambient, .holding t⟩)) :
    Starves c (.enter w) := by
  obtain ⟨hspin, u, hu, howes⟩ := hd
  have hhold : (c.workers w).pc.holds t = true := by rw [hw]; simp [Pc.holds]
  obtain ⟨t', hp, hspins⟩ := spins_iff.mp (hspin w)
  simp only [Config.setWorker, Config.setTask, Function.update_self, Pc.holding.injEq] at hp hspins
  subst hp
  rw [Function.update_self] at hspins
  have hrest := resting_of_enter (Or.inr rfl) ht
  obtain ⟨hquiet, h⟩ := spins_step ht hspins
  rw [hrest] at h
  refine ⟨?_, fun v hv => ?_, u, hu, ?_⟩
  · simp only [Config.startsToSpin, hw]
    exact h.resolve_left (by simp)
  · rw [← spins_other (d := (c.setTask t task).setWorker w ⟨.sweeping, ambient, .holding t⟩)
      hres hhold rfl rfl hv]
    exact hspin v
  · refine howes.settled (settles_step (w := w) (t := t) ?_ rfl (quiet_of_step hquiet ht) rfl rfl
      (fun _ h => h) fun _ _ h => h)
    rw [hw]
    simp [Pc.task]

theorem starves_of_run (hres : Resident c) {w : Fin n} {t : ℕ} {e : Tasks.Event SessionId}
    {m : Config n} {task : Tasks.Task SessionId} (hpc : (c.workers w).pc = .holding t)
    (hc : c.consult w t e = some m) (ht : (c.tasks t).step e = some task)
    (hd : Starved ((m.setTask t task).setPc w (pcAfter t (c.tasks t) task e))) :
    Starved c ∨ Starves c (.run w e) := by
  obtain ⟨hspin, u, hu, howes⟩ := hd
  have hhold : (c.workers w).pc.holds t = true := by rw [hpc]; simp [Pc.holds]
  have htalk := talk_of_consult hc
  have htalks := consult_talks hc
  have hworkers : ((m.setTask t task).setPc w (pcAfter t (c.tasks t) task e)).workers =
      Function.update c.workers w
        { c.workers w with pc := pcAfter t (c.tasks t) task e } := by
    rw [← htalks.workers]
    rfl
  have htasks : ((m.setTask t task).setPc w (pcAfter t (c.tasks t) task e)).tasks =
      Function.update c.tasks t task := by
    rw [← htalks.tasks]
    rfl
  obtain ⟨t', hp, hspins⟩ := spins_iff.mp (hspin w)
  rw [hworkers, Function.update_self] at hp
  have htt : t' = t := by
    have hflow : e = .tail → (c.tasks t).tail.2 ≠ some .block := by
      rintro rfl hb
      simp only [pcAfter, hb] at hp
      cases hp
    have hholds : (pcAfter t (c.tasks t) task e).holds t' = (t == t') :=
      (pcAfter_holds hflow t').1
    dsimp only at hp
    rw [hp, Pc.holds, beq_self_eq_true] at hholds
    exact (beq_iff_eq.mp hholds.symm).symm
  subst htt
  rw [htasks, Function.update_self] at hspins
  obtain ⟨hquiet, h⟩ := spins_step ht hspins
  have hothers : ∀ v, v ≠ w → c.spins v = true := fun v hv => by
    rw [← spins_other hres hhold hworkers htasks hv]
    exact hspin v
  have hcowes : c.Owes u := by
    refine howes.settled (settles_step (w := w) (t := t') (by rw [hpc]; simp [Pc.task]) hp
      (quiet_of_step hquiet ht) hworkers htasks (fun s hs => htalk.quiet_joining hquiet hs)
      fun s u hu => ?_)
    rw [← htalk.holders s]
    exact hu
  have hcu : u ∈ c.runq := htalks.runq ▸ hu
  rcases h with h | h
  · refine Or.inl ⟨fun v => ?_, u, hcu, hcowes⟩
    by_cases hv : v = w
    · rw [hv]
      exact spins_iff.mpr ⟨t', hpc, h⟩
    · exact hothers v hv
  · refine Or.inr ⟨?_, hothers, u, hcu, hcowes⟩
    simpa only [Config.startsToSpin, hpc] using h

theorem starves_of_starved (hr : Reachable (system n) c) (hs : c.step e = some d)
    (hd : Starved d) : Starved c ∨ Starves c e := by
  have hres := reachable_resident hr
  obtain ⟨hspin, u, hu, howes⟩ := hd
  -- the steps of a worker that leave it without a task
  have hidle : ∀ {w worker}, d.workers = Function.update c.workers w worker →
      (∀ t, worker.pc ≠ .holding t) → False := by
    intro w worker hw hpc
    obtain ⟨t, hp, _⟩ := spins_iff.mp (hspin w)
    rw [hw, Function.update_self] at hp
    exact hpc t hp
  have hm := move_of_step hs
  cases hm with
  | stop => exact Or.inl ⟨hspin, u, hu, howes⟩
  | spawn => exact starves_of_spawn hres ⟨hspin, u, hu, howes⟩
  | clone hmem =>
    refine Or.inl (Starved.of_setSession ⟨hspin, u, hu, howes⟩ (fun h => h) fun u hu => ?_)
    rcases List.mem_append.mp hu with hu | hu
    · exact hu
    · rwa [List.mem_singleton.mp hu]
  | give => exact starves_of_give ⟨hspin, u, hu, howes⟩
  | drop =>
    exact Or.inl (Starved.of_setSession ⟨hspin, u, hu, howes⟩ (fun h => h) fun _ hu =>
      List.mem_of_mem_erase hu)
  | fault | wake =>
    exact Or.inl ((Starved.of_win ⟨hspin, u, hu, howes⟩).of_setSession (fun h => h) fun _ hu =>
      List.mem_of_mem_erase hu)
  | push => exact Or.inl (Starved.of_push ⟨hspin, u, hu, howes⟩)
  | @resume t ht =>
    have hc : c.Owes u := howes
    rcases List.mem_append.mp hu with hu | hu
    · exact Or.inl ⟨hspin, u, hu, hc⟩
    · rw [List.mem_singleton.mp hu] at hc
      exact Or.inr ⟨hspin, hc⟩
  | claim =>
    exact Or.inl (Starved.of_setSession ⟨hspin, u, hu, howes⟩ (fun h => by cases h) fun _ hu => hu)
  | pop | reenter | yield | block | cease | exchanged | forget | retire | sweep | enqueue | exit =>
    exact (hidle rfl nofun).elim
  | grab =>
    refine (hidle rfl fun t hp => ?_).elim
    dsimp only at hp
    split at hp <;> cases hp
  | @enter w mode t task hw hmode ht =>
    obtain ⟨t', hp, hspins⟩ := spins_iff.mp (hspin w)
    simp only [Config.setWorker, Config.setTask, Function.update_self, Pc.holding.injEq] at hp hspins
    subst hp
    rw [Function.update_self] at hspins
    have hrest := resting_of_enter (Or.inl rfl) ht
    rcases (spins_step ht hspins).2 with h | h
    · rw [hrest] at h
      cases h
    · cases h
  | abort hw ht => exact Or.inr (starves_of_abort hres hw ht ⟨hspin, u, hu, howes⟩)
  | run hpc hc ht => exact starves_of_run hres hpc hc ht ⟨hspin, u, hu, howes⟩

/-- The last worker begins to spin on the task that it took. -/
theorem starved_started (hres : Resident c) {w : Fin n} {t u : ℕ} {task : Tasks.Task SessionId}
    {worker : Worker} (ht : t ∈ (c.workers w).pc.task.toList) (hworker : worker.pc = .holding t)
    (hw : d.workers = Function.update c.workers w worker)
    (htasks : d.tasks = Function.update c.tasks t task) (hsessions : d.sessions = c.sessions)
    (hrunq : d.runq = c.runq) (hspins : task.spins = true)
    (hcs : task.coroutines = (c.tasks t).coroutines)
    (hb : task.blockingCoroutines = (c.tasks t).blockingCoroutines)
    (hothers : ∀ v, v ≠ w → c.spins v = true) (hu : u ∈ c.runq) (howes : c.Owes u) :
    Starved d := by
  have hhold : (c.workers w).pc.holds t = true := by
    rcases mem_task ht with hp | hp
    · rw [hp]
      simp [Pc.holds]
    · rw [hp]
      simp [Pc.holds]
  refine ⟨fun v => ?_, u, hrunq ▸ hu, howes.same (fun v t' ht' => ⟨?_, ?_⟩) hsessions⟩
  · by_cases hv : v = w
    · refine spins_iff.mpr ⟨t, ?_, ?_⟩
      · rw [hw, hv, Function.update_self, hworker]
      · rw [htasks, Function.update_self]
        exact hspins
    · rw [spins_other hres hhold hw htasks hv]
      exact hothers v hv
  · rw [hw]
    by_cases hv : v = w
    · subst hv
      have htt : t' = t := by
        rcases mem_task ht with hp | hp
        · rw [hp] at ht'
          exact List.mem_singleton.mp ht'
        · rw [hp] at ht'
          exact List.mem_singleton.mp ht'
      rw [Function.update_self, hworker, htt]
      exact List.mem_singleton_self t
    · rwa [Function.update_of_ne hv]
  · rw [htasks]
    by_cases htt : t' = t
    · rw [htt, Function.update_self]
      exact ⟨hcs, hb⟩
    · rw [Function.update_of_ne htt]
      exact ⟨rfl, rfl⟩

theorem starved_of_starves (hr : Reachable (system n) c) (hs : c.step e = some d)
    (hbad : Starves c e) : Starved d := by
  have hres := reachable_resident hr
  have hm := move_of_step hs
  cases hm with
  | @run w t e' m task hpc hc ht =>
    obtain ⟨hstart, hothers, u, hu, howes⟩ := hbad
    simp only [Config.startsToSpin, hpc] at hstart
    obtain ⟨hspins, hcs, hblocking⟩ := started ht hstart
    obtain ⟨hpass, _⟩ := Task.spins_iff.mp hspins
    have hmc : m = c ∧ pcAfter t (c.tasks t) task e' = .holding t := by
      cases e' with
      | next | abortNext =>
        cases hc
        refine ⟨rfl, ?_⟩
        unfold pcAfter
        split
        next he => cases he
        · split
          next hctl => rw [hctl] at hpass; cases hpass
          next hctl => rw [hctl] at hpass; cases hpass
          next => rfl
      | stop => cases hc
      | wake _ | grab | begin | tail | interrupt _ | visit _ _ | endInterrupt | final | op _
      | awake _ | unpark => cases hstart
    obtain ⟨rfl, hafter⟩ := hmc
    rw [hafter]
    exact starved_started hres (by rw [hpc]; simp [Pc.task]) rfl rfl rfl rfl rfl hspins hcs
      hblocking hothers hu howes
  | @enter w mode t task hw hmode ht =>
    obtain ⟨hstart, _⟩ := hbad
    simp only [Config.startsToSpin, hw] at hstart
    cases mode with
    | sweeping => exact absurd rfl hmode
    | serving | draining | exited | panicked => cases hstart
  | @abort w ambient t task hw ht =>
    obtain ⟨hstart, hothers, u, hu, howes⟩ := hbad
    simp only [Config.startsToSpin, hw] at hstart
    obtain ⟨hspins, hcs, hblocking⟩ := started ht hstart
    exact starved_started hres (by rw [hw]; simp [Pc.task]) rfl rfl rfl rfl rfl hspins hcs
      hblocking hothers hu howes
  | @reenter w mode other t hw hmode =>
    obtain ⟨hstart, _⟩ := hbad
    simp only [Config.startsToSpin, hw] at hstart
    cases mode with
    | sweeping => exact absurd rfl hmode
    | serving | draining | exited | panicked => cases hstart
  | @give s holder next hmem hacts =>
    obtain ⟨hspin, ⟨w, t, ht, haw⟩, u, hu, rfl⟩ := hbad
    refine ⟨hspin, u, hu, w, t, ht, s, ?_, ?_⟩
    · rw [mem_awaited] at haw ⊢
      simpa [Config.setSession] using haw
    · simp [Config.setSession]
  | @resume u hu =>
    obtain ⟨hspin, howes⟩ := hbad
    exact ⟨hspin, u, List.mem_append_right _ (List.mem_singleton_self u), howes⟩
  | spawn =>
    obtain ⟨hspin, howes⟩ := hbad
    have hsame : ∀ t, t < c.created →
        Function.update c.tasks c.created .new t = c.tasks t := fun t ht =>
      Function.update_of_ne (Nat.ne_of_lt ht) _ _
    refine ⟨fun w => ?_, c.created, List.mem_append_right _ (List.mem_singleton_self _),
      howes.same (fun w t ht => ?_) rfl⟩
    · obtain ⟨t, hp, ht⟩ := spins_iff.mp (hspin w)
      have hlt := hres.task_created (w := w) (t := t) (by rw [hp]; simp [Pc.task])
      refine spins_iff.mpr ⟨t, hp, ?_⟩
      simpa [Config.setTask, hsame t hlt] using ht
    · have he := hsame t (hres.task_created ht)
      simp only [Config.setTask, he]
      exact ⟨ht, trivial, trivial⟩
  | stop | clone | drop | fault | wake | push | pop | claim | yield | block | cease | exchanged
  | forget | retire | sweep | grab | enqueue | exit => cases hbad

end Moves

/-- The runs in which the workers are never starved are those without a step that starves them,
where a worker counts as spinning as soon as a pass of `abort` begins that has nothing to run. -/
theorem aborts_not_starved (ρ : Execution (system n)) :
    (∀ c, ρ.Visits c → ¬ Starved c) ↔ ∀ c e, ρ.Takes c e → ¬ Starves c e := by
  refine ρ.exact (B := Reachable (system n)) (fun _ hr => hr) ?_ fun c e d hr hn hs => ?_
  · rintro ⟨_, u, hu, _⟩
    cases hu
  · constructor
    · intro hd hbad
      exact hd (starved_of_starves hr hs hbad)
    · intro hbad hd
      rcases starves_of_starved hr hs hd with hc | hc
      · exact hn hc
      · exact hbad hc

/-- The only worker aborts a task. A coroutine of it waits uninterruptibly, and another task, which
is in the run queue, has the waker. The cancellation has returned, and every further pass of the
abort finds nothing to run. -/
def starvedRun : Execution (system 1) where
  events := [.spawn, .spawn, .give (.user 0) .thread (.task 1), .pop 0, .enter 0, .run 0 .next,
    .run 0 (.op (.spawn 1)), .run 0 (.op (.finish true)), .run 0 .next, .run 0 (.interrupt []),
    .run 0 .endInterrupt, .run 0 .abortNext, .run 0 (.op (.wait (.user 0) false)),
    .run 0 .abortNext, .run 0 (.interrupt []), .run 0 (.visit 1 false), .run 0 .endInterrupt,
    .run 0 .abortNext, .run 0 (.awake false), .run 0 (.op (.settle false)), .run 0 .abortNext,
    .run 0 (.interrupt []), .run 0 (.visit 1 false), .run 0 .endInterrupt]
  fires := by decide +kernel

theorem abort_starves : ∃ c, Reachable (system 1) c ∧ Starved c ∧
    (c.tasks 0).blockingCoroutines.map Prod.fst = [1] ∧
    ((c.tasks 0).blockingCoroutines.all fun e => decide (e.2 = .uninterruptible)) = true :=
  ⟨starvedRun.final, starvedRun.final_reachable,
    ⟨by decide +kernel, 1, by decide +kernel, by decide +kernel⟩, by decide +kernel,
    by decide +kernel⟩

end Scheduler
