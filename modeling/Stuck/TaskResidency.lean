import Stuck.Census
import Stuck.TaskCompletion
import Stuck.SchedulerSteps

/-! Where the tasks are. A registered task is in the run queue, with a worker, with the waker that is
to resume it, with the worker that grabbed it, or blocked, and in one of these once; nothing wakes
a blocked task unseen. -/
namespace Tasks

open TransitionSystem SharedTypes

variable {S : Type*} {t u : Task S}

theorem Task.running_unblock_false (t : Task S) : (t.unblock false).1.running = t.running := by
  unfold Task.unblock
  split
  · rfl
  · rw [if_neg (by simp)]
    obtain ⟨_, _, h⟩ := Task.unblocks_eq t.unblockingCoroutines { t with unblockingCoroutines := [] }
    rw [h]

/-- `Task::unblock` clears `running` only on a task that nobody is about to wake. -/
theorem Task.running_unblock_true (hb : t.blockingCoroutines ≠ []) :
    (t.unblock true).2 = true ∧ (t.unblock true).1.running = t.running ∨
    (t.unblock true).2 = false ∧ (t.unblock true).1.running = false ∧
      (t.unblock true).1.unblockingCoroutines = [] := by
  unfold Task.unblock
  rw [if_neg hb]
  split
  next h => exact Or.inr ⟨rfl, rfl, h.2⟩
  next =>
    obtain ⟨_, _, h⟩ := Task.unblocks_eq t.unblockingCoroutines { t with unblockingCoroutines := [] }
    rw [h]
    exact Or.inl ⟨rfl, rfl⟩

theorem Task.running_tail (t : Task S) :
    t.tail.2 ≠ some .block ∧ t.tail.1.running = t.running ∨
    t.tail.2 = some .block ∧ t.tail.1.running = false ∧ t.tail.1.unblockingCoroutines = [] := by
  unfold Task.tail
  dsimp only
  split
  · exact Or.inl ⟨by simp, rfl⟩
  · split
    · split
      · exact Or.inl ⟨by simp, rfl⟩
      · exact Or.inl ⟨by simp, rfl⟩
    next hb =>
      rcases Task.running_unblock_true (t := { t with yielding := false }) hb with
        ⟨h2, h1⟩ | ⟨h2, h1, hu⟩
      · exact Or.inl ⟨by simp [h2], h1⟩
      · exact Or.inr ⟨by simp [h2], h1, hu⟩

theorem Task.running_recheck {frame : Frame} {co : ℕ} {session : S} {interruptible ready : Bool} :
    (t.recheck frame co session interruptible ready).running = t.running := by
  unfold Task.recheck
  split <;> rfl

theorem Task.running_op {frame : Frame} {co : ℕ} {op : Op S} (h : t.op frame co op = some u) :
    u.running = t.running := by
  cases op with
  | spawn new =>
    simp only [Task.op] at h
    split at h <;> cases h
    unfold Task.spawn
    split <;> rfl
  | yieldCoroutine =>
    cases h
    unfold Task.yieldCoroutine
    split <;> rfl
  | yieldTask =>
    cases h
    unfold Task.yieldTask Task.yieldCoroutine
    split <;> rfl
  | suspend => cases h; rfl
  | resume other =>
    cases h
    unfold Task.resume
    split <;> rfl
  | wait session interruptible => cases h; rfl
  | thread session interruptible => cases h; rfl
  | settle ready =>
    simp only [Task.op] at h
    split at h <;> cases h
    exact Task.running_recheck
  | finish entered =>
    simp only [Task.op] at h
    split at h <;> cases h
    unfold Task.finish
    split
    · split <;> rfl
    · rfl

/-- The thread that executes the task leaves `running` alone up to the end of `sched`. -/
theorem Task.running_step {e : Event S} (h : t.step e = some u) (hw : ∀ co, e ≠ .wake co)
    (hg : e ≠ .grab) (ht : e ≠ .tail) : u.running = t.running := by
  cases step_moves h with
  | wake => exact absurd rfl (hw _)
  | grab => exact absurd rfl hg
  | tail => exact absurd rfl ht
  | begin => exact Task.running_unblock_false _
  | stop => rfl
  | next =>
    unfold Task.next
    split
    · split <;> rfl
    · split <;> rfl
  | interrupt => rfl
  | @visit co won reason rest yielding =>
    obtain ⟨_, _, _, he, _⟩ := t.visit_eq co yielding won
    rw [he]
    rfl
  | @endInterrupt reason =>
    obtain ⟨control, he⟩ := t.endInterrupt_eq reason
    rw [he]
    exact t.running_unblock_false
  | abortNext =>
    unfold Task.abortNext
    split <;> rfl
  | final =>
    unfold Task.final
    split <;> rfl
  | op _ _ acts => exact Task.running_op acts
  | awake =>
    unfold Task.awake
    split
    · rfl
    · exact Task.running_recheck
  | unpark => rfl

end Tasks

namespace Scheduler

open TransitionSystem SharedTypes Tasks Census

variable {n : ℕ} {c d : Config n}

/-- From the pop until the task is queued again or removed, or until it is blocked. -/
def Pc.holds (t : ℕ) : Pc → Bool
  | .popped u | .holding u | .aborted u | .returned u .yield | .returned u .cease => u == t
  | _ => false

def Pc.grabs (t : ℕ) : Pc → Bool
  | .grabbed u => u == t
  | _ => false

/-- The number of workers that hold the task. -/
def Config.heldBy (c : Config n) (t : ℕ) : ℕ :=
  tally (fun worker : Worker => worker.pc.holds t = true) c.workers

def Config.grabbedBy (c : Config n) (t : ℕ) : ℕ :=
  tally (fun worker : Worker => worker.pc.grabs t = true) c.workers

/-- A task whose `running` is unset is blocked. -/
def Config.blocked (c : Config n) (t : ℕ) : ℕ := (!(c.tasks t).running).toNat

def Config.places (c : Config n) (t : ℕ) : ℕ :=
  c.runq.count t + c.heldBy t + c.carried.count t + c.grabbedBy t + c.blocked t

structure Resident (c : Config n) : Prop where
  placed : ∀ t, c.places t = c.registry.count t
  single : c.registry.Nodup
  known : ∀ t ∈ c.registry, t < c.created
  quiet : ∀ t, (c.tasks t).running = false → (c.tasks t).unblockingCoroutines = []

theorem heldBy_update (c : Config n) (w : Fin n) (worker : Worker) (t : ℕ) :
    tally (fun worker : Worker => worker.pc.holds t = true)
      (Function.update c.workers w worker) + (if (c.workers w).pc.holds t then 1 else 0) =
      c.heldBy t + (if worker.pc.holds t then 1 else 0) :=
  tally_update (fun worker : Worker => worker.pc.holds t = true) c.workers w worker

theorem grabbedBy_update (c : Config n) (w : Fin n) (worker : Worker) (t : ℕ) :
    tally (fun worker : Worker => worker.pc.grabs t = true)
      (Function.update c.workers w worker) + (if (c.workers w).pc.grabs t then 1 else 0) =
      c.grabbedBy t + (if worker.pc.grabs t then 1 else 0) :=
  tally_update (fun worker : Worker => worker.pc.grabs t = true) c.workers w worker

/-- One worker moves, and the queue, the registry and the wakers account for it. -/
theorem Resident.moved (h : Resident c) {w : Fin n} {worker : Worker}
    (hworkers : d.workers = Function.update c.workers w worker)
    (hbalance : ∀ t, d.runq.count t + (if worker.pc.holds t then 1 else 0) + d.carried.count t +
        (if worker.pc.grabs t then 1 else 0) + d.blocked t + c.registry.count t =
      c.runq.count t + (if (c.workers w).pc.holds t then 1 else 0) + c.carried.count t +
        (if (c.workers w).pc.grabs t then 1 else 0) + c.blocked t + d.registry.count t)
    (hregistry : d.registry.Sublist c.registry) (hcreated : d.created = c.created)
    (hquiet : ∀ t, (d.tasks t).running = false → (d.tasks t).unblockingCoroutines = []) :
    Resident d where
  placed t := by
    have hp := h.placed t
    have hh := heldBy_update c w worker t
    have hg := grabbedBy_update c w worker t
    have hb := hbalance t
    unfold Config.places at hp ⊢
    rw [Config.heldBy, Config.grabbedBy, hworkers]
    omega
  single := h.single.sublist hregistry
  known t ht := hcreated ▸ h.known t (hregistry.subset ht)
  quiet := hquiet

/-- The same for a step that leaves the tasks alone. -/
theorem Resident.shifted (h : Resident c) {w : Fin n} {worker : Worker}
    (hworkers : d.workers = Function.update c.workers w worker) (htasks : d.tasks = c.tasks)
    (hbalance : ∀ t, d.runq.count t + (if worker.pc.holds t then 1 else 0) + d.carried.count t +
        (if worker.pc.grabs t then 1 else 0) + c.registry.count t =
      c.runq.count t + (if (c.workers w).pc.holds t then 1 else 0) + c.carried.count t +
        (if (c.workers w).pc.grabs t then 1 else 0) + d.registry.count t)
    (hregistry : d.registry.Sublist c.registry) (hcreated : d.created = c.created) :
    Resident d := by
  refine h.moved hworkers (fun t => ?_) hregistry hcreated (htasks ▸ h.quiet)
  have hb := hbalance t
  have hblocked : d.blocked t = c.blocked t := by rw [Config.blocked, htasks]; rfl
  omega

theorem Resident.registered (h : Resident c) {w : Fin n} {t : ℕ}
    (hw : (c.workers w).pc.holds t = true) : t ∈ c.registry := by
  have hp := h.placed t
  have hpos := tally_pos (fun worker : Worker => worker.pc.holds t = true) (f := c.workers) hw
  rw [← List.count_pos_iff, ← hp]
  unfold Config.places Config.heldBy
  omega

theorem Resident.one_holder (h : Resident c) {w v : Fin n} {t : ℕ}
    (hw : (c.workers w).pc.holds t = true) (hv : (c.workers v).pc.holds t = true) : w = v := by
  by_contra hne
  have htwo := two_le_tally (fun worker : Worker => worker.pc.holds t = true) (f := c.workers)
    hne hw hv
  have hp := h.placed t
  have hone := List.nodup_iff_count_le_one.mp h.single t
  unfold Config.places Config.heldBy at hp
  omega

/-- A task in the hands of a worker is not blocked. -/
theorem Resident.running (h : Resident c) {w : Fin n} {t : ℕ}
    (hw : (c.workers w).pc.holds t = true ∨ (c.workers w).pc.grabs t = true) :
    (c.tasks t).running = true := by
  have hp := h.placed t
  have hone := List.nodup_iff_count_le_one.mp h.single t
  have hpos : 0 < c.heldBy t + c.grabbedBy t := by
    rcases hw with hw | hw
    · have := tally_pos (fun worker : Worker => worker.pc.holds t = true) (f := c.workers) hw
      unfold Config.heldBy
      omega
    · have := tally_pos (fun worker : Worker => worker.pc.grabs t = true) (f := c.workers) hw
      unfold Config.grabbedBy
      omega
  cases hr : (c.tasks t).running with
  | true => rfl
  | false =>
    rw [Config.places, Config.blocked, hr, Bool.not_false, Bool.toNat_true] at hp
    omega

theorem resident_initial : Resident (initial n) := by
  refine ⟨fun t => ?_, by simp [initial], by simp [initial], by simp [initial, Task.new]⟩
  simp [Config.places, Config.heldBy, Config.grabbedBy, Config.blocked, initial, tally, Pc.holds,
    Pc.grabs, Task.new]

theorem blocked_update {t : ℕ} {task : Tasks.Task SessionId}
    (h : task.running = (c.tasks t).running) (ht : d.tasks = Function.update c.tasks t task)
    (u : ℕ) : d.blocked u = c.blocked u := by
  unfold Config.blocked
  rw [ht]
  by_cases hu : u = t
  · rw [hu, Function.update_self, h]
  · rw [Function.update_of_ne hu]

theorem quiet_update (h : Resident c) {t : ℕ} {task : Tasks.Task SessionId}
    (hq : task.running = false → task.unblockingCoroutines = []) (u : ℕ)
    (hu : (Function.update c.tasks t task u).running = false) :
    (Function.update c.tasks t task u).unblockingCoroutines = [] := by
  by_cases hut : u = t
  · rw [hut, Function.update_self] at hu ⊢
    exact hq hu
  · rw [Function.update_of_ne hut] at hu ⊢
    exact h.quiet u hu

/-- A worker goes on with the task it holds, which stays as it is for the other threads. -/
theorem Resident.goesOn (h : Resident c) {w : Fin n} {t : ℕ} {task : Tasks.Task SessionId}
    {worker : Worker} (hold : (c.workers w).pc.holds t = true)
    (hpc : ∀ u, worker.pc.holds u = (c.workers w).pc.holds u)
    (hgrab : ∀ u, worker.pc.grabs u = (c.workers w).pc.grabs u)
    (hrunning : task.running = (c.tasks t).running)
    (hd : d = { (c.setTask t task).setWorker w worker with
      sessions := d.sessions, waking := d.waking }) : Resident d := by
  have htasks : d.tasks = Function.update c.tasks t task := by rw [hd]; rfl
  have hworkers : d.workers = Function.update c.workers w worker := by rw [hd]; rfl
  refine h.moved hworkers (fun u => ?_) (by rw [hd]; exact .refl _) (by rw [hd]; rfl) ?_
  · rw [blocked_update hrunning htasks, hpc, hgrab, hd]
    rfl
  · rw [htasks]
    exact quiet_update h fun hr => by rw [hrunning, h.running (Or.inl hold)] at hr; cases hr

theorem pcAfter_holds {t : ℕ} {task task' : Tasks.Task SessionId} {e : Tasks.Event SessionId}
    (he : e = .tail → task.tail.2 ≠ some .block) (u : ℕ) :
    (pcAfter t task task' e).holds u = (t == u) ∧ (pcAfter t task task' e).grabs u = false := by
  unfold pcAfter
  split
  · split
    next flow hf =>
      cases flow with
      | yield | cease => exact ⟨rfl, rfl⟩
      | block => exact absurd hf (he rfl)
    next => exact ⟨rfl, rfl⟩
  · split <;> exact ⟨rfl, rfl⟩

/-- The worker that executes the task takes a step, and may publish that it is blocked. -/
theorem Resident.run (h : Resident c) {w : Fin n} {t : ℕ} {e : Tasks.Event SessionId}
    {m : Config n} {task : Tasks.Task SessionId} (hpc : (c.workers w).pc = .holding t)
    (hm : c.consult w t e = some m) (ht : (c.tasks t).step e = some task) :
    Resident ((m.setTask t task).setPc w (pcAfter t (c.tasks t) task e)) := by
  have hd : (m.setTask t task).setPc w (pcAfter t (c.tasks t) task e) =
      { (c.setTask t task).setWorker w
          { c.workers w with pc := pcAfter t (c.tasks t) task e } with
        sessions := m.sessions, waking := m.waking } := by
    rw [consult_talks hm]
    rfl
  have hstays : (e = .tail → (c.tasks t).tail.2 ≠ some .block) →
      task.running = (c.tasks t).running →
      Resident ((m.setTask t task).setPc w (pcAfter t (c.tasks t) task e)) := by
    intro hflow hrunning
    refine h.goesOn (by rw [hpc]; simp [Pc.holds]) (fun u => ?_) (fun u => ?_) hrunning hd
    · rw [hpc]
      exact (pcAfter_holds hflow u).1
    · rw [hpc]
      exact (pcAfter_holds hflow u).2
  by_cases htail : e = .tail
  · subst htail
    cases step_moves ht
    rcases (c.tasks t).running_tail with ⟨hflow, hrunning⟩ | ⟨hflow, hrunning, hquiet⟩
    · exact hstays (fun _ => hflow) hrunning
    · have hwas := h.running (w := w) (t := t) (Or.inl (by rw [hpc]; simp [Pc.holds]))
      rw [hd]
      refine h.moved rfl (fun u => ?_) (.refl _) rfl (quiet_update h fun _ => hquiet)
      simp only [pcAfter, hflow, hpc, Config.blocked, Config.setWorker, Config.setTask, Pc.holds,
        Pc.grabs]
      by_cases hu : u = t
      · subst hu
        rw [Function.update_self, hrunning, hwas]
        simp
        omega
      · rw [Function.update_of_ne hu]
        simp [Ne.symm hu]
  · have hwake : ∀ co, e ≠ .wake co := by
      rintro co rfl
      cases hm
    have hgrab : e ≠ .grab := by
      rintro rfl
      cases hm
    exact hstays (fun he => absurd he htail) (Task.running_step ht hwake hgrab htail)

/-- The task has left the place in which a worker held it. -/
theorem Resident.removed (h : Resident c) {w : Fin n} {worker : Worker} {t : ℕ}
    (hold : ∀ u, (c.workers w).pc.holds u = (t == u)) (hgrab : ∀ u, (c.workers w).pc.grabs u = false)
    (hidle : worker.pc = .idle) :
    Resident { c.setWorker w worker with registry := c.registry.erase t } := by
  have hm : t ∈ c.registry := h.registered (w := w) (by rw [hold, beq_self_eq_true])
  refine h.shifted rfl rfl (fun u => ?_) List.erase_sublist rfl
  have he := count_erase_add hm u
  rw [hold, hgrab, hidle]
  simp only [Pc.holds, Pc.grabs, beq_iff_eq, Bool.false_eq_true, if_false, Config.setWorker]
  omega

theorem Resident.spawn (h : Resident c) : Resident { c.setTask c.created .new with
    runq := c.runq ++ [c.created]
    registry := c.registry ++ [c.created]
    created := c.created + 1 } := by
  have hfresh : c.created ∉ c.registry := fun hm => absurd (h.known _ hm) (Nat.lt_irrefl _)
  refine ⟨fun t => ?_, ?_, ?_, ?_⟩
  · have hp := h.placed t
    have hn := h.placed c.created
    rw [List.count_eq_zero.mpr hfresh] at hn
    simp only [Config.places, Config.heldBy, Config.grabbedBy, Config.setTask, List.count_append,
      List.count_singleton, beq_iff_eq] at hp ⊢
    by_cases ht : t = c.created
    · subst ht
      simp only [Config.places, Config.heldBy, Config.grabbedBy] at hn
      simp only [Config.blocked, Function.update_self, Task.new, if_true, Bool.not_true,
        Bool.toNat_false, List.count_eq_zero.mpr hfresh]
      omega
    · simp only [Config.blocked, Function.update_of_ne ht, if_neg (Ne.symm ht)] at hp ⊢
      omega
  · exact List.nodup_append.mpr ⟨h.single, by simp, fun a ha b hb => by
      rw [List.mem_singleton.mp hb]
      rintro rfl
      exact hfresh ha⟩
  · intro t ht
    rcases List.mem_append.mp ht with ht | ht
    · exact Nat.lt_succ_of_lt (h.known t ht)
    · rw [List.mem_singleton.mp ht]
      exact Nat.lt_succ_self _
  · exact quiet_update h (by simp [Task.new])

/-- A waker pushes its coroutine: the first one to find the task blocked carries it on. -/
theorem Resident.push (h : Resident c) (wake : Wake) : Resident
    { c.setTask wake.task ((c.tasks wake.task).wake wake.co).1 with
      waking := c.waking.erase wake
      carried := if ((c.tasks wake.task).wake wake.co).2 then c.carried ++ [wake.task]
        else c.carried } := by
  have hquiet := h.quiet wake.task
  have hcases : ((c.tasks wake.task).running = true ∧
        ((c.tasks wake.task).wake wake.co).2 = false) ∨
      (c.tasks wake.task).running = false ∧ ((c.tasks wake.task).wake wake.co).2 = true := by
    cases hr : (c.tasks wake.task).running with
    | true => exact Or.inl ⟨rfl, by simp [Task.wake, hr]⟩
    | false => exact Or.inr ⟨rfl, by simp [Task.wake, hr, hquiet hr]⟩
  have hrunning : ((c.tasks wake.task).wake wake.co).1.running = true := by
    rcases hcases with ⟨hr, _⟩ | ⟨hr, hw⟩
    · simp [Task.wake, hr]
    · have hq := hquiet hr
      simp [Task.wake, hr, hq]
  refine ⟨fun t => ?_, h.single, h.known, quiet_update h (fun hr => by rw [hrunning] at hr; cases hr)⟩
  have hp := h.placed t
  simp only [Config.places, Config.heldBy, Config.grabbedBy, Config.blocked, Config.setTask] at hp ⊢
  by_cases ht : t = wake.task
  · subst ht
    rw [Function.update_self, hrunning]
    rcases hcases with ⟨hr, hw⟩ | ⟨hr, hw⟩
    · rw [hr] at hp
      rw [hw]
      exact hp
    · rw [hr, Bool.not_false, Bool.toNat_true] at hp
      rw [hw, if_pos rfl, List.count_append, List.count_singleton_self, Bool.not_true,
        Bool.toNat_false]
      omega
  · rw [Function.update_of_ne ht]
    split
    · rw [List.count_append, List.count_singleton, if_neg (by simpa using Ne.symm ht)]
      exact hp
    · exact hp

theorem Resident.talks (h : Resident c) (hd : c.Talks d) : Resident d := by
  rw [hd]
  exact ⟨h.placed, h.single, h.known, h.quiet⟩

theorem Resident.step (h : Resident c) {e : Event n} (hs : c.step e = some d) : Resident d := by
  have hm := move_of_step hs
  cases hm with
  | stop => exact ⟨h.placed, h.single, h.known, h.quiet⟩
  | spawn => exact h.spawn
  | clone | give | drop | claim => exact h.talks (.setSession _ _)
  | fault | wake => exact h.talks ((Config.Talks.setSession _ _).trans (win_talks _ _))
  | push hw => exact h.push _
  | @resume t ht =>
    refine ⟨fun u => ?_, h.single, h.known, h.quiet⟩
    have hp := h.placed u
    have he := count_erase_add ht u
    simp only [Config.places, Config.heldBy, Config.grabbedBy, Config.blocked, List.count_append,
      List.count_singleton, beq_iff_eq] at hp ⊢
    omega
  | @pop w t rest hp hr =>
    refine h.shifted rfl rfl (fun u => ?_) (.refl _) rfl
    simp only [hp, hr, Pc.holds, Pc.grabs, Config.setPc, Config.setWorker, List.count_cons,
      beq_iff_eq, Bool.false_eq_true, if_false]
    omega
  | @enter w mode t task hw hmode ht =>
    have hrunning := Task.running_step ht (by simp) (by simp) (by simp)
    exact h.goesOn (w := w) (t := t) (by simp [hw, Pc.holds]) (fun u => by rw [hw]; rfl)
      (fun u => by rw [hw]; rfl) hrunning rfl
  | @abort w ambient t task hw ht =>
    have hrunning := Task.running_step ht (by simp) (by simp) (by simp)
    exact h.goesOn (w := w) (t := t) (by simp [hw, Pc.holds]) (fun u => by rw [hw]; rfl)
      (fun u => by rw [hw]; rfl) hrunning rfl
  | reenter hw hmode => exact h.shifted rfl rfl (fun u => by rw [hw]; rfl) (.refl _) rfl
  | run hpc hm ht => exact h.run hpc hm ht
  | @yield w mode t hw =>
    refine h.shifted rfl rfl (fun u => ?_) (.refl _) rfl
    simp only [hw, Pc.holds, Pc.grabs, Config.setWorker, List.count_append, List.count_singleton,
      Bool.false_eq_true, if_false]
    omega
  | block hw => exact h.shifted rfl rfl (fun u => by rw [hw]; rfl) (.refl _) rfl
  | cease hw => exact h.removed (fun u => by rw [hw]; rfl) (fun u => by rw [hw]; rfl) rfl
  | exchanged hw ha => exact h.shifted rfl rfl (fun u => by rw [hw]; rfl) (.refl _) rfl
  | forget hw => exact h.removed (fun u => by rw [hw]; rfl) (fun u => by rw [hw]; rfl) rfl
  | retire hw => exact h.shifted rfl rfl (fun u => by rw [hw]; rfl) (.refl _) rfl
  | sweep hw => exact h.shifted rfl rfl (fun u => by rw [hw]; rfl) (.refl _) rfl
  | @grab w ambient t hw hr =>
    have hquiet : ∀ u, (Function.update c.tasks t (c.tasks t).grab.1 u).running = false →
        (Function.update c.tasks t (c.tasks t).grab.1 u).unblockingCoroutines = [] :=
      quiet_update h (by simp [Task.grab])
    cases hrun : (c.tasks t).running with
    | true =>
      have hsame : (c.tasks t).grab.1.running = (c.tasks t).running := hrun.symm
      refine h.moved rfl (fun u => ?_) (.refl _) rfl hquiet
      rw [blocked_update hsame rfl, hw]
      simp [Task.grab, hrun, Pc.holds, Pc.grabs, Config.setWorker, Config.setTask]
    | false =>
      refine h.moved rfl (fun u => ?_) (.refl _) rfl hquiet
      rw [hw]
      by_cases hu : u = t
      · subst hu
        simp [Task.grab, hrun, Pc.holds, Pc.grabs, Config.setWorker, Config.setTask, Config.blocked]
      · simp [Task.grab, hrun, Pc.holds, Pc.grabs, Config.setWorker, Config.setTask, Config.blocked,
          Function.update_of_ne hu, Ne.symm hu]
  | @enqueue w t hp =>
    refine h.shifted rfl rfl (fun u => ?_) (.refl _) rfl
    simp only [hp, Pc.holds, Pc.grabs, Config.setPc, Config.setWorker, List.count_append,
      List.count_singleton, Bool.false_eq_true, if_false]
    omega
  | exit hw => exact h.shifted rfl rfl (fun u => by rw [hw]; rfl) (.refl _) rfl

theorem reachable_resident (h : Reachable (system n) c) : Resident c :=
  h.invariant (I := Resident) resident_initial fun _ _ _ hc hs => hc.step hs

/-- A registered task is in exactly one place, and one that is not registered in none. A blocked
task has no unblocking coroutine, so the next wake carries it and its resume queues it once. -/
theorem task_residency (h : Reachable (system n) c) :
    (∀ t, c.places t = if t ∈ c.registry then 1 else 0) ∧
    (∀ t, (c.tasks t).running = false → (c.tasks t).unblockingCoroutines = []) ∧
    (∀ wake d, c.step (.push wake) = some d → (c.tasks wake.task).running = false →
      (d.tasks wake.task).running = true ∧ d.carried.count wake.task = 1 ∧
        d.places wake.task = 1) ∧
    ∀ t d, c.step (.resume t) = some d → d.runq.count t = 1 ∧ d.places t = 1 := by
  have hi := reachable_resident h
  have hplaces : ∀ {c : Config n}, Resident c → ∀ t, c.places t = if t ∈ c.registry then 1 else 0 := by
    intro c hc t
    rw [hc.placed t]
    split
    · exact List.count_eq_one_of_mem hc.single ‹_›
    · exact List.count_eq_zero.mpr ‹_›
  have hle : ∀ {c : Config n}, Resident c → ∀ t, c.places t ≤ 1 := by
    intro c hc t
    rw [hplaces hc]
    split <;> omega
  refine ⟨hplaces hi, hi.quiet, fun wake d hs hr => ?_, fun t d hs => ?_⟩
  · have hd := hle (hi.step hs) wake.task
    have hm := move_of_step hs
    cases hm with
    | push hw =>
      have hwake : ((c.tasks wake.task).wake wake.co).2 = true := by
        simp [Task.wake, hr, hi.quiet _ hr]
      have hcarried : 0 < ((if ((c.tasks wake.task).wake wake.co).2 then c.carried ++ [wake.task]
          else c.carried)).count wake.task := by
        rw [hwake, if_pos rfl, List.count_append, List.count_singleton_self]
        omega
      refine ⟨?_, ?_⟩
      · simp [Config.setTask, Task.wake, hr, hi.quiet _ hr]
      · unfold Config.places at hd ⊢
        dsimp only at hd ⊢
        omega
  · have hd := hle (hi.step hs) t
    have hm := move_of_step hs
    cases hm with
    | resume ht =>
      have hrunq : 0 < (c.runq ++ [t]).count t := by
        rw [List.count_append, List.count_singleton_self]
        omega
      unfold Config.places at hd ⊢
      dsimp only at hd ⊢
      omega

/-- A task blocks on a session, and another thread wakes it before its worker has left `sched`. -/
def wokenRun : Execution (system 2) where
  events := [.spawn, .pop 0, .enter 0, .run 0 .next, .run 0 (.op (.wait (.user 0) true)),
    .run 0 .next, .run 0 .tail, .wake (.user 0) .thread, .push ⟨.user 0, 0, 0⟩, .resume 0, .pop 1,
    .enter 1, .leave 0]
  fires := by decide +kernel

theorem woken_task_resident : 0 ∈ wokenRun.final.registry ∧ wokenRun.final.places 0 = 1 :=
  have hm : 0 ∈ wokenRun.final.registry := by decide +kernel
  ⟨hm, ((task_residency wokenRun.final_reachable).1 0).trans (if_pos hm)⟩

end Scheduler
