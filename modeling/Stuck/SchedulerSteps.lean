import Stuck.Scheduler

/-! What a step of the scheduler can do, guards included: one constructor for each way a step ends.
The sessions that a step of a task consults change by themselves, beside the rest. -/
namespace Scheduler

open TransitionSystem SharedTypes Tasks

variable {n : ℕ} {c d m : Config n}

/-- Only sessions change, and the wins on the way to `Task::wake`. -/
def Config.Talks (c d : Config n) : Prop :=
  d = { c with sessions := d.sessions, waking := d.waking }

theorem Config.Talks.refl (c : Config n) : c.Talks c := rfl

theorem Config.Talks.setSession (s : SessionId) (session : Session) :
    c.Talks (c.setSession s session) := rfl

theorem Config.Talks.runq (h : c.Talks d) : d.runq = c.runq := by rw [h]
theorem Config.Talks.registry (h : c.Talks d) : d.registry = c.registry := by rw [h]
theorem Config.Talks.stopped (h : c.Talks d) : d.stopped = c.stopped := by rw [h]
theorem Config.Talks.tasks (h : c.Talks d) : d.tasks = c.tasks := by rw [h]
theorem Config.Talks.created (h : c.Talks d) : d.created = c.created := by rw [h]
theorem Config.Talks.workers (h : c.Talks d) : d.workers = c.workers := by rw [h]

theorem Config.Talks.trans (h : c.Talks d) (hm : d.Talks m) : c.Talks m := by
  unfold Config.Talks at *
  rw [hm, h]

theorem setValue_eq {s : SessionId} {winner : Winner} (h : c.setValue s winner = some d) :
    ((c.sessions s).state = .empty ∨ (c.sessions s).state = .joining) ∧
      d = c.setSession s { c.sessions s with state := .value, winner := some winner } := by
  unfold Config.setValue at h
  dsimp only at h
  split at h
  next he => cases h; exact ⟨Or.inl he, rfl⟩
  next hj => cases h; exact ⟨Or.inr hj, rfl⟩
  next => cases h
  next => cases h

theorem win_talks (s : SessionId) (winner : Winner) : c.Talks (c.win s winner) := by
  unfold Config.win
  split
  next d hd =>
    obtain ⟨_, rfl⟩ := setValue_eq hd
    rfl
  next => rfl

theorem register_eq {s : SessionId} {join : Join} (h : c.register s join = some d) :
    (c.sessions s).state = .empty ∧ (c.sessions s).join = none ∧
      d = c.setSession s { c.sessions s with state := .joining, join := some join } := by
  unfold Config.register at h
  split at h
  next he hj => cases h; exact ⟨he, hj, rfl⟩
  next => cases h

theorem recheck_eq {s : SessionId} {ready : Bool} (h : c.recheck s ready = some d) :
    (ready = true ∧ (c.sessions s).state ≠ .joining ∧
      d = c.setSession s (c.sessions s).leave) ∨
    (ready = false ∧ (c.sessions s).state = .joining ∧ d = c) := by
  unfold Config.recheck at h
  split at h
  next hr =>
    cases ready with
    | true =>
      cases h
      exact Or.inl ⟨rfl, by simpa using hr, rfl⟩
    | false =>
      cases h
      exact Or.inr ⟨rfl, by simpa using hr, rfl⟩
  next => cases h

/-- What a step of task `t` on worker `w` does to the sessions. -/
inductive Talk (c : Config n) (w : Fin n) (t : ℕ) : Tasks.Event SessionId → Config n → Prop
  | silent {e} : Talk c w t e c
  | interrupted {co s reason} :
      (c.sessions s).state = .empty ∨ (c.sessions s).state = .joining →
      Talk c w t (.visit co true) (c.setSession s
        { c.sessions s with state := .value, winner := some (.interrupt reason) })
  | registered {frame co op s interruptible} : (c.tasks t).control = .running frame co →
      op = .wait s interruptible ∧ (c.workers w).ambient.isSome = true ∨
        op = .thread s interruptible ∧ (c.workers w).ambient.isNone = true →
      (c.sessions s).state = .empty → (c.sessions s).join = none →
      Talk c w t (.op op) (c.setSession s { c.sessions s with
        state := .joining
        join := some ⟨t, co, (c.workers w).ambient.isNone, interruptible⟩ })
  | left {e s} : (c.sessions s).state ≠ .joining →
      Talk c w t e (c.setSession s (c.sessions s).leave)
  | cancelled {ready s} : Talk c w t (.awake ready) (c.setSession s
      { c.sessions s with cancellations := (c.sessions s).cancellations + 1 })
  | delivered : Talk c w t .final (c.win (.handle t) .waker)

section Consults

variable {w : Fin n} {t : ℕ}

theorem talk_of_recheck {s : SessionId} {ready : Bool} {e : Tasks.Event SessionId}
    (h : c.recheck s ready = some d) : Talk c w t e d := by
  rcases recheck_eq h with ⟨_, hj, rfl⟩ | ⟨_, _, rfl⟩
  · exact .left hj
  · exact .silent

theorem talk_of_consultVisit {co : ℕ} {reason : Reason} {won : Bool}
    (h : c.consultVisit t co reason won = some d) : Talk c w t (.visit co won) d := by
  unfold Config.consultVisit at h
  split at h
  · split at h
    · split at h <;> cases h
      exact .silent
    · split at h
      next m hm =>
        split at h <;> cases h
        next hw =>
          obtain ⟨hs, rfl⟩ := setValue_eq hm
          rw [hw]
          exact .interrupted hs
      next =>
        split at h <;> cases h
        exact .silent
  · split at h <;> cases h
    exact .silent

theorem talk_of_consultOp {frame : Frame} {co : ℕ} {op : Op SessionId}
    (hc : (c.tasks t).control = .running frame co) (h : c.consultOp w t co op = some d) :
    Talk c w t (.op op) d := by
  cases op with
  | wait s interruptible =>
    simp only [Config.consultOp] at h
    split at h
    next ha =>
      obtain ⟨hs, hj, rfl⟩ := register_eq h
      have hnone : (c.workers w).ambient.isNone = false := by
        rw [← Option.not_isSome, ha]
        rfl
      rw [← hnone]
      exact .registered hc (Or.inl ⟨rfl, ha⟩) hs hj
    next => cases h
  | thread s interruptible =>
    simp only [Config.consultOp] at h
    split at h
    next ha =>
      obtain ⟨hs, hj, rfl⟩ := register_eq h
      rw [← ha]
      exact .registered hc (Or.inr ⟨rfl, ha⟩) hs hj
    next => cases h
  | settle ready =>
    simp only [Config.consultOp] at h
    split at h
    · exact talk_of_recheck h
    · cases h
  | finish entered | spawn _ | yieldCoroutine | yieldTask | suspend | resume _ =>
    simp only [Config.consultOp] at h
    split at h <;> cases h
    exact .silent

theorem talk_of_consult {e : Tasks.Event SessionId} (h : c.consult w t e = some d) :
    Talk c w t e d := by
  cases e with
  | visit co won =>
    simp only [Config.consult] at h
    split at h
    · exact talk_of_consultVisit h
    · cases h
  | op op =>
    simp only [Config.consult] at h
    split at h
    next hc => exact talk_of_consultOp hc h
    next => cases h
  | awake ready =>
    simp only [Config.consult] at h
    split at h
    · split at h
      · split at h
        · cases h
          exact .cancelled
        · exact talk_of_recheck h
      · cases h
    · cases h
  | unpark =>
    simp only [Config.consult] at h
    split at h
    · split at h
      · exact talk_of_recheck h
      · cases h
    · cases h
  | final =>
    simp only [Config.consult] at h
    split at h <;> cases h
    · exact .delivered
    · exact .silent
  | next | tail | interrupt _ | endInterrupt | abortNext => cases h; exact .silent
  | wake _ | grab | begin | stop => cases h

theorem consult_talks {e : Tasks.Event SessionId} (h : c.consult w t e = some d) :
    c.Talks d := by
  have ht := talk_of_consult h
  cases ht with
  | silent => exact .refl c
  | interrupted | registered | left | cancelled => exact .setSession _ _
  | delivered => exact win_talks _ _

end Consults

/-- A step, its guards and its outcome. -/
inductive Move (c : Config n) : Event n → Config n → Prop
  | stop : c.stopped = -1 ∨ c.stopped = n → Move c .stop { c with stopped := c.stopped + 1 }
  | spawn : Move c .spawn { c.setTask c.created .new with
      runq := c.runq ++ [c.created]
      registry := c.registry ++ [c.created]
      created := c.created + 1 }
  | clone {s holder} : holder ∈ (c.sessions s).holders →
      Move c (.clone s holder) (c.setSession s { c.sessions s with
        holders := (c.sessions s).holders ++ [holder]
        wakers := (c.sessions s).wakers + 1 })
  | give {s holder next} : holder ∈ (c.sessions s).holders → c.acts holder = true →
      Move c (.give s holder next) (c.setSession s { c.sessions s with
        holders := (c.sessions s).holders.erase holder ++ [next] })
  | drop {s holder} : holder ∈ (c.sessions s).holders →
      Move c (.drop s holder) (c.setSession s { c.sessions s with
        holders := (c.sessions s).holders.erase holder
        wakers := (c.sessions s).wakers - 1 })
  | fault {s holder} : holder ∈ (c.sessions s).holders →
      Move c (.drop s holder) ((c.setSession s { c.sessions s with
        holders := (c.sessions s).holders.erase holder
        wakers := (c.sessions s).wakers - 1 }).win s .fault)
  | wake {s holder} : holder ∈ (c.sessions s).holders →
      Move c (.wake s holder) ((c.setSession s { c.sessions s with
        holders := (c.sessions s).holders.erase holder }).win s .waker)
  | push {wake} : wake ∈ c.waking → Move c (.push wake)
      { c.setTask wake.task ((c.tasks wake.task).wake wake.co).1 with
        waking := c.waking.erase wake
        carried := if ((c.tasks wake.task).wake wake.co).2 then c.carried ++ [wake.task]
          else c.carried }
  | resume {t} : t ∈ c.carried →
      Move c (.resume t) { c with carried := c.carried.erase t, runq := c.runq ++ [t] }
  | pop {w t rest} : (c.workers w).pc = .idle → c.runq = t :: rest →
      Move c (.pop w) { c.setPc w (.popped t) with runq := rest }
  | enter {w mode t task} : c.workers w = ⟨mode, none, .popped t⟩ → mode ≠ .sweeping →
      (c.tasks t).step .begin = some task →
      Move c (.enter w) ((c.setTask t task).setWorker w ⟨mode, some t, .holding t⟩)
  | abort {w ambient t task} : c.workers w = ⟨.sweeping, ambient, .popped t⟩ →
      (c.tasks t).step .stop = some task →
      Move c (.enter w) ((c.setTask t task).setWorker w ⟨.sweeping, ambient, .holding t⟩)
  | reenter {w mode other t} : c.workers w = ⟨mode, some other, .popped t⟩ →
      mode ≠ .sweeping →
      Move c (.enter w) (c.setWorker w ⟨.panicked, some other, .popped t⟩)
  | run {w t e m task} : (c.workers w).pc = .holding t → c.consult w t e = some m →
      (c.tasks t).step e = some task →
      Move c (.run w e) ((m.setTask t task).setPc w (pcAfter t (c.tasks t) task e))
  | claim {w s interruptible t frame co} : (c.workers w).pc = .holding t →
      (c.tasks t).control = .running frame co → (c.sessions s).state = .value →
      (c.sessions s).join = none → Move c (.claim w s interruptible)
        (c.setSession s { c.sessions s with
          state := .joined
          join := some ⟨t, co, (c.workers w).ambient.isNone, interruptible⟩ })
  | yield {w mode t} : c.workers w = ⟨mode, some t, .returned t .yield⟩ →
      Move c (.leave w) { c.setWorker w ⟨mode, none, .idle⟩ with runq := c.runq ++ [t] }
  | block {w mode t} : c.workers w = ⟨mode, some t, .returned t .block⟩ →
      Move c (.leave w) (c.setWorker w ⟨mode, none, .idle⟩)
  | cease {w mode t} : c.workers w = ⟨mode, some t, .returned t .cease⟩ →
      Move c (.leave w)
        { c.setWorker w ⟨mode, none, .idle⟩ with registry := c.registry.erase t }
  | exchanged {w mode ambient t flow} : c.workers w = ⟨mode, ambient, .returned t flow⟩ →
      ambient ≠ some t →
      Move c (.leave w) (c.setWorker w ⟨.panicked, none, .returned t flow⟩)
  | forget {w mode ambient t} : c.workers w = ⟨mode, ambient, .aborted t⟩ →
      Move c (.leave w)
        { c.setWorker w ⟨mode, ambient, .idle⟩ with registry := c.registry.erase t }
  | retire {w ambient mode} : c.workers w = ⟨.serving, ambient, .idle⟩ →
      mode = .draining ∨ mode = .exited →
      Move c (.retire w)
        { c.setWorker w ⟨mode, ambient, .idle⟩ with stopped := c.stopped + 1 }
  | sweep {w ambient} : c.workers w = ⟨.draining, ambient, .idle⟩ →
      Move c (.sweep w) (c.setWorker w ⟨.sweeping, ambient, .idle⟩)
  | grab {w ambient t} : c.workers w = ⟨.sweeping, ambient, .idle⟩ → t ∈ c.registry →
      Move c (.grab w t) ((c.setTask t (c.tasks t).grab.1).setWorker w
        ⟨.sweeping, ambient, if (c.tasks t).grab.2 then .grabbed t else .idle⟩)
  | enqueue {w t} : (c.workers w).pc = .grabbed t →
      Move c (.enqueue w) { c.setPc w .idle with runq := c.runq ++ [t] }
  | exit {w ambient} : c.workers w = ⟨.sweeping, ambient, .idle⟩ →
      Move c (.exit w) (c.setWorker w ⟨.exited, ambient, .idle⟩)

theorem move_of_step {e : Event n} (hs : c.step e = some d) : Move c e d := by
  cases e with
  | stop =>
    simp only [Config.step] at hs
    split at hs <;> cases hs
    exact .stop ‹_›
  | spawn => cases hs; exact .spawn
  | clone s holder =>
    simp only [Config.step] at hs
    split at hs <;> cases hs
    next h => exact .clone h.1
  | give s holder next =>
    simp only [Config.step] at hs
    split at hs <;> cases hs
    next h => exact .give h.1 h.2
  | drop s holder =>
    simp only [Config.step] at hs
    split at hs <;> cases hs
    next h =>
      split
      · exact .fault h.1
      · exact .drop h.1
  | wake s holder =>
    simp only [Config.step] at hs
    split at hs <;> cases hs
    next h => exact .wake h.1
  | push wake =>
    simp only [Config.step] at hs
    split at hs <;> cases hs
    next h => exact .push h
  | resume t =>
    simp only [Config.step] at hs
    split at hs <;> cases hs
    next h => exact .resume h
  | pop w =>
    simp only [Config.step] at hs
    split at hs
    next hp hr =>
      split at hs <;> cases hs
      exact .pop hp hr
    next => cases hs
  | enter w =>
    simp only [Config.step, Config.enter] at hs
    split at hs
    next => cases hs
    next ambient t hw =>
      split at hs
      next task ht => cases hs; exact .abort hw ht
      next => cases hs
    next mode t _ hn hw =>
      split at hs
      next task ht => cases hs; exact .enter hw hn ht
      next => cases hs
    next mode other t _ hn hw =>
      cases hs
      exact .reenter hw hn
    next => cases hs
  | run w e =>
    simp only [Config.step, Config.run] at hs
    split at hs
    next t hp =>
      split at hs
      next m task hm ht => cases hs; exact .run hp hm ht
      next => cases hs
    next => cases hs
  | claim w s interruptible =>
    simp only [Config.step] at hs
    split at hs
    next t hp =>
      split at hs
      next frame co hc hv hj =>
        split at hs <;> cases hs
        exact .claim hp hc hv hj
      next => cases hs
    next => cases hs
  | leave w =>
    simp only [Config.step, Config.leave] at hs
    split at hs
    next => cases hs
    next mode ambient t flow _ hw =>
      split at hs
      next ha =>
        subst ha
        cases flow with
        | yield => cases hs; exact .yield hw
        | block => cases hs; exact .block hw
        | cease => cases hs; exact .cease hw
      next ha => cases hs; exact .exchanged hw ha
    next mode ambient t _ hw => cases hs; exact .forget hw
    next => cases hs
  | retire w =>
    simp only [Config.step] at hs
    split at hs
    next ambient hw =>
      split at hs <;> cases hs
      refine .retire hw ?_
      split <;> simp
    next => cases hs
  | sweep w =>
    simp only [Config.step] at hs
    split at hs
    next ambient hw =>
      split at hs <;> cases hs
      exact .sweep hw
    next => cases hs
  | grab w t =>
    simp only [Config.step] at hs
    split at hs
    next ambient hw =>
      split at hs <;> cases hs
      next h => exact .grab hw h
    next => cases hs
  | enqueue w =>
    simp only [Config.step] at hs
    split at hs
    next t hp => cases hs; exact .enqueue hp
    next => cases hs
  | exit w =>
    simp only [Config.step] at hs
    split at hs
    next ambient hw =>
      split at hs <;> cases hs
      exact .exit hw
    next => cases hs

/-- A task only takes steps of its own. -/
theorem reachable_task (h : Reachable (system n) c) (t : ℕ) :
    Reachable (Tasks.system SessionId) (c.tasks t) := by
  have hupdate : ∀ {c : Config n} {u : ℕ} {task : Tasks.Task SessionId},
      (∀ t, Reachable (Tasks.system SessionId) (c.tasks t)) →
      Reachable (Tasks.system SessionId) task →
      ∀ t, Reachable (Tasks.system SessionId) (Function.update c.tasks u task t) := by
    intro c u task hc htask t
    by_cases ht : t = u
    · rw [ht, Function.update_self]
      exact htask
    · rw [Function.update_of_ne ht]
      exact hc t
  revert t
  refine h.invariant (I := fun c => ∀ t, Reachable (Tasks.system SessionId) (c.tasks t))
    (fun _ => .init) fun c e d hc hs => ?_
  have htask : ∀ {u e task}, (c.tasks u).step e = some task →
      Reachable (Tasks.system SessionId) task := fun {u _ _} ht => .step (hc u) ht
  have hm := move_of_step hs
  cases hm with
  | stop | clone | give | drop | resume | pop | reenter | claim | yield | block | cease | exchanged
  | forget | retire | sweep | enqueue | exit => exact hc
  | @fault s | @wake s =>
    intro t
    rw [(win_talks s _).tasks]
    exact hc t
  | spawn => exact hupdate hc .init
  | @push wake => exact hupdate hc (htask (e := .wake wake.co) rfl)
  | enter _ _ ht | abort _ ht => exact hupdate hc (htask ht)
  | run _ hm ht =>
    intro t
    simp only [Config.setPc, Config.setWorker, Config.setTask, (consult_talks hm).tasks]
    exact hupdate hc (htask ht) t
  | grab => exact hupdate hc (htask (e := .grab) rfl)

end Scheduler
