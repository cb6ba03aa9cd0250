import Stuck.TaskCompletion
import Stuck.SchedulerSteps

/-! The thread-local `TASK`. `Task::sched` sets it for all that it runs, and clears it at its end;
`Scheduler::serve` calls `Task::abort` without it. -/
namespace Tasks

open TransitionSystem SharedTypes

variable {S : Type*} {t u : Task S}

def Control.reason : Control → Option Reason
  | .running (.abort reason) _ | .interrupt reason | .interrupting reason _ | .aborting reason
  | .final reason => some reason
  | .aborted => some .stopped
  | _ => none

def Stage.isThread : Stage S → Bool
  | .thread _ => true
  | _ => false

/-- The task is not aborted by the stop of the runtime and has not missed its context. -/
structure Task.Calm (t : Task S) : Prop where
  reason : t.control.reason ≠ some .stopped
  panicked : t.control ≠ .panicked .noRunningTask
  stages : ∀ co, (t.coroutines co).stage.isThread = false

theorem calm_new : (Task.new : Task S).Calm where
  reason := nofun
  panicked := nofun
  stages co := by
    by_cases h : co = main
    · simp [Task.new, h, Coroutine.new, Stage.isThread]
    · simp [Task.new, Function.update_of_ne h, Coroutine.dropped, Stage.isThread]

theorem Task.Calm.setControl (h : t.Calm) {control : Control}
    (hr : control.reason ≠ some .stopped) (hp : control ≠ .panicked .noRunningTask) :
    (t.setControl control).Calm := ⟨hr, hp, h.stages⟩

theorem Task.Calm.setCoroutine (h : t.Calm) (co : ℕ) (coroutine : Coroutine S)
    (hc : coroutine.stage.isThread = false) : (t.setCoroutine co coroutine).Calm := by
  refine ⟨h.reason, h.panicked, fun b => ?_⟩
  by_cases hb : b = co
  · rw [hb, Task.setCoroutine]
    simpa using hc
  · simpa [Task.setCoroutine, Function.update_of_ne hb] using h.stages b

theorem Task.Calm.unblock (h : t.Calm) (block : Bool) : (t.unblock block).1.Calm := by
  obtain ⟨_, _, _, _, he⟩ := t.unblock_eq block
  rw [he]
  exact ⟨h.reason, h.panicked, h.stages⟩

theorem Frame.reason_head (frame : Frame) (co : ℕ) :
    frame.head.reason = (Control.running frame co).reason := by
  cases frame <;> rfl

theorem Frame.head_ne_panicked (frame : Frame) (panic : Panic) : frame.head ≠ .panicked panic := by
  cases frame <;> exact nofun

section Ops

variable {frame : Frame} {co : ℕ}

theorem Task.Calm.head (h : t.Calm) (hc : t.control = .running frame co)
    (hu : u.control = frame.head) (hs : u.coroutines = t.coroutines) : u.Calm := by
  have hreason := h.reason
  rw [hc, ← frame.reason_head co] at hreason
  exact ⟨hu ▸ hreason, hu ▸ frame.head_ne_panicked _, hs ▸ h.stages⟩

theorem Task.Calm.block (h : t.Calm) (hc : t.control = .running frame co) (wait : Wait S) :
    (t.block frame co wait).Calm := by
  have hh : ({ t with
      blockingCoroutines := t.blockingCoroutines ++ [(co, wait.yielding)]
      control := frame.head } : Task S).Calm := h.head hc rfl rfl
  exact hh.setCoroutine co _ rfl

theorem Task.Calm.recheck (h : t.Calm) (hc : t.control = .running frame co) (session : S)
    (interruptible ready : Bool) : (t.recheck frame co session interruptible ready).Calm := by
  unfold Task.recheck
  split
  · exact h.setCoroutine co _ rfl
  · exact h.block hc _

theorem Task.Calm.op (h : t.Calm) (hc : t.control = .running frame co) {op : Op S}
    (hs : t.op frame co op = some u) (hthread : ∀ s i, op ≠ .thread s i)
    (hfinish : op ≠ .finish false) : u.Calm := by
  cases op with
  | spawn new =>
    simp only [Task.op] at hs
    split at hs <;> cases hs
    unfold Task.spawn
    split
    · exact h
    · exact (show ({ t with runningCoroutines := t.runningCoroutines ++ [new] } : Task S).Calm from
        ⟨h.reason, h.panicked, h.stages⟩).setCoroutine new _ rfl
  | yieldCoroutine =>
    cases hs
    unfold Task.yieldCoroutine
    split
    · exact h
    · exact h.head hc rfl rfl
  | yieldTask =>
    cases hs
    unfold Task.yieldTask Task.yieldCoroutine
    split
    · exact ⟨h.reason, h.panicked, h.stages⟩
    · exact h.head hc rfl rfl
  | suspend => cases hs; exact h.head hc rfl rfl
  | resume other =>
    cases hs
    unfold Task.resume
    split
    · exact ⟨h.reason, h.panicked, h.stages⟩
    · exact h
  | wait session interruptible => cases hs; exact h.block hc _
  | thread session interruptible => exact absurd rfl (hthread session interruptible)
  | settle ready =>
    simp only [Task.op] at hs
    split at hs <;> cases hs
    exact (h.setCoroutine co { t.coroutines co with status := .aborting, cancelling := _ }
      (h.stages co)).recheck hc _ _ _
  | finish entered =>
    cases entered with
    | false => exact absurd rfl hfinish
    | true =>
      simp only [Task.op] at hs
      split at hs <;> cases hs
      unfold Task.finish
      split
      · rw [if_pos rfl]
        have hh : ({ t with status := .completing, control := frame.head } : Task S).Calm :=
          h.head hc rfl rfl
        exact hh.setCoroutine co _ rfl
      · have hh : (t.setControl frame.head).Calm := h.head hc rfl rfl
        have hd := hh.setCoroutine co .dropped rfl
        exact ⟨hd.reason, hd.panicked, hd.stages⟩

end Ops

/-- Only the stop of the runtime and what coroutines do without a context end the calm. -/
theorem Task.Calm.step (h : t.Calm) {e : Event S} (hs : t.step e = some u) (hstop : e ≠ .stop)
    (hthread : ∀ s i, e ≠ .op (.thread s i)) (hfinish : e ≠ .op (.finish false)) : u.Calm := by
  have hreason : ∀ {control : Control}, t.control = control → control.reason ≠ some .stopped :=
    fun hc => hc ▸ h.reason
  cases step_moves hs with
  | wake => exact ⟨h.reason, h.panicked, h.stages⟩
  | grab => exact ⟨h.reason, h.panicked, h.stages⟩
  | begin =>
    have hl : ({ t with
        runningCoroutines := t.runningCoroutines ++ t.yieldingCoroutines
        yieldingCoroutines := []
        control := .loop } : Task S).Calm := ⟨by simp [Control.reason], by simp, h.stages⟩
    exact hl.unblock false
  | stop => exact absurd rfl hstop
  | next =>
    unfold Task.next
    split
    · split
      · exact ⟨by simp [Control.reason], by simp, h.stages⟩
      · exact h.setControl (by simp [Control.reason]) (by simp)
    · split
      · exact h.setControl (by simp [Control.reason]) (by simp)
      · exact h.setControl (by simp [Control.reason]) (by simp)
  | tail =>
    have hy : ({ t with yielding := false } : Task S).Calm := ⟨h.reason, h.panicked, h.stages⟩
    unfold Task.tail
    dsimp only
    split
    · exact hy.setControl (by simp [Control.reason]) (by simp)
    · split
      · split
        · exact hy.setControl (by simp [Control.reason]) (by simp)
        · exact hy.setControl (by simp [Control.reason]) (by simp)
      · exact (hy.unblock true).setControl (by simp [Control.reason]) (by simp)
  | interrupt hc =>
    have hr := hreason hc
    refine ⟨hr, by simp [Task.interrupt], fun co => ?_⟩
    unfold Task.interrupt
    dsimp only
    split
    · exact h.stages co
    · exact h.stages co
  | @visit co won reason rest yielding hc =>
    have hr := hreason hc
    refine ⟨hr, by simp [Task.visit, Task.setControl], fun b => ?_⟩
    unfold Task.visit
    split
    · by_cases hb : b = co
      · subst hb
        simpa [Task.setCoroutine, Task.setControl, Coroutine.intoAbort] using h.stages b
      · simpa [Task.setCoroutine, Task.setControl, Function.update_of_ne hb] using h.stages b
    · exact h.stages b
  | endInterrupt hc =>
    have hr := hreason hc
    have hu := h.unblock false
    unfold Task.endInterrupt
    dsimp only
    split
    · exact hu.setControl hr (by simp)
    · split
      · exact hu.setControl hr (by simp)
      · exact hu.setControl hr (by simp)
  | abortNext hc =>
    have hr := hreason hc
    unfold Task.abortNext
    split
    · exact ⟨hr, by simp, h.stages⟩
    · exact h.setControl hr (by simp)
  | @final reason hc =>
    have hr := hreason hc
    unfold Task.final
    split
    · have hd := h.setCoroutine main .dropped rfl
      cases reason with
      | terminated | deadlock =>
        exact ⟨by simp [Task.setControl, Control.reason], by simp [Task.setControl], hd.stages⟩
      | stopped => exact absurd rfl hr
    · exact h.setControl (by simp [Control.reason]) (by simp)
  | op hc _ acts =>
    exact h.op hc acts (fun s i he => hthread s i (by rw [he])) (fun he => hfinish (by rw [he]))
  | @awake frame co wait ready hc =>
    unfold Task.awake
    split
    · exact h.setCoroutine co _ rfl
    · exact h.recheck hc _ _ _
  | unpark => exact h.setCoroutine _ _ rfl

end Tasks

namespace Scheduler

open TransitionSystem SharedTypes Tasks

variable {n : ℕ} {c d m : Config n}

/-- The task whose `sched` or `abort` is on the stack of the worker. -/
def Pc.scope : Pc → Option ℕ
  | .holding t | .returned t _ => some t
  | _ => none

/-- The last worker calls `Task::abort` on a task that is left at the stop of the runtime. -/
def AbortsAtStop (c : Config n) : Event n → Prop
  | .enter w => (c.workers w).mode = .sweeping
  | _ => False

instance : ∀ (c : Config n) (e : Event n), Decidable (AbortsAtStop c e)
  | c, .enter w => inferInstanceAs (Decidable ((c.workers w).mode = .sweeping))
  | _, .stop | _, .spawn | _, .clone .. | _, .give .. | _, .drop .. | _, .wake .. | _, .push _
  | _, .resume _ | _, .pop _ | _, .run .. | _, .claim .. | _, .leave _ | _, .retire _
  | _, .sweep _ | _, .grab .. | _, .enqueue _ | _, .exit _ => inferInstanceAs (Decidable False)

structure InContext (c : Config n) : Prop where
  ambient : ∀ w, (c.workers w).ambient = (c.workers w).pc.scope
  sound : ∀ w, (c.workers w).mode ≠ .panicked
  calm : ∀ t, (c.tasks t).Calm
  joins : ∀ s join, (c.sessions s).join = some join → join.thread = false

theorem inContext_initial : InContext (initial n) :=
  ⟨fun _ => rfl, fun _ => nofun, fun _ => calm_new, fun _ _ => nofun⟩

theorem InContext.setWorker (h : InContext c) (w : Fin n) (worker : Worker)
    (ha : worker.ambient = worker.pc.scope) (hm : worker.mode ≠ .panicked)
    (hw : d.workers = Function.update c.workers w worker) (ht : ∀ t, (d.tasks t).Calm)
    (hs : ∀ s join, (d.sessions s).join = some join → join.thread = false) :
    InContext d := by
  refine ⟨fun v => ?_, fun v => ?_, ht, hs⟩
  · rw [hw]
    by_cases hv : v = w
    · rw [hv, Function.update_self]
      exact ha
    · rw [Function.update_of_ne hv]
      exact h.ambient v
  · rw [hw]
    by_cases hv : v = w
    · rw [hv, Function.update_self]
      exact hm
    · rw [Function.update_of_ne hv]
      exact h.sound v

/-- No session is joined by a thread that was not. -/
def Config.JoinsKept (c d : Config n) : Prop :=
  ∀ s, (d.sessions s).join = (c.sessions s).join ∨
    ∃ join, (d.sessions s).join = some join ∧ join.thread = false

theorem InContext.joinsKept (h : InContext c) (hk : c.JoinsKept d) (s : SessionId) (join : Join)
    (hj : (d.sessions s).join = some join) : join.thread = false := by
  rcases hk s with he | ⟨join', he, ht⟩
  · exact h.joins s join (he ▸ hj)
  · rw [he] at hj
    cases hj
    exact ht

theorem joinsKept_setSession {s : SessionId} {session : Session}
    (h : session.join = (c.sessions s).join ∨
      ∃ join, session.join = some join ∧ join.thread = false) :
    c.JoinsKept (c.setSession s session) := by
  intro s'
  by_cases hs : s' = s
  · subst hs
    simpa [Config.setSession] using h
  · exact Or.inl (by simp [Config.setSession, Function.update_of_ne hs])

theorem joinsKept_refl (c : Config n) : c.JoinsKept c := fun _ => Or.inl rfl

theorem joinsKept_setValue {s : SessionId} {winner : Winner} (h : c.setValue s winner = some d) :
    c.JoinsKept d := by
  obtain ⟨_, rfl⟩ := setValue_eq h
  exact joinsKept_setSession (Or.inl rfl)

theorem joinsKept_win (s : SessionId) (winner : Winner) : c.JoinsKept (c.win s winner) := by
  unfold Config.win
  split
  next d hd => exact fun s' => joinsKept_setValue hd s'
  next => exact joinsKept_refl c

/-- Within a scope no join is that of a thread. -/
theorem joinsKept_consult {w : Fin n} {t : ℕ} {e : Tasks.Event SessionId}
    (ha : (c.workers w).ambient.isSome = true) (h : c.consult w t e = some d) : c.JoinsKept d := by
  have ht := talk_of_consult h
  cases ht with
  | silent => exact joinsKept_refl c
  | interrupted | cancelled => exact joinsKept_setSession (Or.inl rfl)
  | registered =>
    refine joinsKept_setSession (Or.inr ⟨_, rfl, ?_⟩)
    rw [← Option.not_isSome, ha]
    rfl
  | left =>
    refine joinsKept_setSession (Or.inl ?_)
    unfold Session.leave
    split <;> rfl
  | delivered => exact joinsKept_win _ _

/-- Main then finds its task. -/
theorem consult_scoped {w : Fin n} {t : ℕ} {e : Tasks.Event SessionId}
    (ha : (c.workers w).ambient.isSome = true) (h : c.consult w t e = some d) :
    e ≠ .stop ∧ (∀ s i, e ≠ .op (.thread s i)) ∧ e ≠ .op (.finish false) := by
  refine ⟨?_, ?_, ?_⟩
  · rintro rfl
    cases h
  · rintro s i rfl
    simp only [Config.consult, Config.consultOp] at h
    split at h
    · rw [if_neg (by simpa using Option.isSome_iff_ne_none.mp ha)] at h
      cases h
    · cases h
  · rintro rfl
    simp only [Config.consult, Config.consultOp, ha] at h
    split at h
    · simp at h
    · cases h

theorem calm_setTask (h : ∀ t, (c.tasks t).Calm) {t : ℕ} {task : Tasks.Task SessionId}
    (ht : task.Calm) (u : ℕ) : (Function.update c.tasks t task u).Calm := by
  by_cases hu : u = t
  · rw [hu, Function.update_self]
    exact ht
  · rw [Function.update_of_ne hu]
    exact h u

/-- Wherever the step of a calm task leaves its worker, the scope goes on. -/
theorem scope_pcAfter {t : ℕ} {task task' : Tasks.Task SessionId} {e : Tasks.Event SessionId}
    (h : task'.Calm) : (pcAfter t task task' e).scope = some t := by
  unfold pcAfter
  split
  · split <;> rfl
  · split
    · rfl
    next hc =>
      have hr := h.reason
      rw [hc] at hr
      exact absurd rfl hr
    · rfl

/-- A worker that runs no task stays out of every scope. -/
theorem InContext.idles (h : InContext c) (w : Fin n) (worker : Worker)
    (hold : (c.workers w).pc.scope = none) (hpc : worker.pc.scope = none)
    (ha : worker.ambient = (c.workers w).ambient) (hm : worker.mode ≠ .panicked)
    (hd : d.workers = Function.update c.workers w worker)
    (ht : ∀ t, (d.tasks t).Calm) (hs : d.sessions = c.sessions) : InContext d := by
  refine h.setWorker w worker ?_ hm hd ht (hs ▸ h.joins)
  rw [ha, h.ambient w, hold, hpc]

/-- A step that only touches sessions and keeps their joins. -/
theorem InContext.talks (h : InContext c) (hd : c.Talks d) (hk : c.JoinsKept d) :
    InContext d := by
  refine ⟨fun w => ?_, fun w => ?_, fun t => ?_, h.joinsKept hk⟩
  · rw [hd.workers]
    exact h.ambient w
  · rw [hd.workers]
    exact h.sound w
  · rw [hd.tasks]
    exact h.calm t

theorem InContext.win (h : InContext c) (s : SessionId) (winner : Winner) :
    InContext (c.win s winner) := h.talks (win_talks s winner) (joinsKept_win s winner)

theorem InContext.run (h : InContext c) {w : Fin n} {t : ℕ} {e : Tasks.Event SessionId}
    {task : Tasks.Task SessionId} (hpc : (c.workers w).pc = .holding t)
    (hm : c.consult w t e = some m) (ht : (c.tasks t).step e = some task) :
    InContext ((m.setTask t task).setPc w (pcAfter t (c.tasks t) task e)) := by
  have ha := h.ambient w
  rw [hpc] at ha
  have hk := joinsKept_consult (by rw [ha]; rfl) hm
  obtain ⟨hstop, hthread, hfinish⟩ := consult_scoped (by rw [ha]; rfl) hm
  have hcalm := (h.calm t).step ht hstop hthread hfinish
  have hmid := h.talks (consult_talks hm) hk
  have hworker : m.workers w = c.workers w := by rw [(consult_talks hm).workers]
  refine hmid.setWorker w { m.workers w with pc := pcAfter t (c.tasks t) task e } ?_
    (hmid.sound w) rfl (calm_setTask hmid.calm hcalm) hmid.joins
  dsimp only
  rw [hworker, ha, scope_pcAfter hcalm]
  rfl

theorem InContext.step (h : InContext c) {e : Event n} (hbad : ¬ AbortsAtStop c e)
    (hs : c.step e = some d) : InContext d := by
  have hm := move_of_step hs
  cases hm with
  | stop | resume => exact ⟨h.ambient, h.sound, h.calm, h.joins⟩
  | spawn => exact ⟨h.ambient, h.sound, calm_setTask h.calm calm_new, h.joins⟩
  | clone | give | drop => exact h.talks (.setSession _ _) (joinsKept_setSession (Or.inl rfl))
  | fault | wake =>
    refine InContext.win ?_ _ _
    exact h.talks (.setSession _ _) (joinsKept_setSession (Or.inl rfl))
  | push hw =>
    exact ⟨h.ambient, h.sound, calm_setTask h.calm ((h.calm _).step (e := .wake _) rfl
      (by simp) (by simp) (by simp)), h.joins⟩
  | @pop w t rest hp hr =>
    exact h.idles w { c.workers w with pc := .popped t } (by rw [hp]; rfl) rfl rfl (h.sound w) rfl
      h.calm rfl
  | @enter w mode t task hw hmode ht =>
    have hm := h.sound w
    rw [hw] at hm
    exact h.setWorker w ⟨mode, some t, .holding t⟩ rfl hm rfl
      (calm_setTask h.calm ((h.calm t).step ht (by simp) (by simp) (by simp))) h.joins
  | abort hw ht => exact absurd (by rw [AbortsAtStop, hw]) hbad
  | @reenter w mode other t hw hmode =>
    have ha := h.ambient w
    rw [hw] at ha
    cases ha
  | run hpc hm ht => exact h.run hpc hm ht
  | @claim w s interruptible t frame co hpc hc hv hj =>
    have ha := h.ambient w
    rw [hpc] at ha
    refine h.talks (.setSession _ _) (joinsKept_setSession (Or.inr ⟨_, rfl, ?_⟩))
    simp [ha, Pc.scope]
  | @yield w mode t hw | @block w mode t hw | @cease w mode t hw =>
    have hm := h.sound w
    rw [hw] at hm
    exact h.setWorker w ⟨mode, none, .idle⟩ rfl hm rfl h.calm h.joins
  | @exchanged w mode ambient t flow hw ha =>
    have ha' := h.ambient w
    rw [hw] at ha'
    exact absurd ha' ha
  | @forget w mode ambient t hw =>
    have hm := h.sound w
    rw [hw] at hm
    exact h.idles w ⟨mode, ambient, .idle⟩ (by rw [hw]; rfl) rfl (by rw [hw]) hm rfl h.calm rfl
  | @retire w ambient mode hw hmode =>
    refine h.idles w ⟨mode, ambient, .idle⟩ (by rw [hw]; rfl) rfl (by rw [hw]) ?_ rfl h.calm rfl
    rcases hmode with rfl | rfl <;> simp
  | @sweep w ambient hw =>
    exact h.idles w ⟨.sweeping, ambient, .idle⟩ (by rw [hw]; rfl) rfl (by rw [hw]) (by simp) rfl
      h.calm rfl
  | @exit w ambient hw =>
    exact h.idles w ⟨.exited, ambient, .idle⟩ (by rw [hw]; rfl) rfl (by rw [hw]) (by simp) rfl
      h.calm rfl
  | @grab w ambient t hw hr =>
    refine h.idles w ⟨.sweeping, ambient, if (c.tasks t).grab.2 then .grabbed t else .idle⟩
      (by rw [hw]; rfl) ?_ (by rw [hw]) (by simp) rfl (calm_setTask h.calm
        ((h.calm t).step (e := .grab) rfl (by simp) (by simp) (by simp))) rfl
    dsimp only
    split <;> rfl
  | @enqueue w t hp =>
    exact h.idles w { c.workers w with pc := .idle } (by rw [hp]; rfl) rfl rfl (h.sound w) rfl
      h.calm rfl

/-- Along a run whose last worker finds no task left at the stop, `TASK` is the task of the
`sched` or `abort` on the stack of a worker, and unset without one; so main always finds its task and
no coroutine joins a session as a thread. -/
theorem ambient_task (ρ : Execution (system n)) (hg : ∀ c e, ρ.Takes c e → ¬ AbortsAtStop c e)
    {c : Config n} (h : ρ.Visits c) :
    (∀ w t, (c.workers w).pc = .holding t → (c.workers w).ambient = some t) ∧
    (∀ w, (c.workers w).pc.scope = none → (c.workers w).ambient = none) ∧
    (∀ t, (c.tasks t).control ≠ .panicked .noRunningTask) ∧
    ∀ s join, (c.sessions s).join = some join → join.thread = false := by
  have hi : InContext c := ρ.guarded (B := fun _ => True) (fun _ _ => trivial) inContext_initial
    (fun _ _ _ _ hc hn hs => hc.step hn hs) hg c h
  refine ⟨fun w t hw => ?_, fun w hw => ?_, fun t => (hi.calm t).panicked, hi.joins⟩
  · rw [hi.ambient, hw]
    rfl
  · rw [hi.ambient, hw]

/-- A task that runs to its end and is stopped afterwards. -/
def finishedRun : Execution (system 1) where
  events := [.spawn, .pop 0, .enter 0, .run 0 .next, .run 0 (.op (.finish true)), .run 0 .next,
    .run 0 (.interrupt []), .run 0 .endInterrupt, .run 0 .final, .run 0 .tail, .leave 0, .stop,
    .retire 0, .stop, .sweep 0, .exit 0]
  fires := by decide +kernel

theorem finished_ambient_task : (finishedRun.final.workers 0).pc.scope = none ∧
    (finishedRun.final.workers 0).ambient = none := by
  have hg := finishedRun.takes_of_allSteps (P := fun c e => ¬ AbortsAtStop c e)
    (by decide +kernel)
  have hs : (finishedRun.final.workers 0).pc.scope = none := by decide +kernel
  exact ⟨hs, (ambient_task finishedRun hg finishedRun.visits_final).2.1 0 hs⟩

/-- A task blocks for good, and the runtime is stopped. -/
def stoppedTrace : List (Event 1) :=
  [.spawn, .pop 0, .enter 0, .run 0 .next, .run 0 (.op (.wait (.user 0) true)), .run 0 .next,
    .run 0 .tail, .leave 0, .stop, .retire 0, .stop, .sweep 0, .grab 0 0, .enqueue 0, .pop 0,
    .enter 0, .run 0 (.interrupt []), .run 0 (.visit 0 true), .run 0 .endInterrupt,
    .run 0 .abortNext]

def stoppedRun : Execution (system 1) := ⟨stoppedTrace, by decide +kernel⟩

/-- The interrupted main catches the panic of its wait and returns. -/
def panickedRun : Execution (system 1) where
  events := stoppedTrace ++ [.run 0 (.awake true), .run 0 (.op (.finish false))]
  fires := by decide +kernel

/-- Main runs on the last worker without `TASK`, and panics when its function is over. -/
theorem stopped_without_context :
    (∃ c, Reachable (system 1) c ∧ (c.workers 0).pc = .holding 0 ∧
      (c.tasks 0).control = .running (.abort .stopped) main ∧ (c.workers 0).ambient ≠ some 0) ∧
    ∃ c, Reachable (system 1) c ∧ (c.tasks 0).control = .panicked .noRunningTask :=
  ⟨⟨stoppedRun.final, stoppedRun.final_reachable, by decide +kernel, by decide +kernel,
      by decide +kernel⟩,
    panickedRun.final, panickedRun.final_reachable, by decide +kernel⟩

end Scheduler
