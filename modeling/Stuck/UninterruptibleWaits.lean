import Stuck.SessionWaits

/-! `Session::wait_uninterruptibly`. It is over when its session is joined, and only a waker, or the
fault of the last one, sets the value that ends it. -/
namespace Tasks

open SharedTypes

variable {S : Type*} {t u : Task S} {e : Event S} {co : ℕ} {s : S}

theorem Task.Quiet.opens (h : t.Quiet u) (co : ℕ) :
    (u.coroutines co).opens = (t.coroutines co).opens := by
  rw [Coroutine.opens, h.stages, h.cancelling]
  rfl

theorem quiet_of_step (he : e.isQuiet = true) (hs : t.step e = some u) : t.Quiet u := by
  have hturn := turn_of_step hs
  cases hturn with
  | quiet _ hq => exact hq
  | refused => exact .refl t
  | spawned | waited | threaded | cancelled | woken | slept | settled | unsettled | unparked
  | finished | parked | panicked | delivered | undelivered => cases he

theorem left_update {co' : ℕ} {x : Coroutine S}
    (hcs : u.coroutines = Function.update t.coroutines co' x)
    (hs : s ∈ (t.coroutines co).opens) (hn : s ∉ (u.coroutines co).opens) :
    co = co' ∧ s ∉ x.opens := by
  rw [hcs] at hn
  by_cases hco : co = co'
  · rw [hco, Function.update_self] at hn
    exact ⟨hco, hn⟩
  · rw [Function.update_of_ne hco] at hn
    exact absurd hs hn

theorem opens_inactive {x : Coroutine S} (hidle : x.stage.isActive = false → x.cancelling = [])
    (ha : x.stage.isActive = false) : x.opens = [] := by
  rw [Coroutine.opens, hidle ha, List.append_nil]
  cases hst : x.stage with
  | vacant | parked => rfl
  | code | waiting _ | thread _ => rw [hst] at ha; cases ha

/-- A session leaves a stack with the end of its `join_value`. -/
theorem Turn.leaving (h : Turn t e u)
    (hidle : ∀ co, (t.coroutines co).stage.isActive = false → (t.coroutines co).cancelling = [])
    (hs : s ∈ (t.coroutines co).opens) (hn : s ∉ (u.coroutines co).opens) :
    t.leaving e = some s := by
  cases h with
  | quiet _ hq => exact absurd (hq.opens co ▸ hs) hn
  | refused => exact absurd hs hn
  | @spawned new _ hv hcs _ =>
    obtain ⟨rfl, _⟩ := left_update hcs hs hn
    rw [opens_inactive (hidle co) (by simp [Stage.isActive_eq, hv])] at hs
    cases hs
  | @waited frame co' s' i _ _ hcode hcs _ | @threaded frame co' s' i _ _ hcode hcs _ =>
    obtain ⟨rfl, hx⟩ := left_update hcs hs hn
    rw [Coroutine.opens, hcode] at hs
    exact absurd (List.mem_append_right _ hs) hx
  | @cancelled frame co' wait _ _ _ hstage _ _ hcs _ =>
    obtain ⟨rfl, hx⟩ := left_update hcs hs hn
    rw [Coroutine.opens, hstage] at hs
    exact absurd hs hx
  | @woken frame co' wait _ hctl hstage hnot hcs _ =>
    obtain ⟨rfl, hx⟩ := left_update hcs hs hn
    rw [Coroutine.opens, hstage] at hs
    rcases List.mem_append.mp hs with hs | hs
    · rw [List.mem_singleton.mp hs]
      simp only [Task.leaving, hctl, hstage, if_neg hnot]
    · exact absurd hs hx
  | @slept frame co' wait _ _ hstage _ hcs _ =>
    obtain ⟨rfl, hx⟩ := left_update hcs hs hn
    rw [Coroutine.opens, hstage] at hs
    exact absurd hs hx
  | @settled frame co' s' rest _ hctl hcode hcancelling hcs _ =>
    obtain ⟨rfl, hx⟩ := left_update hcs hs hn
    rw [Coroutine.opens, hcode, hcancelling] at hs
    rcases List.mem_cons.mp hs with rfl | hs
    · simp only [Task.leaving, hctl, hcancelling, List.head?_cons]
    · exact absurd hs hx
  | @unsettled frame co' s' rest _ _ hcode hcancelling hcs _ =>
    obtain ⟨rfl, hx⟩ := left_update hcs hs hn
    rw [Coroutine.opens, hcode, hcancelling] at hs
    exact absurd hs hx
  | @unparked frame co' s' _ hctl hstage hcs _ =>
    obtain ⟨rfl, hx⟩ := left_update hcs hs hn
    rw [Coroutine.opens, hstage] at hs
    rcases List.mem_append.mp hs with hs | hs
    · rw [List.mem_singleton.mp hs]
      simp only [Task.leaving, hctl, hstage]
      rfl
    · exact absurd hs hx
  | @finished frame co' _ _ _ hcode hcancelling _ hcs _ =>
    obtain ⟨rfl, _⟩ := left_update hcs hs hn
    rw [Coroutine.opens, hcode, hcancelling] at hs
    cases hs
  | @parked frame _ _ hcode hcancelling hcs _ =>
    obtain ⟨rfl, _⟩ := left_update hcs hs hn
    rw [Coroutine.opens, hcode, hcancelling] at hs
    cases hs
  | panicked _ hq => exact absurd (hq.opens co ▸ hs) hn
  | @delivered reason _ _ hparked hcs _ =>
    obtain ⟨rfl, _⟩ := left_update hcs hs hn
    rw [opens_inactive (hidle main) (by simp [Stage.isActive_eq, hparked])] at hs
    cases hs
  | undelivered _ _ hq => exact absurd (hq.opens co ▸ hs) hn

end Tasks

namespace Scheduler

open TransitionSystem SharedTypes Tasks

variable {n : ℕ} {c d : Config n}

theorem Resident.holding_created (h : Resident c) {w : Fin n} {t : ℕ}
    (hw : (c.workers w).pc = .holding t) : t < c.created :=
  h.known t (h.registered (w := w) (by rw [hw]; simp [Pc.holds]))

/-- A task takes a step on behalf of nobody. -/
theorem Waits.stepsQuiet (h : Waits c) {t : ℕ} {task : Tasks.Task SessionId}
    (hq : (c.tasks t).Quiet task) (htasks : d.tasks = Function.update c.tasks t task)
    (hsessions : d.sessions = c.sessions) (hc : d.created = c.created) : Waits d := by
  refine h.keeps (fun u => Or.inl ?_) (Nat.le_of_eq hc.symm) ?_
  · rw [htasks]
    by_cases hu : u = t
    · rw [hu, Function.update_self]
      exact hq
    · rw [Function.update_of_ne hu]
      exact .refl _
  · rw [hsessions]
    exact ⟨fun _ => .refl _, h.sound⟩

/-- Neither the tasks nor the sessions change. -/
theorem Waits.still (h : Waits c) (htasks : d.tasks = c.tasks) (hsessions : d.sessions = c.sessions)
    (hc : d.created = c.created) : Waits d := by
  refine h.keeps (fun t => Or.inl ?_) (Nat.le_of_eq hc.symm) ?_
  · rw [htasks]
    exact .refl _
  · rw [hsessions]
    exact ⟨fun _ => .refl _, h.sound⟩

/-- The wakers of a session change. -/
theorem Waits.wakers (h : Waits c) (s : SessionId) (holders : List Holder) (wakers : ℕ) :
    Waits (c.setSession s { c.sessions s with holders := holders, wakers := wakers }) := by
  have hs := h.sound s
  exact h.keeps (fun t => Or.inl (.refl _)) (Nat.le_refl _)
    ⟨kept_setSession ⟨rfl, rfl, Or.inl rfl⟩, sound_setSession h.sound
      ⟨hs.settled, hs.interrupted, hs.unjoined, hs.once, hs.reached⟩⟩

theorem Waits.win (h : Waits c) {s : SessionId} {winner : Winner}
    (hw : ∀ reason, winner ≠ .interrupt reason) : Waits (c.win s winner) := by
  have ht := win_talks (c := c) s winner
  refine h.keeps (fun t => Or.inl ?_) (Nat.le_of_eq ht.created.symm) (win_keeps h.sound hw)
  rw [ht.tasks]
  exact .refl _

/-- A `join_value` that finds a value has not waited. -/
theorem Waits.claim (h : Waits c) {s : SessionId} {join : Join} (ht : join.task < c.created)
    (hvalue : (c.sessions s).state = .value) (hnone : (c.sessions s).join = none) :
    Waits (c.setSession s { c.sessions s with state := .joined, join := some join }) := by
  have hs := h.sound s
  refine h.quiet (fun t => Or.inl (.refl _)) (fun s' hs' => ?_)
    (h.created_setSession fun join' hj => by cases hj; exact ht)
    (sound_setSession h.sound ⟨fun _ => hs.settled (Or.inl hvalue), fun reason hr => ?_, nofun,
      hs.once, hs.reached⟩)
  · have hne : s' ≠ s := by
      rintro rfl
      exact hs' hnone
    simpa [Config.setSession, Function.update_of_ne hne] using Session.Kept.refl _
  · obtain ⟨join', hj, _⟩ := hs.interrupted reason hr
    rw [hnone] at hj
    cases hj

theorem Waits.step (h : Waits c) (hr : Reachable (system n) c) {e : Event n}
    (hs : c.step e = some d) : Waits d := by
  have hm := move_of_step hs
  cases hm with
  | stop | resume | pop | reenter | yield | block | cease | exchanged | forget | retire | sweep
  | enqueue | exit => exact h.still rfl rfl rfl
  | spawn =>
    refine h.keeps (fun t => ?_) (Nat.le_succ _) ⟨fun _ => .refl _, h.sound⟩
    by_cases ht : t = c.created
    · exact Or.inr (by simp [Config.setTask, ht])
    · exact Or.inl (by simpa [Config.setTask, Function.update_of_ne ht] using Task.Quiet.refl _)
  | clone | give | drop => exact h.wakers _ _ _
  | fault => exact (h.wakers _ _ _).win (by simp)
  | wake => exact (h.wakers _ _ _).win (by simp)
  | push => exact h.stepsQuiet (quiet_of_step (e := .wake _) rfl rfl) rfl rfl rfl
  | enter _ _ ht => exact h.stepsQuiet (quiet_of_step rfl ht) rfl rfl rfl
  | abort _ ht => exact h.stepsQuiet (quiet_of_step rfl ht) rfl rfl rfl
  | @run w t e m task hpc hm ht =>
    have hcons := reachable_conserved (reachable_task hr t)
    have hcreated := (reachable_resident hr).holding_created hpc
    have htalks := consult_talks hm
    refine h.run hcons hcreated hm ht ?_ rfl htalks.created
    rw [← htalks.tasks]
    rfl
  | claim hpc _ hvalue hnone =>
    exact h.claim ((reachable_resident hr).holding_created hpc) hvalue hnone
  | grab => exact h.stepsQuiet (quiet_of_step (e := .grab) rfl rfl) rfl rfl rfl

theorem reachable_waits (h : Reachable (system n) c) : Waits c :=
  h.invariant_over (B := Reachable (system n)) (fun _ hr => hr) waits_initial
    fun _ _ _ hr hw hs => hw.step hr hs

/-- The session whose `join_value` ends with the step. -/
def Config.leaving (c : Config n) : Event n → Option SessionId
  | .run w e =>
    match (c.workers w).pc with
    | .holding t => (c.tasks t).leaving e
    | _ => none
  | _ => none

theorem consult_leaving {w : Fin n} {t : ℕ} {e : Tasks.Event SessionId} {s : SessionId}
    (hm : c.consult w t e = some d) (hl : (c.tasks t).leaving e = some s) :
    c.recheck s true = some d := by
  cases e with
  | awake ready =>
    cases ready with
    | true =>
      simp only [Task.leaving] at hl
      split at hl
      next frame co hctl =>
        split at hl
        next wait hstage =>
          split at hl
          next => cases hl
          next hnot =>
            cases hl
            simpa only [Config.consult, hctl, hstage, if_neg hnot] using hm
        next => cases hl
      next => cases hl
    | false => cases hl
  | unpark =>
    simp only [Task.leaving] at hl
    split at hl
    next frame co hctl =>
      simp only [Config.consult, hctl] at hm
      split at hm
      next s' hstage =>
        rw [hstage] at hl
        cases hl
        exact hm
      next => cases hm
    next => cases hl
  | op op =>
    cases op with
    | settle ready =>
      cases ready with
      | true =>
        simp only [Task.leaving] at hl
        split at hl
        next frame co hctl =>
          simp only [Config.consult, hctl, Config.consultOp] at hm
          split at hm
          next s' rest hcancelling =>
            rw [hcancelling] at hl
            cases hl
            exact hm
          next => cases hm
        next => cases hl
      | false => cases hl
    | spawn _ | yieldCoroutine | yieldTask | suspend | resume _ | wait _ _ | thread _ _
    | finish _ => cases hl
  | wake _ | grab | begin | stop | next | tail | interrupt _ | visit _ _ | endInterrupt | abortNext
  | final => cases hl

/-- The coroutines of a task move only with a step of the worker that holds it. -/
theorem task_moves {e : Event n} (hs : c.step e = some d) (t : ℕ) :
    (c.tasks t).Quiet (d.tasks t) ∨ t = c.created ∨
      ∃ w e', e = .run w e' ∧ (c.workers w).pc = .holding t ∧
        (c.tasks t).step e' = some (d.tasks t) := by
  have hupdate : ∀ {u task}, (c.tasks u).Quiet task → d.tasks = Function.update c.tasks u task →
      (c.tasks t).Quiet (d.tasks t) := by
    intro u task hq hd
    rw [hd]
    by_cases htu : t = u
    · rw [htu, Function.update_self]
      exact hq
    · rw [Function.update_of_ne htu]
      exact .refl _
  have hm := move_of_step hs
  cases hm with
  | stop | clone | give | drop | resume | pop | reenter | claim | yield | block | cease | exchanged
  | forget | retire | sweep | enqueue | exit => exact Or.inl (.refl _)
  | fault | wake =>
    rw [(win_talks _ _).tasks]
    exact Or.inl (.refl _)
  | spawn =>
    by_cases ht : t = c.created
    · exact Or.inr (Or.inl ht)
    · refine Or.inl ?_
      simpa [Config.setTask, Function.update_of_ne ht] using Task.Quiet.refl _
  | push => exact Or.inl (hupdate (quiet_of_step (e := .wake _) rfl rfl) rfl)
  | enter _ _ ht | abort _ ht => exact Or.inl (hupdate (quiet_of_step rfl ht) rfl)
  | @run w u e' m task hpc hc ht =>
    by_cases htu : t = u
    · subst htu
      refine Or.inr (Or.inr ⟨w, e', rfl, hpc, ?_⟩)
      simpa [Config.setPc, Config.setWorker, Config.setTask] using ht
    · refine Or.inl ?_
      simpa [Config.setPc, Config.setWorker, Config.setTask, Function.update_of_ne htu,
        (consult_talks hc).tasks] using Task.Quiet.refl _
  | grab => exact Or.inl (hupdate (quiet_of_step (e := .grab) rfl rfl) rfl)

/-- What is on a stack leaves it with the end of a `join_value`. -/
theorem Waits.left (h : Waits c) {e : Event n} (hs : c.step e = some d) {t co : ℕ} {s : SessionId}
    (ho : s ∈ ((c.tasks t).coroutines co).opens) (hn : s ∉ ((d.tasks t).coroutines co).opens) :
    c.leaving e = some s := by
  obtain ⟨join, hj, hjt, _⟩ := (h.fits t co).owner s ho
  rcases task_moves hs t with hq | ht | ⟨w, e', rfl, hpc, ht⟩
  · exact absurd (hq.opens co ▸ ho) hn
  · have hcreated := h.created s join hj
    omega
  · simp only [Config.leaving, hpc]
    exact (turn_of_step ht).leaving (fun co => (h.fits t co).idle) ho hn

theorem Waits.left_value (h : Waits c) {e : Event n} (hs : c.step e = some d) {t co : ℕ}
    {s : SessionId} (ho : s ∈ ((c.tasks t).coroutines co).opens)
    (hn : s ∉ ((d.tasks t).coroutines co).opens) : (c.sessions s).state = .value := by
  have hl := h.left hs ho hn
  have hm := move_of_step hs
  cases hm with
  | run hpc hc ht =>
    simp only [Config.leaving, hpc] at hl
    rcases recheck_eq (consult_leaving hc hl) with ⟨_, hj, _⟩ | ⟨hr, _⟩
    · exact ((h.fits t co).pending s ho).resolve_left hj
    · cases hr
  | stop | spawn | clone | give | drop | fault | wake | push | resume | pop | enter | abort | reenter
  | claim | yield | block | cease | exchanged | forget | retire | sweep | grab | enqueue | exit =>
    cases hl

theorem Session.Sound.winner {x : Session} (h : x.Sound) {join : Join} (hj : x.join = some join)
    (hi : join.interruptible = false) : ∀ reason, x.winner ≠ some (.interrupt reason) := by
  intro reason hw
  obtain ⟨join', hj', hi'⟩ := h.interrupted reason hw
  rw [hj] at hj'
  cases hj'
  rw [hi] at hi'
  cases hi'

theorem Session.Sound.ended {x : Session} (h : x.Sound) {join : Join} (hj : x.join = some join)
    (hi : join.interruptible = false) (hs : x.state = .value ∨ x.state = .joined) :
    x.winner = some .waker ∨ x.winner = some .fault := by
  have hsome := h.settled hs
  have hnot := h.winner hj hi
  cases hw : x.winner with
  | none => rw [hw] at hsome; cases hsome
  | some winner =>
    cases winner with
    | waker => exact Or.inl rfl
    | fault => exact Or.inr rfl
    | interrupt reason => exact absurd hw (hnot reason)

/-- An uninterruptible wait takes its value, or leaves the stack of its coroutine, only after a
waker or the fault of the last one has set it. An interruption never does, `join_value` meets no
unexpected status, and the cancellation runs at most once. -/
theorem uninterruptible_waits (h : Reachable (system n) c) {s : SessionId} {join : Join}
    (hj : (c.sessions s).join = some join) (hi : join.interruptible = false) :
    ((c.sessions s).state = .joined →
      (c.sessions s).winner = some .waker ∨ (c.sessions s).winner = some .fault) ∧
    (∀ e d t co, c.step e = some d → s ∈ ((c.tasks t).coroutines co).opens →
      s ∉ ((d.tasks t).coroutines co).opens →
      (c.sessions s).winner = some .waker ∨ (c.sessions s).winner = some .fault) ∧
    (∀ reason, (c.sessions s).winner ≠ some (.interrupt reason)) ∧
    (c.sessions s).unreachable = false ∧ (c.sessions s).cancellations ≤ 1 := by
  have hw := reachable_waits h
  have hs := hw.sound s
  refine ⟨fun hjoined => ?_, fun e d t co hst ho hn => ?_, ?_, hs.reached, hs.once⟩
  · exact hs.ended hj hi (Or.inr hjoined)
  · exact hs.ended hj hi (Or.inl (hw.left_value hst ho hn))
  · exact hs.winner hj hi

/-- Main ends, and its task aborts a coroutine that then waits uninterruptibly. The wait is cancelled
and sleeps on until a thread wakes its session. -/
def cancelledWait : Execution (system 1) where
  events := [.spawn, .pop 0, .enter 0, .run 0 .next, .run 0 (.op (.spawn 1)),
    .run 0 (.op (.finish true)), .run 0 .next, .run 0 (.interrupt []), .run 0 .endInterrupt,
    .run 0 .abortNext, .run 0 (.op (.wait (.user 0) false)), .run 0 .abortNext,
    .run 0 (.interrupt []), .run 0 (.visit 1 false), .run 0 .endInterrupt, .run 0 .abortNext,
    .run 0 (.awake false), .run 0 (.op (.settle false)), .run 0 .abortNext,
    .wake (.user 0) .thread, .push ⟨.user 0, 0, 1⟩, .run 0 (.interrupt []),
    .run 0 (.visit 1 false), .run 0 .endInterrupt, .run 0 .abortNext, .run 0 (.awake true)]
  fires := by decide +kernel

theorem cancelled_wait_woken :
    (cancelledWait.final.sessions (.user 0)).state = .joined ∧
    (cancelledWait.final.sessions (.user 0)).cancellations = 1 ∧
    ((cancelledWait.final.sessions (.user 0)).winner = some .waker ∨
      (cancelledWait.final.sessions (.user 0)).winner = some .fault) :=
  have hj : (cancelledWait.final.sessions (.user 0)).join = some ⟨0, 1, false, false⟩ := by
    decide +kernel
  have hs : (cancelledWait.final.sessions (.user 0)).state = .joined := by decide +kernel
  ⟨hs, by decide +kernel, (uninterruptible_waits cancelledWait.final_reachable hj rfl).1 hs⟩

end Scheduler
