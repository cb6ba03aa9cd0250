import Stuck.UninterruptibleWaits

/-! The `wake_task` of a waker that won. It uses the task after the value is set, so somebody has to
keep the task until then. `join_value` does not: a wait that was cancelled takes the value without
its wake-up, and the task may end before its waker is through with it. -/
namespace Tasks

variable {S : Type*} {t : Task S}

theorem Conserved.ceased (h : Conserved t)
    (hc : t.control = .ceased ∨ t.control = .aborted) (co : ℕ) :
    (t.coroutines co).stage.isVacant = true := by
  have hphase := h.phase
  rw [Task.Phase] at hphase
  rcases hc with hc | hc
  · rw [hc] at hphase
    exact h.over (by rw [hc]; rfl) hphase.2 hphase.1 co
  · rw [hc] at hphase
    exact h.over (by rw [hc]; rfl) hphase.2 hphase.1 co

theorem control_of_cease (h : t.tail.2 = some .cease) :
    t.tail.1.control = .ceased := by
  revert h
  unfold Task.tail
  dsimp only
  split
  · intro h
    cases h
  · split
    · split
      · intro h
        cases h
      · intro _
        rfl
    · intro h
      split at h <;> cases h

end Tasks

namespace Scheduler

open TransitionSystem SharedTypes Tasks

variable {n : ℕ} {c d m : Config n} {s : SessionId}

/-- Every coroutine of the task has ended. -/
def Config.over (c : Config n) (t : ℕ) : Prop :=
  ∀ co, ((c.tasks t).coroutines co).stage.isVacant = true

/-- The worker is about to have the task removed and freed. -/
def Pc.ended (t : ℕ) : Pc → Bool
  | .returned u .cease | .aborted u => u == t
  | _ => false

structure Alive (c : Config n) : Prop where
  ended : ∀ w t, (c.workers w).pc.ended t = true → c.over t
  released : ∀ t, t < c.created → t ∉ c.registry → c.over t
  attended : ∀ s join, (c.sessions s).state = .joining → (c.sessions s).join = some join →
    s ∈ ((c.tasks join.task).coroutines join.co).opens

theorem Pc.holds_of_ended {t : ℕ} {pc : Pc} (h : pc.ended t = true) : pc.holds t = true := by
  unfold Pc.ended at h
  split at h
  · exact h
  · exact h
  · cases h

/-- A worker leaves a task for good only when the task has ceased. -/
theorem pcAfter_ended {t u : ℕ} {task task' : Tasks.Task SessionId} {e : Tasks.Event SessionId}
    (hs : task.step e = some task') (he : (pcAfter t task task' e).ended u = true) :
    u = t ∧ (task'.control = .ceased ∨ task'.control = .aborted) := by
  unfold pcAfter at he
  split at he
  · cases step_moves hs
    split at he
    next flow hflow =>
      cases flow with
      | cease => exact ⟨(beq_iff_eq.mp he).symm, Or.inl (control_of_cease hflow)⟩
      | yield | block => cases he
    next => cases he
  · split at he
    next hc => exact ⟨(beq_iff_eq.mp he).symm, Or.inl hc⟩
    next hc => exact ⟨(beq_iff_eq.mp he).symm, Or.inr hc⟩
    next => cases he

theorem Config.over.quiet {t : ℕ} (h : c.over t) (hq : (c.tasks t).Quiet (d.tasks t)) :
    d.over t := by
  intro co
  rw [hq.stages co]
  exact h co

/-- A worker that ends a task has ended it before, or steps it. -/
theorem ended_move {e : Event n} (hs : c.step e = some d) {v : Fin n} {t : ℕ}
    (hv : (d.workers v).pc.ended t = true) :
    (c.workers v).pc.ended t = true ∨ ∃ e', e = .run v e' ∧ (c.workers v).pc = .holding t ∧
      ((d.tasks t).control = .ceased ∨ (d.tasks t).control = .aborted) := by
  have hupdate : ∀ {w worker}, d.workers = Function.update c.workers w worker →
      worker.pc.ended t = false → (c.workers v).pc.ended t = true := by
    intro w worker hd hpc
    rw [hd] at hv
    by_cases hvw : v = w
    · rw [hvw, Function.update_self, hpc] at hv
      cases hv
    · rwa [Function.update_of_ne hvw] at hv
  have hm := move_of_step hs
  cases hm with
  | stop | spawn | clone | give | drop | push | resume | claim => exact Or.inl hv
  | fault | wake =>
    rw [(win_talks _ _).workers] at hv
    exact Or.inl hv
  | pop | enter | abort | reenter | yield | block | cease | forget | retire | sweep | enqueue
  | exit => exact Or.inl (hupdate rfl rfl)
  | grab => exact Or.inl (hupdate rfl (by dsimp only; split <;> rfl))
  | @exchanged w mode ambient u flow hw _ =>
    refine Or.inl ?_
    by_cases hvw : v = w
    · subst hvw
      rw [hw]
      simpa [Config.setWorker] using hv
    · simpa [Config.setWorker, Function.update_of_ne hvw] using hv
  | @run w u e' m task hpc hc ht =>
    by_cases hvw : v = w
    · subst hvw
      have hended : (pcAfter u (c.tasks u) task e').ended t = true := by
        simpa [Config.setPc, Config.setWorker] using hv
      obtain ⟨rfl, hctl⟩ := pcAfter_ended ht hended
      refine Or.inr ⟨e', rfl, hpc, ?_⟩
      simpa [Config.setPc, Config.setWorker, Config.setTask] using hctl
    · refine Or.inl ?_
      simpa [Config.setPc, Config.setWorker, Config.setTask, Function.update_of_ne hvw,
        (consult_talks hc).workers] using hv

theorem joining_setSession {s' : SessionId} {y : Session}
    (hs : ((c.setSession s' y).sessions s).state = .joining)
    (hy : s = s' → y.state = .joining →
      (c.sessions s).state = .joining ∧ y.join = (c.sessions s).join) :
    (c.sessions s).state = .joining ∧
      ((c.setSession s' y).sessions s).join = (c.sessions s).join := by
  by_cases hss : s = s'
  · subst hss
    simp only [Config.setSession, Function.update_self] at hs ⊢
    exact hy rfl hs
  · simp only [Config.setSession, Function.update_of_ne hss] at hs ⊢
    exact ⟨hs, trivial⟩

theorem joining_win {s' : SessionId} {winner : Winner}
    (hs : ((c.win s' winner).sessions s).state = .joining) :
    (c.sessions s).state = .joining ∧
      ((c.win s' winner).sessions s).join = (c.sessions s).join := by
  unfold Config.win at hs ⊢
  split at hs
  next m hm =>
    obtain ⟨_, rfl⟩ := setValue_eq hm
    exact joining_setSession hs fun _ hy => by cases hy
  next => exact ⟨hs, rfl⟩

/-- A session is joining since its coroutine registered. -/
theorem Talk.joining {w : Fin n} {t : ℕ} {e : Tasks.Event SessionId} (h : Talk c w t e d)
    (hs : (d.sessions s).state = .joining) :
    (c.sessions s).state = .joining ∧ (d.sessions s).join = (c.sessions s).join ∨
      ∃ frame co op i, e = .op op ∧ (op = .wait s i ∨ op = .thread s i) ∧
        (c.tasks t).control = .running frame co ∧
        (d.sessions s).join = some ⟨t, co, (c.workers w).ambient.isNone, i⟩ := by
  cases h with
  | silent => exact Or.inl ⟨hs, rfl⟩
  | interrupted => exact Or.inl (joining_setSession hs fun _ hy => by cases hy)
  | cancelled => exact Or.inl (joining_setSession hs fun hss hy => by subst hss; exact ⟨hy, rfl⟩)
  | @left _ s' hne =>
    refine Or.inl (joining_setSession hs fun hss hy => ?_)
    subst hss
    unfold Session.leave at hy
    split at hy
    · cases hy
    · exact absurd hy hne
  | delivered => exact Or.inl (joining_win hs)
  | @registered frame co op s' i hctl hop hempty hnone =>
    by_cases hss : s = s'
    · subst hss
      refine Or.inr ⟨frame, co, op, i, rfl, hop.imp And.left And.left, hctl, ?_⟩
      simp [Config.setSession]
    · exact Or.inl (joining_setSession hs fun he => absurd he hss)

/-- The operation that registers a joiner puts its session on the stack. -/
theorem opens_register {t u : Tasks.Task SessionId} {frame : Frame} {co : ℕ} {op : Op SessionId}
    {i : Bool} (hs : t.step (.op op) = some u) (hop : op = .wait s i ∨ op = .thread s i)
    (hc : t.control = .running frame co) : s ∈ (u.coroutines co).opens := by
  have hturn := turn_of_step hs
  rcases hop with rfl | rfl
  · cases hturn with
    | quiet he => cases he
    | waited hctl _ hcs =>
      rw [hc] at hctl
      cases hctl
      simp [hcs, Coroutine.opens, Stage.opens]
  · cases hturn with
    | quiet he => cases he
    | threaded hctl _ hcs =>
      rw [hc] at hctl
      cases hctl
      simp [hcs, Coroutine.opens, Stage.opens]

theorem joining_moves {e : Event n} (hs : c.step e = some d) {join : Join}
    (hst : (d.sessions s).state = .joining) (hj : (d.sessions s).join = some join) :
    (c.sessions s).state = .joining ∧ (c.sessions s).join = some join ∨
      s ∈ ((d.tasks join.task).coroutines join.co).opens := by
  have hkept : ∀ {s' y}, ((c.setSession s' y).sessions s).state = .joining →
      y.state = (c.sessions s').state → y.join = (c.sessions s').join →
      (c.sessions s).state = .joining ∧
        ((c.setSession s' y).sessions s).join = (c.sessions s).join := by
    intro s' y hst hstate hjoin
    refine joining_setSession hst fun hss hy => ?_
    subst hss
    exact ⟨hstate ▸ hy, hjoin⟩
  have hm := move_of_step hs
  cases hm with
  | stop | spawn | push | resume | pop | enter | abort | reenter | yield | block | cease
  | exchanged | forget | retire | sweep | grab | enqueue | exit => exact Or.inl ⟨hst, hj⟩
  | clone | give | drop =>
    obtain ⟨hold, hsame⟩ := hkept hst rfl rfl
    exact Or.inl ⟨hold, hsame ▸ hj⟩
  | fault | wake =>
    obtain ⟨hmid, hsame⟩ := joining_win hst
    obtain ⟨hold, hsame'⟩ := hkept hmid rfl rfl
    exact Or.inl ⟨hold, hsame' ▸ hsame ▸ hj⟩
  | @claim w s' =>
    obtain ⟨hold, hsame⟩ := joining_setSession hst fun _ hy => by cases hy
    exact Or.inl ⟨hold, hsame ▸ hj⟩
  | @run w t e' m task hpc hc ht =>
    rcases (talk_of_consult hc).joining hst with ⟨hold, hsame⟩ | ⟨frame, co, op, i, rfl, hop, hctl, hj'⟩
    · exact Or.inl ⟨hold, hsame ▸ hj⟩
    · change (m.sessions s).join = some join at hj
      rw [hj'] at hj
      cases hj
      refine Or.inr ?_
      simpa [Config.setPc, Config.setWorker, Config.setTask] using opens_register ht hop hctl

/-- The tasks that have ended stay as they are. -/
theorem Alive.over_step (h : Alive c) (hr : Resident c) {e : Event n} (hs : c.step e = some d)
    {t : ℕ} (ht : t < c.created)
    (ho : (∃ w, (c.workers w).pc.ended t = true) ∨ t ∉ c.registry) : d.over t := by
  have hover : c.over t := by
    rcases ho with ⟨w, hw⟩ | ho
    · exact h.ended w t hw
    · exact h.released t ht ho
  rcases task_moves hs t with hq | hc | ⟨w, e', rfl, hpc, _⟩
  · exact hover.quiet hq
  · omega
  · have hhold : (c.workers w).pc.holds t = true := by rw [hpc]; simp [Pc.holds]
    rcases ho with ⟨v, hv⟩ | ho
    · obtain rfl := hr.one_holder hhold (Pc.holds_of_ended hv)
      rw [hpc] at hv
      cases hv
    · exact absurd (hr.registered hhold) ho

theorem registry_move {e : Event n} (hs : c.step e = some d) {t : ℕ} (ht : t < d.created)
    (hn : t ∉ d.registry) :
    t < c.created ∧ (t ∉ c.registry ∨ ∃ w, (c.workers w).pc.ended t = true) := by
  have hm := move_of_step hs
  cases hm with
  | stop | clone | give | drop | push | resume | pop | enter | abort | reenter | claim | yield
  | block | exchanged | retire | sweep | grab | enqueue | exit => exact ⟨ht, Or.inl hn⟩
  | fault | wake =>
    rw [(win_talks _ _).registry] at hn
    rw [(win_talks _ _).created] at ht
    exact ⟨ht, Or.inl hn⟩
  | spawn =>
    simp only [List.mem_append, List.mem_singleton, not_or] at hn
    exact ⟨Nat.lt_of_le_of_ne (Nat.le_of_lt_succ ht) hn.2, Or.inl hn.1⟩
  | run hpc hc _ =>
    have hregistry := (consult_talks hc).registry
    have hcreated := (consult_talks hc).created
    exact ⟨hcreated ▸ ht, Or.inl (hregistry ▸ hn)⟩
  | @cease w mode u hw =>
    refine ⟨ht, ?_⟩
    by_cases htu : t = u
    · exact Or.inr ⟨w, by rw [hw, htu]; simp [Pc.ended]⟩
    · exact Or.inl fun hm => hn ((List.mem_erase_of_ne htu).mpr hm)
  | @forget w mode ambient u hw =>
    refine ⟨ht, ?_⟩
    by_cases htu : t = u
    · exact Or.inr ⟨w, by rw [hw, htu]; simp [Pc.ended]⟩
    · exact Or.inl fun hm => hn ((List.mem_erase_of_ne htu).mpr hm)

theorem Alive.step (h : Alive c) (hr : Reachable (system n) c) {e : Event n}
    (hs : c.step e = some d) : Alive d where
  ended v t hv := by
    have hres := reachable_resident hr
    rcases ended_move hs hv with hv | ⟨e', rfl, hpc, hctl⟩
    · exact h.over_step hres hs (hres.known t (hres.registered (Pc.holds_of_ended hv)))
        (Or.inl ⟨v, hv⟩)
    · have hd : Reachable (system n) d := .step (e := .run v e') hr hs
      exact (reachable_conserved (reachable_task hd t)).ceased hctl
  released t ht hn := by
    obtain ⟨hc, ho⟩ := registry_move hs ht hn
    exact h.over_step (reachable_resident hr) hs hc ho.symm
  attended s join hst hj := by
    rcases joining_moves hs hst hj with ⟨hst', hj'⟩ | hnew
    · by_contra hn
      have hvalue := (reachable_waits hr).left_value hs (h.attended s join hst' hj') hn
      rw [hst'] at hvalue
      cases hvalue
    · exact hnew

theorem reachable_alive (h : Reachable (system n) c) : Alive c := by
  refine h.invariant_over (B := Reachable (system n)) (fun _ hr => hr) ⟨?_, ?_, ?_⟩
    fun _ _ _ hr ha hs => ha.step hr hs
  · intro w t hw
    cases hw
  · intro t ht
    cases ht
  · intro s join hst
    cases hst

/-- A win is one on a session that was joining, against the coroutine that joined it. -/
theorem mem_waking_win {s' : SessionId} {winner : Winner} {wake : Wake}
    (hw : wake ∈ (c.win s' winner).waking) :
    wake ∈ c.waking ∨ wake.session = s' ∧ (c.sessions s').state = .joining ∧
      ∃ i, (c.sessions s').join = some ⟨wake.task, wake.co, false, i⟩ := by
  unfold Config.win at hw
  split at hw
  next m hm =>
    rcases List.mem_append.mp hw with hw | hw
    · exact Or.inl hw
    · unfold Config.joinerTask at hw
      split at hw
      next t co i hst hj =>
        obtain rfl := List.mem_singleton.mp hw
        exact Or.inr ⟨rfl, hst, i, hj⟩
      next => cases hw
  next => exact Or.inl hw

theorem waking_moves {e : Event n} (hs : c.step e = some d) {wake : Wake} (hw : wake ∈ d.waking) :
    wake ∈ c.waking ∨ (c.sessions wake.session).state = .joining ∧
      ∃ i, (c.sessions wake.session).join = some ⟨wake.task, wake.co, false, i⟩ := by
  have hwon : ∀ {s' y winner}, wake ∈ ((c.setSession s' y).win s' winner).waking →
      y.state = (c.sessions s').state → y.join = (c.sessions s').join →
      wake ∈ c.waking ∨ (c.sessions wake.session).state = .joining ∧
        ∃ i, (c.sessions wake.session).join = some ⟨wake.task, wake.co, false, i⟩ := by
    intro s' y winner hw hstate hjoin
    rcases mem_waking_win hw with hw | ⟨rfl, hst, i, hj⟩
    · exact Or.inl hw
    · simp only [Config.setSession, Function.update_self] at hst hj
      exact Or.inr ⟨hstate ▸ hst, i, hjoin ▸ hj⟩
  have hm := move_of_step hs
  cases hm with
  | stop | spawn | clone | give | drop | resume | pop | enter | abort | reenter | claim | yield
  | block | cease | exchanged | forget | retire | sweep | grab | enqueue | exit => exact Or.inl hw
  | fault | wake => exact hwon hw rfl rfl
  | push => exact Or.inl (List.mem_of_mem_erase hw)
  | run hpc hc ht =>
    change wake ∈ Config.waking _ at hw
    have htalk := talk_of_consult hc
    cases htalk with
    | silent | interrupted | registered | left | cancelled => exact Or.inl hw
    | delivered =>
      rcases mem_waking_win hw with hw | ⟨hsession, hst, i, hj⟩
      · exact Or.inl hw
      · rw [hsession]
        exact Or.inr ⟨hst, i, hj⟩

/-- A `join_value` takes the value of a session whose waker has yet to wake its task. -/
def LeavesEarly (c : Config n) (e : Event n) : Prop :=
  ∃ wake ∈ c.waking, c.leaving e = some wake.session

instance (c : Config n) (e : Event n) : Decidable (LeavesEarly c e) :=
  inferInstanceAs (Decidable (∃ wake ∈ c.waking, c.leaving e = some wake.session))

/-- Who is to be woken still waits. -/
def Awaited (c : Config n) : Prop :=
  ∀ wake ∈ c.waking, wake.session ∈ ((c.tasks wake.task).coroutines wake.co).opens

theorem Awaited.step (h : Awaited c) (hr : Reachable (system n) c) {e : Event n}
    (hearly : ¬ LeavesEarly c e) (hs : c.step e = some d) : Awaited d := by
  intro wake hw
  by_contra hn
  have hwaits := reachable_waits hr
  rcases waking_moves hs hw with hold | ⟨hst, i, hj⟩
  · exact hearly ⟨wake, hold, hwaits.left hs (h wake hold) hn⟩
  · have hvalue := hwaits.left_value hs ((reachable_alive hr).attended wake.session _ hst hj) hn
    rw [hst] at hvalue
    cases hvalue

/-- Along a run in which no `join_value` takes a value before its waker has woken the task, each
waker that won finds its task registered, and the coroutine that it wakes unfinished. -/
theorem winner_finds_task (ρ : Execution (system n)) (hg : ∀ c e, ρ.Takes c e → ¬ LeavesEarly c e)
    {c : Config n} (h : ρ.Visits c) : ∀ wake ∈ c.waking,
    wake.task ∈ c.registry ∧
    ((c.tasks wake.task).coroutines wake.co).stage.isVacant = false ∧
    (c.tasks wake.task).control ≠ .ceased ∧ (c.tasks wake.task).control ≠ .aborted := by
  have hr := ρ.reachable h
  have hwaits := reachable_waits hr
  have hawaited : Awaited c := ρ.guarded (B := Reachable (system n)) (fun _ hr => hr) nofun
    (fun _ _ _ hr ha hn hs => ha.step hr hn hs) hg c h
  intro wake hw
  have hopen := hawaited wake hw
  have hfits := hwaits.fits wake.task wake.co
  have hvacant : ((c.tasks wake.task).coroutines wake.co).stage.isVacant = false := by
    by_contra hv
    have hactive : ((c.tasks wake.task).coroutines wake.co).stage.isActive = false := by
      simp [Stage.isActive_eq, by simpa using hv]
    rw [opens_inactive hfits.idle hactive] at hopen
    cases hopen
  have hlives : ¬ ((c.tasks wake.task).control = .ceased ∨
      (c.tasks wake.task).control = .aborted) := by
    intro hc
    have hover := (reachable_conserved (reachable_task hr wake.task)).ceased hc wake.co
    rw [hvacant] at hover
    cases hover
  refine ⟨?_, hvacant, fun hc => hlives (Or.inl hc), fun hc => hlives (Or.inr hc)⟩
  by_contra hn
  obtain ⟨join, hj, hjt, _⟩ := hfits.owner wake.session hopen
  have hover := (reachable_alive hr).released wake.task (hjt ▸ hwaits.created _ join hj) hn wake.co
  rw [hvacant] at hover
  cases hover

/-- A thread wins against a blocked coroutine and has yet to wake its task. -/
def winningRun : Execution (system 1) where
  events := [.spawn, .pop 0, .enter 0, .run 0 .next, .run 0 (.op (.wait (.user 0) false)),
    .run 0 .next, .run 0 .tail, .leave 0, .wake (.user 0) .thread]
  fires := by decide +kernel

theorem winner_finds_blocked_task : ⟨.user 0, 0, 0⟩ ∈ winningRun.final.waking ∧
    0 ∈ winningRun.final.registry := by
  have hw : ⟨.user 0, 0, 0⟩ ∈ winningRun.final.waking := by decide +kernel
  have hg := winningRun.takes_of_allSteps (P := fun c e => ¬ LeavesEarly c e) (by decide +kernel)
  exact ⟨hw, (winner_finds_task winningRun hg winningRun.visits_final _ hw).1⟩

/-- A coroutine waits uninterruptibly in an aborted task. A thread wins against it, but the next
pass of the abort interrupts the wait: its cancellation runs, it takes the value, and the task ends
before the thread wakes it. -/
def releasedRun : Execution (system 1) where
  events := [.spawn, .pop 0, .enter 0, .run 0 .next, .run 0 (.op (.spawn 1)),
    .run 0 (.op (.finish true)), .run 0 .next, .run 0 (.interrupt []), .run 0 .endInterrupt,
    .run 0 .abortNext, .run 0 (.op (.wait (.user 0) false)), .run 0 .abortNext,
    .wake (.user 0) .thread, .run 0 (.interrupt []), .run 0 (.visit 1 false),
    .run 0 .endInterrupt, .run 0 .abortNext, .run 0 (.awake true), .run 0 (.op (.settle true)),
    .run 0 (.op (.finish true)), .run 0 .abortNext, .run 0 (.interrupt []), .run 0 .endInterrupt,
    .run 0 .final, .run 0 .tail, .leave 0]
  fires := by decide +kernel

theorem winner_meets_released_task : ∃ c, Reachable (system 1) c ∧ ∃ wake ∈ c.waking,
    wake.task ∉ c.registry ∧ (c.tasks wake.task).control = .ceased ∧
      (c.step (.push wake)).isSome = true :=
  ⟨releasedRun.final, releasedRun.final_reachable, ⟨.user 0, 0, 1⟩, by decide +kernel,
    by decide +kernel, by decide +kernel, by decide +kernel⟩

end Scheduler
