import Stuck.WinningWakers

/-! What a `JoinHandle` learns. Main sends its result at the very end of its task, after all the
other coroutines, and no task is removed before: whoever joins a task gets the result of a task
that is over, or was interrupted himself, and is never left waiting for a task that is gone. -/
namespace Tasks

variable {S : Type*} {t u : Task S}

/-- A task that is over takes no step on behalf of a coroutine. -/
theorem over_step (hover : ∀ co, (t.coroutines co).stage.isVacant = true) {e : Event S}
    (hs : t.step e = some u) (co : ℕ) : (u.coroutines co).stage.isVacant = true := by
  have hquiet : t.Quiet u → (u.coroutines co).stage.isVacant = true := by
    intro hq
    rw [hq.stages]
    exact hover co
  cases step_moves hs with
  | @op frame b op _ _ hcode _ =>
    have hv := hover b
    rw [hcode] at hv
    cases hv
  | @awake frame b wait ready _ hw =>
    have hv := hover b
    rw [hw] at hv
    cases hv
  | @unpark frame b session _ hp =>
    have hv := hover b
    rw [hp] at hv
    cases hv
  | @final reason hc =>
    have hparked : (t.coroutines main).stage.isParked = false := by
      have hv := hover main
      cases hst : (t.coroutines main).stage with
      | vacant => rfl
      | code | waiting _ | thread _ | parked =>
        rw [hst] at hv
        cases hv
    have hstay : t.final reason = t.setControl (.panicked .assertion) := by
      unfold Task.final
      rw [hparked]
      rfl
    rw [hstay]
    exact hover co
  | wake | grab | begin | stop | next | tail | interrupt | visit | endInterrupt | abortNext =>
    exact hquiet (quiet_of_step rfl hs)

/-- After the last step of `Task::abort` nothing of the task is left. -/
theorem final_over (h : Conserved t) (hs : t.step .final = some u) (co : ℕ) :
    (u.coroutines co).stage.isVacant = true := by
  cases step_moves hs with
  | @final reason hc =>
    have hphase := h.phase
    rw [Task.Phase, hc] at hphase
    have hnone : t.control.current = none := by rw [hc]; rfl
    unfold Task.final
    rw [if_pos (h.main_parked hphase.2 hnone hphase.1)]
    by_cases hco : co = main
    · simp [hco, Task.complete, Task.setCoroutine, Task.setControl, Coroutine.dropped,
        Stage.isVacant]
    · simpa [Task.complete, Task.setCoroutine, Task.setControl, Function.update_of_ne hco]
        using h.all_vacant hphase.2 hnone hco

/-- Main only goes at the end of `Task::abort`. -/
theorem main_goes {e : Event S} (hs : t.step e = some u)
    (hu : (u.coroutines main).stage.isVacant = true) :
    (t.coroutines main).stage.isVacant = true ∨
      e = .final ∧ (t.coroutines main).stage.isParked = true := by
  by_contra hn
  obtain ⟨hv, hfinal⟩ := not_or.mp hn
  have hupdate : ∀ {co : ℕ} {x : Coroutine S},
      u.coroutines = Function.update t.coroutines co x → x.stage.isVacant = false → False := by
    intro co x hc hx
    rw [hc] at hu
    by_cases hco : main = co
    · rw [hco, Function.update_self, hx] at hu
      cases hu
    · rw [Function.update_of_ne hco] at hu
      exact hv hu
  have hquiet : t.Quiet u → False := by
    intro hq
    rw [hq.stages] at hu
    exact hv hu
  cases turn_of_step hs with
  | quiet _ hq | panicked _ hq | undelivered _ _ hq => exact hquiet hq
  | refused => exact hv hu
  | spawned _ hc _ => exact hupdate hc rfl
  | waited _ _ hc _ | threaded _ _ hc _ | cancelled _ _ _ _ hc _ | woken _ _ _ hc _
  | slept _ _ _ hc _ | unsettled _ _ _ hc _ | settled _ _ _ hc _ | unparked _ _ hc _
  | parked _ _ _ hc _ => exact hupdate hc rfl
  | finished _ _ _ hco hc _ =>
    rw [hc, Function.update_of_ne (Ne.symm hco)] at hu
    exact hv hu
  | delivered _ hp _ _ => exact hfinal ⟨rfl, hp⟩

end Tasks

namespace Scheduler

open TransitionSystem SharedTypes Tasks

variable {n : ℕ} {c d m : Config n} {s : SessionId}

/-- There is a value, or it has been taken. -/
def Session.Settled (x : Session) : Prop := x.state = .value ∨ x.state = .joined

/-- What happens to a session whose waker nobody holds: at most an interrupt of who joins it. -/
structure Session.Lasts (x y : Session) : Prop where
  holders : y.holders = x.holders
  settled : x.Settled → y.Settled ∧ y.winner = x.winner
  winner : y.winner = x.winner ∨ ∃ reason, y.winner = some (.interrupt reason)

theorem Session.Lasts.refl (x : Session) : x.Lasts x := ⟨rfl, fun h => ⟨h, rfl⟩, Or.inl rfl⟩

theorem lasts_setSession {y : Session} (h : (c.sessions s).Lasts y) (s' : SessionId) :
    (c.sessions s').Lasts ((c.setSession s y).sessions s') := by
  by_cases hs : s' = s
  · subst hs
    simpa [Config.setSession] using h
  · simpa [Config.setSession, Function.update_of_ne hs] using Session.Lasts.refl _

/-- A session of another number. -/
theorem lasts_elsewhere {s' : SessionId} {y : Session} (hne : s ≠ s') :
    (c.sessions s).Lasts ((c.setSession s' y).sessions s) := by
  simpa [Config.setSession, Function.update_of_ne hne] using Session.Lasts.refl _

theorem win_elsewhere {s' : SessionId} {winner : Winner} (hne : s ≠ s') :
    (c.win s' winner).sessions s = c.sessions s := by
  unfold Config.win
  split
  next d hd =>
    obtain ⟨_, rfl⟩ := setValue_eq hd
    exact Function.update_of_ne hne _ _
  next => rfl

/-- The session is settled after a `set_value`, with the value of who was first. -/
theorem win_settles (s : SessionId) (winner : Winner) :
    ((c.win s winner).sessions s).Settled ∧
      ((c.win s winner).sessions s).holders = (c.sessions s).holders ∧
      (((c.win s winner).sessions s).winner = (c.sessions s).winner ∨
        ¬ (c.sessions s).Settled ∧ ((c.win s winner).sessions s).winner = some winner) := by
  unfold Config.win
  split
  next d hd =>
    obtain ⟨hst, rfl⟩ := setValue_eq hd
    have hnot : ¬ (c.sessions s).Settled := by
      rintro (hv | hv) <;> rw [hv] at hst <;> simp at hst
    refine ⟨?_, ?_, Or.inr ⟨hnot, ?_⟩⟩
    · exact Or.inl (by simp [Config.setSession])
    · simp [Config.setSession]
    · simp [Config.setSession]
  next hn =>
    refine ⟨?_, rfl, Or.inl rfl⟩
    unfold Config.setValue at hn
    dsimp only at hn
    split at hn
    · cases hn
    · cases hn
    next hv => exact Or.inl hv
    next hv => exact Or.inr hv

theorem Session.lasts_leave (x : Session) : x.Lasts x.leave := by
  unfold Session.leave
  split
  next hv => exact ⟨rfl, fun _ => ⟨Or.inr rfl, rfl⟩, Or.inl rfl⟩
  next => exact ⟨rfl, fun h => ⟨h, rfl⟩, Or.inl rfl⟩

/-- A step of a task leaves the sessions alone, up to interrupts and the result of main. -/
theorem Talk.lasts {w : Fin n} {t : ℕ} {e : Tasks.Event SessionId} (h : Talk c w t e d)
    (s : SessionId) : (c.sessions s).Lasts (d.sessions s) ∨
      e = .final ∧ s = .handle t ∧ d = c.win (.handle t) .waker := by
  cases h with
  | silent => exact Or.inl (.refl _)
  | @interrupted co s' reason hst =>
    have hnot : ¬ (c.sessions s').Settled := by
      rintro (hv | hv) <;> rw [hv] at hst <;> simp at hst
    have hl : (c.sessions s').Lasts
        { c.sessions s' with state := .value, winner := some (.interrupt reason) } :=
      ⟨rfl, fun hv => absurd hv hnot, Or.inr ⟨reason, rfl⟩⟩
    exact Or.inl (lasts_setSession hl s)
  | @registered frame co op s' i _ _ hst _ =>
    have hnot : ¬ (c.sessions s').Settled := by
      rintro (hv | hv) <;> rw [hv] at hst <;> cases hst
    have hl : (c.sessions s').Lasts { c.sessions s' with
        state := .joining
        join := some ⟨t, co, (c.workers w).ambient.isNone, i⟩ } :=
      ⟨rfl, fun hv => absurd hv hnot, Or.inl rfl⟩
    exact Or.inl (lasts_setSession hl s)
  | @left e s' _ => exact Or.inl (lasts_setSession (c.sessions s').lasts_leave s)
  | @cancelled ready s' =>
    have hl : (c.sessions s').Lasts
        { c.sessions s' with cancellations := (c.sessions s').cancellations + 1 } :=
      ⟨rfl, fun hv => ⟨hv, rfl⟩, Or.inl rfl⟩
    exact Or.inl (lasts_setSession hl s)
  | delivered =>
    by_cases hs : s = .handle t
    · exact Or.inr ⟨rfl, hs, rfl⟩
    · rw [win_elsewhere hs]
      exact Or.inl (.refl _)

/-- A waker that nobody holds wakes nobody. -/
theorem session_lasts {e : Event n} (hs : c.step e = some d)
    (hnone : (c.sessions s).holders = []) : (c.sessions s).Lasts (d.sessions s) ∨
      ∃ w t, e = .run w .final ∧ s = .handle t ∧ (c.tasks t).step .final = some (d.tasks t) ∧
        d.sessions s = (c.win (.handle t) .waker).sessions s := by
  have hheld : ∀ {s' holder}, holder ∈ (c.sessions s').holders → s ≠ s' := by
    rintro s' holder hh rfl
    rw [hnone] at hh
    cases hh
  have hm := move_of_step hs
  cases hm with
  | stop | spawn | push | resume | pop | enter | abort | reenter | yield | block | cease
  | exchanged | forget | retire | sweep | grab | enqueue | exit => exact Or.inl (.refl _)
  | clone hh | give hh _ | drop hh => exact Or.inl (lasts_elsewhere (hheld hh))
  | fault hh | wake hh =>
    rw [win_elsewhere (hheld hh)]
    exact Or.inl (lasts_elsewhere (hheld hh))
  | @claim w s' i t frame co _ _ hv _ =>
    have hl : (c.sessions s').Lasts { c.sessions s' with
        state := .joined
        join := some ⟨t, co, (c.workers w).ambient.isNone, i⟩ } :=
      ⟨rfl, fun _ => ⟨Or.inr rfl, rfl⟩, Or.inl rfl⟩
    exact Or.inl (lasts_setSession hl s)
  | @run w t e' m task hpc hc ht =>
    rcases (talk_of_consult hc).lasts s with hl | ⟨rfl, hst, rfl⟩
    · exact Or.inl hl
    · refine Or.inr ⟨w, t, rfl, hst, ?_, rfl⟩
      simpa [Config.setPc, Config.setWorker, Config.setTask] using ht

/-- Main of a task only goes in the last step of its `abort`, which delivers its result. -/
theorem main_move {e : Event n} (hs : c.step e = some d) {t : ℕ}
    (hv : ((d.tasks t).coroutines main).stage.isVacant = true) :
    ((c.tasks t).coroutines main).stage.isVacant = true ∨
      ∃ w, e = .run w .final ∧ (c.workers w).pc = .holding t ∧
        d.sessions (.handle t) = (c.win (.handle t) .waker).sessions (.handle t) := by
  have hquiet : ∀ {u task}, (c.tasks u).Quiet task → d.tasks = Function.update c.tasks u task →
      ((c.tasks t).coroutines main).stage.isVacant = true := by
    intro u task hq hd
    rw [hd] at hv
    by_cases htu : t = u
    · rw [htu, Function.update_self, hq.stages] at hv
      rwa [htu]
    · rwa [Function.update_of_ne htu] at hv
  have hm := move_of_step hs
  cases hm with
  | stop | clone | give | drop | resume | pop | reenter | claim | yield | block | cease | exchanged
  | forget | retire | sweep | enqueue | exit => exact Or.inl hv
  | fault | wake =>
    rw [(win_talks _ _).tasks] at hv
    exact Or.inl hv
  | spawn =>
    by_cases ht : t = c.created
    · simp [Config.setTask, ht, Task.new, main, Coroutine.new, Stage.isVacant] at hv
    · exact Or.inl (by simpa [Config.setTask, Function.update_of_ne ht] using hv)
  | push => exact Or.inl (hquiet (quiet_of_step (e := .wake _) rfl rfl) rfl)
  | enter _ _ ht | abort _ ht => exact Or.inl (hquiet (quiet_of_step rfl ht) rfl)
  | grab => exact Or.inl (hquiet (quiet_of_step (e := .grab) rfl rfl) rfl)
  | @run w u e' m task hpc hc ht =>
    by_cases htu : t = u
    · subst htu
      have hvacant : (task.coroutines main).stage.isVacant = true := by
        simpa [Config.setPc, Config.setWorker, Config.setTask] using hv
      rcases main_goes ht hvacant with hv | ⟨rfl, hparked⟩
      · exact Or.inl hv
      · refine Or.inr ⟨w, rfl, hpc, ?_⟩
        simp only [Config.consult, hparked, if_true, Option.some_inj] at hc
        rw [hc]
        rfl
    · have htasks := (consult_talks hc).tasks
      exact Or.inl (by simpa [Config.setPc, Config.setWorker, Config.setTask,
        Function.update_of_ne htu, htasks] using hv)

/-- Main of each task and the session of its handle. -/
structure Delivers (c : Config n) : Prop where
  held : ∀ t, (c.sessions (.handle t)).holders = []
  unborn : ∀ t, c.created ≤ t → ((c.tasks t).coroutines main).stage.isVacant = false
  ended : ∀ t, (c.sessions (.handle t)).winner = some .waker → c.over t
  sent : ∀ t, ((c.tasks t).coroutines main).stage.isVacant = true →
    (c.sessions (.handle t)).Settled
  fault : ∀ t, (c.sessions (.handle t)).winner ≠ some .fault

theorem delivers_initial : Delivers (initial n) where
  held _ := rfl
  unborn _ _ := rfl
  ended t h := by cases h
  sent t h := by cases h
  fault t h := by cases h

/-- A task that is over stays so. -/
theorem Delivers.stays_over (h : Delivers c) {e : Event n} (hs : c.step e = some d) {t : ℕ}
    (ho : c.over t) : d.over t := by
  rcases task_moves hs t with hq | ht | ⟨w, e', rfl, _, ht⟩
  · exact ho.quiet hq
  · have hv := ho main
    rw [h.unborn t (Nat.le_of_eq ht.symm)] at hv
    cases hv
  · exact over_step ho ht

theorem created_mono {e : Event n} (hs : c.step e = some d) : c.created ≤ d.created := by
  cases move_of_step hs with
  | spawn => exact Nat.le_succ _
  | fault | wake => rw [(win_talks _ _).created]; exact Nat.le_refl _
  | run _ hc _ => exact Nat.le_of_eq (consult_talks hc).created.symm
  | stop | clone | give | drop | push | resume | pop | enter | abort | reenter | claim | yield
  | block | cease | exchanged | forget | retire | sweep | grab | enqueue | exit =>
    exact Nat.le_refl _

theorem Delivers.step (h : Delivers c) (hr : Reachable (system n) c) {e : Event n}
    (hs : c.step e = some d) : Delivers d := by
  have hlasts := fun t => session_lasts hs (h.held t)
  refine ⟨fun t => ?_, fun t ht => ?_, fun t hw => ?_, fun t hv => ?_, fun t hw => ?_⟩
  · rcases hlasts t with hl | ⟨w, u, _, hu, _, hd⟩
    · rw [hl.holders, h.held t]
    · cases hu
      rw [hd, (win_settles _ _).2.1, h.held t]
  · have hc := Nat.le_trans (created_mono hs) ht
    by_contra hn
    rcases main_move hs (by simpa using hn) with hv | ⟨w, _, hpc, _⟩
    · rw [h.unborn t hc] at hv
      cases hv
    · exact absurd ((reachable_resident hr).holding_created hpc) (Nat.not_lt.mpr hc)
  · rcases hlasts t with hl | ⟨w, u, _, hu, hfinal, _⟩
    · rcases hl.winner with he | ⟨reason, he⟩
      · exact h.stays_over hs (h.ended t (he ▸ hw))
      · rw [he] at hw
        cases hw
    · cases hu
      exact final_over (reachable_conserved (reachable_task hr t)) hfinal
  · rcases main_move hs hv with hv | ⟨w, _, _, hd⟩
    · rcases hlasts t with hl | ⟨_, _, _, hu, _, hd⟩
      · exact (hl.settled (h.sent t hv)).1
      · cases hu
        rw [hd]
        exact (win_settles _ _).1
    · rw [hd]
      exact (win_settles _ _).1
  · rcases hlasts t with hl | ⟨_, _, _, hu, _, hd⟩
    · rcases hl.winner with he | ⟨reason, he⟩
      · exact h.fault t (he ▸ hw)
      · rw [he] at hw
        cases hw
    · cases hu
      rw [hd] at hw
      rcases (win_settles (c := c) (.handle t) .waker).2.2 with he | ⟨_, he⟩
      · exact h.fault t (he ▸ hw)
      · rw [he] at hw
        cases hw

theorem reachable_delivers (h : Reachable (system n) c) : Delivers c :=
  h.invariant_over (B := Reachable (system n)) (fun _ hr => hr) delivers_initial
    fun _ _ _ hr hd hs => hd.step hr hs

/-- Who joins a task gets main's result only when all coroutines of the task have ended, and else
his own interrupt; the session never goes without a waker. A task that is over, and so each one
that is not registered any more, has its session settled: nobody waits for it in vain. -/
theorem joins_delivered (h : Reachable (system n) c) (t : ℕ) :
    ((c.sessions (.handle t)).winner = some .waker → c.over t) ∧
    (t < c.created → t ∉ c.registry → c.over t) ∧
    (c.over t → ((c.sessions (.handle t)).state = .value ∨
        (c.sessions (.handle t)).state = .joined) ∧
      ((c.sessions (.handle t)).winner = some .waker ∨
        ∃ reason, (c.sessions (.handle t)).winner = some (.interrupt reason))) ∧
    (c.sessions (.handle t)).winner ≠ some .fault := by
  have hd := reachable_delivers h
  refine ⟨hd.ended t, (reachable_alive h).released t, fun ho => ?_, hd.fault t⟩
  have hsent := hd.sent t (ho main)
  refine ⟨hsent, ?_⟩
  obtain ⟨winner, hw⟩ := Option.isSome_iff_exists.mp
    (((reachable_waits h).sound (.handle t)).settled hsent)
  cases winner with
  | waker => exact Or.inl hw
  | fault => exact absurd hw (hd.fault t)
  | interrupt reason => exact Or.inr ⟨reason, hw⟩

/-- Main joins a second task of two, which ends beside a coroutine of its own. -/
def joinedRun : Execution (system 2) where
  events := [.spawn, .spawn, .pop 0, .enter 0, .run 0 .next, .pop 1, .enter 1, .run 1 .next,
    .run 0 (.op (.wait (.handle 1) true)), .run 1 (.op (.spawn 1)), .run 1 (.op (.finish true)),
    .run 1 .next, .run 1 (.interrupt []), .run 1 .endInterrupt, .run 1 .abortNext,
    .run 1 (.op (.finish true)), .run 1 .abortNext, .run 1 (.interrupt []), .run 1 .endInterrupt,
    .run 1 .final, .run 1 .tail, .leave 1]
  fires := by decide +kernel

theorem joined_delivered : (joinedRun.final.sessions (.handle 1)).winner = some .waker ∧
    1 ∉ joinedRun.final.registry ∧ joinedRun.final.over 1 :=
  have hw : (joinedRun.final.sessions (.handle 1)).winner = some .waker := by decide +kernel
  ⟨hw, by decide +kernel, (joins_delivered joinedRun.final_reachable 1).1 hw⟩

end Scheduler
