import Stuck.TaskResidency

/-! When a worker lets go of its task. The registry owns the task, and `Scheduler::run` still reads
`task.id()` after a `sched` that has published that the task is blocked. -/
namespace Scheduler

open TransitionSystem SharedTypes Tasks

variable {n : ℕ} {c d : Config n} {e : Event n}

/-- The task that a worker touches in the step. `run` reads its id on the way to the scheduler's
lock; the sweep has read it before `Task::abort`. -/
def Config.accesses (c : Config n) : Event n → Option ℕ
  | .enter w =>
    match (c.workers w).pc with
    | .popped t => some t
    | _ => none
  | .run w _ =>
    match (c.workers w).pc with
    | .holding t => some t
    | _ => none
  | .leave w =>
    match (c.workers w).pc with
    | .returned t _ => some t
    | _ => none
  | .grab _ t => some t
  | _ => none

/-- The worker has published that the task is blocked, and has not read its id. -/
def Pc.lingers (t : ℕ) (pc : Pc) : Prop := pc = .returned t .block

/-- The task that the step removes from the registry. -/
def Config.releases (c : Config n) : Event n → Option ℕ
  | .leave w =>
    match (c.workers w).pc with
    | .returned t .cease | .aborted t => some t
    | _ => none
  | _ => none

/-- A task is removed while a worker is yet to read its id. -/
def ReleasesEarly (c : Config n) (e : Event n) : Prop :=
  ∃ t ∈ (c.releases e).toList, ∃ w, (c.workers w).pc.lingers t

instance (t : ℕ) (pc : Pc) : Decidable (pc.lingers t) :=
  inferInstanceAs (Decidable (pc = .returned t .block))

instance (c : Config n) (e : Event n) : Decidable (ReleasesEarly c e) :=
  inferInstanceAs (Decidable (∃ t ∈ (c.releases e).toList, ∃ w, (c.workers w).pc.lingers t))

/-- What a worker is yet to read is registered. -/
def Owned (c : Config n) : Prop := ∀ w t, (c.workers w).pc.lingers t → t ∈ c.registry

theorem lingers_move (hs : c.step e = some d) {v : Fin n} {t : ℕ}
    (hv : (d.workers v).pc.lingers t) :
    (c.workers v).pc.lingers t ∨ (c.workers v).pc = .holding t := by
  have hupdate : ∀ {w worker}, d.workers = Function.update c.workers w worker →
      ¬ worker.pc.lingers t → (c.workers v).pc.lingers t := by
    intro w worker hd hpc
    rw [hd] at hv
    by_cases hvw : v = w
    · rw [hvw, Function.update_self] at hv
      exact absurd hv hpc
    · rwa [Function.update_of_ne hvw] at hv
  have hm := move_of_step hs
  cases hm with
  | stop | spawn | clone | give | drop | push | resume | claim => exact Or.inl hv
  | fault | wake =>
    rw [(win_talks _ _).workers] at hv
    exact Or.inl hv
  | pop | enter | abort | reenter | yield | block | cease | forget | retire | sweep | enqueue
  | exit => exact Or.inl (hupdate rfl nofun)
  | grab => exact Or.inl (hupdate rfl (by dsimp only; split <;> exact nofun))
  | @exchanged w mode ambient u flow hw _ =>
    refine Or.inl ?_
    by_cases hvw : v = w
    · subst hvw
      rw [hw]
      simpa [Config.setWorker] using hv
    · simpa [Config.setWorker, Function.update_of_ne hvw] using hv
  | @run w u e' m task hpc hc ht =>
    by_cases hvw : v = w
    · subst hvw
      have hafter : pcAfter u (c.tasks u) task e' = .returned t .block := by
        simpa [Config.setPc, Config.setWorker, Pc.lingers] using hv
      refine Or.inr ?_
      rw [hpc]
      unfold pcAfter at hafter
      split at hafter
      · split at hafter <;> cases hafter
        rfl
      · split at hafter <;> cases hafter
    · refine Or.inl ?_
      simpa [Config.setPc, Config.setWorker, Config.setTask, Function.update_of_ne hvw,
        (consult_talks hc).workers] using hv

theorem registry_kept (hs : c.step e = some d) {t : ℕ} (ht : t ∈ c.registry)
    (hn : c.releases e ≠ some t) : t ∈ d.registry := by
  have hm := move_of_step hs
  cases hm with
  | stop | clone | give | drop | push | resume | pop | enter | abort | reenter | claim | yield
  | block | exchanged | retire | sweep | grab | enqueue | exit => exact ht
  | fault | wake =>
    rw [(win_talks _ _).registry]
    exact ht
  | spawn => exact List.mem_append_left _ ht
  | run hpc hc _ =>
    have hregistry := (consult_talks hc).registry
    exact hregistry.symm ▸ ht
  | cease hw | forget hw =>
    refine (List.mem_erase_of_ne ?_).mpr ht
    rintro rfl
    exact hn (by simp only [Config.releases, hw])

theorem releases_holder {t : ℕ} (hr : c.releases e = some t) :
    ∃ w, (c.workers w).pc.holds t = true ∧ (c.workers w).pc ≠ .holding t := by
  unfold Config.releases at hr
  split at hr
  next w =>
    split at hr
    next hp => cases hr; exact ⟨w, by rw [hp]; simp [Pc.holds], by rw [hp]; simp⟩
    next hp => cases hr; exact ⟨w, by rw [hp]; simp [Pc.holds], by rw [hp]; simp⟩
    next => cases hr
  next => cases hr

theorem Owned.step (h : Owned c) (hres : Resident c) (hbad : ¬ ReleasesEarly c e)
    (hs : c.step e = some d) : Owned d := by
  intro v t hv
  rcases lingers_move hs hv with hl | hp
  · exact registry_kept hs (h v t hl) fun hr => hbad ⟨t, by simp [hr], v, hl⟩
  · have hhold : (c.workers v).pc.holds t = true := by rw [hp]; simp [Pc.holds]
    refine registry_kept hs (hres.registered hhold) fun hr => ?_
    obtain ⟨w, hw, hne⟩ := releases_holder hr
    obtain rfl := hres.one_holder hw hhold
    exact hne hp

/-- Along a run in which no task is removed between the `Block` of a worker and its `task.id()`, the
tasks that workers touch are registered. A worker touches nothing of a task that it has published
as blocked only where it does not go on at all. -/
theorem accesses_registered (ρ : Execution (system n))
    (hg : ∀ c e, ρ.Takes c e → ¬ ReleasesEarly c e) :
    (∀ c e, ρ.Takes c e → ∀ t, c.accesses e = some t → t ∈ c.registry) ∧
    ((∀ c w t, ρ.Takes c (.leave w) → (c.workers w).pc.lingers t →
        c.accesses (.leave w) ≠ some t) ↔
      ∀ c w t, ρ.Takes c (.leave w) → ¬ (c.workers w).pc.lingers t) := by
  refine ⟨fun c e he t ha => ?_, fun h c w t hw hl => ?_, fun h c w t hw hl => ?_⟩
  · have hres := reachable_resident (ρ.reachable (ρ.takes_visits he))
    have howned : Owned c := ρ.guarded (B := Resident) (fun _ => reachable_resident)
      (fun _ _ hl => by cases hl) (fun _ _ _ hr ho hn hs => ho.step hr hn hs) hg c
      (ρ.takes_visits he)
    obtain ⟨d, hs, _⟩ := ρ.takes_step he
    have hheld : ∀ w, (c.workers w).pc.holds t = true → t ∈ c.registry := fun w hw =>
      hres.registered hw
    cases e with
    | enter w =>
      simp only [Config.accesses] at ha
      split at ha
      next hp => cases ha; exact hheld w (by rw [hp]; simp [Pc.holds])
      next => cases ha
    | run w e' =>
      simp only [Config.accesses] at ha
      split at ha
      next hp => cases ha; exact hheld w (by rw [hp]; simp [Pc.holds])
      next => cases ha
    | leave w =>
      simp only [Config.accesses] at ha
      split at ha
      next flow hp =>
        cases ha
        cases flow with
        | block => exact howned w t hp
        | yield | cease => exact hheld w (by rw [hp]; simp [Pc.holds])
      next => cases ha
    | grab w u =>
      cases ha
      have hm : Move c (.grab w t) d := move_of_step hs
      cases hm with
      | grab _ hmem => exact hmem
    | stop | spawn | clone _ _ | give _ _ _ | drop _ _ | wake _ _ | push _ | resume _ | pop _
    | claim _ _ _ | retire _ | sweep _ | enqueue _ | exit _ => cases ha
  · refine h c w t hw hl ?_
    rw [Pc.lingers] at hl
    simp only [Config.accesses, hl]
  · exact absurd hl (h c w t hw)

/-- A task blocks and its worker goes on, then a thread wakes it and another worker takes it. -/
def blockedRun : Execution (system 2) where
  events := [.spawn, .pop 0, .enter 0, .run 0 .next, .run 0 (.op (.wait (.user 0) true)),
    .run 0 .next, .run 0 .tail, .leave 0, .wake (.user 0) .thread, .push ⟨.user 0, 0, 0⟩,
    .resume 0, .pop 1]
  fires := by decide +kernel

/-- The run goes on until the second worker enters the task. -/
def resumedRun : Execution (system 2) where
  events := blockedRun.events ++ [.enter 1]
  fires := by decide +kernel

theorem resumed_accesses_registered : resumedRun.Takes blockedRun.final (.enter 1) ∧
    blockedRun.final.accesses (.enter 1) = some 0 ∧ 0 ∈ blockedRun.final.registry := by
  have hg := resumedRun.takes_of_allSteps (P := fun c e => ¬ ReleasesEarly c e) (by decide +kernel)
  have ht : resumedRun.Takes blockedRun.final (.enter 1) :=
    ⟨blockedRun.events, List.prefix_refl _, (Option.some_get _).symm⟩
  have ha : blockedRun.final.accesses (.enter 1) = some 0 := by decide +kernel
  exact ⟨ht, ha, (accesses_registered resumedRun hg).1 _ _ ht 0 ha⟩

/-- Worker 0 has published that the task is blocked. A thread wakes it, and worker 1 runs it to its
end and removes it. -/
def releasedTaskRun : Execution (system 2) where
  events := [.spawn, .pop 0, .enter 0, .run 0 .next, .run 0 (.op (.wait (.user 0) true)),
    .run 0 .next, .run 0 .tail, .wake (.user 0) .thread, .push ⟨.user 0, 0, 0⟩, .resume 0,
    .pop 1, .enter 1, .run 1 .next, .run 1 (.awake true), .run 1 (.op (.finish true)),
    .run 1 .next, .run 1 (.interrupt []), .run 1 .endInterrupt, .run 1 .final, .run 1 .tail,
    .leave 1]
  fires := by decide +kernel

theorem worker_reads_released_task : ∃ c, Reachable (system 2) c ∧
    (c.step (.leave 0)).isSome = true ∧ c.accesses (.leave 0) = some 0 ∧ 0 ∉ c.registry :=
  ⟨releasedTaskRun.final, releasedTaskRun.final_reachable, by decide +kernel, by decide +kernel,
    by decide +kernel⟩

end Scheduler
