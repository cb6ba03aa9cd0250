import Stuck.TaskMoves

/-! Coroutine conservation and the completion of a task. A coroutine that is spawned, unfinished and
not parked is at every moment held once: by one of the four collections or by the thread that runs
it. Every operation moves coroutines between these, so nothing is leaked or run after its end. -/
namespace Tasks

open TransitionSystem SharedTypes

variable {S : Type*} {t u : Task S}

/-- Spawned, unfinished and, for main, not yet parked. -/
def Stage.isActive : Stage S → Bool
  | .vacant | .parked => false
  | _ => true

/-- The coroutine on the stack of the thread; after the panic of main it is still there. -/
def Control.current : Control → Option ℕ
  | .running _ co => some co
  | .panicked .noRunningTask => some main
  | _ => none

/-- The four collections. -/
def Task.places (t : Task S) : List ℕ :=
  t.runningCoroutines ++ t.yieldingCoroutines ++ t.suspendingCoroutines ++
    t.blockingCoroutines.map Prod.fst

/-- How often a coroutine is held. -/
def Task.held (t : Task S) (co : ℕ) : ℕ :=
  t.places.count co + if t.control.current = some co then 1 else 0

theorem Task.count_places (t : Task S) (co : ℕ) :
    t.places.count co = t.runningCoroutines.count co + t.yieldingCoroutines.count co +
      t.suspendingCoroutines.count co + (t.blockingCoroutines.map Prod.fst).count co := by
  simp only [Task.places, List.count_append]

theorem Task.held_off (h : t.control.current = none) (co : ℕ) :
    t.held co = t.places.count co := by
  simp [Task.held, h]

theorem Task.held_on (co : ℕ) (h : t.control.current = some co) (b : ℕ) :
    t.held b = t.places.count b + if co = b then 1 else 0 := by
  simp [Task.held, h]

@[simp] theorem Frame.current_head (frame : Frame) : frame.head.current = none := by
  cases frame <;> rfl

theorem count_erase_add {l : List ℕ} {a : ℕ} (h : a ∈ l) (b : ℕ) :
    (l.erase a).count b + (if a = b then 1 else 0) = l.count b := by
  have hp := (List.perm_cons_erase h).count_eq b
  rw [List.count_cons] at hp
  simp only [beq_iff_eq] at hp
  omega

theorem count_keys_eraseP {l : List (ℕ × Yielding S)} {a : ℕ} (h : a ∈ l.map Prod.fst) (b : ℕ) :
    ((l.eraseP (·.1 = a)).map Prod.fst).count b + (if a = b then 1 else 0) =
      (l.map Prod.fst).count b := by
  induction l with
  | nil => simp at h
  | cons e l ih =>
    by_cases he : e.1 = a
    · simp [he, List.count_cons]
    · have hm : a ∈ l.map Prod.fst := by
        simpa [Ne.symm he] using h
      have := ih hm
      simp only [List.eraseP_cons, he, decide_false, List.map_cons, List.count_cons, cond_false]
      omega

section Moves

@[simp] theorem Task.held_setCoroutine (co : ℕ) (coroutine : Coroutine S) (b : ℕ) :
    (t.setCoroutine co coroutine).held b = t.held b := rfl

/-- What `Task::unblock` may change. -/
theorem Task.unblocks_eq (l : List ℕ) (t : Task S) :
    ∃ running blocking, l.foldl Task.unblockOne t = { t with
      runningCoroutines := t.runningCoroutines ++ running
      blockingCoroutines := blocking } := by
  induction l generalizing t with
  | nil => exact ⟨[], t.blockingCoroutines, by simp⟩
  | cons co l ih =>
    obtain ⟨running, blocking, h⟩ := ih (t.unblockOne co)
    rw [List.foldl_cons, h]
    unfold Task.unblockOne
    split
    · exact ⟨co :: running, blocking, by simp⟩
    · exact ⟨running, blocking, rfl⟩

theorem Task.unblock_eq (t : Task S) (block : Bool) :
    ∃ added blocking unblocking running, (t.unblock block).1 = { t with
      runningCoroutines := t.runningCoroutines ++ added
      blockingCoroutines := blocking
      unblockingCoroutines := unblocking
      running := running } := by
  unfold Task.unblock
  split
  · exact ⟨[], t.blockingCoroutines, t.unblockingCoroutines, t.running, by simp⟩
  · split
    · exact ⟨[], t.blockingCoroutines, t.unblockingCoroutines, false, by simp⟩
    · obtain ⟨added, blocking, h⟩ :=
        unblocks_eq t.unblockingCoroutines { t with unblockingCoroutines := [] }
      exact ⟨added, blocking, [], t.running, h⟩

theorem Task.control_unblock (t : Task S) (block : Bool) :
    (t.unblock block).1.control = t.control := by
  obtain ⟨_, _, _, _, h⟩ := t.unblock_eq block
  rw [h]

theorem Task.held_unblockOne (t : Task S) (co b : ℕ) : (t.unblockOne co).held b = t.held b := by
  unfold Task.unblockOne
  split
  next h =>
    have := count_keys_eraseP h b
    simp only [Task.held, Task.count_places, List.count_append, List.count_singleton, beq_iff_eq]
    omega
  next => rfl

theorem Task.held_unblocks (l : List ℕ) (t : Task S) (b : ℕ) :
    (l.foldl Task.unblockOne t).held b = t.held b := by
  induction l generalizing t with
  | nil => rfl
  | cons co l ih => rw [List.foldl_cons, ih, held_unblockOne]

theorem Task.held_unblock (t : Task S) (block : Bool) (b : ℕ) :
    (t.unblock block).1.held b = t.held b := by
  unfold Task.unblock
  split
  · rfl
  · split
    · rfl
    · exact held_unblocks _ _ b

/-- A change of the control between two coroutine runs. -/
theorem Task.held_setControl {control : Control} (hc : control.current = none)
    (h : t.control.current = none) (b : ℕ) : (t.setControl control).held b = t.held b := by
  rw [held_off h, held_off (t := t.setControl control) hc]
  rfl

theorem Task.held_interrupt {reason : Reason} {order : List ℕ} (hc : t.control.current = none)
    (h : order.Perm t.suspendingCoroutines) (b : ℕ) :
    (t.interrupt reason order).held b = t.held b := by
  have := h.count_eq b
  rw [held_off hc, held_off (by rfl)]
  simp only [Task.count_places, Task.interrupt, List.count_append, List.count_nil]
  omega

theorem Task.held_visit {co : ℕ} (h : co ∈ t.blockingCoroutines.map Prod.fst)
    (yielding : Yielding S) (won : Bool) (b : ℕ) :
    (t.visit co yielding won).held b = t.held b := by
  unfold Task.visit
  split
  · have := count_keys_eraseP h b
    rw [held_setCoroutine]
    simp only [Task.held, Task.count_places, List.count_append, List.count_singleton, beq_iff_eq]
    omega
  · rfl

theorem Task.held_begin (h : t.control.current = none) (b : ℕ) : t.begin.held b = t.held b := by
  rw [Task.begin, held_unblock, held_off h, held_off (by rfl)]
  simp only [Task.count_places, List.count_append, List.count_nil]
  omega

/-- The first of `running_coroutines` is run. -/
theorem Task.held_pop (h : t.control.current = none) {frame : Frame} {co : ℕ} {rest : List ℕ}
    (hr : t.runningCoroutines = co :: rest) (b : ℕ) :
    { t with runningCoroutines := rest, control := .running frame co }.held b = t.held b := by
  rw [held_off h, held_on co (by rfl)]
  simp only [Task.count_places, hr, List.count_cons, beq_iff_eq]
  omega

theorem Task.held_next (h : t.control.current = none) (b : ℕ) : t.next.held b = t.held b := by
  unfold Task.next
  split
  · split
    next co rest hr => exact held_pop h hr b
    next => exact held_setControl rfl h b
  · split
    · exact held_setControl rfl h b
    · exact held_setControl rfl h b

theorem Task.held_abortNext (h : t.control.current = none) (reason : Reason) (b : ℕ) :
    (t.abortNext reason).held b = t.held b := by
  unfold Task.abortNext
  split
  next co rest hr => exact held_pop h hr b
  next => exact held_setControl rfl h b

theorem Task.held_tail (h : t.control.current = none) (b : ℕ) : t.tail.1.held b = t.held b := by
  have hy : ({ t with yielding := false } : Task S).held b = t.held b := rfl
  unfold Task.tail
  dsimp only
  split
  · exact (held_setControl rfl h b).trans hy
  · split
    · split
      · exact (held_setControl rfl h b).trans hy
      · exact (held_setControl rfl h b).trans hy
    · rw [held_setControl rfl (by rw [control_unblock]; exact h), held_unblock, hy]

theorem Task.held_endInterrupt (h : t.control.current = none) (reason : Reason) (b : ℕ) :
    (t.endInterrupt reason).held b = t.held b := by
  have hc : (t.unblock false).1.control.current = none := by rw [control_unblock, h]
  unfold Task.endInterrupt
  dsimp only
  split
  · rw [held_setControl rfl hc, held_unblock]
  · split
    · rw [held_setControl rfl hc, held_unblock]
    · rw [held_setControl rfl hc, held_unblock]

/-- The coroutine that runs suspends itself. -/
theorem Task.held_leave {co : ℕ} (h : t.control.current = some co)
    (hu : u.control.current = none)
    (hp : ∀ b, u.places.count b = t.places.count b + if co = b then 1 else 0) (b : ℕ) :
    u.held b = t.held b := by
  rw [held_on co h, held_off hu, hp]

end Moves

/-- Main has not set the flag without yielding. -/
def Task.Yields (t : Task S) : Prop := t.yielding = true → t.yieldingCoroutines ≠ []

/-- What holds at each place of `Task::sched` and `Task::abort`. -/
def Task.Phase (t : Task S) : Prop :=
  match t.control with
  | .resting => t.status = .running ∧ t.yielding = false
  | .loop => t.status = .completing ∨ t.status = .running ∧ t.Yields
  | .running .sched _ => t.status = .running ∧ t.Yields
  | .running (.abort _) _ | .interrupt _ | .aborting _ => t.status ≠ .completed
  | .interrupting _ _ =>
    t.status ≠ .completed ∧ t.yieldingCoroutines = [] ∧ t.suspendingCoroutines = []
  | .final _ => t.status ≠ .completed ∧ t.places = []
  | .tail => t.status = .completed ∧ t.places = [] ∨
      t.status = .running ∧ t.Yields ∧ (t.yielding = false → t.runningCoroutines = [])
  | .ceased | .aborted => t.status = .completed ∧ t.places = []
  | .panicked panic => panic = .noRunningTask

structure Conserved (t : Task S) : Prop where
  held : ∀ co, t.held co = (t.coroutines co).stage.isActive.toNat
  parked : ∀ co, (t.coroutines co).stage.isParked = true → co = main
  completing : t.status = .completing ↔ (t.coroutines main).stage.isParked = true
  completed : t.status = .completed ↔ (t.coroutines main).stage.isVacant = true
  phase : t.Phase

theorem Stage.isActive_eq (stage : Stage S) :
    stage.isActive = (!stage.isVacant && !stage.isParked) := by
  cases stage <;> rfl

/-- The coroutine is unborn or done, parked, or neither, as before. -/
def Coroutine.Alike (x y : Coroutine S) : Prop :=
  x.stage.isVacant = y.stage.isVacant ∧ x.stage.isParked = y.stage.isParked

/-- A step that only moves coroutines. -/
theorem Conserved.moves (h : Conserved t) (hheld : ∀ b, u.held b = t.held b)
    (hstage : ∀ b, (u.coroutines b).Alike (t.coroutines b)) (hstatus : u.status = t.status)
    (hphase : u.Phase) : Conserved u where
  held co := by
    rw [hheld, h.held, Stage.isActive_eq, Stage.isActive_eq, (hstage co).1, (hstage co).2]
  parked co hp := h.parked co ((hstage co).2 ▸ hp)
  completing := by rw [hstatus, h.completing, (hstage main).2]
  completed := by rw [hstatus, h.completed, (hstage main).1]
  phase := hphase

theorem Coroutine.Alike.refl (x : Coroutine S) : x.Alike x := ⟨rfl, rfl⟩

theorem alike_update {co : ℕ} {x : Coroutine S} (h : x.Alike (t.coroutines co)) (b : ℕ) :
    (Function.update t.coroutines co x b).Alike (t.coroutines b) := by
  by_cases hb : b = co
  · rw [hb, Function.update_self]
    exact h
  · rw [Function.update_of_ne hb]
    exact .refl _

theorem conserved_new : Conserved (.new : Task S) where
  held co := by
    rw [Task.held_off rfl]
    by_cases h : co = main
    · simp [h, Task.new, Task.places, Coroutine.new, Stage.isActive]
    · simp [Ne.symm h, h, Task.new, Task.places, Coroutine.dropped, Stage.isActive]
  parked co hp := by
    by_contra h
    simp [Task.new, Function.update_of_ne h, Coroutine.dropped, Stage.isParked] at hp
  completing := by simp [Task.new, Coroutine.new, Stage.isParked]
  completed := by simp [Task.new, Coroutine.new, Stage.isVacant]
  phase := ⟨rfl, rfl⟩

/-- What holds while a coroutine runs. -/
def Frame.Ready (t : Task S) : Frame → Prop
  | .sched => t.status = .running ∧ t.Yields
  | .abort _ => t.status ≠ .completed

theorem Conserved.ready (h : Conserved t) {frame : Frame} {co : ℕ}
    (hc : t.control = .running frame co) : frame.Ready t := by
  have hphase := h.phase
  rw [Task.Phase, hc] at hphase
  cases frame <;> exact hphase

theorem phase_of_ready {frame : Frame} {co : ℕ} (hc : u.control = .running frame co)
    (h : frame.Ready u) : u.Phase := by
  rw [Task.Phase, hc]
  cases frame <;> exact h

theorem phase_of_head {frame : Frame} (hc : u.control = frame.head) (h : frame.Ready u) :
    u.Phase := by
  rw [Task.Phase, hc]
  cases frame with
  | sched => exact Or.inr h
  | abort reason => exact h

section Steps

theorem Conserved.wake (h : Conserved t) (co : ℕ) : Conserved (t.wake co).1 :=
  h.moves (fun _ => rfl) (fun _ => .refl _) rfl h.phase

theorem Conserved.grab (h : Conserved t) : Conserved t.grab.1 :=
  h.moves (fun _ => rfl) (fun _ => .refl _) rfl h.phase

theorem Conserved.begin (h : Conserved t) (hc : t.control = .resting) : Conserved t.begin := by
  have hphase := h.phase
  rw [Task.Phase, hc] at hphase
  obtain ⟨hs, hy⟩ := hphase
  refine h.moves (Task.held_begin (by rw [hc]; rfl)) ?_ ?_ ?_
  all_goals
    obtain ⟨added, blocking, unblocking, running, he⟩ := Task.unblock_eq { t with
      runningCoroutines := t.runningCoroutines ++ t.yieldingCoroutines
      yieldingCoroutines := []
      control := .loop } false
    rw [Task.begin, he]
  · exact fun _ => .refl _
  · exact Or.inr ⟨hs, fun hyes => absurd hyes (by simp [hy])⟩

theorem Conserved.stop (h : Conserved t) (hc : t.control = .resting) :
    Conserved (t.setControl (.interrupt .stopped)) := by
  have hphase := h.phase
  rw [Task.Phase, hc] at hphase
  refine h.moves (Task.held_setControl rfl (by rw [hc]; rfl)) (fun _ => .refl _) rfl ?_
  show t.status ≠ .completed
  simp [hphase.1]

theorem Conserved.next (h : Conserved t) (hc : t.control = .loop) : Conserved t.next := by
  have hnone : t.control.current = none := by rw [hc]; rfl
  have hphase := h.phase
  rw [Task.Phase, hc] at hphase
  have hheld := Task.held_next hnone
  unfold Task.next at hheld ⊢
  split
  next hrun =>
    rw [if_pos hrun] at hheld
    simp only [hrun.2, reduceCtorEq, true_and, false_or] at hphase
    split
    next co rest hr =>
      rw [hr] at hheld
      exact h.moves hheld (fun _ => .refl _) rfl ⟨hrun.2, hphase⟩
    next hr =>
      rw [hr] at hheld
      exact h.moves hheld (fun _ => .refl _) rfl (Or.inr ⟨hrun.2, hphase, fun _ => hr⟩)
  next hstop =>
    rw [if_neg hstop] at hheld
    split
    next hs =>
      rw [if_pos hs] at hheld
      exact h.moves hheld (fun _ => .refl _) rfl (by show t.status ≠ .completed; simp [hs])
    next hs =>
      rw [if_neg hs] at hheld
      obtain ⟨hr, hy⟩ := hphase.resolve_left hs
      refine h.moves hheld (fun _ => .refl _) rfl (Or.inr ⟨hr, hy, fun hno => ?_⟩)
      have hno : t.yielding = false := hno
      exact absurd ⟨by simp [hno], hr⟩ hstop

theorem Conserved.abortNext (h : Conserved t) {reason : Reason}
    (hc : t.control = .aborting reason) : Conserved (t.abortNext reason) := by
  have hphase := h.phase
  rw [Task.Phase, hc] at hphase
  refine h.moves (Task.held_abortNext (by rw [hc]; rfl) reason) ?_ ?_ ?_
  all_goals
    unfold Task.abortNext
    split
  all_goals first
    | rfl
    | exact fun _ => .refl _
    | exact hphase

theorem Conserved.interrupt (h : Conserved t) {reason : Reason} {order : List ℕ}
    (hc : t.control = .interrupt reason) (ho : order.Perm t.suspendingCoroutines) :
    Conserved (t.interrupt reason order) := by
  have hphase := h.phase
  rw [Task.Phase, hc] at hphase
  refine h.moves (Task.held_interrupt (by rw [hc]; rfl) ho) (fun b => ?_) rfl ⟨hphase, rfl, rfl⟩
  unfold Task.interrupt
  dsimp only
  split
  · exact ⟨rfl, rfl⟩
  · exact .refl _

theorem Task.visit_eq (t : Task S) (co : ℕ) (yielding : Yielding S) (won : Bool) :
    ∃ added blocking coroutine, t.visit co yielding won = { t with
      runningCoroutines := t.runningCoroutines ++ added
      blockingCoroutines := blocking
      coroutines := Function.update t.coroutines co coroutine } ∧
      coroutine.Alike (t.coroutines co) := by
  unfold Task.visit
  split
  · exact ⟨[co], _, _, rfl, rfl, rfl⟩
  · exact ⟨[], t.blockingCoroutines, t.coroutines co, by simp, .refl _⟩

theorem Conserved.visit (h : Conserved t) {reason : Reason} {rest : List ℕ} {co : ℕ}
    (hc : t.control = .interrupting reason rest) (hco : co ∈ t.blockingCoroutines.map Prod.fst)
    (yielding : Yielding S) (won : Bool) (rest' : List ℕ) :
    Conserved ((t.visit co yielding won).setControl (.interrupting reason rest')) := by
  have hphase := h.phase
  rw [Task.Phase, hc] at hphase
  have hheld := Task.held_visit hco yielding won
  obtain ⟨added, blocking, coroutine, he, halike⟩ := t.visit_eq co yielding won
  rw [he] at hheld ⊢
  have hnone : t.control.current = none := by rw [hc]; rfl
  refine h.moves (fun b => ?_) (alike_update halike) rfl hphase
  rw [Task.held_setControl rfl (by exact hnone), hheld]

theorem Conserved.endInterrupt (h : Conserved t) {reason : Reason} {rest : List ℕ}
    (hc : t.control = .interrupting reason rest) : Conserved (t.endInterrupt reason) := by
  have hphase := h.phase
  rw [Task.Phase, hc] at hphase
  obtain ⟨hs, hy, hsusp⟩ := hphase
  have hheld := Task.held_endInterrupt (t := t) (by rw [hc]; rfl) reason
  obtain ⟨added, blocking, unblocking, running, he⟩ := t.unblock_eq false
  unfold Task.endInterrupt at hheld ⊢
  rw [he] at hheld ⊢
  dsimp only at hheld ⊢
  split
  next hr =>
    rw [if_pos hr] at hheld
    exact h.moves hheld (fun _ => .refl _) rfl hs
  next hr =>
    rw [if_neg hr] at hheld
    split
    next hb =>
      rw [if_pos hb] at hheld
      exact h.moves hheld (fun _ => .refl _) rfl hs
    next hb =>
      rw [if_neg hb] at hheld
      refine h.moves hheld (fun _ => .refl _) rfl ⟨hs, ?_⟩
      push Not at hr hb
      simp [Task.places, Task.setControl, hr, hb, hy, hsusp]

/-- With nothing left in the collections only main is unfinished, and it is parked. -/
theorem Conserved.main_parked (h : Conserved t) (hp : t.places = [])
    (hc : t.control.current = none) (hs : t.status ≠ .completed) :
    (t.coroutines main).stage.isParked = true := by
  have hheld := h.held main
  rw [Task.held_off hc, hp, List.count_nil] at hheld
  have hv := mt h.completed.mpr hs
  rw [Stage.isActive_eq] at hheld
  by_contra hn
  rw [Bool.not_eq_true] at hn hv
  simp [hn, hv] at hheld

theorem Conserved.all_vacant (h : Conserved t) (hp : t.places = [])
    (hc : t.control.current = none) {co : ℕ} (hne : co ≠ main) :
    (t.coroutines co).stage.isVacant = true := by
  have hheld := h.held co
  rw [Task.held_off hc, hp, List.count_nil] at hheld
  have hpark := mt (h.parked co) hne
  rw [Stage.isActive_eq] at hheld
  by_contra hn
  rw [Bool.not_eq_true] at hn hpark
  simp [hn, hpark] at hheld

theorem Conserved.final (h : Conserved t) {reason : Reason} (hc : t.control = .final reason) :
    Conserved (t.final reason) := by
  have hphase := h.phase
  rw [Task.Phase, hc] at hphase
  obtain ⟨hs, hp⟩ := hphase
  have hnone : t.control.current = none := by rw [hc]; rfl
  have hpark := h.main_parked hp hnone hs
  unfold Task.final
  rw [if_pos hpark]
  constructor
  · intro co
    rw [Task.held_off (by cases reason <;> rfl)]
    by_cases hco : co = main
    · simp [hco, Task.complete, Task.setCoroutine, Task.setControl, Coroutine.dropped,
        Stage.isActive, Task.places] at hp ⊢
      simp [hp]
    · have hheld := h.held co
      rw [Task.held_off hnone] at hheld
      simpa [Task.complete, Task.setCoroutine, Task.setControl, Function.update_of_ne hco,
        Task.places] using hheld
  · intro co hco
    by_contra hne
    simp [Task.complete, Task.setCoroutine, Task.setControl, Function.update_of_ne hne] at hco
    exact hne (h.parked co hco)
  · simp [Task.complete, Task.setCoroutine, Task.setControl, Coroutine.dropped, Stage.isParked]
  · simp [Task.complete, Task.setCoroutine, Task.setControl, Coroutine.dropped, Stage.isVacant]
  · cases reason
    · exact Or.inl ⟨rfl, hp⟩
    · exact ⟨rfl, hp⟩
    · exact ⟨rfl, hp⟩

theorem Conserved.tail (h : Conserved t) (hc : t.control = .tail) : Conserved t.tail.1 := by
  have hnone : t.control.current = none := by rw [hc]; rfl
  have hphase := h.phase
  rw [Task.Phase, hc] at hphase
  have hheld := Task.held_tail hnone
  obtain ⟨added, blocking, unblocking, running, he⟩ :=
    ({ t with yielding := false } : Task S).unblock_eq true
  have hrunning : t.places ≠ [] → t.status = .running := fun hp =>
    (hphase.resolve_left fun hd => hp hd.2).1
  unfold Task.tail at hheld ⊢
  dsimp only at hheld ⊢
  split
  next hy =>
    rw [if_pos hy] at hheld
    refine h.moves hheld (fun _ => .refl _) rfl ⟨hrunning ?_, rfl⟩
    simp [Task.places, hy]
  next hy =>
    rw [if_neg hy] at hheld
    split
    next hb =>
      rw [if_pos hb] at hheld
      split
      next hsusp =>
        rw [if_pos hsusp] at hheld
        refine h.moves hheld (fun _ => .refl _) rfl ?_
        show t.status ≠ .completed
        rw [hrunning (by simp [Task.places, hsusp])]
        simp
      next hsusp =>
        rw [if_neg hsusp] at hheld
        push Not at hy hsusp
        refine h.moves hheld (fun _ => .refl _) rfl ?_
        show t.status = .completed ∧ t.places = []
        by_contra hn
        have hrun := hphase.resolve_left hn
        -- The flag is down, so the loop ended for want of coroutines; but main is one.
        have hno : t.yielding = false := by
          by_contra hyes
          exact hrun.2.1 (by simpa using hyes) hy
        have hp : t.places = [] := by simp [Task.places, hrun.2.2 hno, hy, hb, hsusp]
        have hpark := h.completing.mpr (h.main_parked hp hnone (by simp [hrun.1]))
        rw [hrun.1] at hpark
        cases hpark
    next hb =>
      rw [if_neg hb, he] at hheld
      rw [he]
      refine h.moves hheld (fun _ => .refl _) rfl ⟨hrunning ?_, rfl⟩
      intro hp
      simp [Task.places] at hp
      exact hb hp.2.2.2

section Ops

variable {frame : Frame} {co : ℕ}

theorem Conserved.active (h : Conserved t) (hc : t.control = .running frame co) :
    (t.coroutines co).stage.isActive = true := by
  have hheld := h.held co
  rw [Task.held_on co (by rw [hc]; rfl)] at hheld
  by_contra hn
  rw [Bool.not_eq_true] at hn
  simp [hn] at hheld

/-- The coroutine that runs goes on with its own code, or with that of a cancellation. -/
theorem Conserved.goesOn (h : Conserved t) (hc : t.control = .running frame co)
    (coroutine : Coroutine S) (ha : coroutine.stage.isActive = true) :
    Conserved (t.setCoroutine co coroutine) := by
  have hold := h.active hc
  rw [Stage.isActive_eq] at ha hold
  have halike : coroutine.Alike (t.coroutines co) := by
    simp only [Bool.and_eq_true, Bool.not_eq_true'] at ha hold
    exact ⟨ha.1.trans hold.1.symm, ha.2.trans hold.2.symm⟩
  exact h.moves (fun _ => rfl) (alike_update halike) rfl
    (phase_of_ready (u := t.setCoroutine co coroutine) hc (by
      have := h.ready hc
      cases frame <;> exact this))

theorem Conserved.yieldCoroutine (h : Conserved t) (hc : t.control = .running frame co) :
    Conserved (t.yieldCoroutine frame co) := by
  unfold Task.yieldCoroutine
  split
  · exact h
  next hs =>
    push Not at hs
    refine h.moves (Task.held_leave (by rw [hc]; rfl) (by simp) fun b => ?_) (fun _ => .refl _) rfl
      (phase_of_head rfl ?_)
    · simp only [Task.count_places, List.count_append, List.count_singleton, beq_iff_eq]
      omega
    · cases frame with
      | sched => exact ⟨hs, fun _ => by simp⟩
      | abort reason => exact h.ready hc

theorem Conserved.yieldTask (h : Conserved t) (hc : t.control = .running frame co) :
    Conserved (t.yieldTask frame co) := by
  by_cases hs : t.status = .running
  · unfold Task.yieldTask Task.yieldCoroutine
    rw [if_neg (by simpa using hs)]
    refine h.moves (Task.held_leave (by rw [hc]; rfl) (by simp) fun b => ?_) (fun _ => .refl _) rfl
      (phase_of_head rfl ?_)
    · simp only [Task.count_places, List.count_append, List.count_singleton, beq_iff_eq]
      omega
    · cases frame with
      | sched => exact ⟨hs, fun _ => by simp⟩
      | abort reason => exact h.ready hc
  · unfold Task.yieldTask Task.yieldCoroutine
    rw [if_pos (by simpa using hs)]
    refine h.moves (fun _ => rfl) (fun _ => .refl _) rfl
      (phase_of_ready (u := { t with yielding := true }) hc ?_)
    have := h.ready hc
    cases frame with
    | sched => exact absurd this.1 hs
    | abort reason => exact this

theorem Conserved.suspend (h : Conserved t) (hc : t.control = .running frame co) :
    Conserved (t.suspend frame co) := by
  refine h.moves (Task.held_leave (by rw [hc]; rfl) (by simp [Task.suspend]) fun b => ?_)
    (fun _ => .refl _) rfl (phase_of_head rfl ?_)
  · simp only [Task.count_places, Task.suspend, List.count_append, List.count_singleton, beq_iff_eq]
    omega
  · have := h.ready hc
    cases frame <;> exact this

theorem Conserved.block (h : Conserved t) (hc : t.control = .running frame co) (wait : Wait S) :
    Conserved (t.block frame co wait) := by
  have hold := h.active hc
  rw [Stage.isActive_eq] at hold
  simp only [Bool.and_eq_true, Bool.not_eq_true'] at hold
  refine h.moves (Task.held_leave (by rw [hc]; rfl) (by simp [Task.block, Task.setCoroutine])
    fun b => ?_) (alike_update ⟨hold.1.symm, hold.2.symm⟩) rfl (phase_of_head rfl ?_)
  · simp only [Task.count_places, Task.block, Task.setCoroutine, List.map_append, List.map_cons,
      List.map_nil, List.count_append, List.count_singleton, beq_iff_eq]
    omega
  · have := h.ready hc
    cases frame <;> exact this

theorem Conserved.resume (h : Conserved t) (hc : t.control = .running frame co) (other : ℕ) :
    Conserved (t.resume other) := by
  unfold Task.resume
  split
  next hm =>
    refine h.moves (fun b => ?_) (fun _ => .refl _) rfl (phase_of_ready hc ?_)
    · have := count_erase_add hm b
      simp only [Task.held, Task.count_places, List.count_append, List.count_singleton, beq_iff_eq]
      omega
    · have := h.ready hc
      cases frame <;> exact this
  next => exact h

theorem Conserved.spawn (h : Conserved t) (hc : t.control = .running frame co) {new : ℕ}
    (hv : (t.coroutines new).stage.isVacant = true) : Conserved (t.spawn new) := by
  unfold Task.spawn
  split
  · exact h
  next hs =>
    push Not at hs
    have hne : new ≠ main := by
      rintro rfl
      rw [h.completed.mpr hv] at hs
      cases hs
    have hmain : Function.update t.coroutines new .new main = t.coroutines main :=
      Function.update_of_ne hne.symm _ _
    constructor
    · intro b
      have hb := h.held b
      rw [Task.held_on co (by rw [hc]; rfl)] at hb
      rw [Task.held_on co (by rw [Task.setCoroutine, hc]; rfl)]
      simp only [Task.count_places, Task.setCoroutine, List.count_append, List.count_singleton,
        beq_iff_eq] at hb ⊢
      by_cases hbn : b = new
      · subst hbn
        have hn : (t.coroutines b).stage.isActive = false := by simp [Stage.isActive_eq, hv]
        rw [hn] at hb
        simp only [Function.update_self, Coroutine.new, Stage.isActive, Bool.toNat_true, if_true]
        simp only [Bool.toNat_false] at hb
        omega
      · rw [Function.update_of_ne hbn, if_neg (Ne.symm hbn)]
        omega
    · intro b hb
      by_cases hbn : b = new
      · simp [Task.setCoroutine, hbn, Coroutine.new, Stage.isParked] at hb
      · simp only [Task.setCoroutine, Function.update_of_ne hbn] at hb
        exact h.parked b hb
    · simpa [Task.setCoroutine, hmain] using h.completing
    · simpa [Task.setCoroutine, hmain] using h.completed
    · refine phase_of_ready hc ?_
      have := h.ready hc
      cases frame <;> exact this

/-- The coroutine that runs ends, or parks, and leaves the thread. -/
theorem Conserved.ends (h : Conserved t) (hc : t.control = .running frame co)
    (coroutine : Coroutine S) (ha : coroutine.stage.isActive = false) (status : Status) (b : ℕ) :
    ({ t with status := status }.setCoroutine co coroutine |>.setControl frame.head).held b =
      (Function.update t.coroutines co coroutine b).stage.isActive.toNat := by
  have hb := h.held b
  rw [Task.held_on co (by rw [hc]; rfl)] at hb
  rw [Task.held_off (by simp [Task.setControl])]
  have hp : ({ t with status := status }.setCoroutine co coroutine
      |>.setControl frame.head).places = t.places := rfl
  rw [hp]
  by_cases hbc : b = co
  · subst hbc
    rw [h.active hc, if_pos rfl] at hb
    rw [Function.update_self, ha]
    simp only [Bool.toNat_true, Bool.toNat_false] at hb ⊢
    omega
  · rw [if_neg (Ne.symm hbc)] at hb
    rw [Function.update_of_ne hbc]
    exact hb

theorem Conserved.finish (h : Conserved t) (hc : t.control = .running frame co) (entered : Bool) :
    Conserved (t.finish frame co entered) := by
  have hready := h.ready hc
  have hactive := h.active hc
  unfold Task.finish
  split
  next hmain =>
    subst hmain
    split
    · refine ⟨h.ends hc { t.coroutines main with stage := .parked } rfl .completing, ?_, ?_, ?_, ?_⟩
      · intro b hb
        by_contra hbn
        simp only [Task.setCoroutine, Function.update_of_ne hbn] at hb
        exact hbn (h.parked b hb)
      · simp [Task.setCoroutine, Stage.isParked]
      · simp [Task.setCoroutine, Stage.isVacant]
      · cases frame with
        | sched => exact Or.inl rfl
        | abort reason => exact nofun
    · refine h.moves (fun b => ?_) (fun _ => .refl _) rfl rfl
      rw [Task.held_on main rfl, Task.held_on (t := t) main (by rw [hc]; rfl)]
      rfl
  next hmain =>
    have hu := h.ends hc .dropped rfl t.status
    have hkeep : Function.update t.coroutines co .dropped main = t.coroutines main :=
      Function.update_of_ne (Ne.symm hmain) _ _
    unfold Task.complete
    rw [if_neg hmain]
    refine ⟨hu, ?_, ?_, ?_, phase_of_head rfl ?_⟩
    · intro b hb
      by_cases hbc : b = co
      · simp [Task.setCoroutine, Task.setControl, hbc, Coroutine.dropped, Stage.isParked] at hb
      · simp only [Task.setCoroutine, Task.setControl, Function.update_of_ne hbc] at hb
        exact h.parked b hb
    · simpa [Task.setCoroutine, Task.setControl, hkeep] using h.completing
    · simpa [Task.setCoroutine, Task.setControl, hkeep] using h.completed
    · cases frame <;> exact hready

theorem Conserved.recheck (h : Conserved t) (hc : t.control = .running frame co) (session : S)
    (interruptible ready : Bool) :
    Conserved (t.recheck frame co session interruptible ready) := by
  unfold Task.recheck
  split
  · exact h.goesOn hc _ rfl
  · exact h.block hc _

theorem Conserved.op (h : Conserved t) (hc : t.control = .running frame co)
    {op : Op S} (hs : t.op frame co op = some u) :
    Conserved u := by
  cases op with
  | spawn new =>
    simp only [Task.op] at hs
    split at hs
    next hv => cases hs; exact h.spawn hc hv
    next => cases hs
  | yieldCoroutine => cases hs; exact h.yieldCoroutine hc
  | yieldTask => cases hs; exact h.yieldTask hc
  | suspend => cases hs; exact h.suspend hc
  | resume other => cases hs; exact h.resume hc other
  | wait session interruptible => cases hs; exact h.block hc _
  | thread session interruptible => cases hs; exact h.goesOn hc _ rfl
  | settle ready =>
    simp only [Task.op] at hs
    split at hs
    next session rest _ =>
      cases hs
      have hactive := h.active hc
      refine (h.goesOn hc { t.coroutines co with
        status := .aborting, cancelling := rest } hactive).recheck hc session false ready
    next => cases hs
  | finish entered =>
    simp only [Task.op] at hs
    split at hs
    next => cases hs; exact h.finish hc entered
    next => cases hs

end Ops

theorem Conserved.step (h : Conserved t) {e : Event S} (hs : t.step e = some u) :
    Conserved u := by
  cases step_moves hs with
  | wake => exact h.wake _
  | grab => exact h.grab
  | begin hc => exact h.begin hc
  | stop hc => exact h.stop hc
  | next hc => exact h.next hc
  | tail hc => exact h.tail hc
  | interrupt hc all => exact h.interrupt hc all
  | visit hc blocked => exact h.visit hc (List.mem_map.mpr ⟨_, blocked, rfl⟩) _ _ _
  | endInterrupt hc => exact h.endInterrupt hc
  | abortNext hc => exact h.abortNext hc
  | final hc => exact h.final hc
  | op hc _ acts => exact h.op hc acts
  | awake hc =>
    unfold Task.awake
    split
    · exact h.goesOn hc _ rfl
    · exact h.recheck hc _ _ _
  | unpark hc => exact h.goesOn hc _ rfl

end Steps

theorem reachable_conserved (h : Reachable (system S) t) : Conserved t :=
  h.invariant (I := Conserved) conserved_new fun _ _ _ hc hs => hc.step hs

/-- The coroutine is in exactly one of the four collections, and there once. -/
def Task.InOne (t : Task S) (co : ℕ) : Prop :=
  t.runningCoroutines.count co + t.yieldingCoroutines.count co +
    t.suspendingCoroutines.count co + (t.blockingCoroutines.map Prod.fst).count co = 1

theorem Conserved.inOne (h : Conserved t) (hc : t.control.current = none) {co : ℕ}
    (hv : (t.coroutines co).stage.isVacant = false)
    (hp : (t.coroutines co).stage.isParked = false) : t.InOne co := by
  have hheld := h.held co
  rw [Task.held_off hc, Task.count_places, Stage.isActive_eq, hv, hp] at hheld
  exact hheld

theorem Conserved.notMem_places (h : Conserved t) {co : ℕ}
    (ha : (t.coroutines co).stage.isActive = false) : co ∉ t.places := by
  have hheld := h.held co
  rw [ha, Task.held] at hheld
  rw [← List.count_eq_zero]
  simp only [Bool.toNat_false] at hheld
  omega

theorem Conserved.over (h : Conserved t) (hc : t.control.current = none) (hp : t.places = [])
    (hs : t.status = .completed) (co : ℕ) : (t.coroutines co).stage.isVacant = true := by
  by_cases hco : co = main
  · rw [hco]
    exact h.completed.mp hs
  · exact h.all_vacant hp hc hco

/-- Between two coroutine runs every unfinished coroutine is in one collection, or it is main and
parked, and a finished one is in none. `Cease` finds the task completed and every coroutine
finished, main sends its result after all the others, and no assertion of `Task::abort` fails. -/
theorem coroutines_conserved (h : Reachable (system S) t) :
    (t.control.current = none → ∀ co, (t.coroutines co).stage.isVacant = false →
      t.InOne co ∨ co = main ∧ t.status = .completing ∧ co ∉ t.places) ∧
    (∀ co, (t.coroutines co).stage.isVacant = true → co ∉ t.places) ∧
    (t.control = .ceased →
      t.status = .completed ∧ ∀ co, (t.coroutines co).stage.isVacant = true) ∧
    ((t.step .final).isSome → ∀ co, co ≠ main → (t.coroutines co).stage.isVacant = true) ∧
    t.control ≠ .panicked .assertion := by
  have hi := reachable_conserved h
  have hphase := hi.phase
  rw [Task.Phase] at hphase
  refine ⟨fun hc co hv => ?_, fun co hv => ?_, fun hc => ?_, fun hf co hco => ?_, fun hc => ?_⟩
  · cases hp : (t.coroutines co).stage.isParked with
    | false => exact Or.inl (hi.inOne hc hv hp)
    | true =>
      obtain rfl := hi.parked co hp
      exact Or.inr ⟨rfl, hi.completing.mpr hp, hi.notMem_places (by simp [Stage.isActive_eq, hp])⟩
  · exact hi.notMem_places (by simp [Stage.isActive_eq, hv])
  · rw [hc] at hphase
    exact ⟨hphase.1, hi.over (by rw [hc]; rfl) hphase.2 hphase.1⟩
  · obtain ⟨u, hu⟩ := Option.isSome_iff_exists.mp hf
    cases step_moves hu with
    | final hc =>
      rw [hc] at hphase
      exact hi.all_vacant hphase.2 (by rw [hc]; rfl) hco
  · rw [hc] at hphase
    cases hphase

/-- Main ends beside a coroutine that waits uninterruptibly, is cancelled and then woken. -/
def cancelledRun : Execution (system ℕ) where
  events := [.begin, .next, .op (.spawn 1), .op (.finish true), .next, .interrupt [],
    .endInterrupt, .abortNext, .op (.wait 7 false), .abortNext, .interrupt [], .visit 1 false,
    .endInterrupt, .abortNext, .awake false, .op (.settle false), .abortNext, .wake 1,
    .interrupt [], .visit 1 false, .endInterrupt, .abortNext, .awake true, .op (.finish true),
    .abortNext, .interrupt [], .endInterrupt, .final, .tail]
  fires := by decide +kernel

theorem cancelled_coroutines_conserved : cancelledRun.final.control = .ceased ∧
    ∀ co, (cancelledRun.final.coroutines co).stage.isVacant = true :=
  have hc : cancelledRun.final.control = .ceased := by decide +kernel
  ⟨hc, ((coroutines_conserved cancelledRun.final_reachable).2.2.1 hc).2⟩

end Tasks
