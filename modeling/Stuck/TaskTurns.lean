import Stuck.TaskCompletion

/-! What a step of a task does to the stacks of its coroutines and to `blocking_coroutines`: most
steps leave the stacks alone, and each of the others moves that of one coroutine. -/
namespace Tasks

open TransitionSystem SharedTypes

variable {S : Type*} {t u : Task S}

/-- The stacks stay, and nobody starts to block. -/
structure Task.Quiet (t u : Task S) : Prop where
  stages : ∀ co, (u.coroutines co).stage = (t.coroutines co).stage
  cancelling : ∀ co, (u.coroutines co).cancelling = (t.coroutines co).cancelling
  blocking : u.blockingCoroutines ⊆ t.blockingCoroutines

theorem Task.Quiet.of_eq (hc : u.coroutines = t.coroutines)
    (hb : u.blockingCoroutines ⊆ t.blockingCoroutines) : t.Quiet u :=
  ⟨fun _ => by rw [hc], fun _ => by rw [hc], hb⟩

theorem Task.Quiet.trans {v : Task S} (h : t.Quiet u) (hu : u.Quiet v) : t.Quiet v :=
  ⟨fun co => (hu.stages co).trans (h.stages co),
    fun co => (hu.cancelling co).trans (h.cancelling co), List.Subset.trans hu.blocking h.blocking⟩

theorem Task.Quiet.setControl (h : t.Quiet u) (control : Control) :
    t.Quiet (u.setControl control) := ⟨h.stages, h.cancelling, h.blocking⟩

theorem Task.Quiet.refl (t : Task S) : t.Quiet t := .of_eq rfl (List.Subset.refl _)

theorem Task.blocking_unblocks (l : List ℕ) (t : Task S) :
    (l.foldl Task.unblockOne t).blockingCoroutines ⊆ t.blockingCoroutines := by
  induction l generalizing t with
  | nil => exact List.Subset.refl _
  | cons co l ih =>
    refine List.Subset.trans (ih _) ?_
    unfold Task.unblockOne
    split
    · exact List.eraseP_subset
    · exact List.Subset.refl _

theorem Task.quiet_unblock (t : Task S) (block : Bool) : t.Quiet (t.unblock block).1 := by
  unfold Task.unblock
  split
  · exact .refl t
  · split
    · exact .of_eq rfl (List.Subset.refl _)
    · obtain ⟨_, _, he⟩ :=
        Task.unblocks_eq t.unblockingCoroutines { t with unblockingCoroutines := [] }
      exact .of_eq (by rw [he]) (Task.blocking_unblocks _ _)

def Op.isQuiet : Op S → Bool
  | .yieldCoroutine | .yieldTask | .suspend | .resume _ => true
  | _ => false

def Event.isQuiet : Event S → Bool
  | .final | .awake _ | .unpark => false
  | .op operation => operation.isQuiet
  | _ => true

/-- A step of a task by what it does to the coroutine on whose behalf it is taken. -/
inductive Turn (t : Task S) : Event S → Task S → Prop
  | quiet {e u} : e.isQuiet = true → t.Quiet u → Turn t e u
  | refused {new} : Turn t (.op (.spawn new)) t
  | spawned {new u} : (t.coroutines new).stage.isVacant = true →
      u.coroutines = Function.update t.coroutines new .new →
      u.blockingCoroutines = t.blockingCoroutines → Turn t (.op (.spawn new)) u
  | waited {frame co s i u} : t.control = .running frame co →
      (t.coroutines co).stage = .code →
      u.coroutines = Function.update t.coroutines co
        { t.coroutines co with stage := .waiting ⟨s, i, !i⟩ } →
      u.blockingCoroutines =
        t.blockingCoroutines ++ [(co, Wait.yielding ⟨s, i, !i⟩)] →
      Turn t (.op (.wait s i)) u
  | threaded {frame co s i u} : t.control = .running frame co →
      (t.coroutines co).stage = .code →
      u.coroutines = Function.update t.coroutines co
        { t.coroutines co with stage := .thread s } →
      u.blockingCoroutines = t.blockingCoroutines → Turn t (.op (.thread s i)) u
  | cancelled {frame co wait ready u} : t.control = .running frame co →
      (t.coroutines co).stage = .waiting wait → wait.cancellation = true →
      (t.coroutines co).status = .aborting →
      u.coroutines = Function.update t.coroutines co
        ⟨.cancelling, .code, wait.session :: (t.coroutines co).cancelling⟩ →
      u.blockingCoroutines = t.blockingCoroutines → Turn t (.awake ready) u
  | woken {frame co wait u} : t.control = .running frame co →
      (t.coroutines co).stage = .waiting wait →
      ¬ (wait.cancellation = true ∧ (t.coroutines co).status = .aborting) →
      u.coroutines = Function.update t.coroutines co
        { t.coroutines co with stage := .code } →
      u.blockingCoroutines = t.blockingCoroutines → Turn t (.awake true) u
  | slept {frame co wait u} : t.control = .running frame co →
      (t.coroutines co).stage = .waiting wait →
      ¬ (wait.cancellation = true ∧ (t.coroutines co).status = .aborting) →
      u.coroutines = Function.update t.coroutines co
        { t.coroutines co with stage := .waiting ⟨wait.session, wait.interruptible, false⟩ } →
      u.blockingCoroutines = t.blockingCoroutines ++
        [(co, Wait.yielding ⟨wait.session, wait.interruptible, false⟩)] →
      Turn t (.awake false) u
  | settled {frame co s rest u} : t.control = .running frame co →
      (t.coroutines co).stage = .code → (t.coroutines co).cancelling = s :: rest →
      u.coroutines = Function.update t.coroutines co ⟨.aborting, .code, rest⟩ →
      u.blockingCoroutines = t.blockingCoroutines → Turn t (.op (.settle true)) u
  | unsettled {frame co s rest u} : t.control = .running frame co →
      (t.coroutines co).stage = .code → (t.coroutines co).cancelling = s :: rest →
      u.coroutines = Function.update t.coroutines co
        ⟨.aborting, .waiting ⟨s, false, false⟩, rest⟩ →
      u.blockingCoroutines =
        t.blockingCoroutines ++ [(co, Wait.yielding ⟨s, false, false⟩)] →
      Turn t (.op (.settle false)) u
  | unparked {frame co s u} : t.control = .running frame co →
      (t.coroutines co).stage = .thread s →
      u.coroutines = Function.update t.coroutines co { t.coroutines co with stage := .code } →
      u.blockingCoroutines = t.blockingCoroutines → Turn t .unpark u
  | finished {frame co entered u} : t.control = .running frame co →
      (t.coroutines co).stage = .code → (t.coroutines co).cancelling = [] → co ≠ main →
      u.coroutines = Function.update t.coroutines co .dropped →
      u.blockingCoroutines = t.blockingCoroutines → Turn t (.op (.finish entered)) u
  | parked {frame u} : t.control = .running frame main →
      (t.coroutines main).stage = .code → (t.coroutines main).cancelling = [] →
      u.coroutines = Function.update t.coroutines main
        { t.coroutines main with stage := .parked } →
      u.blockingCoroutines = t.blockingCoroutines → Turn t (.op (.finish true)) u
  | panicked {frame u} : t.control = .running frame main → t.Quiet u →
      Turn t (.op (.finish false)) u
  | delivered {reason u} : t.control = .final reason →
      (t.coroutines main).stage.isParked = true →
      u.coroutines = Function.update t.coroutines main .dropped →
      u.blockingCoroutines = t.blockingCoroutines → Turn t .final u
  | undelivered {reason u} : t.control = .final reason →
      (t.coroutines main).stage.isParked = false → t.Quiet u → Turn t .final u

section Ops

variable {frame : Frame} {co : ℕ}

theorem turn_of_op (hc : t.control = .running frame co) (hstage : (t.coroutines co).stage = .code)
    {op : Op S} (hs : t.op frame co op = some u) : Turn t (.op op) u := by
  cases op with
  | spawn new =>
    simp only [Task.op] at hs
    split at hs
    next hv =>
      cases hs
      unfold Task.spawn
      split
      · exact .refused
      · exact .spawned hv rfl rfl
    next => cases hs
  | yieldCoroutine =>
    cases hs
    refine .quiet rfl ?_
    unfold Task.yieldCoroutine
    split
    · exact .refl t
    · exact .of_eq rfl (List.Subset.refl _)
  | yieldTask =>
    cases hs
    refine .quiet rfl ?_
    unfold Task.yieldTask Task.yieldCoroutine
    split
    · exact .of_eq rfl (List.Subset.refl _)
    · exact .of_eq rfl (List.Subset.refl _)
  | suspend => cases hs; exact .quiet rfl (.of_eq rfl (List.Subset.refl _))
  | resume other =>
    cases hs
    refine .quiet rfl ?_
    unfold Task.resume
    split
    · exact .of_eq rfl (List.Subset.refl _)
    · exact .refl t
  | wait session interruptible => cases hs; exact .waited hc hstage rfl rfl
  | thread session interruptible => cases hs; exact .threaded hc hstage rfl rfl
  | settle ready =>
    simp only [Task.op] at hs
    split at hs
    next session rest hcs =>
      cases hs
      unfold Task.settle Task.recheck
      cases ready with
      | true =>
        refine .settled hc hstage hcs ?_ rfl
        simp [Task.setCoroutine, hstage]
      | false =>
        refine .unsettled hc hstage hcs ?_ rfl
        simp [Task.setCoroutine, Task.block]
    next => cases hs
  | finish entered =>
    simp only [Task.op] at hs
    split at hs
    next hcs =>
      cases hs
      unfold Task.finish
      split
      next hmain =>
        subst hmain
        cases entered with
        | true => exact .parked hc hstage hcs rfl rfl
        | false => exact .panicked hc (.of_eq rfl (List.Subset.refl _))
      next hmain => exact .finished hc hstage hcs hmain rfl rfl
    next => cases hs

end Ops

theorem turn_of_step {e : Event S} (hs : t.step e = some u) : Turn t e u := by
  cases step_moves hs with
  | wake => exact .quiet rfl (.of_eq rfl (List.Subset.refl _))
  | grab => exact .quiet rfl (.of_eq rfl (List.Subset.refl _))
  | begin =>
    refine .quiet rfl (Task.Quiet.trans ?_ (Task.quiet_unblock _ false))
    exact .of_eq rfl (List.Subset.refl _)
  | stop => exact .quiet rfl ((Task.Quiet.refl t).setControl _)
  | next =>
    refine .quiet rfl ?_
    unfold Task.next
    split
    · split
      · exact .of_eq rfl (List.Subset.refl _)
      · exact (Task.Quiet.refl t).setControl _
    · split
      · exact (Task.Quiet.refl t).setControl _
      · exact (Task.Quiet.refl t).setControl _
  | tail =>
    have hy : t.Quiet { t with yielding := false } := .of_eq rfl (List.Subset.refl _)
    refine .quiet rfl ?_
    unfold Task.tail
    dsimp only
    split
    · exact hy.setControl _
    · split
      · split
        · exact hy.setControl _
        · exact hy.setControl _
      · exact (hy.trans (Task.quiet_unblock _ true)).setControl _
  | interrupt =>
    refine .quiet rfl ⟨fun co => ?_, fun co => ?_, List.Subset.refl _⟩
    all_goals
      unfold Task.interrupt
      dsimp only
      split <;> rfl
  | @visit co =>
    refine .quiet rfl (Task.Quiet.setControl ?_ _)
    unfold Task.visit
    split
    · refine ⟨fun b => ?_, fun b => ?_, List.eraseP_subset⟩
      all_goals
        by_cases hb : b = co
        · subst hb
          simp [Task.setCoroutine, Coroutine.intoAbort]
        · simp [Task.setCoroutine, Function.update_of_ne hb]
    · exact .refl t
  | @endInterrupt reason =>
    obtain ⟨control, he⟩ := t.endInterrupt_eq reason
    rw [he]
    exact .quiet rfl ((t.quiet_unblock false).setControl control)
  | abortNext =>
    refine .quiet rfl ?_
    unfold Task.abortNext
    split
    · exact .of_eq rfl (List.Subset.refl _)
    · exact (Task.Quiet.refl t).setControl _
  | final hc =>
    unfold Task.final
    split
    next hp => exact .delivered hc hp rfl rfl
    next hp => exact .undelivered hc (by simpa using hp) ((Task.Quiet.refl t).setControl _)
  | op hc hstage acts => exact turn_of_op hc hstage acts
  | @awake frame co wait ready hc hw =>
    unfold Task.awake
    split
    next hcancel => exact .cancelled hc hw hcancel.1 hcancel.2 rfl rfl
    next hcancel =>
      unfold Task.recheck
      cases ready with
      | true => exact .woken hc hw hcancel rfl rfl
      | false => exact .slept hc hw hcancel rfl rfl
  | unpark hc hp => exact .unparked hc hp rfl rfl

end Tasks
