import Stuck.Tasks

/-! What an event does to a task, and when it can happen. -/
namespace Tasks

variable {S : Type*} {t u : Task S}

/-- The steps of a task, each with the place of its thread in `run` and `abort`. -/
inductive Moves (t : Task S) : Event S → Task S → Prop
  | wake {co : ℕ} : Moves t (.wake co) (t.wake co).1
  | grab : Moves t .grab t.grab.1
  | begin (resting : t.control = .resting) : Moves t .begin t.begin
  | stop (resting : t.control = .resting) : Moves t .stop (t.setControl (.interrupt .stopped))
  | next (loops : t.control = .loop) : Moves t .next t.next
  | tail (ends : t.control = .tail) : Moves t .tail t.tail.1
  | interrupt {reason : Reason} {order : List ℕ} (interrupts : t.control = .interrupt reason)
    (all : order.Perm t.suspendingCoroutines) :
    Moves t (.interrupt order) (t.interrupt reason order)
  | visit {co : ℕ} {won : Bool} {reason : Reason} {rest : List ℕ} {yielding : Yielding S}
    (visits : t.control = .interrupting reason rest)
    (blocked : (co, yielding) ∈ t.blockingCoroutines) (left : co ∈ rest) :
    Moves t (.visit co won)
      ((t.visit co yielding won).setControl (.interrupting reason (rest.erase co)))
  | endInterrupt {reason : Reason} (visited : t.control = .interrupting reason []) :
    Moves t .endInterrupt (t.endInterrupt reason)
  | abortNext {reason : Reason} (aborts : t.control = .aborting reason) :
    Moves t .abortNext (t.abortNext reason)
  | final {reason : Reason} (aborted : t.control = .final reason) : Moves t .final (t.final reason)
  | op {frame : Frame} {co : ℕ} {op : Op S} {u : Task S} (runs : t.control = .running frame co)
    (code : (t.coroutines co).stage = .code) (acts : t.op frame co op = some u) :
    Moves t (.op op) u
  | awake {frame : Frame} {co : ℕ} {wait : Wait S} {ready : Bool}
    (runs : t.control = .running frame co) (waits : (t.coroutines co).stage = .waiting wait) :
    Moves t (.awake ready) (t.awake frame co wait ready)
  | unpark {frame : Frame} {co : ℕ} {session : S} (runs : t.control = .running frame co)
    (parks : (t.coroutines co).stage = .thread session) :
    Moves t .unpark (t.setCoroutine co { t.coroutines co with stage := .code })

theorem step_moves {e : Event S} (hs : t.step e = some u) : Moves t e u := by
  cases e with
  | wake co =>
    cases hs
    exact .wake
  | grab =>
    cases hs
    exact .grab
  | begin =>
    simp only [Task.step] at hs
    split at hs
    next hc =>
      cases hs
      exact .begin hc
    next => cases hs
  | stop =>
    simp only [Task.step] at hs
    split at hs
    next hc =>
      cases hs
      exact .stop hc
    next => cases hs
  | next =>
    simp only [Task.step] at hs
    split at hs
    next hc =>
      cases hs
      exact .next hc
    next => cases hs
  | tail =>
    simp only [Task.step] at hs
    split at hs
    next hc =>
      cases hs
      exact .tail hc
    next => cases hs
  | interrupt order =>
    simp only [Task.step] at hs
    split at hs
    next reason hc =>
      split at hs
      next ho =>
        cases hs
        exact .interrupt hc (List.isPerm_iff.mp ho)
      next => cases hs
    next => cases hs
  | visit co won =>
    simp only [Task.step] at hs
    split at hs
    next reason rest hc =>
      split at hs
      next other yielding hf =>
        have hm := List.mem_of_find?_eq_some hf
        have hkey : other = co := by simpa using List.find?_some hf
        subst hkey
        split at hs
        next hl =>
          cases hs
          exact .visit hc hm hl
        next => cases hs
      next => cases hs
    next => cases hs
  | endInterrupt =>
    simp only [Task.step] at hs
    split at hs
    next hc =>
      cases hs
      exact .endInterrupt hc
    next => cases hs
  | abortNext =>
    simp only [Task.step] at hs
    split at hs
    next hc =>
      cases hs
      exact .abortNext hc
    next => cases hs
  | final =>
    simp only [Task.step] at hs
    split at hs
    next hc =>
      cases hs
      exact .final hc
    next => cases hs
  | op op =>
    simp only [Task.step] at hs
    split at hs
    next frame co hc =>
      split at hs
      next hcode => exact .op hc hcode hs
      next => cases hs
    next => cases hs
  | awake ready =>
    simp only [Task.step] at hs
    split at hs
    next frame co hc =>
      split at hs
      next hw =>
        cases hs
        exact .awake hc hw
      next => cases hs
    next => cases hs
  | unpark =>
    simp only [Task.step] at hs
    split at hs
    next frame co hc =>
      split at hs
      next hp =>
        cases hs
        exact .unpark hc hp
      next => cases hs
    next => cases hs

theorem Task.endInterrupt_eq (t : Task S) (reason : Reason) :
    ∃ control, t.endInterrupt reason = (t.unblock false).1.setControl control := by
  unfold Task.endInterrupt
  dsimp only
  split
  · exact ⟨_, rfl⟩
  · split
    · exact ⟨_, rfl⟩
    · exact ⟨_, rfl⟩

end Tasks
