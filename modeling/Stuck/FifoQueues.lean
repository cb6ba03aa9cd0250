import Stuck.TransitionSystem
import Mathlib.Data.List.Infix

/-! Queues that are served in their order. A step takes what it serves from the front of the queue
and puts whatever it likes at the back; along a run nobody overtakes. -/
namespace TransitionSystem

variable {σ ε α : Type*}

/-- What the steps of a run put out, one after the other. -/
def System.trace (M : System σ ε) (out : σ → ε → List α) : σ → List ε → List α
  | _, [] => []
  | s, e :: es => out s e ++ (M.step s e).elim [] fun t => M.trace out t es

/-- A step serves the queue from its front. -/
structure Fifo (M : System σ ε) (queue : σ → List α) (served : σ → ε → List α) : Prop where
  step : ∀ s e t, M.step s e = some t → queue s <+: served s e ++ queue t

variable {M : System σ ε} {queue : σ → List α} {served : σ → ε → List α}

theorem System.trace_cons {out : σ → ε → List α} {s t : σ} {e : ε} (h : M.step s e = some t)
    (es : List ε) : M.trace out s (e :: es) = out s e ++ M.trace out t es := by
  rw [System.trace, h]
  rfl

/-- The queue comes out first, and in its order. -/
theorem Fifo.run (h : Fifo M queue served) {s t : σ} {es : List ε}
    (hr : M.runFrom s es = some t) : queue s <+: M.trace served s es ++ queue t := by
  induction es generalizing s with
  | nil =>
    cases hr
    exact List.prefix_refl _
  | cons e es ih =>
    obtain ⟨u, hu, hrest⟩ := run_cons.mp hr
    rw [System.trace_cons hu, List.append_assoc]
    apply (h.step s e u hu).trans
    exact (List.prefix_append_right_inj (served s e)).mpr (ih hrest)

/-- Who waits in the queue is served after those in front, each once, and before all others. -/
theorem Fifo.waits (h : Fifo M queue served) {s t : σ} {es : List ε} {front back : List α} {x : α}
    (hq : queue s = front ++ x :: back) (hr : M.runFrom s es = some t) :
    M.trace served s es <+: front ∨ front ++ [x] <+: M.trace served s es := by
  have hrun := h.run hr
  rw [hq, List.append_cons] at hrun
  have hfront : front ++ [x] <+: M.trace served s es ++ queue t :=
    (List.prefix_append _ back).trans hrun
  rcases List.prefix_or_prefix_of_prefix (List.prefix_append _ (queue t)) hfront with hp | hp
  · rcases List.prefix_concat_iff.mp hp with he | hp
    · right
      rw [he]
    · left
      exact hp
  · right
    exact hp

/-- A step takes what it serves from the front of the queue and puts what is new at its back. -/
structure Conserves (M : System σ ε) (queue : σ → List α) (put served : σ → ε → List α) :
    Prop where
  step : ∀ s e t, M.step s e = some t → queue s ++ put s e = served s e ++ queue t

variable {put : σ → ε → List α}

/-- What is put comes out in its order, and the queue holds what has not come out yet. -/
theorem Conserves.run (h : Conserves M queue put served) {s t : σ} {es : List ε}
    (hr : M.runFrom s es = some t) :
    queue s ++ M.trace put s es = M.trace served s es ++ queue t := by
  induction es generalizing s with
  | nil =>
    cases hr
    exact List.append_nil _
  | cons e es ih =>
    obtain ⟨u, hu, hrest⟩ := run_cons.mp hr
    calc
      queue s ++ M.trace put s (e :: es) = queue s ++ put s e ++ M.trace put u es := by
        rw [System.trace_cons hu, List.append_assoc]
      _ = served s e ++ (queue u ++ M.trace put u es) := by
        rw [h.step s e u hu, List.append_assoc]
      _ = M.trace served s (e :: es) ++ queue t := by
        rw [ih hrest, System.trace_cons hu, List.append_assoc]

end TransitionSystem
