import Stuck.TransitionSystem

/-! A cell that is settled once: by the first of any number of firings, or by a
cancellation. Later attempts find it settled and change nothing. -/
namespace OneShot

open TransitionSystem

variable {α : Type*}

inductive Cell (α : Type*) where
  | pending
  | fired (value : α)
  | cancelled
  deriving DecidableEq, Repr

def Cell.isPending : Cell α → Bool
  | .pending => true
  | _ => false

def Cell.isCancelled : Cell α → Bool
  | .cancelled => true
  | _ => false

def Cell.fire : Cell α → α → Cell α
  | .pending, value => .fired value
  | cell, _ => cell

def Cell.cancel : Cell α → Cell α
  | .pending => .cancelled
  | cell => cell

@[simp] theorem Cell.isPending_iff {cell : Cell α} : cell.isPending = true ↔ cell = .pending := by
  cases cell <;> simp [Cell.isPending]

@[simp] theorem Cell.isCancelled_iff {cell : Cell α} :
    cell.isCancelled = true ↔ cell = .cancelled := by
  cases cell <;> simp [Cell.isCancelled]

inductive Event (α : Type*) where
  | fire (value : α)
  | cancel
  deriving DecidableEq, Repr

/-- Only the events that settle the cell are steps. -/
def system (α : Type*) : System (Cell α) (Event α) where
  init := .pending
  step
    | .pending, .fire value => some (.fired value)
    | .pending, .cancel => some .cancelled
    | _, _ => none

theorem step_from_pending {cell next : Cell α} {e : Event α}
    (h : (system α).step cell e = some next) : cell = .pending ∧ next ≠ .pending := by
  cases cell <;> cases e <;> simp_all [system] <;> simp [← h]

/-- The first settlement is final. -/
theorem settled_final {cell : Cell α} (h : cell ≠ .pending) (e : Event α) :
    (system α).step cell e = none := by
  cases hs : (system α).step cell e with
  | none => rfl
  | some next => exact absurd (step_from_pending hs).1 h

theorem settled_run {cell next : Cell α} {es : List (Event α)} (h : cell ≠ .pending)
    (hr : (system α).runFrom cell es = some next) : next = cell := by
  cases es with
  | nil => cases hr; rfl
  | cons e es =>
    obtain ⟨_, hs, _⟩ := run_cons.mp hr
    rw [settled_final h e] at hs
    cases hs

/-- Firing or cancelling a cell is a step of the cell, or nothing. -/
theorem fire_step (cell : Cell α) (value : α) :
    cell.fire value = cell ∨ ∃ e, (system α).step cell e = some (cell.fire value) := by
  cases cell with
  | pending => exact Or.inr ⟨.fire value, rfl⟩
  | fired | cancelled => exact Or.inl rfl

theorem cancel_step (cell : Cell α) :
    cell.cancel = cell ∨ ∃ e, (system α).step cell e = some cell.cancel := by
  cases cell with
  | pending => exact Or.inr ⟨.cancel, rfl⟩
  | fired | cancelled => exact Or.inl rfl

end OneShot
