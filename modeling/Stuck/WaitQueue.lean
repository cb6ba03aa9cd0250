import Mathlib.Data.List.Basic

/-! Waking the first waiter of a queue that still accepts: the waiters before it are
dropped, the ones behind it keep their order. -/
namespace WaitQueue

variable {α : Type*} {accepts : α → Bool}

def takeFirst (accepts : α → Bool) : List α → Option (α × List α)
  | [] => none
  | w :: rest => if accepts w then some (w, rest) else takeFirst accepts rest

theorem takeFirst_eq_none {queue : List α} :
    takeFirst accepts queue = none ↔ ∀ w ∈ queue, accepts w = false := by
  induction queue with
  | nil => simp [takeFirst]
  | cons w rest ih => by_cases h : accepts w <;> simp [takeFirst, h, ih]

theorem takeFirst_isSome {queue : List α} :
    (takeFirst accepts queue).isSome = true ↔ ∃ w ∈ queue, accepts w = true := by
  rw [← Option.ne_none_iff_isSome, Ne, takeFirst_eq_none]
  simp

theorem takeFirst_eq_some {queue rest : List α} {w : α}
    (h : takeFirst accepts queue = some (w, rest)) :
    accepts w = true ∧ ∃ stale, queue = stale ++ w :: rest ∧ ∀ d ∈ stale, accepts d = false := by
  induction queue with
  | nil => simp [takeFirst] at h
  | cons v tail ih =>
    by_cases hv : accepts v
    · simp only [takeFirst, hv, if_true, Option.some.injEq, Prod.mk.injEq] at h
      obtain ⟨rfl, rfl⟩ := h
      exact ⟨hv, [], rfl, by simp⟩
    · simp only [takeFirst, hv, Bool.false_eq_true, if_false] at h
      obtain ⟨ha, stale, rfl, hs⟩ := ih h
      refine ⟨ha, v :: stale, rfl, ?_⟩
      intro d hd
      rcases List.mem_cons.mp hd with rfl | hd
      · simpa using hv
      · exact hs d hd

theorem takeFirst_sublist {queue rest : List α} {w : α}
    (h : takeFirst accepts queue = some (w, rest)) : (w :: rest).Sublist queue := by
  obtain ⟨_, stale, rfl, _⟩ := takeFirst_eq_some h
  exact List.sublist_append_right stale (w :: rest)

theorem takeFirst_mem {queue rest : List α} {w : α}
    (h : takeFirst accepts queue = some (w, rest)) : w ∈ queue :=
  (takeFirst_sublist h).subset (by simp)

theorem mem_of_takeFirst {queue rest : List α} {w v : α}
    (h : takeFirst accepts queue = some (w, rest)) (hv : v ∈ rest) : v ∈ queue :=
  (takeFirst_sublist h).subset (by simp [hv])

/-- An accepting waiter is the one taken or stays behind it. -/
theorem takeFirst_covers {queue rest : List α} {w v : α}
    (h : takeFirst accepts queue = some (w, rest)) (hv : v ∈ queue) (ha : accepts v = true) :
    v = w ∨ v ∈ rest := by
  obtain ⟨_, stale, rfl, hs⟩ := takeFirst_eq_some h
  rcases List.mem_append.mp hv with hd | hr
  · rw [hs v hd] at ha
    cases ha
  · exact List.mem_cons.mp hr

theorem takeFirst_congr {accepts' : α → Bool} {queue : List α}
    (h : ∀ w ∈ queue, accepts w = accepts' w) :
    takeFirst accepts queue = takeFirst accepts' queue := by
  induction queue with
  | nil => rfl
  | cons w rest ih =>
    simp only [takeFirst, h w (by simp), ih fun v hv => h v (by simp [hv])]

end WaitQueue
