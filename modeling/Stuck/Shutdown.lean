import Stuck.SchedulerSteps
import Mathlib.Data.Fintype.Card
import Mathlib.Data.List.NodupEquivFin

/-! The shutdown: `Runtime::drop` beside the workers of a scheduler. `stopped` counts the first
`stop`, the workers that have left their loop and the second `stop`. The last of these workers sends
`Message::Stop`, and the timer answers it by its end, for which `drop` waits. -/
namespace Shutdown

open TransitionSystem Scheduler

/-- Where `Runtime::drop` stands: before it, in `timer.join`, after it, and after the second
`stop`. -/
inductive Dropper where
  | live
  | joining
  | joined
  | stopped
  deriving DecidableEq, Repr

/-- `sent` are the workers that have sent `Message::Stop`, and `received` says that the timer has
received it. `left` records the workers that have left their first loop, in this order. -/
structure Config (n : ℕ) where
  scheduler : Scheduler.Config n
  dropper : Dropper
  sent : List (Fin n)
  received : Bool
  left : List (Fin n)

def initial (n : ℕ) : Config n := ⟨Scheduler.initial n, .live, [], false, []⟩

/-- `drop` and `stop` are the two calls of `Scheduler::stop`, and `join` is the return of
`timer.join`. -/
inductive Event (n : ℕ) where
  | drop
  | join
  | stop
  | send (w : Fin n)
  | receive
  | work (e : Scheduler.Event n)

/-- The worker that takes a step of the scheduler. -/
def worker {n : ℕ} : Scheduler.Event n → Option (Fin n)
  | .pop w | .enter w | .run w _ | .claim w _ _ | .leave w | .retire w | .sweep w | .grab w _
  | .enqueue w | .exit w => some w
  | .stop | .spawn | .clone .. | .give .. | .drop .. | .wake .. | .push _ | .resume _ => none

variable {n : ℕ} {c d : Config n}

/-- The last worker sends `Message::Stop` before it goes on. -/
def Config.sending (c : Config n) (w : Fin n) : Bool :=
  (c.scheduler.workers w).mode = .draining && !c.sent.contains w

def Config.step (c : Config n) : Event n → Option (Config n)
  | .drop =>
    if c.dropper = .live then
      (c.scheduler.step .stop).map fun scheduler => { c with scheduler, dropper := .joining }
    else none
  | .join =>
    if c.dropper = .joining ∧ c.received then some { c with dropper := .joined } else none
  | .stop =>
    if c.dropper = .joined then
      (c.scheduler.step .stop).map fun scheduler => { c with scheduler, dropper := .stopped }
    else none
  | .send w => if c.sending w then some { c with sent := c.sent ++ [w] } else none
  | .receive => if c.sent ≠ [] ∧ ¬ c.received then some { c with received := true } else none
  | .work e =>
    match e with
    | .stop => none
    | .retire w =>
      (c.scheduler.step e).map fun scheduler => { c with scheduler, left := c.left ++ [w] }
    | _ =>
      if (worker e).any c.sending then none
      else (c.scheduler.step e).map fun scheduler => { c with scheduler }

def system (n : ℕ) : System (Config n) (Event n) where
  init := initial n
  step := Config.step

/-- The last of all workers to leave its loop. -/
def Config.Last (c : Config n) (w : Fin n) : Prop :=
  c.left.length = n ∧ c.left.getLast? = some w

structure Handed (c : Config n) : Prop where
  counted : c.scheduler.stopped = -1 + c.left.length +
    (if c.dropper = .live then 0 else 1) + if c.dropper = .stopped then 1 else 0
  nodup : c.left.Nodup
  live : c.dropper = .live → c.left = []
  serving : ∀ w, (c.scheduler.workers w).mode = .serving → w ∉ c.left
  leaver : ∀ w ∈ c.left, c.Last w ∨ (c.scheduler.workers w).mode = .exited
  last : ∀ w, (c.scheduler.workers w).mode = .draining ∨
    (c.scheduler.workers w).mode = .sweeping → c.Last w
  pending : ∀ w, c.Last w → w ∈ c.sent ∨ (c.scheduler.workers w).mode = .draining
  idle : ∀ w, (c.scheduler.workers w).mode = .exited → (c.scheduler.workers w).pc = .idle
  sender : ∀ w ∈ c.sent, c.Last w
  once : c.sent.Nodup
  received : c.received = true → c.sent ≠ []
  joined : c.dropper = .joined ∨ c.dropper = .stopped → c.received = true
  swept : ∀ w, (c.scheduler.workers w).mode = .sweeping → c.dropper = .stopped ∧ w ∈ c.sent

theorem handed_initial : Handed (initial n) := by
  refine ⟨rfl, List.nodup_nil, fun _ => rfl, fun _ _ => List.not_mem_nil, ?_, ?_, ?_, ?_, ?_, ?_,
    ?_, ?_, ?_⟩
  · intro w hw
    cases hw
  · rintro w (hw | hw) <;> cases hw
  · rintro w ⟨_, hw⟩
    cases hw
  · intro w hw
    cases hw
  · intro w hw
    cases hw
  · exact List.nodup_nil
  · intro h
    cases h
  · rintro (h | h) <;> cases h
  · intro w hw
    cases hw

section Scheduler

variable {σ τ : Scheduler.Config n} {w : Fin n} {e : Scheduler.Event n}

theorem stop_eq (hs : σ.step .stop = some τ) : τ = { σ with stopped := σ.stopped + 1 } := by
  simp only [Scheduler.Config.step] at hs
  split at hs <;> cases hs
  rfl

theorem retire_eq (hs : σ.step (.retire w) = some τ) :
    ∃ ambient, σ.workers w = ⟨.serving, ambient, .idle⟩ ∧ 0 ≤ σ.stopped ∧
      τ = { σ.setWorker w ⟨if σ.stopped + 1 = n then .draining else .exited, ambient, .idle⟩ with
        stopped := σ.stopped + 1 } := by
  simp only [Scheduler.Config.step] at hs
  split at hs
  next ambient hw =>
    split at hs <;> cases hs
    next hstopped => exact ⟨ambient, hw, hstopped, rfl⟩
  next => cases hs

theorem sweep_eq (hs : σ.step (.sweep w) = some τ) :
    ∃ ambient, σ.workers w = ⟨.draining, ambient, .idle⟩ ∧ σ.stopped ≠ n ∧
      τ = σ.setWorker w ⟨.sweeping, ambient, .idle⟩ := by
  simp only [Scheduler.Config.step] at hs
  split at hs
  next ambient hw =>
    split at hs <;> cases hs
    next hstopped => exact ⟨ambient, hw, hstopped, rfl⟩
  next => cases hs

theorem pop_serves (hs : σ.step (.pop w) = some τ) : (σ.workers w).mode ≠ .exited := by
  simp only [Scheduler.Config.step] at hs
  split at hs
  · split at hs
    next hserves =>
      intro hm
      rw [hm] at hserves
      cases hserves
    next => cases hs
  · cases hs

theorem stopped_kept (hs : σ.step e = some τ) (hstop : e ≠ .stop) (hretire : ∀ w, e ≠ .retire w) :
    τ.stopped = σ.stopped := by
  have hm := move_of_step hs
  cases hm with
  | stop => exact absurd rfl hstop
  | retire => exact absurd rfl (hretire _)
  | spawn | clone | give | drop | push | resume | pop | enter | abort | reenter | claim | yield
  | block | cease | exchanged | forget | sweep | grab | enqueue | exit => rfl
  | fault | wake => exact (win_talks _ _).stopped
  | run _ hc _ => exact (consult_talks hc).stopped

/-- A worker changes only with a step of its own, and an exited one takes none. -/
theorem worker_moves (hs : σ.step e = some τ) (hretire : ∀ w, e ≠ .retire w)
    (hsweep : ∀ w, e ≠ .sweep w) (hidle : ∀ w, (σ.workers w).mode = .exited →
      (σ.workers w).pc = .idle) (v : Fin n) :
    τ.workers v = σ.workers v ∨ worker e = some v ∧ (σ.workers v).mode ≠ .exited ∧
      ((τ.workers v).mode = (σ.workers v).mode ∨ (τ.workers v).mode = .panicked ∨
        (σ.workers v).mode = .sweeping ∧ (τ.workers v).mode = .exited ∧
          (τ.workers v).pc = .idle) := by
  have hother : ∀ {w new}, τ.workers = Function.update σ.workers w new →
      worker e = some w → (σ.workers w).mode ≠ .exited →
      (new.mode = (σ.workers w).mode ∨ new.mode = .panicked ∨
        (σ.workers w).mode = .sweeping ∧ new.mode = .exited ∧ new.pc = .idle) →
      τ.workers v = σ.workers v ∨ worker e = some v ∧ (σ.workers v).mode ≠ .exited ∧
        ((τ.workers v).mode = (σ.workers v).mode ∨ (τ.workers v).mode = .panicked ∨
          (σ.workers v).mode = .sweeping ∧ (τ.workers v).mode = .exited ∧
            (τ.workers v).pc = .idle) := by
    intro w new hd he hn hmode
    rw [hd]
    by_cases hv : v = w
    · subst hv
      rw [Function.update_self]
      exact Or.inr ⟨he, hn, hmode⟩
    · rw [Function.update_of_ne hv]
      exact Or.inl rfl
  have hbusy : ∀ {w}, (σ.workers w).pc ≠ .idle → (σ.workers w).mode ≠ .exited :=
    fun hp hm => hp (hidle _ hm)
  have hm := move_of_step hs
  cases hm with
  | stop | spawn | clone | give | drop | push | resume | claim => exact Or.inl rfl
  | fault | wake => exact Or.inl (by rw [(win_talks _ _).workers]; rfl)
  | retire => exact absurd rfl (hretire _)
  | sweep => exact absurd rfl (hsweep _)
  | pop hp hr => exact hother rfl rfl (pop_serves hs) (Or.inl rfl)
  | enter hw _ _ | abort hw _ =>
    exact hother rfl rfl (hbusy (by rw [hw]; exact nofun)) (Or.inl (by rw [hw]))
  | reenter hw _ =>
    exact hother rfl rfl (hbusy (by rw [hw]; exact nofun)) (Or.inr (Or.inl rfl))
  | @run w t e' m task hpc hc ht =>
    have hworkers : ((m.setTask t task).setPc w (pcAfter t (σ.tasks t) task e')).workers =
        Function.update σ.workers w
          { σ.workers w with pc := pcAfter t (σ.tasks t) task e' } := by
      rw [← (consult_talks hc).workers]
      rfl
    exact hother hworkers rfl (hbusy (by rw [hpc]; exact nofun)) (Or.inl rfl)
  | yield hw | block hw | cease hw | forget hw =>
    exact hother rfl rfl (hbusy (by rw [hw]; exact nofun)) (Or.inl (by rw [hw]))
  | exchanged hw _ =>
    exact hother rfl rfl (hbusy (by rw [hw]; exact nofun)) (Or.inr (Or.inl rfl))
  | grab hw _ => exact hother rfl rfl (by rw [hw]; exact nofun) (Or.inl (by rw [hw]))
  | enqueue hp => exact hother rfl rfl (hbusy (by rw [hp]; exact nofun)) (Or.inl rfl)
  | exit hw =>
    exact hother rfl rfl (by rw [hw]; exact nofun) (Or.inr (Or.inr ⟨by rw [hw], rfl, rfl⟩))

end Scheduler

theorem Handed.full (h : Handed c) (hlength : c.left.length = n) (w : Fin n) : w ∈ c.left := by
  have hcard : c.left.toFinset.card = Fintype.card (Fin n) := by
    rw [List.toFinset_card_of_nodup h.nodup, hlength, Fintype.card_fin]
  rw [← List.mem_toFinset, Finset.card_eq_iff_eq_univ _ |>.mp hcard]
  exact Finset.mem_univ w

theorem Config.Last.unique {w v : Fin n} (hw : c.Last w) (hv : c.Last v) : w = v := by
  have he := hw.2.symm.trans hv.2
  exact Option.some.inj he

/-- While a worker still serves, the last one has not left. -/
theorem Handed.not_last (h : Handed c) {w : Fin n}
    (hw : (c.scheduler.workers w).mode = .serving) (v : Fin n) : ¬ c.Last v := fun hv =>
  h.serving w hw (h.full hv.1 w)

/-- While a worker still serves, `Drop` waits for a message that is not sent yet. -/
theorem Handed.serving_joining (h : Handed c) {w : Fin n}
    (hw : (c.scheduler.workers w).mode = .serving) (hstopped : 0 ≤ c.scheduler.stopped) :
    c.sent = [] ∧ c.dropper = .joining ∧ c.scheduler.stopped = c.left.length := by
  have hsent : c.sent = [] := by
    cases hc : c.sent with
    | nil => rfl
    | cons v rest =>
      exact absurd (h.sender v (by rw [hc]; exact List.mem_cons_self)) (h.not_last hw v)
  have hreceived : c.received = false := by
    cases hr : c.received with
    | false => rfl
    | true => exact absurd hsent (h.received hr)
  have hcounted := h.counted
  have hdropper : c.dropper = .joining := by
    cases hd : c.dropper with
    | joining => rfl
    | live =>
      rw [hd, h.live hd] at hcounted
      simp only [List.length_nil, if_true] at hcounted
      rw [if_neg (by simp)] at hcounted
      omega
    | joined =>
      rw [h.joined (Or.inl hd)] at hreceived
      cases hreceived
    | stopped =>
      rw [h.joined (Or.inr hd)] at hreceived
      cases hreceived
  refine ⟨hsent, hdropper, ?_⟩
  rw [hcounted, hdropper, if_neg (by simp), if_neg (by simp)]
  omega

theorem Handed.retire (h : Handed c) {w : Fin n} {τ : Scheduler.Config n}
    (hs : c.scheduler.step (.retire w) = some τ) :
    Handed { c with scheduler := τ, left := c.left ++ [w] } := by
  obtain ⟨ambient, hw, hstopped, rfl⟩ := retire_eq hs
  have hserving : (c.scheduler.workers w).mode = .serving := by rw [hw]
  have hnew := h.serving w hserving
  have hnot := h.not_last hserving
  obtain ⟨hsent, hdropper, hlength⟩ := h.serving_joining hserving hstopped
  have hcounted := h.counted
  have hother : ∀ {v}, v ≠ w → ∀ new, Function.update c.scheduler.workers w new v =
      c.scheduler.workers v := fun hv _ => Function.update_of_ne hv _ _
  have hlast : c.scheduler.stopped + 1 = n ↔ (c.left ++ [w]).length = n := by
    rw [hlength, List.length_append, List.length_singleton]
    omega
  refine ⟨?_, ?_, ?_, ?_, ?_, ?_, ?_, ?_, ?_, h.once, h.received, h.joined, ?_⟩
  · simp only [hcounted, hdropper, List.length_append, List.length_singleton]
    push_cast
    omega
  · exact List.nodup_append.mpr ⟨h.nodup, by simp, fun a ha b hb => by
      rw [List.mem_singleton.mp hb]
      rintro rfl
      exact hnew ha⟩
  · intro hd
    rw [hdropper] at hd
    cases hd
  · intro v hv hm
    by_cases hvw : v = w
    · subst hvw
      simp only [Scheduler.Config.setWorker, Function.update_self] at hv
      split at hv <;> cases hv
    · simp only [Scheduler.Config.setWorker, hother hvw] at hv
      rcases List.mem_append.mp hm with hm | hm
      · exact h.serving v hv hm
      · exact hvw (List.mem_singleton.mp hm)
  · intro v hm
    by_cases hvw : v = w
    · subst hvw
      by_cases hl : c.scheduler.stopped + 1 = n
      · exact Or.inl ⟨hlast.mp hl, by simp⟩
      · exact Or.inr (by simp [Scheduler.Config.setWorker, hl])
    · refine Or.inr ?_
      simp only [Scheduler.Config.setWorker, hother hvw]
      rcases List.mem_append.mp hm with hm | hm
      · exact (h.leaver v hm).resolve_left (hnot v)
      · exact absurd (List.mem_singleton.mp hm) hvw
  · intro v hv
    by_cases hvw : v = w
    · subst hvw
      simp only [Scheduler.Config.setWorker, Function.update_self] at hv
      split at hv
      next hl => exact ⟨hlast.mp hl, by simp⟩
      next => rcases hv with hv | hv <;> cases hv
    · simp only [Scheduler.Config.setWorker, hother hvw] at hv
      exact absurd (h.last v hv) (hnot v)
  · rintro v ⟨hl, hv⟩
    rw [List.getLast?_concat] at hv
    cases hv
    refine Or.inr ?_
    simp [Scheduler.Config.setWorker, hlast.mpr hl]
  · intro v hv
    by_cases hvw : v = w
    · subst hvw
      simp [Scheduler.Config.setWorker]
    · simp only [Scheduler.Config.setWorker, hother hvw] at hv ⊢
      exact h.idle v hv
  · intro v hv
    rw [hsent] at hv
    cases hv
  · intro v hv
    by_cases hvw : v = w
    · subst hvw
      simp only [Scheduler.Config.setWorker, Function.update_self] at hv
      split at hv <;> cases hv
    · simp only [Scheduler.Config.setWorker, hother hvw] at hv
      exact h.swept v hv

theorem Handed.sweep (h : Handed c) {w : Fin n} {τ : Scheduler.Config n}
    (hsend : c.sending w = false) (hs : c.scheduler.step (.sweep w) = some τ) :
    Handed { c with scheduler := τ } := by
  obtain ⟨ambient, hw, hstopped, rfl⟩ := sweep_eq hs
  have hdraining : (c.scheduler.workers w).mode = .draining := by rw [hw]
  have hsent : w ∈ c.sent := by simpa [Config.sending, hdraining] using hsend
  have hlast := h.last w (Or.inl hdraining)
  have hdropper : c.dropper = .stopped := by
    have hcounted := h.counted
    rw [hlast.1] at hcounted
    by_contra hd
    rw [if_neg hd] at hcounted
    by_cases hl : c.dropper = .live
    · have hempty := hlast.1
      rw [h.live hl] at hempty
      have hpos := w.pos
      simp at hempty
      omega
    · rw [if_neg hl] at hcounted
      exact hstopped (by omega)
  have hother : ∀ {v}, v ≠ w → ∀ new, Function.update c.scheduler.workers w new v =
      c.scheduler.workers v := fun hv _ => Function.update_of_ne hv _ _
  refine ⟨h.counted, h.nodup, h.live, ?_, ?_, ?_, ?_, ?_, h.sender, h.once, h.received, h.joined,
    ?_⟩
  · intro v hv
    by_cases hvw : v = w
    · subst hvw
      simp [Scheduler.Config.setWorker] at hv
    · exact h.serving v (by simpa [Scheduler.Config.setWorker, hother hvw] using hv)
  · intro v hm
    by_cases hvw : v = w
    · exact Or.inl (hvw ▸ hlast)
    · refine (h.leaver v hm).imp id fun hx => ?_
      simpa [Scheduler.Config.setWorker, hother hvw] using hx
  · intro v hv
    by_cases hvw : v = w
    · exact hvw ▸ hlast
    · exact h.last v (by simpa [Scheduler.Config.setWorker, hother hvw] using hv)
  · intro v hv
    obtain rfl := Config.Last.unique (c := c) hv hlast
    exact Or.inl hsent
  · intro v hv
    by_cases hvw : v = w
    · subst hvw
      simp [Scheduler.Config.setWorker] at hv
    · simp only [Scheduler.Config.setWorker, hother hvw] at hv ⊢
      exact h.idle v hv
  · intro v hv
    by_cases hvw : v = w
    · exact ⟨hdropper, hvw ▸ hsent⟩
    · exact h.swept v (by simpa [Scheduler.Config.setWorker, hother hvw] using hv)

/-- The other steps of the scheduler. -/
theorem Handed.work (h : Handed c) {e : Scheduler.Event n} {τ : Scheduler.Config n}
    (hstop : e ≠ .stop) (hretire : ∀ w, e ≠ .retire w) (hsweep : ∀ w, e ≠ .sweep w)
    (hsend : ∀ w, worker e = some w → c.sending w = false)
    (hs : c.scheduler.step e = some τ) : Handed { c with scheduler := τ } := by
  have hmoves := worker_moves hs hretire hsweep h.idle
  have hstopped := stopped_kept hs hstop hretire
  refine ⟨hstopped ▸ h.counted, h.nodup, h.live, fun w hw => ?_, fun w hw => ?_, fun w hw => ?_,
    fun w hw => ?_, fun w hw => ?_, h.sender, h.once, h.received, h.joined, fun w hw => ?_⟩
  · rcases hmoves w with he | ⟨_, _, hm | hm | ⟨_, hm, _⟩⟩
    · exact h.serving w (by rw [← he]; exact hw)
    · exact h.serving w (by rw [← hm]; exact hw)
    · rw [hm] at hw
      cases hw
    · rw [hm] at hw
      cases hw
  · rcases h.leaver w hw with hl | hx
    · exact Or.inl hl
    · rcases hmoves w with he | ⟨_, hn, _⟩
      · exact Or.inr (by rw [he]; exact hx)
      · exact absurd hx hn
  · rcases hmoves w with he | ⟨_, _, hm | hm | ⟨_, hm, _⟩⟩
    · exact h.last w (by rw [← he]; exact hw)
    · exact h.last w (by rw [← hm]; exact hw)
    · rw [hm] at hw
      rcases hw with hw | hw <;> cases hw
    · rw [hm] at hw
      rcases hw with hw | hw <;> cases hw
  · rcases h.pending w hw with hm | hm
    · exact Or.inl hm
    · rcases hmoves w with he | ⟨hworker, _⟩
      · exact Or.inr (by rw [he]; exact hm)
      · have hs := hsend w hworker
        exact Or.inl (by simpa [Config.sending, hm] using hs)
  · rcases hmoves w with he | ⟨_, hn, hm | hm | ⟨_, _, hp⟩⟩
    · dsimp only at hw ⊢
      rw [he] at hw ⊢
      exact h.idle w hw
    · exact absurd (hm ▸ hw) hn
    · rw [hm] at hw
      cases hw
    · exact hp
  · rcases hmoves w with he | ⟨_, _, hm | hm | ⟨_, hm, _⟩⟩
    · exact h.swept w (by rw [← he]; exact hw)
    · exact h.swept w (by rw [← hm]; exact hw)
    · rw [hm] at hw
      cases hw
    · rw [hm] at hw
      cases hw

theorem Handed.step (h : Handed c) {e : Event n} (hs : c.step e = some d) : Handed d := by
  have hcounted := h.counted
  have hstopped : ∀ {e τ}, c.scheduler.step e = some τ → e = .stop →
      τ = { c.scheduler with stopped := c.scheduler.stopped + 1 } := by
    rintro e τ hs rfl
    exact stop_eq hs
  cases e with
  | drop =>
    simp only [Config.step] at hs
    split at hs
    next hd =>
      obtain ⟨τ, hτ, rfl⟩ := Option.map_eq_some_iff.mp hs
      obtain rfl := hstopped hτ rfl
      refine ⟨?_, h.nodup, nofun, h.serving, h.leaver, h.last, h.pending, h.idle, h.sender, h.once,
        h.received, ?_, fun w hw => ?_⟩
      · simp only [hcounted, hd, reduceCtorEq, if_true, if_false]
        omega
      · rintro (hj | hj) <;> cases hj
      · have hswept := (h.swept w hw).1
        rw [hd] at hswept
        cases hswept
    next => cases hs
  | join =>
    simp only [Config.step] at hs
    split at hs <;> cases hs
    next hj =>
      refine ⟨?_, h.nodup, nofun, h.serving, h.leaver, h.last, h.pending, h.idle, h.sender, h.once,
        h.received, fun _ => hj.2, fun w hw => ?_⟩
      · simp only [hcounted, hj.1, reduceCtorEq, if_false]
      · have hswept := (h.swept w hw).1
        rw [hj.1] at hswept
        cases hswept
  | stop =>
    simp only [Config.step] at hs
    split at hs
    next hd =>
      obtain ⟨τ, hτ, rfl⟩ := Option.map_eq_some_iff.mp hs
      obtain rfl := hstopped hτ rfl
      refine ⟨?_, h.nodup, nofun, h.serving, h.leaver, h.last, h.pending, h.idle, h.sender, h.once,
        h.received, fun _ => h.joined (Or.inl hd), fun w hw => ⟨rfl, (h.swept w hw).2⟩⟩
      simp only [hcounted, hd, reduceCtorEq, if_true, if_false]
      omega
    next => cases hs
  | send w =>
    simp only [Config.step] at hs
    split at hs <;> cases hs
    next hsend =>
      simp only [Config.sending, Bool.and_eq_true, decide_eq_true_eq, Bool.not_eq_true',
        List.contains_eq_mem, decide_eq_false_iff_not] at hsend
      refine ⟨hcounted, h.nodup, h.live, h.serving, h.leaver, h.last, fun v hv => ?_, h.idle,
        fun v hv => ?_, ?_, fun _ => by simp, h.joined, fun v hv => ?_⟩
      · exact (h.pending v hv).imp (List.mem_append_left _) id
      · rcases List.mem_append.mp hv with hv | hv
        · exact h.sender v hv
        · rw [List.mem_singleton.mp hv]
          exact h.last w (Or.inl hsend.1)
      · exact List.nodup_append.mpr ⟨h.once, by simp, fun a ha b hb => by
          rw [List.mem_singleton.mp hb]
          rintro rfl
          exact hsend.2 ha⟩
      · exact (h.swept v hv).imp id (List.mem_append_left _)
  | receive =>
    simp only [Config.step] at hs
    split at hs <;> cases hs
    next hr =>
      exact ⟨hcounted, h.nodup, h.live, h.serving, h.leaver, h.last, h.pending, h.idle, h.sender,
        h.once, fun _ => hr.1, fun _ => rfl, h.swept⟩
  | work e =>
    simp only [Config.step] at hs
    split at hs
    next => cases hs
    next w =>
      obtain ⟨τ, hτ, rfl⟩ := Option.map_eq_some_iff.mp hs
      exact h.retire hτ
    next hstop hretire =>
      split at hs
      next => cases hs
      next hsend =>
        obtain ⟨τ, hτ, rfl⟩ := Option.map_eq_some_iff.mp hs
        have hidle : ∀ w, worker e = some w → c.sending w = false := by
          intro w hw
          simpa [hw] using hsend
        by_cases hsweep : ∃ w, e = .sweep w
        · obtain ⟨w, rfl⟩ := hsweep
          exact h.sweep (hidle w rfl) hτ
        · exact h.work hstop hretire (fun w hw => hsweep ⟨w, hw⟩) hidle hτ

theorem reachable_handed (h : Reachable (system n) c) : Handed c :=
  h.invariant (I := Handed) handed_initial fun _ _ _ hc hs => hc.step hs

/-- The shutdown only orders the steps of the scheduler. -/
def refinement (n : ℕ) : Refinement (system n) (Scheduler.system n) where
  map c := c.scheduler
  init := rfl
  step c e d hs := by
    have hmap : ∀ {e τ}, c.scheduler.step e = some τ →
        ∃ f, (Scheduler.system n).step c.scheduler f = some τ := fun {e _} hτ => ⟨e, hτ⟩
    cases e with
    | drop | stop =>
      simp only [system, Config.step] at hs
      split at hs
      · obtain ⟨τ, hτ, rfl⟩ := Option.map_eq_some_iff.mp hs
        exact Or.inr (hmap hτ)
      · cases hs
    | join | receive =>
      simp only [system, Config.step] at hs
      split at hs <;> cases hs
      exact Or.inl rfl
    | send w =>
      simp only [system, Config.step] at hs
      split at hs <;> cases hs
      exact Or.inl rfl
    | work e =>
      simp only [system, Config.step] at hs
      split at hs
      · cases hs
      · obtain ⟨τ, hτ, rfl⟩ := Option.map_eq_some_iff.mp hs
        exact Or.inr (hmap hτ)
      · split at hs
        · cases hs
        · obtain ⟨τ, hτ, rfl⟩ := Option.map_eq_some_iff.mp hs
          exact Or.inr (hmap hτ)

theorem Handed.sent_eq (h : Handed c) {w : Fin n} (hw : w ∈ c.sent) : c.sent = [w] := by
  have honce := h.once
  have hsender := h.sender
  cases hs : c.sent with
  | nil =>
    rw [hs] at hw
    cases hw
  | cons v rest =>
    rw [hs] at hw honce hsender
    have hv := hsender v List.mem_cons_self
    have hrest : rest = [] := by
      refine List.eq_nil_iff_forall_not_mem.mpr fun u hu => ?_
      obtain rfl := (hsender u (List.mem_cons_of_mem _ hu)).unique hv
      exact (List.nodup_cons.mp honce).1 hu
    rw [hrest, (hsender w hw).unique hv]

/-- At most one worker sends `Message::Stop`, after all others have left their loops; these run
nothing from then on. It alone enters the final abort, after the second `stop`. Once all workers
have left their loops there is this one, and neither its message nor its sweep, nor a `stop`, is
ever refused. -/
theorem one_handover (h : Reachable (system n) c) :
    (-1 ≤ c.scheduler.stopped ∧ c.scheduler.stopped ≤ n + 1) ∧
    c.sent.length ≤ 1 ∧
    (∀ w ∈ c.sent, (∀ v, v ∈ c.left) ∧ ∀ v, v ≠ w →
      (c.scheduler.workers v).mode = .exited ∧ (c.scheduler.workers v).pc = .idle) ∧
    (∀ w, (c.scheduler.workers w).mode = .sweeping → c.sent = [w] ∧ c.dropper = .stopped) ∧
    (0 < n → (∀ v, v ∈ c.left) →
      ∃! w, w ∈ c.sent ∨ (c.scheduler.workers w).mode = .draining) ∧
    (∀ w, (c.scheduler.workers w).mode = .draining → w ∉ c.sent →
      (c.step (.send w)).isSome = true) ∧
    (∀ w ∈ c.sent, (c.scheduler.workers w).mode = .draining →
      (c.scheduler.workers w).pc = .idle → c.dropper = .stopped →
      (c.step (.work (.sweep w))).isSome = true) ∧
    (c.dropper = .live → (c.step .drop).isSome = true) ∧
    (c.dropper = .joined → (c.step .stop).isSome = true) := by
  have hi := reachable_handed h
  have hcounted := hi.counted
  have hle : c.left.length ≤ n := by
    have := hi.nodup.length_le_card
    rwa [Fintype.card_fin] at this
  refine ⟨?_, ?_, fun w hw => ⟨hi.full (hi.sender w hw).1, fun v hv => ?_⟩, fun w hw => ?_,
    fun hn hall => ?_, fun w hw hs => ?_, fun w hs hw hp hd => ?_, fun hd => ?_, fun hd => ?_⟩
  · rw [hcounted]
    cases c.dropper with
    | live | joining | joined | stopped =>
      simp only [reduceCtorEq, if_true, if_false]
      omega
  · cases hs : c.sent with
    | nil => simp
    | cons w rest =>
      have he := hi.sent_eq (w := w) (by rw [hs]; exact List.mem_cons_self)
      rw [← hs, he]
      simp
  · have hlast := hi.sender w hw
    have hexit := (hi.leaver v (hi.full hlast.1 v)).resolve_left fun hv' => hv (hv'.unique hlast)
    exact ⟨hexit, hi.idle v hexit⟩
  · obtain ⟨hd, hs⟩ := hi.swept w hw
    exact ⟨hi.sent_eq hs, hd⟩
  · have hlength : c.left.length = n := by
      have hcard := Finset.card_le_card (s := Finset.univ) (t := c.left.toFinset) fun v _ =>
        List.mem_toFinset.mpr (hall v)
      rw [Finset.card_univ, Fintype.card_fin] at hcard
      exact Nat.le_antisymm hle (hcard.trans (List.toFinset_card_le _))
    have hne : c.left ≠ [] := by
      intro hnil
      rw [hnil] at hlength
      simp at hlength
      omega
    have hlast : c.Last (c.left.getLast hne) := ⟨hlength, List.getLast?_eq_getLast_of_ne_nil hne⟩
    refine ⟨_, hi.pending _ hlast, fun w hw => ?_⟩
    rcases hw with hw | hw
    · exact (hi.sender w hw).unique hlast
    · exact (hi.last w (Or.inl hw)).unique hlast
  · simp [Config.step, Config.sending, hw, hs]
  · have hlast := hi.sender w hs
    have hstopped : c.scheduler.stopped ≠ n := by
      rw [hcounted, hd, hlast.1, if_neg (by simp), if_pos rfl]
      omega
    have hworker : c.scheduler.workers w =
        ⟨.draining, (c.scheduler.workers w).ambient, .idle⟩ := by rw [← hw, ← hp]
    have hsend : c.sending w = false := by simp [Config.sending, hs]
    have hstep : (c.scheduler.step (.sweep w)).isSome = true := by
      simp only [Scheduler.Config.step]
      rw [hworker]
      simp [hstopped]
    simp only [Config.step, worker, Option.any_some, hsend, Bool.false_eq_true, if_false,
      Option.isSome_map]
    exact hstep
  · have hstopped : c.scheduler.stopped = -1 := by
      rw [hcounted, hd, hi.live hd]
      simp
    simp [Config.step, Scheduler.Config.step, hd, hstopped]
  · have hsent := hi.received (hi.joined (Or.inl hd))
    obtain ⟨w, rest, hs⟩ := List.exists_cons_of_ne_nil hsent
    have hlast := hi.sender w (by rw [hs]; exact List.mem_cons_self)
    have hstopped : c.scheduler.stopped = n := by
      rw [hcounted, hd, hlast.1, if_neg (by simp), if_neg (by simp)]
      omega
    simp [Config.step, Scheduler.Config.step, hd, hstopped]

/-- Two workers; the second one hands over and sweeps. -/
def handoverRun : Execution (system 2) where
  events := [.drop, .work (.retire 0), .work (.retire 1), .send 1, .receive, .join, .stop,
    .work (.sweep 1)]
  fires := by decide +kernel

theorem second_worker_sweeps : handoverRun.final.sent = [1] ∧
    handoverRun.final.dropper = .stopped ∧
    (handoverRun.final.scheduler.workers 0).mode = .exited := by
  have h := one_handover handoverRun.final_reachable
  obtain ⟨hsent, hdropper⟩ := h.2.2.2.1 1 (by decide +kernel)
  exact ⟨hsent, hdropper, (h.2.2.1 1 (by rw [hsent]; exact List.mem_singleton_self _)).2 0
    (by decide) |>.1⟩

end Shutdown
