import Stuck.TaskTurns
import Stuck.TaskResidency

/-! The sessions that coroutines wait on. A `join_value` that is not over is on the stack of one
coroutine, either in `Task::block` or under its own cancellation. So the interruption of a task
wins only the sessions of interruptible waits, and a cancellation runs once. -/
namespace Tasks

open SharedTypes

variable {S : Type*}

/-- The sessions whose `join_value` is on the stack. -/
def Stage.opens : Stage S → List S
  | .waiting wait => [wait.session]
  | .thread session => [session]
  | _ => []

def Coroutine.opens (coroutine : Coroutine S) : List S :=
  coroutine.stage.opens ++ coroutine.cancelling

/-- The session whose `join_value` ends with the step. -/
def Task.leaving (t : Task S) : Event S → Option S
  | .awake true =>
    match t.control with
    | .running _ co =>
      match (t.coroutines co).stage with
      | .waiting wait =>
        if wait.cancellation ∧ (t.coroutines co).status = .aborting then none
        else some wait.session
      | _ => none
    | _ => none
  | .op (.settle true) =>
    match t.control with
    | .running _ co => (t.coroutines co).cancelling.head?
    | _ => none
  | .unpark =>
    match t.control with
    | .running _ co => (t.coroutines co).stage.opens.head?
    | _ => none
  | _ => none

/-- A coroutine that runs, or has ended, is not blocked. -/
theorem Conserved.unblocked {t : Task S} (h : Conserved t) {co : ℕ}
    (hco : t.control.current = some co ∨ (t.coroutines co).stage.isActive = false) :
    ∀ e ∈ t.blockingCoroutines, e.1 ≠ co := by
  rintro e he rfl
  have hmem : e.1 ∈ t.places := List.mem_append_right _ (List.mem_map_of_mem he)
  rcases hco with hc | ha
  · have hheld := h.held e.1
    have hpos := List.count_pos_iff.mpr hmem
    rw [Task.held_on e.1 hc, if_pos rfl] at hheld
    have hle := Bool.toNat_le (t.coroutines e.1).stage.isActive
    omega
  · exact h.notMem_places ha hmem

end Tasks

namespace Scheduler

open TransitionSystem SharedTypes Tasks

variable {n : ℕ} {c d m : Config n} {t co : ℕ}

structure Session.Sound (session : Session) : Prop where
  settled : session.state = .value ∨ session.state = .joined → session.winner.isSome = true
  interrupted : ∀ reason, session.winner = some (.interrupt reason) →
    ∃ join, session.join = some join ∧ join.interruptible = true
  unjoined : session.join = none → session.cancellations = 0
  once : session.cancellations ≤ 1
  reached : session.unreachable = false

/-- The stack of coroutine `co` of task `t` agrees with the sessions. -/
structure Config.Fits (c : Config n) (t co : ℕ) (x : Coroutine SessionId) : Prop where
  owner : ∀ s ∈ x.opens, ∃ join, (c.sessions s).join = some join ∧ join.task = t ∧ join.co = co
  nodup : x.opens.Nodup
  pending : ∀ s ∈ x.opens, (c.sessions s).state = .joining ∨ (c.sessions s).state = .value
  waiting : ∀ wait, x.stage = .waiting wait → ∃ join,
    (c.sessions wait.session).join = some join ∧ join.interruptible = wait.interruptible
  fresh : ∀ wait, x.stage = .waiting wait → wait.cancellation = true →
    wait.interruptible = false ∧ (c.sessions wait.session).cancellations = 0
  cancelling : ∀ s ∈ x.cancelling, ∃ join,
    (c.sessions s).join = some join ∧ join.interruptible = false
  idle : x.stage.isActive = false → x.cancelling = []

structure Waits (c : Config n) : Prop where
  fits : ∀ t co, c.Fits t co ((c.tasks t).coroutines co)
  entries : ∀ t e, e ∈ (c.tasks t).blockingCoroutines → ∃ wait,
    ((c.tasks t).coroutines e.1).stage = .waiting wait ∧ e.2 = wait.yielding
  created : ∀ s join, (c.sessions s).join = some join → join.task < c.created
  sound : ∀ s, (c.sessions s).Sound

/-- What may happen to a session while somebody waits on it. -/
structure Session.Kept (x y : Session) : Prop where
  join : y.join = x.join
  cancellations : y.cancellations = x.cancellations
  state : y.state = x.state ∨ (x.state = .empty ∨ x.state = .joining) ∧ y.state = .value

theorem Session.Kept.refl (x : Session) : x.Kept x := ⟨rfl, rfl, Or.inl rfl⟩

theorem Session.Kept.pending {x y : Session} (h : x.Kept y)
    (hx : x.state = .joining ∨ x.state = .value) : y.state = .joining ∨ y.state = .value := by
  rcases h.state with he | ⟨_, he⟩
  · rwa [he]
  · exact Or.inr he

theorem kept_setSession {s : SessionId} {y : Session} (h : (c.sessions s).Kept y)
    (s' : SessionId) : (c.sessions s').Kept ((c.setSession s y).sessions s') := by
  by_cases hs : s' = s
  · subst hs
    simpa [Config.setSession] using h
  · simpa [Config.setSession, Function.update_of_ne hs] using Session.Kept.refl _

theorem sound_setSession {s : SessionId} {y : Session} (h : ∀ s, (c.sessions s).Sound)
    (hy : y.Sound) (s' : SessionId) : ((c.setSession s y).sessions s').Sound := by
  by_cases hs : s' = s
  · subst hs
    simpa [Config.setSession] using hy
  · simpa [Config.setSession, Function.update_of_ne hs] using h s'

theorem Session.Sound.won {x : Session} (h : x.Sound) {winner : Winner}
    (hw : ∀ reason, winner = .interrupt reason →
      ∃ join, x.join = some join ∧ join.interruptible = true) :
    ({ x with state := .value, winner := some winner } : Session).Sound where
  settled _ := rfl
  interrupted reason hr := hw reason (Option.some.inj hr)
  unjoined := h.unjoined
  once := h.once
  reached := h.reached

theorem setValue_keeps {s : SessionId} {winner : Winner} (h : c.setValue s winner = some d)
    (hsound : ∀ s, (c.sessions s).Sound)
    (hw : ∀ reason, winner = .interrupt reason →
      ∃ join, (c.sessions s).join = some join ∧ join.interruptible = true) :
    (∀ s, (c.sessions s).Kept (d.sessions s)) ∧ ∀ s, (d.sessions s).Sound := by
  obtain ⟨hstate, rfl⟩ := setValue_eq h
  exact ⟨kept_setSession ⟨rfl, rfl, Or.inr ⟨hstate, rfl⟩⟩,
    sound_setSession hsound ((hsound s).won hw)⟩

theorem win_keeps {s : SessionId} {winner : Winner} (hsound : ∀ s, (c.sessions s).Sound)
    (hw : ∀ reason, winner ≠ .interrupt reason) :
    (∀ s', (c.sessions s').Kept ((c.win s winner).sessions s')) ∧
      ∀ s', ((c.win s winner).sessions s').Sound := by
  unfold Config.win
  split
  next d hd =>
    have hk := setValue_keeps hd hsound fun reason hr => absurd hr (hw reason)
    exact ⟨hk.1, hk.2⟩
  next => exact ⟨fun _ => .refl _, hsound⟩

theorem Config.Fits.kept {x : Coroutine SessionId} (h : c.Fits t co x)
    (hk : ∀ s ∈ x.opens, (c.sessions s).Kept (d.sessions s)) : d.Fits t co x where
  owner s hs := by
    rw [(hk s hs).join]
    exact h.owner s hs
  nodup := h.nodup
  pending s hs := (hk s hs).pending (h.pending s hs)
  waiting wait hw := by
    rw [(hk wait.session (by simp [Coroutine.opens, hw, Stage.opens])).join]
    exact h.waiting wait hw
  fresh wait hw hcancel := by
    rw [(hk wait.session (by simp [Coroutine.opens, hw, Stage.opens])).cancellations]
    exact h.fresh wait hw hcancel
  cancelling s hs := by
    rw [(hk s (List.mem_append_right _ hs)).join]
    exact h.cancelling s hs
  idle := h.idle

/-- A coroutine with nothing on its stack. -/
theorem fits_idle {x : Coroutine SessionId} (hs : x.stage.opens = []) (hc : x.cancelling = []) :
    c.Fits t co x := by
  have ho : x.opens = [] := by rw [Coroutine.opens, hs, hc]; rfl
  have hw : ∀ wait, x.stage ≠ .waiting wait := by
    intro wait he
    rw [he] at hs
    cases hs
  refine ⟨?_, ?_, ?_, fun wait he => absurd he (hw wait), fun wait he => absurd he (hw wait), ?_,
    fun _ => hc⟩
  · simp [ho]
  · simp [ho]
  · simp [ho]
  · simp [hc]

theorem opens_new (co : ℕ) : ((Task.new : Tasks.Task SessionId).coroutines co).stage.opens = [] ∧
    ((Task.new : Tasks.Task SessionId).coroutines co).cancelling = [] := by
  by_cases h : co = main
  · simp [Task.new, h, Coroutine.new, Stage.opens]
  · simp [Task.new, Function.update_of_ne h, Coroutine.dropped, Stage.opens]

theorem Config.Fits.congr {x y : Coroutine SessionId} (h : c.Fits t co x)
    (hs : y.stage = x.stage) (hc : y.cancelling = x.cancelling) : c.Fits t co y := by
  have ho : y.opens = x.opens := by rw [Coroutine.opens, hs, hc]; rfl
  refine ⟨?_, ho ▸ h.nodup, ?_, ?_, ?_, hc ▸ h.cancelling, hs ▸ hc ▸ h.idle⟩
  · rw [ho]
    exact h.owner
  · rw [ho]
    exact h.pending
  · rw [hs]
    exact h.waiting
  · rw [hs]
    exact h.fresh

theorem waits_initial : Waits (initial n) where
  fits t co := fits_idle (opens_new co).1 (opens_new co).2
  entries t e he := by cases he
  created s join hj := by cases hj
  sound s := ⟨by simp [initial], by simp [initial], fun _ => rfl, Nat.zero_le 1, rfl⟩

/-- No coroutine moves, and a session that somebody waits on is kept. -/
theorem Waits.quiet (h : Waits c) (ht : ∀ t, (c.tasks t).Quiet (d.tasks t) ∨ d.tasks t = .new)
    (hk : ∀ s, (c.sessions s).join ≠ none → (c.sessions s).Kept (d.sessions s))
    (hn : ∀ s join, (d.sessions s).join = some join → join.task < d.created)
    (hs : ∀ s, (d.sessions s).Sound) : Waits d where
  fits t co := by
    rcases ht t with hq | hn
    · refine ((h.fits t co).congr (hq.stages co) (hq.cancelling co)).kept fun s hs => hk s ?_
      rw [Coroutine.opens, hq.stages co, hq.cancelling co] at hs
      obtain ⟨join, hj, _⟩ := (h.fits t co).owner s hs
      rw [hj]
      exact nofun
    · rw [hn]
      exact fits_idle (opens_new co).1 (opens_new co).2
  entries t e he := by
    rcases ht t with hq | hn
    · rw [hq.stages]
      exact h.entries t e (hq.blocking he)
    · rw [hn] at he
      cases he
  created := hn
  sound := hs

/-- The tasks stay, or take steps on behalf of nobody, and the sessions are kept. -/
theorem Waits.keeps (h : Waits c) (ht : ∀ t, (c.tasks t).Quiet (d.tasks t) ∨ d.tasks t = .new)
    (hc : c.created ≤ d.created)
    (hk : (∀ s, (c.sessions s).Kept (d.sessions s)) ∧ ∀ s, (d.sessions s).Sound) : Waits d := by
  refine h.quiet ht (fun s _ => hk.1 s) (fun s join hj => ?_) hk.2
  rw [(hk.1 s).join] at hj
  exact Nat.lt_of_lt_of_le (h.created s join hj) hc

/-- One coroutine moves, and the sessions that others wait on are kept. -/
theorem Waits.turn (h : Waits c) {task : Tasks.Task SessionId} {x : Coroutine SessionId}
    (htasks : d.tasks = Function.update c.tasks t task)
    (hcoroutines : task.coroutines = Function.update (c.tasks t).coroutines co x)
    (hkept : ∀ t' co' s, ¬ (t' = t ∧ co' = co) → s ∈ ((c.tasks t').coroutines co').opens →
      (c.sessions s).Kept (d.sessions s))
    (hentries : ∀ e ∈ task.blockingCoroutines,
      e ∈ (c.tasks t).blockingCoroutines ∧ e.1 ≠ co ∨
      e.1 = co ∧ ∃ wait, x.stage = .waiting wait ∧ e.2 = wait.yielding)
    (hfits : d.Fits t co x)
    (hn : ∀ s join, (d.sessions s).join = some join → join.task < d.created)
    (hsound : ∀ s, (d.sessions s).Sound) : Waits d where
  fits t' co' := by
    rw [htasks]
    by_cases ht : t' = t
    · subst ht
      rw [Function.update_self, hcoroutines]
      by_cases hco : co' = co
      · rw [hco, Function.update_self]
        exact hfits
      · rw [Function.update_of_ne hco]
        exact (h.fits t' co').kept fun s hs => hkept t' co' s (fun hb => hco hb.2) hs
    · rw [Function.update_of_ne ht]
      exact (h.fits t' co').kept fun s hs => hkept t' co' s (fun hb => ht hb.1) hs
  entries t' e he := by
    rw [htasks] at he ⊢
    by_cases ht : t' = t
    · subst ht
      rw [Function.update_self] at he ⊢
      rw [hcoroutines]
      rcases hentries e he with ⟨hold, hne⟩ | ⟨hco, hwait⟩
      · rw [Function.update_of_ne hne]
        exact h.entries t' e hold
      · rw [hco, Function.update_self]
        exact hwait
    · rw [Function.update_of_ne ht] at he ⊢
      exact h.entries t' e he
  created := hn
  sound := hsound

/-- Nobody but its owner waits on session `s`. -/
theorem Waits.foreign (h : Waits c) {s : SessionId} {y : Session}
    (howner : ∀ join, (c.sessions s).join = some join → join.task = t ∧ join.co = co) :
    ∀ t' co' s', ¬ (t' = t ∧ co' = co) → s' ∈ ((c.tasks t').coroutines co').opens →
      (c.sessions s').Kept ((c.setSession s y).sessions s') := by
  intro t' co' s' hne hs'
  have hs : s' ≠ s := by
    rintro rfl
    obtain ⟨join, hj, ht, hco⟩ := (h.fits t' co').owner s' hs'
    obtain ⟨ht', hco'⟩ := howner join hj
    exact hne ⟨ht.symm.trans ht', hco.symm.trans hco'⟩
  simpa [Config.setSession, Function.update_of_ne hs] using Session.Kept.refl _

theorem Waits.created_setSession (h : Waits c) {s : SessionId} {y : Session}
    (hy : ∀ join, y.join = some join → join.task < c.created) :
    ∀ s' join, ((c.setSession s y).sessions s').join = some join → join.task < c.created := by
  intro s' join hj
  by_cases hs : s' = s
  · subst hs
    exact hy join (by simpa [Config.setSession] using hj)
  · exact h.created s' join (by simpa [Config.setSession, Function.update_of_ne hs] using hj)

section Run

variable {task : Tasks.Task SessionId} {x : Coroutine SessionId} {s : SessionId}

/-- The session `s` is joined by a coroutine that runs. -/
theorem Waits.registers (h : Waits c) (hco : ∀ e ∈ (c.tasks t).blockingCoroutines, e.1 ≠ co)
    (ht : t < c.created) {thread i : Bool} {stage : Stage SessionId}
    (hm : c.register s ⟨t, co, thread, i⟩ = some m)
    (hcode : ((c.tasks t).coroutines co).stage = .code)
    (hstage : stage = .waiting ⟨s, i, !i⟩ ∨ stage = .thread s)
    (hcoroutines : task.coroutines = Function.update (c.tasks t).coroutines co
      { (c.tasks t).coroutines co with stage := stage })
    (hblocking : ∀ e ∈ task.blockingCoroutines, e ∈ (c.tasks t).blockingCoroutines ∨
      e.1 = co ∧ ∃ wait, stage = .waiting wait ∧ e.2 = wait.yielding)
    (htasks : d.tasks = Function.update c.tasks t task) (hsessions : d.sessions = m.sessions)
    (hc : d.created = c.created) : Waits d := by
  obtain ⟨_, hnone, rfl⟩ := register_eq hm
  have hold : ((c.tasks t).coroutines co).opens = ((c.tasks t).coroutines co).cancelling := by
    rw [Coroutine.opens, hcode]
    rfl
  have hopens : stage.opens = [s] := by rcases hstage with rfl | rfl <;> rfl
  have hfree : ∀ s' ∈ ((c.tasks t).coroutines co).cancelling, s' ≠ s := by
    rintro s' hs' rfl
    obtain ⟨join, hj, _⟩ := (h.fits t co).owner s' (hold ▸ hs')
    rw [hnone] at hj
    cases hj
  have hself : d.sessions s =
      { c.sessions s with state := .joining, join := some ⟨t, co, thread, i⟩ } := by
    rw [hsessions]
    exact Function.update_self _ _ _
  have hother : ∀ s' ≠ s, d.sessions s' = c.sessions s' := by
    intro s' hs'
    rw [hsessions]
    exact Function.update_of_ne hs' _ _
  refine h.turn htasks hcoroutines ?_ ?_ ?_ ?_ ?_
  · rw [hsessions]
    exact h.foreign fun join hj => by rw [hnone] at hj; cases hj
  · intro e he
    rcases hblocking e he with he | he
    · exact Or.inl ⟨he, hco e he⟩
    · exact Or.inr he
  · have hkeep := (h.fits t co).kept (d := d) fun s' hs' => by
      rw [hother s' (hfree s' (hold ▸ hs'))]
      exact .refl _
    refine ⟨?_, ?_, ?_, ?_, ?_, hkeep.cancelling, ?_⟩
    · intro s' hs'
      rw [Coroutine.opens, hopens] at hs'
      rcases List.mem_cons.mp hs' with rfl | hs'
      · exact ⟨_, by rw [hself], rfl, rfl⟩
      · exact hkeep.owner s' (List.mem_append_right _ hs')
    · rw [Coroutine.opens, hopens]
      refine List.nodup_cons.mpr ⟨fun hs' => hfree s hs' rfl, ?_⟩
      exact (h.fits t co).nodup.sublist (List.sublist_append_right _ _)
    · intro s' hs'
      rw [Coroutine.opens, hopens] at hs'
      rcases List.mem_cons.mp hs' with rfl | hs'
      · rw [hself]
        exact Or.inl rfl
      · exact hkeep.pending s' (List.mem_append_right _ hs')
    · rintro wait (rfl : stage = _)
      rcases hstage with hw | hw
      · cases hw
        exact ⟨_, by rw [hself], rfl⟩
      · cases hw
    · rintro wait (rfl : stage = _) hcancel
      rcases hstage with hw | hw
      · cases hw
        have hu := (h.sound s).unjoined hnone
        exact ⟨by simpa using hcancel, by rw [hself]; exact hu⟩
      · cases hw
    · intro ha
      rcases hstage with rfl | rfl <;> cases ha
  · rw [hsessions, hc]
    exact h.created_setSession fun join hj => by cases hj; exact ht
  · rw [hsessions]
    have hs := h.sound s
    refine sound_setSession h.sound ⟨by simp, fun reason hr => ?_, by simp, hs.once, hs.reached⟩
    obtain ⟨join, hj, _⟩ := hs.interrupted reason hr
    rw [hnone] at hj
    cases hj

/-- The `join_value` on session `s` ends with a value. -/
theorem Waits.leaves (h : Waits c) (hco : ∀ e ∈ (c.tasks t).blockingCoroutines, e.1 ≠ co)
    (hm : c.recheck s true = some m)
    (hopens : ((c.tasks t).coroutines co).opens = s :: x.cancelling)
    (hcancelling : x.cancelling ⊆ ((c.tasks t).coroutines co).cancelling)
    (hcode : x.stage = .code)
    (hcoroutines : task.coroutines = Function.update (c.tasks t).coroutines co x)
    (hblocking : task.blockingCoroutines = (c.tasks t).blockingCoroutines)
    (htasks : d.tasks = Function.update c.tasks t task) (hsessions : d.sessions = m.sessions)
    (hc : d.created = c.created) : Waits d := by
  have hfits := h.fits t co
  have hmem : s ∈ ((c.tasks t).coroutines co).opens := by rw [hopens]; exact List.mem_cons_self
  have hnodup := hfits.nodup
  rw [hopens] at hnodup
  have hxo : x.opens = x.cancelling := by
    rw [Coroutine.opens, hcode]
    rfl
  rcases recheck_eq hm with ⟨_, hj, rfl⟩ | ⟨hr, _⟩
  · have hvalue : (c.sessions s).state = .value := (hfits.pending s hmem).resolve_left hj
    have hleave : (c.sessions s).leave = { c.sessions s with state := .joined } := by
      rw [Session.leave, hvalue]
    rw [hleave] at hsessions
    obtain ⟨join, hjoin, hjt, hjc⟩ := hfits.owner s hmem
    refine h.turn htasks hcoroutines ?_ (fun e he => Or.inl ?_) ?_ ?_ ?_
    · rw [hsessions]
      exact h.foreign fun join' hj' => by
        rw [hjoin] at hj'
        cases hj'
        exact ⟨hjt, hjc⟩
    · rw [hblocking] at he
      exact ⟨he, hco e he⟩
    · have hother : ∀ s' ∈ x.cancelling, (c.sessions s').Kept (d.sessions s') := by
        intro s' hs'
        have hne : s' ≠ s := by
          rintro rfl
          exact (List.nodup_cons.mp hnodup).1 hs'
        rw [hsessions]
        simpa [Config.setSession, Function.update_of_ne hne] using Session.Kept.refl _
      refine ⟨?_, ?_, ?_, ?_, ?_, ?_, fun ha => by rw [hcode] at ha; cases ha⟩
      · intro s' hs'
        rw [hxo] at hs'
        rw [(hother s' hs').join]
        exact hfits.owner s' (hopens ▸ List.mem_cons_of_mem _ hs')
      · rw [hxo]
        exact (List.nodup_cons.mp hnodup).2
      · intro s' hs'
        rw [hxo] at hs'
        exact (hother s' hs').pending (hfits.pending s' (hopens ▸ List.mem_cons_of_mem _ hs'))
      · intro wait hw
        rw [hcode] at hw
        cases hw
      · intro wait hw
        rw [hcode] at hw
        cases hw
      · intro s' hs'
        rw [(hother s' hs').join]
        exact hfits.cancelling s' (hcancelling hs')
    · rw [hsessions, hc]
      exact h.created_setSession (h.created s)
    · rw [hsessions]
      have hs := h.sound s
      exact sound_setSession h.sound
        ⟨fun _ => hs.settled (Or.inl hvalue), hs.interrupted, hs.unjoined, hs.once, hs.reached⟩
  · cases hr

/-- A coroutine goes back to wait, now uninterruptibly or still interruptibly. -/
theorem Waits.sleeps (h : Waits c) (hco : ∀ e ∈ (c.tasks t).blockingCoroutines, e.1 ≠ co)
    {i : Bool} (hopens : ((c.tasks t).coroutines co).opens = s :: x.cancelling)
    (hcancelling : x.cancelling ⊆ ((c.tasks t).coroutines co).cancelling)
    (hstage : x.stage = .waiting ⟨s, i, false⟩)
    (hflag : ∃ join, (c.sessions s).join = some join ∧ join.interruptible = i)
    (hcoroutines : task.coroutines = Function.update (c.tasks t).coroutines co x)
    (hblocking : task.blockingCoroutines =
      (c.tasks t).blockingCoroutines ++ [(co, Wait.yielding ⟨s, i, false⟩)])
    (htasks : d.tasks = Function.update c.tasks t task) (hsessions : d.sessions = c.sessions)
    (hc : d.created = c.created) : Waits d := by
  have hfits := h.fits t co
  have hxo : x.opens = ((c.tasks t).coroutines co).opens := by
    rw [hopens, Coroutine.opens, hstage]
    rfl
  refine h.turn htasks hcoroutines (fun _ _ s' _ _ => ?_) (fun e he => ?_) ?_ ?_ ?_
  · rw [hsessions]
    exact .refl _
  · rw [hblocking] at he
    rcases List.mem_append.mp he with he | he
    · exact Or.inl ⟨he, hco e he⟩
    · rw [List.mem_singleton.mp he]
      exact Or.inr ⟨rfl, _, hstage, rfl⟩
  · refine ⟨?_, ?_, ?_, ?_, ?_, ?_, fun ha => by rw [hstage] at ha; cases ha⟩
    · rw [hxo, hsessions]
      exact hfits.owner
    · rw [hxo]
      exact hfits.nodup
    · rw [hxo, hsessions]
      exact hfits.pending
    · intro wait hw
      rw [hstage] at hw
      cases hw
      rw [hsessions]
      exact hflag
    · intro wait hw hcancel
      rw [hstage] at hw
      cases hw
      cases hcancel
    · intro s' hs'
      rw [hsessions]
      exact hfits.cancelling s' (hcancelling hs')
  · rw [hsessions, hc]
    exact h.created
  · rw [hsessions]
    exact h.sound

/-- An interruption calls the cancellation of the session that the coroutine waits on. -/
theorem Waits.cancels (h : Waits c) (hco : ∀ e ∈ (c.tasks t).blockingCoroutines, e.1 ≠ co)
    {wait : Wait SessionId} (hstage : ((c.tasks t).coroutines co).stage = .waiting wait)
    (hcancel : wait.cancellation = true) {status : CoroutineStatus}
    (hcoroutines : task.coroutines = Function.update (c.tasks t).coroutines co
      ⟨status, .code, wait.session :: ((c.tasks t).coroutines co).cancelling⟩)
    (hblocking : task.blockingCoroutines = (c.tasks t).blockingCoroutines)
    (htasks : d.tasks = Function.update c.tasks t task)
    (hsessions : d.sessions = (c.setSession wait.session { c.sessions wait.session with
      cancellations := (c.sessions wait.session).cancellations + 1 }).sessions)
    (hc : d.created = c.created) : Waits d := by
  have hfits := h.fits t co
  have hopens : ((c.tasks t).coroutines co).opens =
      wait.session :: ((c.tasks t).coroutines co).cancelling := by
    rw [Coroutine.opens, hstage]
    rfl
  have hmem : wait.session ∈ ((c.tasks t).coroutines co).opens := by
    rw [hopens]
    exact List.mem_cons_self
  obtain ⟨join, hjoin, hjt, hjc⟩ := hfits.owner wait.session hmem
  obtain ⟨hflag, hfresh⟩ := hfits.fresh wait hstage hcancel
  have hsame : ∀ s', (d.sessions s').join = (c.sessions s').join ∧
      (d.sessions s').state = (c.sessions s').state := by
    intro s'
    rw [hsessions]
    by_cases hs' : s' = wait.session
    · subst hs'
      simp [Config.setSession]
    · simp [Config.setSession, Function.update_of_ne hs']
  refine h.turn htasks hcoroutines ?_ (fun e he => Or.inl ?_) ?_ ?_ ?_
  · rw [hsessions]
    exact h.foreign fun join' hj' => by
      rw [hjoin] at hj'
      cases hj'
      exact ⟨hjt, hjc⟩
  · rw [hblocking] at he
    exact ⟨he, hco e he⟩
  · refine ⟨?_, ?_, ?_, nofun, nofun, ?_, nofun⟩
    · intro s' hs'
      rw [(hsame s').1]
      exact hfits.owner s' (hopens ▸ hs')
    · exact hopens ▸ hfits.nodup
    · intro s' hs'
      rw [(hsame s').2]
      exact hfits.pending s' (hopens ▸ hs')
    · intro s' hs'
      rw [(hsame s').1]
      rcases List.mem_cons.mp hs' with rfl | hs'
      · obtain ⟨join', hj', hi⟩ := hfits.waiting wait hstage
        exact ⟨join', hj', hi.trans hflag⟩
      · exact hfits.cancelling s' hs'
  · intro s' join' hj'
    rw [(hsame s').1] at hj'
    exact hc ▸ h.created s' join' hj'
  · rw [hsessions]
    have hs := h.sound wait.session
    refine sound_setSession h.sound ⟨hs.settled, hs.interrupted, fun hn => ?_, ?_, hs.reached⟩
    · rw [hjoin] at hn
      cases hn
    · exact Nat.le_of_eq (by rw [hfresh])

/-- A coroutine starts, ends or parks. -/
theorem Waits.idles (h : Waits c) (hco : ∀ e ∈ (c.tasks t).blockingCoroutines, e.1 ≠ co)
    (hs : x.stage.opens = []) (hx : x.cancelling = [])
    (hcoroutines : task.coroutines = Function.update (c.tasks t).coroutines co x)
    (hblocking : task.blockingCoroutines = (c.tasks t).blockingCoroutines)
    (htasks : d.tasks = Function.update c.tasks t task) (hc : d.created = c.created)
    (hk : (∀ s, (c.sessions s).Kept (d.sessions s)) ∧ ∀ s, (d.sessions s).Sound) : Waits d := by
  refine h.turn htasks hcoroutines (fun _ _ s' _ _ => hk.1 s') (fun e he => Or.inl ?_)
    (fits_idle hs hx) (fun s' join hj => ?_) hk.2
  · rw [hblocking] at he
    exact ⟨he, hco e he⟩
  · rw [(hk.1 s').join] at hj
    exact hc ▸ h.created s' join hj

/-- What a step takes on behalf of nobody does to the sessions. -/
theorem Waits.consults (h : Waits c) {w : Fin n} {e : Tasks.Event SessionId}
    (he : e.isQuiet = true) (hm : c.consult w t e = some m) :
    (∀ s, (c.sessions s).Kept (m.sessions s)) ∧ ∀ s, (m.sessions s).Sound := by
  have hself : (∀ s, (c.sessions s).Kept (c.sessions s)) ∧ ∀ s, (c.sessions s).Sound :=
    ⟨fun _ => .refl _, h.sound⟩
  cases e with
  | wake _ | grab | begin | stop => cases hm
  | next | tail | interrupt _ | endInterrupt | abortNext => cases hm; exact hself
  | final | awake _ | unpark => cases he
  | visit co won =>
    simp only [Config.consult] at hm
    split at hm
    next reason rest _ =>
      unfold Config.consultVisit at hm
      split at hm
      next a s hf =>
        split at hm
        · split at hm <;> cases hm
          exact hself
        · split at hm
          next hv =>
            split at hm <;> cases hm
            refine setValue_keeps hv h.sound fun _ _ => ?_
            -- only an interruptible wait blocks on its session
            obtain ⟨wait, hw, hy⟩ := h.entries t _ (List.mem_of_find?_eq_some hf)
            obtain ⟨join, hj, hi⟩ := (h.fits t a).waiting wait hw
            simp only [Wait.yielding] at hy
            split at hy
            · cases hy
            · split at hy
              next hint =>
                cases hy
                exact ⟨join, hj, hi.trans hint⟩
              next => cases hy
          next =>
            split at hm <;> cases hm
            exact hself
      next =>
        split at hm <;> cases hm
        exact hself
    next => cases hm
  | op op =>
    simp only [Config.consult] at hm
    split at hm
    next =>
      cases op with
      | wait _ _ | thread _ _ | settle _ | finish _ | spawn _ => cases he
      | yieldCoroutine | yieldTask | suspend | resume _ =>
        simp only [Config.consultOp] at hm
        split at hm <;> cases hm
        exact hself
    next => cases hm

theorem Waits.run (h : Waits c) (hcons : Conserved (c.tasks t)) (hcreated : t < c.created)
    {w : Fin n} {e : Tasks.Event SessionId} (hm : c.consult w t e = some m)
    (hs : (c.tasks t).step e = some task) (htasks : d.tasks = Function.update c.tasks t task)
    (hsessions : d.sessions = m.sessions) (hc : d.created = c.created) : Waits d := by
  have hself : (∀ s, (c.sessions s).Kept (c.sessions s)) ∧ ∀ s, (c.sessions s).Sound :=
    ⟨fun _ => .refl _, h.sound⟩
  have hquiet : (c.tasks t).Quiet task → (∀ s, (c.sessions s).Kept (m.sessions s)) ∧
      (∀ s, (m.sessions s).Sound) → Waits d := by
    intro hq hk
    refine h.keeps (fun t' => ?_) (Nat.le_of_eq hc.symm) (hsessions ▸ hk)
    rw [htasks]
    by_cases ht' : t' = t
    · rw [ht', Function.update_self]
      exact Or.inl hq
    · rw [Function.update_of_ne ht']
      exact Or.inl (.refl _)
  have hturn := turn_of_step hs
  cases hturn with
  | quiet he hq => exact hquiet hq (h.consults he hm)
  | refused =>
    simp only [Config.consult] at hm
    split at hm
    · simp only [Config.consultOp] at hm
      split at hm <;> cases hm
      exact hquiet (.refl _) hself
    · cases hm
  | @spawned new _ hv hcs hb =>
    simp only [Config.consult] at hm
    split at hm
    · simp only [Config.consultOp] at hm
      split at hm <;> cases hm
      have hactive : ((c.tasks t).coroutines new).stage.isActive = false := by
        simp [Stage.isActive_eq, hv]
      exact h.idles (hcons.unblocked (Or.inr hactive)) rfl rfl hcs hb htasks hc (hsessions ▸ hself)
    · cases hm
  | @waited frame co s i _ hctl hcode hcs hb =>
    simp only [Config.consult, hctl, Config.consultOp] at hm
    split at hm
    · refine h.registers (hcons.unblocked (Or.inl (by rw [hctl]; rfl))) hcreated hm hcode
        (Or.inl rfl) hcs (fun e he => ?_) htasks hsessions hc
      rw [hb] at he
      rcases List.mem_append.mp he with he | he
      · exact Or.inl he
      · rw [List.mem_singleton.mp he]
        exact Or.inr ⟨rfl, _, rfl, rfl⟩
    · cases hm
  | @threaded frame co s i _ hctl hcode hcs hb =>
    simp only [Config.consult, hctl, Config.consultOp] at hm
    split at hm
    · refine h.registers (hcons.unblocked (Or.inl (by rw [hctl]; rfl))) hcreated hm hcode
        (Or.inr rfl) hcs (fun e he => Or.inl ?_) htasks hsessions hc
      rwa [hb] at he
    · cases hm
  | @cancelled frame co wait ready _ hctl hstage hcancel hstatus hcs hb =>
    simp only [Config.consult, hctl, hstage, hcancel, hstatus, and_self, if_true] at hm
    cases hm
    exact h.cancels (hcons.unblocked (Or.inl (by rw [hctl]; rfl))) hstage hcancel hcs hb htasks
      hsessions hc
  | @woken frame co wait _ hctl hstage hn hcs hb =>
    simp only [Config.consult, hctl, hstage, if_neg hn] at hm
    refine h.leaves (hcons.unblocked (Or.inl (by rw [hctl]; rfl))) hm ?_ ?_ ?_ hcs hb htasks
      hsessions hc
    · rw [Coroutine.opens, hstage]
      rfl
    · exact List.Subset.refl _
    · rfl
  | @slept frame co wait _ hctl hstage hn hcs hb =>
    simp only [Config.consult, hctl, hstage, if_neg hn] at hm
    rcases recheck_eq hm with ⟨hr, _⟩ | ⟨_, _, hmc⟩
    · cases hr
    rw [hmc] at hsessions
    refine h.sleeps (hcons.unblocked (Or.inl (by rw [hctl]; rfl))) ?_ ?_ ?_
      ((h.fits t co).waiting wait hstage) hcs hb htasks hsessions hc
    · rw [Coroutine.opens, hstage]
      rfl
    · exact List.Subset.refl _
    · rfl
  | @settled frame co s rest _ hctl hcode hcancelling hcs hb =>
    simp only [Config.consult, hctl, Config.consultOp, hcancelling] at hm
    refine h.leaves (hcons.unblocked (Or.inl (by rw [hctl]; rfl))) hm ?_ ?_ rfl hcs hb htasks
      hsessions hc
    · rw [Coroutine.opens, hcode, hcancelling]
      rfl
    · rw [hcancelling]
      exact List.subset_cons_self _ _
  | @unsettled frame co s rest _ hctl hcode hcancelling hcs hb =>
    simp only [Config.consult, hctl, Config.consultOp, hcancelling] at hm
    rcases recheck_eq hm with ⟨hr, _⟩ | ⟨_, _, hmc⟩
    · cases hr
    rw [hmc] at hsessions
    have hmem : s ∈ ((c.tasks t).coroutines co).cancelling := by
      rw [hcancelling]
      exact List.mem_cons_self
    refine h.sleeps (hcons.unblocked (Or.inl (by rw [hctl]; rfl))) ?_ ?_ rfl
      ((h.fits t co).cancelling s hmem) hcs hb htasks hsessions hc
    · rw [Coroutine.opens, hcode, hcancelling]
      rfl
    · rw [hcancelling]
      exact List.subset_cons_self _ _
  | @unparked frame co s _ hctl hstage hcs hb =>
    simp only [Config.consult, hctl, hstage] at hm
    refine h.leaves (hcons.unblocked (Or.inl (by rw [hctl]; rfl))) hm ?_ ?_ ?_ hcs hb htasks
      hsessions hc
    · rw [Coroutine.opens, hstage]
      rfl
    · exact List.Subset.refl _
    · rfl
  | @finished frame co entered _ hctl hcode hcancelling hne hcs hb =>
    simp only [Config.consult, hctl, Config.consultOp] at hm
    split at hm <;> cases hm
    exact h.idles (hcons.unblocked (Or.inl (by rw [hctl]; rfl))) rfl rfl hcs hb htasks hc
      (hsessions ▸ hself)
  | @parked frame _ hctl hcode hcancelling hcs hb =>
    simp only [Config.consult, hctl, Config.consultOp] at hm
    split at hm <;> cases hm
    refine h.idles (hcons.unblocked (Or.inl (by rw [hctl]; rfl))) ?_ ?_ hcs hb htasks hc
      (hsessions ▸ hself)
    · rfl
    · exact hcancelling
  | @panicked frame _ hctl hq =>
    simp only [Config.consult, hctl, Config.consultOp] at hm
    split at hm <;> cases hm
    exact hquiet hq hself
  | @delivered reason _ hctl hparked hcs hb =>
    simp only [Config.consult, if_pos hparked] at hm
    cases hm
    have hactive : ((c.tasks t).coroutines main).stage.isActive = false := by
      simp [Stage.isActive_eq, hparked]
    exact h.idles (hcons.unblocked (Or.inr hactive)) rfl rfl hcs hb htasks hc
      (hsessions ▸ win_keeps h.sound (by simp))
  | @undelivered reason _ hctl hparked hq =>
    simp only [Config.consult, hparked] at hm
    cases hm
    exact hquiet hq hself

end Run

end Scheduler
