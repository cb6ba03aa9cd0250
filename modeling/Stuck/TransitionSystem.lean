import Mathlib.Data.List.Induction
import Mathlib.Data.Option.Basic

/-! Event-driven transition systems with a partial step function.
A run is a finite list of events that all fire. The rules below turn a one-step
argument into a statement about every state a run visits, with or without a
condition on its steps. -/
namespace TransitionSystem

variable {σ ε τ δ : Type*}

/-- The event `e` fires in `s` when `step s e` is a state. -/
structure System (σ ε : Type*) where
  init : σ
  step : σ → ε → Option σ

def System.runFrom (M : System σ ε) (s : σ) (es : List ε) : Option σ := es.foldlM M.step s

@[simp] theorem System.runFrom_nil (M : System σ ε) (s : σ) : M.runFrom s [] = some s := rfl

theorem System.runFrom_append (M : System σ ε) (s : σ) (es fs : List ε) :
    M.runFrom s (es ++ fs) = (M.runFrom s es).bind fun t => M.runFrom t fs := by
  simp only [runFrom, List.foldlM_append]
  rfl

@[simp] theorem System.runFrom_singleton (M : System σ ε) (s : σ) (e : ε) :
    M.runFrom s [e] = M.step s e := by
  simp [runFrom]

inductive Reachable (M : System σ ε) : σ → Prop where
  | init : Reachable M M.init
  | step {s t e} : Reachable M s → M.step s e = some t → Reachable M t

/-- A run carries the proof that each of its events fires. -/
structure Execution (M : System σ ε) where
  events : List ε
  fires : (M.runFrom M.init events).isSome

variable {M : System σ ε}

/-- `s` is a state of the run, the first and the last included. -/
def Execution.Visits (ρ : Execution M) (s : σ) : Prop :=
  ∃ es, es <+: ρ.events ∧ M.runFrom M.init es = some s

/-- `e` is a step of the run and `s` the state before it. -/
def Execution.Takes (ρ : Execution M) (s : σ) (e : ε) : Prop :=
  ∃ es, es ++ [e] <+: ρ.events ∧ M.runFrom M.init es = some s

theorem run_prefix {s u : σ} {es fs : List ε} (h : M.runFrom s fs = some u) (hp : es <+: fs) :
    ∃ t, M.runFrom s es = some t := by
  obtain ⟨rest, rfl⟩ := hp
  rw [System.runFrom_append] at h
  obtain ⟨t, ht, _⟩ := Option.bind_eq_some_iff.mp h
  exact ⟨t, ht⟩

theorem run_snoc {s u : σ} {es : List ε} {e : ε} (h : M.runFrom s (es ++ [e]) = some u) :
    ∃ t, M.runFrom s es = some t ∧ M.step t e = some u := by
  rw [System.runFrom_append] at h
  obtain ⟨t, ht, hu⟩ := Option.bind_eq_some_iff.mp h
  exact ⟨t, ht, by simpa using hu⟩

theorem run_cons {s u : σ} {es : List ε} {e : ε} :
    M.runFrom s (e :: es) = some u ↔ ∃ t, M.step s e = some t ∧ M.runFrom t es = some u :=
  Option.bind_eq_some_iff

theorem run_trans {s t u : σ} {es fs : List ε} (h : M.runFrom s es = some t)
    (hu : M.runFrom t fs = some u) : M.runFrom s (es ++ fs) = some u := by
  rw [System.runFrom_append, h]
  exact hu

/-- What every step keeps, a run from any state keeps. -/
theorem run_invariant {I : σ → Prop} (hI : ∀ s e t, I s → M.step s e = some t → I t) {s t : σ}
    {es : List ε} (h : I s) (hr : M.runFrom s es = some t) : I t := by
  induction es generalizing s with
  | nil =>
    cases hr
    exact h
  | cons e es ih =>
    obtain ⟨m, hm, hrest⟩ := run_cons.mp hr
    exact ih (hI s e m h hm) hrest

theorem Reachable.run {s t : σ} {es : List ε} (h : Reachable M s)
    (hr : M.runFrom s es = some t) : Reachable M t :=
  run_invariant (fun _ _ _ => .step) h hr

theorem run_reachable {s : σ} (es : List ε) (h : M.runFrom M.init es = some s) :
    Reachable M s := Reachable.init.run h

theorem Reachable.exists_run {s : σ} (h : Reachable M s) :
    ∃ es, M.runFrom M.init es = some s := by
  induction h with
  | init => exact ⟨[], rfl⟩
  | @step s t e _ hs ih =>
    obtain ⟨es, hes⟩ := ih
    exact ⟨es ++ [e], by simp [System.runFrom_append, hes, hs]⟩

theorem Execution.reachable (ρ : Execution M) {s : σ} (h : ρ.Visits s) : Reachable M s := by
  obtain ⟨es, _, hs⟩ := h
  exact run_reachable es hs

theorem Reachable.visited {s : σ} (h : Reachable M s) : ∃ ρ : Execution M, ρ.Visits s := by
  obtain ⟨es, hes⟩ := h.exists_run
  exact ⟨⟨es, by simp [hes]⟩, es, List.prefix_refl _, hes⟩

/-- The state in which the run ends. -/
def Execution.final (ρ : Execution M) : σ := (M.runFrom M.init ρ.events).get ρ.fires

theorem Execution.final_reachable (ρ : Execution M) : Reachable M ρ.final :=
  run_reachable ρ.events (Option.some_get ρ.fires).symm

theorem Execution.visits_final (ρ : Execution M) : ρ.Visits ρ.final :=
  ⟨ρ.events, List.prefix_refl _, (Option.some_get ρ.fires).symm⟩

theorem Execution.takes_visits (ρ : Execution M) {s : σ} {e : ε} (h : ρ.Takes s e) :
    ρ.Visits s := by
  obtain ⟨es, hp, hs⟩ := h
  exact ⟨es, (List.prefix_append es [e]).trans hp, hs⟩

theorem Execution.takes_step (ρ : Execution M) {s : σ} {e : ε} (h : ρ.Takes s e) :
    ∃ t, M.step s e = some t ∧ ρ.Visits t := by
  obtain ⟨es, hp, hs⟩ := h
  obtain ⟨u, hu⟩ := Option.isSome_iff_exists.mp ρ.fires
  obtain ⟨t, ht⟩ := run_prefix hu hp
  obtain ⟨s', hs', hst⟩ := run_snoc ht
  rw [hs] at hs'
  cases hs'
  exact ⟨t, hst, es ++ [e], hp, ht⟩

/-- The induction rule for one run: what each of its steps keeps holds in each of its states. -/
theorem Execution.induction (ρ : Execution M) {P : σ → Prop} (h0 : P M.init)
    (hs : ∀ s e t, ρ.Takes s e → M.step s e = some t → P s → P t) {s : σ}
    (h : ρ.Visits s) : P s := by
  obtain ⟨es, hp, hr⟩ := h
  induction es using List.reverseRecOn generalizing s with
  | nil => cases hr; exact h0
  | append_singleton es e ih =>
    obtain ⟨t, ht, hst⟩ := run_snoc hr
    exact hs t e s ⟨es, hp, ht⟩ hst (ih ((List.prefix_append es [e]).trans hp) ht)

/-- The invariant rule: `I` holds at the start and every step keeps it. -/
theorem Reachable.invariant {I : σ → Prop} (h0 : I M.init)
    (hs : ∀ s e t, I s → M.step s e = some t → I t) {s : σ} (h : Reachable M s) : I s := by
  induction h with
  | init => exact h0
  | step _ hst ih => exact hs _ _ _ ih hst

/-- The same rule over a base invariant that is already known of every reachable state. -/
theorem Reachable.invariant_over {B I : σ → Prop} (hB : ∀ s, Reachable M s → B s)
    (h0 : I M.init) (hs : ∀ s e t, B s → I s → M.step s e = some t → I t) {s : σ}
    (h : Reachable M s) : I s := by
  induction h with
  | init => exact h0
  | step hr hst ih => exact hs _ _ _ (hB _ hr) ih hst

/-- `P` survives every step that is not `Bad`, so it holds along a run without `Bad` steps. -/
theorem Execution.guarded (ρ : Execution M) {B P : σ → Prop} {Bad : σ → ε → Prop}
    (hB : ∀ s, Reachable M s → B s) (h0 : P M.init)
    (hs : ∀ s e t, B s → P s → ¬ Bad s e → M.step s e = some t → P t)
    (hg : ∀ s e, ρ.Takes s e → ¬ Bad s e) : ∀ s, ρ.Visits s → P s := fun _ h =>
  ρ.induction h0 (fun s e t he hst hp =>
    hs s e t (hB s (ρ.reachable (ρ.takes_visits he))) hp (hg s e he) hst) h

/-- When a `Bad` step moreover always breaks `P`, the runs on which `P` holds throughout
are exactly the runs without a `Bad` step. -/
theorem Execution.exact (ρ : Execution M) {B P : σ → Prop} {Bad : σ → ε → Prop}
    (hB : ∀ s, Reachable M s → B s) (h0 : P M.init)
    (hs : ∀ s e t, B s → P s → M.step s e = some t → (P t ↔ ¬ Bad s e)) :
    (∀ s, ρ.Visits s → P s) ↔ ∀ s e, ρ.Takes s e → ¬ Bad s e := by
  constructor
  · intro h s e he
    obtain ⟨t, hst, ht⟩ := ρ.takes_step he
    have hv := ρ.takes_visits he
    exact (hs s e t (hB s (ρ.reachable hv)) (h s hv) hst).mp (h t ht)
  · intro hg
    exact ρ.guarded hB h0 (fun s e t hb hp hn hst => (hs s e t hb hp hst).mpr hn) hg

/-- The same for a `P` that follows from an invariant `I` and is broken by a `Bad` step. -/
theorem Execution.exact_under (ρ : Execution M) {B I P : σ → Prop} {Bad : σ → ε → Prop}
    (hB : ∀ s, Reachable M s → B s) (h0 : I M.init) (hI : ∀ s, I s → P s)
    (hs : ∀ s e t, B s → I s → ¬ Bad s e → M.step s e = some t → I t)
    (hb : ∀ s e t, B s → I s → Bad s e → M.step s e = some t → ¬ P t) :
    (∀ s, ρ.Visits s → P s) ↔ ∀ s e, ρ.Takes s e → ¬ Bad s e := by
  constructor
  · intro h
    have hcase : ∀ s e, ρ.Takes s e → I s → ¬ Bad s e := by
      intro s e he hi hbad
      obtain ⟨t, hst, ht⟩ := ρ.takes_step he
      exact hb s e t (hB s (ρ.reachable (ρ.takes_visits he))) hi hbad hst (h t ht)
    intro s e he
    refine hcase s e he (ρ.induction h0 (fun u f t hu hst hi => ?_) (ρ.takes_visits he))
    exact hs u f t (hB u (ρ.reachable (ρ.takes_visits hu))) hi (hcase u f hu hi) hst
  · intro hg s hv
    exact hI s (ρ.guarded hB h0 hs hg s hv)

/-- Backwards along a run: what no step can restore has held ever since. -/
theorem Reachable.held {P : σ → Prop}
    (hs : ∀ s e t, Reachable M s → M.step s e = some t → P t → P s) {s t : σ} {es : List ε}
    (h : Reachable M s) (hr : M.runFrom s es = some t) (hp : P t) : P s := by
  induction es generalizing s with
  | nil =>
    cases hr
    exact hp
  | cons e es ih =>
    obtain ⟨u, hu, ht⟩ := Option.bind_eq_some_iff.mp hr
    exact hs s e u h hu (ih (.step h hu) ht)

/-- When what a `Bad` step breaks moreover stays broken, the last state of the run tells. -/
theorem Execution.exact_final (ρ : Execution M) {B P : σ → Prop} {Bad : σ → ε → Prop}
    (hB : ∀ s, Reachable M s → B s) (h0 : P M.init)
    (hs : ∀ s e t, B s → M.step s e = some t → (P t ↔ P s ∧ ¬ Bad s e)) :
    P ρ.final ↔ ∀ s e, ρ.Takes s e → ¬ Bad s e := by
  constructor
  · intro hf s e ⟨es, ⟨rest, hes⟩, hr⟩
    have hrun : M.runFrom M.init (es ++ [e] ++ rest) = some ρ.final := by
      rw [hes]
      exact (Option.some_get ρ.fires).symm
    rw [System.runFrom_append] at hrun
    obtain ⟨t, ht, hrest⟩ := Option.bind_eq_some_iff.mp hrun
    obtain ⟨s', hs', hst⟩ := run_snoc ht
    rw [hr] at hs'
    cases hs'
    have hp : P t := (run_reachable _ ht).held
      (fun s e t h hst hp => ((hs s e t (hB s h) hst).mp hp).1) hrest hf
    exact ((hs s e t (hB s (run_reachable es hr)) hst).mp hp).2
  · intro hg
    exact ρ.guarded hB h0 (fun s e t hb hp hn hst => (hs s e t hb hst).mpr ⟨hp, hn⟩) hg _
      ρ.visits_final

/-- Where each step from a state with the invariant is a step of `N` or none, so is a run. -/
theorem run_simulated {N : System τ δ} {I : σ → Prop} {map : σ → τ}
    (hI : ∀ s e t, I s → M.step s e = some t → I t)
    (hstep : ∀ s e t, I s → M.step s e = some t →
      map t = map s ∨ ∃ f, N.step (map s) f = some (map t)) {s t : σ} {es : List ε} (h : I s)
    (hr : M.runFrom s es = some t) : ∃ fs, N.runFrom (map s) fs = some (map t) := by
  induction es generalizing s with
  | nil =>
    cases hr
    exact ⟨[], rfl⟩
  | cons e es ih =>
    obtain ⟨m, hm, hrest⟩ := run_cons.mp hr
    obtain ⟨fs, hfs⟩ := ih (hI s e m h hm) hrest
    rcases hstep s e m h hm with he | ⟨f, hf⟩
    · exact ⟨fs, he ▸ hfs⟩
    · exact ⟨f :: fs, run_cons.mpr ⟨map m, hf, hfs⟩⟩

/-- Every step of `M` is, through `map`, a step of `N` or none. -/
structure Refinement (M : System σ ε) (N : System τ δ) where
  map : σ → τ
  init : map M.init = N.init
  step : ∀ s e t, M.step s e = some t → map t = map s ∨ ∃ f, N.step (map s) f = some (map t)

theorem Refinement.run {N : System τ δ} (R : Refinement M N) {s t : σ} {es : List ε}
    (h : M.runFrom s es = some t) : ∃ fs, N.runFrom (R.map s) fs = some (R.map t) :=
  run_simulated (I := fun _ => True) (fun _ _ _ _ _ => trivial) (fun s e t _ => R.step s e t)
    trivial h

/-- `P` of every step of the run from `s` along the events. -/
def System.AllSteps (M : System σ ε) (P : σ → ε → Prop) : σ → List ε → Prop
  | _, [] => True
  | s, e :: es => P s e ∧ ∀ t, M.step s e = some t → M.AllSteps P t es

instance System.AllSteps.decidable (P : σ → ε → Prop) [∀ s e, Decidable (P s e)] :
    ∀ s es, Decidable (M.AllSteps P s es)
  | _, [] => isTrue trivial
  | s, e :: es =>
    match h : M.step s e with
    | none => decidable_of_iff (P s e) (by simp [AllSteps, h])
    | some t =>
      haveI := AllSteps.decidable P t es
      decidable_of_iff (P s e ∧ M.AllSteps P t es) (by simp [AllSteps, h])

theorem System.AllSteps.takes {P : σ → ε → Prop} {s u : σ} {es fs : List ε} {e : ε}
    (h : M.AllSteps P s es) (hp : fs ++ [e] <+: es) (hr : M.runFrom s fs = some u) : P u e := by
  induction fs generalizing s es with
  | nil =>
    cases hr
    obtain ⟨rest, rfl⟩ := hp
    exact h.1
  | cons f fs ih =>
    obtain ⟨rest, rfl⟩ := hp
    obtain ⟨t, ht, hu⟩ := Option.bind_eq_some_iff.mp hr
    exact ih (h.2 t ht) (List.prefix_append _ rest) hu

theorem Execution.takes_of_allSteps (ρ : Execution M) {P : σ → ε → Prop}
    (h : M.AllSteps P M.init ρ.events) : ∀ s e, ρ.Takes s e → P s e := by
  rintro s e ⟨es, hp, hr⟩
  exact h.takes hp hr

end TransitionSystem
