import Stuck.TransitionSystem
import Mathlib.Order.Basic

/-! Systems that come to rest by themselves. Some of the events are steps of the system, and the
others come from outside; a run of own steps that cannot go on has come to rest. -/
namespace TransitionSystem

variable {σ ε : Type*} {M : System σ ε} {own : ε → Prop} {I : σ → Prop} {measure : σ → ℕ}

/-- No step of the system's own is left. -/
def System.Rests (M : System σ ε) (own : ε → Prop) (s : σ) : Prop := ∀ e, own e → M.step s e = none

/-- However its own steps are ordered, the system takes at most `n` of them and rests in `P`. -/
def System.Settles (M : System σ ε) (own : ε → Prop) (n : ℕ) (P : σ → Prop) (s : σ) : Prop :=
  ∀ es t, (∀ e ∈ es, own e) → M.runFrom s es = some t → es.length ≤ n ∧ (M.Rests own t → P t)

/-- Every own step from a state with the invariant comes closer to rest. -/
structure Descends (M : System σ ε) (own : ε → Prop) (I : σ → Prop) (measure : σ → ℕ) : Prop where
  keeps : ∀ s e t, I s → M.step s e = some t → I t
  lowers : ∀ s e t, I s → own e → M.step s e = some t → measure t < measure s

theorem Descends.run_bounded (h : Descends M own I measure) {s t : σ} {es : List ε} (hs : I s)
    (ho : ∀ e ∈ es, own e) (hr : M.runFrom s es = some t) :
    es.length + measure t ≤ measure s := by
  induction es generalizing s with
  | nil =>
    cases hr
    simp
  | cons e es ih =>
    obtain ⟨u, hu, hrest⟩ := run_cons.mp hr
    have hlt := h.lowers s e u hs (ho e List.mem_cons_self) hu
    have hle := ih (h.keeps s e u hs hu) (fun f hf => ho f (List.mem_cons_of_mem e hf)) hrest
    rw [List.length_cons]
    omega

/-- The rule of termination: the own steps descend, and whoever rests has `P`. -/
theorem Descends.settles (h : Descends M own I measure) {P : σ → Prop}
    (hP : ∀ s, I s → M.Rests own s → P s) {s : σ} (hs : I s) :
    M.Settles own (measure s) P s := by
  intro es t ho hr
  have hle := h.run_bounded hs ho hr
  have ht : I t := run_invariant h.keeps hs hr
  exact ⟨by omega, hP t ht⟩

/-- A system that settles does get to rest. -/
theorem System.Settles.rests {n : ℕ} {P : σ → Prop} {s : σ} (h : M.Settles own n P s) :
    ∃ es t, (∀ e ∈ es, own e) ∧ M.runFrom s es = some t ∧ M.Rests own t ∧ P t := by
  induction n generalizing s with
  | zero =>
    have hrest : M.Rests own s := by
      intro e he
      cases hs : M.step s e with
      | none => rfl
      | some t =>
        have hlen := (h [e] t (by simpa using he) (by simpa using hs)).1
        simp at hlen
    exact ⟨[], s, by simp, rfl, hrest, (h [] s (by simp) rfl).2 hrest⟩
  | succ n ih =>
    by_cases hrest : M.Rests own s
    · exact ⟨[], s, by simp, rfl, hrest, (h [] s (by simp) rfl).2 hrest⟩
    · simp only [System.Rests, not_forall] at hrest
      obtain ⟨e, he, hne⟩ := hrest
      obtain ⟨t, ht⟩ := Option.ne_none_iff_exists'.mp hne
      have htail : M.Settles own n P t := by
        intro es u ho hr
        have hall : ∀ f ∈ e :: es, own f := by
          intro f hf
          rcases List.mem_cons.mp hf with rfl | hf
          · exact he
          · exact ho f hf
        have hlong := h (e :: es) u hall (run_cons.mpr ⟨t, ht, hr⟩)
        exact ⟨Nat.le_of_succ_le_succ hlong.1, hlong.2⟩
      obtain ⟨es, u, ho, hr, hrest, hp⟩ := ih htail
      refine ⟨e :: es, u, ?_, run_cons.mpr ⟨t, ht, hr⟩, hrest, hp⟩
      intro f hf
      rcases List.mem_cons.mp hf with rfl | hf
      · exact he
      · exact ho f hf

end TransitionSystem
