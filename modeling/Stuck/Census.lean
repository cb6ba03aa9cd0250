import Mathlib.Data.Nat.Count
import Mathlib.Algebra.Order.BigOperators.Group.Finset
import Mathlib.Data.Fintype.Basic

/-! Counting the members of a growing population that satisfy a predicate.
`Nat.count` counts below a bound; the lemmas say how one update or one newcomer moves it. -/
namespace Census

variable {α : Type*}

theorem count_congr {p q : ℕ → Prop} [DecidablePred p] [DecidablePred q] {n : ℕ}
    (h : ∀ i < n, p i ↔ q i) : Nat.count p n = Nat.count q n := by
  induction n with
  | zero => simp
  | succ n ih =>
    have hn := h n (Nat.lt_succ_self n)
    rw [Nat.count_succ, Nat.count_succ, ih fun i hi => h i (by omega)]
    simp only [hn]

/-- One member below the bound changes: the count moves by its old and new contribution. -/
theorem count_update {p : α → Prop} [DecidablePred p] (f : ℕ → α) {i n : ℕ} (hi : i < n)
    (a : α) :
    Nat.count (fun j => p (Function.update f i a j)) n + (if p (f i) then 1 else 0) =
      Nat.count (fun j => p (f j)) n + (if p a then 1 else 0) := by
  induction n with
  | zero => omega
  | succ n ih =>
    rw [Nat.count_succ, Nat.count_succ]
    by_cases hn : i = n
    · subst hn
      have hsame : Nat.count (fun j => p (Function.update f i a j)) i =
          Nat.count (fun j => p (f j)) i :=
        count_congr fun j hj => by rw [Function.update_of_ne (by omega)]
      simp only [Function.update_self, hsame]
      omega
    · have := ih (by omega)
      rw [Function.update_of_ne (Ne.symm hn)]
      omega

/-- A newcomer at the bound. -/
theorem count_update_succ {p : α → Prop} [DecidablePred p] (f : ℕ → α) (n : ℕ) (a : α) :
    Nat.count (fun j => p (Function.update f n a j)) (n + 1) =
      Nat.count (fun j => p (f j)) n + (if p a then 1 else 0) := by
  rw [Nat.count_succ, Function.update_self]
  congr 1
  exact count_congr fun j hj => by rw [Function.update_of_ne (by omega)]

/-- An update that keeps the predicate keeps the count. -/
theorem count_update_same {p : α → Prop} [DecidablePred p] (f : ℕ → α) {i n : ℕ} {a : α}
    (h : p a ↔ p (f i)) :
    Nat.count (fun j => p (Function.update f i a j)) n = Nat.count (fun j => p (f j)) n := by
  apply count_congr
  intro j _
  by_cases hj : j = i
  · subst hj; rw [Function.update_self]; exact h
  · rw [Function.update_of_ne hj]

theorem count_pos_iff {p : ℕ → Prop} [DecidablePred p] {n : ℕ} :
    0 < Nat.count p n ↔ ∃ i < n, p i := by
  constructor
  · intro h
    by_contra hn
    push Not at hn
    have : Nat.count p n = Nat.count (fun _ => False) n :=
      count_congr fun i hi => by simp [hn i hi]
    simp [this] at h
  · rintro ⟨i, hi, hp⟩
    have := Nat.count_strict_mono hp hi
    omega

section Members

variable {ι : Type*} [Fintype ι] [DecidableEq ι] (p : α → Prop) [DecidablePred p]

/-- The number of members of a fixed population that satisfy `p`. -/
def tally (f : ι → α) : ℕ := ∑ i, if p (f i) then 1 else 0

theorem tally_update (f : ι → α) (i : ι) (a : α) :
    tally p (Function.update f i a) + (if p (f i) then 1 else 0) =
      tally p f + (if p a then 1 else 0) := by
  have hrest : ∑ j ∈ Finset.univ.erase i, (if p (Function.update f i a j) then 1 else 0) =
      ∑ j ∈ Finset.univ.erase i, (if p (f j) then 1 else 0) := by
    refine Finset.sum_congr rfl fun j hj => ?_
    rw [Function.update_of_ne (Finset.ne_of_mem_erase hj)]
  have hnew := Finset.add_sum_erase Finset.univ
    (fun j => if p (Function.update f i a j) then 1 else 0) (Finset.mem_univ i)
  have hold := Finset.add_sum_erase Finset.univ (fun j => if p (f j) then 1 else 0)
    (Finset.mem_univ i)
  simp only [Function.update_self] at hnew
  unfold tally
  omega

omit [DecidableEq ι] in
theorem tally_pos {f : ι → α} {i : ι} (h : p (f i)) : 0 < tally p f := by
  have := Finset.single_le_sum (f := fun j => if p (f j) then 1 else 0)
    (fun _ _ => Nat.zero_le _) (Finset.mem_univ i)
  simp only [h, if_true] at this
  exact this

/-- Two members that satisfy `p` count twice. -/
theorem two_le_tally {f : ι → α} {i j : ι} (hij : i ≠ j) (hi : p (f i)) (hj : p (f j)) :
    2 ≤ tally p f := by
  have hpair := Finset.sum_le_sum_of_subset_of_nonneg
    (f := fun k => if p (f k) then 1 else 0) (Finset.subset_univ {i, j})
    (fun _ _ _ => Nat.zero_le _)
  rw [Finset.sum_pair hij] at hpair
  simp only [hi, hj, if_true] at hpair
  exact hpair

end Members

end Census
