import Mathlib.Data.Nat.Bitwise
import Mathlib.Algebra.BigOperators.Group.Finset.Piecewise
import Mathlib.Data.Nat.ModEq
import Mathlib.Data.Multiset.Basic
import Mathlib.Tactic.Abel

/-! Hierarchical timing wheels over the natural numbers. An entry that expires at `e` waits at
time `t` either in a ring of `2 ^ k` lists, one for each of the next ticks, or in a coarser ring,
under the digit of `e` above the bit `s`, until the time reaches the start of that digit. -/
namespace TimingWheel

/-- Listed in the ring of the next `2 ^ k` ticks. -/
structure Near (k t e i : ℕ) : Prop where
  reached : t ≤ e
  within : e < t + 2 ^ k
  slot : e % 2 ^ k = i

/-- Listed under the digit `v` of width `b` above the bit `s`: time and expiry agree above that
digit, and the digit of the expiry is still to come. -/
structure Far (s b t e v : ℕ) : Prop where
  agree : e / 2 ^ (s + b) = t / 2 ^ (s + b)
  ahead : t / 2 ^ s < e / 2 ^ s
  digit : e / 2 ^ s % 2 ^ b = v

variable {k s b t e i v : ℕ}

theorem Near.tick (h : Near k t e i) (hn : t < e) : Near k (t + 1) e i :=
  ⟨hn, by have := h.within; omega, h.slot⟩

/-- An entry in the list of this very tick expires now. -/
theorem Near.expired (h : Near k t e i) (hi : t % 2 ^ k = i) : e = t := by
  have hr := h.reached
  have hw := h.within
  have hmod : e % 2 ^ k = t % 2 ^ k := h.slot.trans hi.symm
  have hdvd : 2 ^ k ∣ e - t := (Nat.modEq_iff_dvd' hr).mp hmod.symm
  have hlt : e - t < 2 ^ k := by omega
  have := Nat.eq_zero_of_dvd_of_lt hdvd hlt
  omega

theorem Near.later (h : Near k t e i) (hi : t % 2 ^ k ≠ i) : t < e := by
  have hr := h.reached
  have hne : e ≠ t := by
    rintro rfl
    exact hi h.slot
  omega

theorem div_two_pow_add (x s b : ℕ) : x / 2 ^ (s + b) = x / 2 ^ s / 2 ^ b := by
  rw [Nat.pow_add, Nat.div_div_eq_div_mul]

theorem div_two_pow_split (x s b : ℕ) :
    x / 2 ^ s = 2 ^ b * (x / 2 ^ (s + b)) + x / 2 ^ s % 2 ^ b := by
  rw [div_two_pow_add, Nat.div_add_mod]

theorem Far.lt (h : Far s b t e v) : t < e :=
  Nat.lt_of_not_le fun hle => absurd h.ahead (Nat.not_lt.mpr (Nat.div_le_div_right hle))

theorem Far.pos (h : Far s b t e v) : 0 < v := by
  have he := div_two_pow_split e s b
  have ht := div_two_pow_split t s b
  have ha := h.ahead
  rw [h.agree, h.digit] at he
  omega

theorem Far.lt_width (h : Far s b t e v) : v < 2 ^ b := by
  have := Nat.mod_lt (e / 2 ^ s) (Nat.two_pow_pos b)
  rwa [h.digit] at this

/-- The entry stays where it is while the digit of its expiry has not come. -/
theorem Far.tick (h : Far s b t e v) (hn : (t + 1) / 2 ^ s < e / 2 ^ s) : Far s b (t + 1) e v := by
  refine ⟨?_, hn, h.digit⟩
  have hle : t + 1 ≤ e := h.lt
  have hlow : t / 2 ^ (s + b) ≤ (t + 1) / 2 ^ (s + b) := Nat.div_le_div_right (Nat.le_succ t)
  have hhigh : (t + 1) / 2 ^ (s + b) ≤ e / 2 ^ (s + b) := Nat.div_le_div_right hle
  have := h.agree
  omega

theorem dvd_of_div_lt {x : ℕ} (h : x / 2 ^ s < (x + 1) / 2 ^ s) : 2 ^ s ∣ x + 1 := by
  by_contra hn
  rw [Nat.succ_div_of_not_dvd hn] at h
  omega

/-- When the digit of the expiry comes, all the digits below it have just turned over to zero. -/
theorem Far.due (h : Far s b t e v) (hn : ¬ (t + 1) / 2 ^ s < e / 2 ^ s) :
    2 ^ s ∣ t + 1 ∧ (t + 1) / 2 ^ s % 2 ^ b = v := by
  have hle : t + 1 ≤ e := h.lt
  have hhigh : (t + 1) / 2 ^ s ≤ e / 2 ^ s := Nat.div_le_div_right hle
  have heq : (t + 1) / 2 ^ s = e / 2 ^ s := by omega
  have ha := h.ahead
  exact ⟨dvd_of_div_lt (by omega), by rw [heq]; exact h.digit⟩

theorem exists_first_digit {b n x : ℕ} (h0 : x ≠ 0) (hx : x < 2 ^ (b * n)) :
    ∃ i < n, 2 ^ (b * i) ∣ x ∧ x / 2 ^ (b * i) % 2 ^ b ≠ 0 := by
  induction n generalizing x with
  | zero => simp at hx; omega
  | succ n ih =>
    by_cases hm : x % 2 ^ b = 0
    · obtain ⟨y, rfl⟩ := Nat.dvd_of_mod_eq_zero hm
      have hy : y ≠ 0 := by
        rintro rfl
        exact h0 rfl
      have hlt : y < 2 ^ (b * n) := by
        rw [Nat.mul_succ, Nat.add_comm, Nat.pow_add] at hx
        exact Nat.lt_of_mul_lt_mul_left hx
      obtain ⟨i, hi, hdvd, hdigit⟩ := ih hy hlt
      have hpow : 2 ^ (b * (i + 1)) = 2 ^ b * 2 ^ (b * i) := by
        rw [Nat.mul_succ, Nat.add_comm, Nat.pow_add]
      refine ⟨i + 1, by omega, hpow ▸ Nat.mul_dvd_mul_left _ hdvd, ?_⟩
      rw [hpow, Nat.mul_div_mul_left _ _ (Nat.two_pow_pos b)]
      exact hdigit
    · exact ⟨0, by omega, by simp, by simpa using hm⟩

/-- Setting the bits below `k` keeps just what is above them. -/
theorem or_mask_eq_iff (x y k : ℕ) :
    x ||| (2 ^ k - 1) = y ||| (2 ^ k - 1) ↔ x / 2 ^ k = y / 2 ^ k := by
  constructor
  · intro h
    apply Nat.eq_of_testBit_eq
    intro j
    have hj := congrArg (Nat.testBit · (k + j)) h
    have hk : ¬ k + j < k := by omega
    simpa [hk, Nat.testBit_two_pow_sub_one, Nat.testBit_div_two_pow, Nat.add_comm] using hj
  · intro h
    apply Nat.eq_of_testBit_eq
    intro j
    by_cases hj : j < k
    · simp [Nat.testBit_two_pow_sub_one, hj]
    · obtain ⟨d, rfl⟩ := Nat.exists_eq_add_of_le (Nat.le_of_not_lt hj)
      have hd := congrArg (Nat.testBit · d) h
      simpa [hj, Nat.testBit_two_pow_sub_one, Nat.testBit_div_two_pow, Nat.add_comm] using hd

section Lists

variable {ι α : Type*} {lists : ι → List α} {slots : Finset ι} {j : ι}

/-- Everything that is listed in the slots. -/
def listed (lists : ι → List α) (slots : Finset ι) : Multiset α :=
  ∑ i ∈ slots, (lists i : Multiset α)

theorem mem_listed {a : α} : a ∈ listed lists slots ↔ ∃ i ∈ slots, a ∈ lists i := by
  simp [listed, Multiset.mem_sum]

variable [DecidableEq ι]

variable (lists) in
theorem listed_update (hj : j ∈ slots) (list : List α) :
    listed (Function.update lists j list) slots + lists j = listed lists slots + list := by
  have hupdate : ∀ i, (Function.update lists j list i : Multiset α) =
      Function.update (fun i => (lists i : Multiset α)) j list i := by
    intro i
    by_cases hi : i = j
    · subst hi; simp
    · simp [Function.update_of_ne hi]
  have hsplit := Finset.add_sum_erase slots (fun i => (lists i : Multiset α)) hj
  simp only [listed, hupdate, Finset.sum_update_of_mem hj, ← hsplit, Finset.sdiff_singleton_eq_erase]
  abel

theorem listed_insert (hj : j ∈ slots) (a : α) :
    listed (Function.update lists j (lists j ++ [a])) slots = a ::ₘ listed lists slots := by
  have h := listed_update lists hj (lists j ++ [a])
  rw [← Multiset.coe_add, ← add_assoc, add_right_comm] at h
  rw [add_right_cancel h, add_comm]
  rfl

theorem listed_clear (hj : j ∈ slots) :
    listed (Function.update lists j []) slots + lists j = listed lists slots := by
  simpa using listed_update lists hj []

end Lists

end TimingWheel
