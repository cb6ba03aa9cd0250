import Stuck.Time
import Stuck.TimingWheel
import Mathlib.Tactic.IntervalCases

/-! Exactness of the timer: every registered session is woken once, in the tick of its deadline. -/
namespace Time

open TransitionSystem TimingWheel

variable {σ : Type*} {t t' : Timer σ}

theorem toNat_timeLeastValue : timeLeastValue.toNat = 2 ^ 14 := by decide

theorem toNat_and_timeLeastMask (x : UInt64) : (x &&& timeLeastMask).toNat = x.toNat % 2 ^ 14 := by
  have hm : timeLeastMask.toNat = 2 ^ 14 - 1 := by decide
  rw [UInt64.toNat_and, hm, Nat.and_two_pow_sub_one_eq_mod]

theorem toNat_and_timeLevelMask (x : UInt64) : (x &&& timeLevelMask).toNat = x.toNat % 2 ^ 10 := by
  have hm : timeLevelMask.toNat = 2 ^ 10 - 1 := by decide
  rw [UInt64.toNat_and, hm, Nat.and_two_pow_sub_one_eq_mod]

theorem toNat_shiftRight_least (x : UInt64) : (x >>> timeLeastShift).toNat = x.toNat / 2 ^ 14 := by
  have hs : timeLeastShift.toNat % 64 = 14 := by decide
  rw [UInt64.toNat_shiftRight, hs, Nat.shiftRight_eq_div_pow]

theorem toNat_shiftRight_level (x : UInt64) : (x >>> timeLevelShift).toNat = x.toNat / 2 ^ 10 := by
  have hs : timeLevelShift.toNat % 64 = 10 := by decide
  rw [UInt64.toNat_shiftRight, hs, Nat.shiftRight_eq_div_pow]

theorem toNat_pred {x : UInt64} (h : 0 < x.toNat) : (x - 1).toNat = x.toNat - 1 := by
  have hle : (1 : UInt64) ≤ x := UInt64.le_iff_toNat_le.mpr h
  rw [UInt64.toNat_sub_of_le _ _ hle]
  rfl

/-- The lists of the two arrays. -/
@[irreducible] def slots : Finset Slot :=
  (Finset.range (2 ^ 14)).image Slot.least ∪
    (Finset.range timeLevelCount ×ˢ Finset.range (2 ^ 10)).image fun p => Slot.level p.1 p.2

theorem mem_slots {slot : Slot} : slot ∈ slots ↔ slot.inRange = true := by
  have hv : timeLevelValue.toNat = 2 ^ 10 := by decide
  cases slot with
  | least index => simp [slots, Slot.inRange, toNat_timeLeastValue]
  | level i index => simp [slots, Slot.inRange, hv]

theorem list_setList (t : Timer σ) (list : List (Node σ)) (slot : Slot) :
    (t.setList list slot).list = Function.update t.list slot list := by
  funext other
  cases slot with
  | least index =>
    cases other with
    | least j => by_cases h : j = index <;> simp [Timer.list, Timer.setList, Function.update, h]
    | level => simp [Timer.list, Timer.setList, Function.update]
  | level i index =>
    cases other with
    | least => simp [Timer.list, Timer.setList, Function.update]
    | level j k =>
      by_cases h : j = i <;> by_cases hk : k = index <;>
        simp [Timer.list, Timer.setList, Function.update, h, hk]

@[simp] theorem setList_time (t : Timer σ) (list : List (Node σ)) (slot : Slot) :
    (t.setList list slot).time = t.time := by cases slot <;> rfl

@[simp] theorem setList_woken (t : Timer σ) (list : List (Node σ)) (slot : Slot) :
    (t.setList list slot).woken = t.woken := by cases slot <;> rfl

theorem list_setTime (t : Timer σ) (time : UInt64) :
    ({ t with time := time } : Timer σ).list = t.list := by
  funext slot
  cases slot <;> rfl

/-- The nodes that wait in the lists. -/
def Timer.pending (t : Timer σ) : Multiset (Node σ) := listed t.list slots

/-- Where a node that expires at `expire` may wait at `time`. -/
def Slot.Holds (time expire : ℕ) : Slot → Prop
  | .least index => Near 14 time expire index
  | .level i index => Far (14 + 10 * i) 10 time expire (index + 1)

def Timer.Placed (t : Timer σ) : Prop :=
  ∀ slot, ∀ node ∈ t.list slot, slot.Holds t.time.toNat node.expire.toNat

/-- Between two operations every node is in its place and still to expire. -/
structure Wheel (t : Timer σ) : Prop where
  placed : t.Placed
  ahead : ∀ slot, ∀ node ∈ t.list slot, t.time.toNat < node.expire.toNat

theorem new_wheel : Wheel (Timer.new σ) where
  placed slot node hm := by cases slot <;> simp [Timer.new, Timer.list] at hm
  ahead slot node hm := by cases slot <;> simp [Timer.new, Timer.list] at hm

theorem toNat_exp2 {exp2 : UInt64} {level : ℕ} (he : exp2.toNat = 2 ^ (14 + 10 * level)) :
    (exp2 <<< timeLevelShift).toNat = 2 ^ (14 + 10 * level + 10) % 2 ^ 64 := by
  have hs : timeLevelShift.toNat % 64 = 10 := by decide
  rw [UInt64.toNat_shiftLeft, hs, he, Nat.shiftLeft_eq, ← Nat.pow_add]

/-- The comparison of a level is about the bits above it, also where the mask has wrapped. -/
theorem same_above {expire time exp2 : UInt64} {level : ℕ} (hl : level < 5)
    (he : exp2.toNat = 2 ^ (14 + 10 * level)) :
    expire ||| (exp2 <<< timeLevelShift - 1) = time ||| (exp2 <<< timeLevelShift - 1) ↔
      expire.toNat / 2 ^ (14 + 10 * level + 10) = time.toNat / 2 ^ (14 + 10 * level + 10) := by
  have hmask : (exp2 <<< timeLevelShift - 1).toNat = 2 ^ (14 + 10 * level + 10) - 1 := by
    rw [UInt64.toNat_sub, toNat_exp2 he]
    interval_cases level <;> rfl
  rw [← UInt64.toNat_inj, UInt64.toNat_or, UInt64.toNat_or, hmask, or_mask_eq_iff]

/-- The digit that the loop reads at a level. -/
theorem toNat_digit (expire : UInt64) {level : ℕ} (hl : level < 5) :
    ((expire >>> (timeLeastShift + UInt64.ofNat level * timeLevelShift)) &&&
      timeLevelMask).toNat = expire.toNat / 2 ^ (14 + 10 * level) % 2 ^ 10 := by
  rw [toNat_and_timeLevelMask, UInt64.toNat_shiftRight, Nat.shiftRight_eq_div_pow]
  interval_cases level <;> rfl

/-- At each level the loop knows that time and expiry differ from its shift on. -/
theorem farSlot_holds {expire time : UInt64} {rest level : ℕ} {exp2 : UInt64}
    (hl : level + rest = timeLevelCount) (hlt : level < timeLevelCount)
    (he : exp2.toNat = 2 ^ (14 + 10 * level))
    (ha : time.toNat / 2 ^ (14 + 10 * level) < expire.toNat / 2 ^ (14 + 10 * level)) :
    ∃ slot ∈ slots, farSlot expire time rest level exp2 = some slot ∧
      slot.Holds time.toNat expire.toNat := by
  induction rest generalizing level exp2 with
  | zero => omega
  | succ rest ih =>
    have hlt : level < 5 := hlt
    have hexp := toNat_exp2 he
    have hsame := @same_above expire time exp2 level hlt he
    unfold farSlot
    by_cases hs : expire.toNat / 2 ^ (14 + 10 * level + 10) =
        time.toNat / 2 ^ (14 + 10 * level + 10)
    · have hfar : Far (14 + 10 * level) 10 time.toNat expire.toNat
          (expire.toNat / 2 ^ (14 + 10 * level) % 2 ^ 10) := ⟨hs, ha, rfl⟩
      have hvalue := toNat_digit expire hlt
      have hpos := hfar.pos
      rw [← hvalue] at hpos
      have hpred := toNat_pred hpos
      have hwidth := hfar.lt_width
      refine ⟨_, ?_, by rw [if_pos (hsame.mpr hs)], ?_⟩
      · rw [mem_slots, hpred, hvalue]
        have hv : timeLevelValue.toNat = 2 ^ 10 := by decide
        simp only [Slot.inRange, decide_eq_true_eq, hv]
        exact ⟨hlt, by omega⟩
      · rw [hpred, hvalue]
        rw [hvalue] at hpos
        simp only [Slot.Holds]
        rw [Nat.sub_add_cancel hpos]
        exact hfar
    · rw [if_neg (mt hsame.mp hs)]
      have hle : time.toNat / 2 ^ (14 + 10 * level + 10) ≤
          expire.toNat / 2 ^ (14 + 10 * level + 10) := by
        rw [div_two_pow_add _ (14 + 10 * level), div_two_pow_add _ (14 + 10 * level)]
        exact Nat.div_le_div_right (Nat.le_of_lt ha)
      have hlevel : level + 1 < timeLevelCount := by
        by_contra hn
        obtain rfl : level = 4 := by
          have : timeLevelCount = 5 := rfl
          omega
        have h1 := expire.toNat_lt
        have h2 := time.toNat_lt
        refine hs ?_
        rw [Nat.div_eq_of_lt h1, Nat.div_eq_of_lt h2]
      refine @ih (level + 1) _ (by omega) hlevel ?_ ?_
      · rw [hexp]
        have : level < 4 := by
          have : timeLevelCount = 5 := rfl
          omega
        interval_cases level <;> rfl
      · rw [show 14 + 10 * (level + 1) = 14 + 10 * level + 10 by omega]
        omega

/-- `queue_node` finds a place for every node that is not overdue. -/
theorem queueNode_holds {node : Node σ} (h : t.time.toNat ≤ node.expire.toNat) :
    ∃ slot ∈ slots, t.queueNode node = some (t.setList (t.list slot ++ [node]) slot) ∧
      slot.Holds t.time.toNat node.expire.toNat := by
  have hsub : (node.expire - t.time).toNat = node.expire.toNat - t.time.toNat :=
    UInt64.toNat_sub_of_le _ _ (UInt64.le_iff_toNat_le.mpr h)
  unfold Timer.queueNode
  by_cases hn : node.expire - t.time < timeLeastValue
  · have hlt : node.expire.toNat - t.time.toNat < 2 ^ 14 := by
      have := UInt64.lt_iff_toNat_lt.mp hn
      rwa [hsub, toNat_timeLeastValue] at this
    have hin : (Slot.least (node.expire &&& timeLeastMask).toNat).inRange = true := by
      rw [toNat_and_timeLeastMask]
      simp only [Slot.inRange, toNat_timeLeastValue, decide_eq_true_eq]
      exact Nat.mod_lt _ (Nat.two_pow_pos 14)
    refine ⟨_, mem_slots.mpr hin, by rw [if_pos hn, Timer.insert, if_pos hin], ?_⟩
    rw [toNat_and_timeLeastMask]
    exact ⟨h, by omega, rfl⟩
  · have hge : 2 ^ 14 ≤ node.expire.toNat - t.time.toNat := by
      have := mt UInt64.lt_iff_toNat_lt.mpr hn
      rw [hsub, toNat_timeLeastValue] at this
      omega
    obtain ⟨slot, hs, he, hh⟩ := @farSlot_holds node.expire t.time
      timeLevelCount 0 (1 <<< timeLeastShift) rfl (by decide)
      (by decide) (by omega)
    refine ⟨slot, hs, ?_, hh⟩
    rw [if_neg hn, he]
    simp [Timer.insert, mem_slots.mp hs]

theorem pending_insert {slot : Slot} (hs : slot ∈ slots) (node : Node σ) :
    (t.setList (t.list slot ++ [node]) slot).pending = node ::ₘ t.pending := by
  rw [Timer.pending, list_setList]
  exact listed_insert hs node

theorem pending_clear {slot : Slot} (hs : slot ∈ slots) :
    (t.setList [] slot).pending + t.list slot = t.pending := by
  rw [Timer.pending, list_setList]
  exact listed_clear hs

theorem Timer.Placed.setList (h : t.Placed) {slot : Slot} {list : List (Node σ)}
    (hl : ∀ node ∈ list, slot.Holds t.time.toNat node.expire.toNat) :
    (t.setList list slot).Placed := by
  intro other node hm
  rw [list_setList] at hm
  rw [setList_time]
  by_cases ho : other = slot
  · subst ho
    rw [Function.update_self] at hm
    exact hl node hm
  · rw [Function.update_of_ne ho] at hm
    exact h other node hm

/-- The nodes of the list found their places, and nothing else happened. -/
structure Queued (t : Timer σ) (list : List (Node σ)) (t' : Timer σ) : Prop where
  time : t'.time = t.time
  woken : t'.woken = t.woken
  placed : t'.Placed
  origin : ∀ slot, ∀ node ∈ t'.list slot, node ∈ t.list slot ∨ node ∈ list
  pending : t'.pending = t.pending + list

theorem Timer.Placed.queueNode (h : t.Placed) (node : Node σ)
    (he : t.time.toNat ≤ node.expire.toNat) :
    ∃ t', t.queueNode node = some t' ∧ Queued t [node] t' := by
  obtain ⟨slot, hs, hq, hh⟩ := queueNode_holds he
  refine ⟨_, hq, by simp, by simp, h.setList ?_, ?_, ?_⟩
  · intro other hm
    rcases List.mem_append.mp hm with hm | hm
    · exact h slot other hm
    · rw [List.mem_singleton.mp hm]; exact hh
  · intro other m hm
    rw [list_setList] at hm
    by_cases ho : other = slot
    · rw [ho, Function.update_self] at hm
      exact ho ▸ List.mem_append.mp hm
    · rw [Function.update_of_ne ho] at hm
      exact Or.inl hm
  · rw [pending_insert hs, ← Multiset.singleton_add, add_comm, Multiset.coe_singleton]

theorem Timer.Placed.queueList (h : t.Placed) (list : List (Node σ))
    (he : ∀ node ∈ list, t.time.toNat ≤ node.expire.toNat) :
    ∃ t', t.queueList list = some t' ∧ Queued t list t' := by
  induction list generalizing t with
  | nil => exact ⟨t, rfl, rfl, rfl, h, fun _ _ => Or.inl, by simp⟩
  | cons node rest ih =>
    obtain ⟨m, hm, hq⟩ := h.queueNode node (he node (by simp))
    obtain ⟨t', ht, hr⟩ := ih hq.placed fun other ho => by
      rw [hq.time]
      exact he other (by simp [ho])
    refine ⟨t', ?_, hr.time.trans hq.time, hr.woken.trans hq.woken, hr.placed, ?_, ?_⟩
    · simp only [Timer.queueList, List.foldlM_cons, hm]
      exact ht
    · intro slot other ho
      rcases hr.origin slot other ho with ho | ho
      · rcases hq.origin slot other ho with ho | ho
        · exact Or.inl ho
        · exact Or.inr (by simp [List.mem_singleton.mp ho])
      · exact Or.inr (by simp [ho])
    · rw [hr.pending, hq.pending, add_assoc, Multiset.coe_add, List.singleton_append]

/-- The loop over the digits stops at the first one that is not zero. -/
theorem turnedSlot_eq {rest level : ℕ} {time : UInt64} {i : ℕ} (hi : i ≤ rest)
    (hz : 2 ^ (10 * i) ∣ time.toNat) (hd : time.toNat / 2 ^ (10 * i) % 2 ^ 10 ≠ 0) :
    turnedSlot rest level time =
      some (.level (level + i) (time.toNat / 2 ^ (10 * i) % 2 ^ 10 - 1)) := by
  induction i generalizing rest level time with
  | zero =>
    have hv := toNat_and_timeLevelMask time
    rw [Nat.mul_zero, Nat.pow_zero, Nat.div_one] at hd ⊢
    have hne : time &&& timeLevelMask ≠ 0 := by
      intro h0
      rw [h0] at hv
      exact hd hv.symm
    unfold turnedSlot
    rw [if_pos hne]
    rw [toNat_pred (by omega), hv]
    rfl
  | succ i ih =>
    cases rest with
    | zero => omega
    | succ rest =>
      have hv := toNat_and_timeLevelMask time
      have hmod : time.toNat % 2 ^ 10 = 0 :=
        Nat.mod_eq_zero_of_dvd ((Nat.pow_dvd_pow 2 (by omega)).trans hz)
      have heq : time &&& timeLevelMask = 0 := by
        rw [← UInt64.toNat_inj, hv, hmod]
        rfl
      have hshift := toNat_shiftRight_level time
      have hdiv : time.toNat / 2 ^ (10 * (i + 1)) = time.toNat / 2 ^ 10 / 2 ^ (10 * i) := by
        rw [Nat.div_div_eq_div_mul, ← Nat.pow_add, Nat.mul_add, Nat.add_comm]
      rw [hdiv, ← hshift] at hd ⊢
      have hstep := @ih rest (level + 1) _ (by omega) ?_ hd
      · unfold turnedSlot
        rw [if_neg (by simp [heq])]
        dsimp only
        rw [hstep, Nat.add_right_comm]
        rfl
      · rw [hshift]
        apply Nat.dvd_div_of_mul_dvd
        rwa [← Nat.pow_add, Nat.add_comm, ← Nat.mul_succ]

/-- When the ring of the next ticks has turned over, one list of the rings above it is due. -/
theorem turnedSlot_total {time : UInt64} (h0 : time.toNat ≠ 0) (hz : time.toNat % 2 ^ 14 = 0) :
    ∃ slot ∈ slots, turnedSlot timeLevelCount 0 (time >>> timeLeastShift) = some slot := by
  have hs := toNat_shiftRight_least time
  have hn : (time >>> timeLeastShift).toNat ≠ 0 := by omega
  have hlt : (time >>> timeLeastShift).toNat < 2 ^ (10 * timeLevelCount) := by
    have := time.toNat_lt
    simp only [timeLevelCount]
    omega
  obtain ⟨i, hi, hdvd, hdigit⟩ := exists_first_digit hn hlt
  have hv : timeLevelValue.toNat = 2 ^ 10 := by decide
  have hw := Nat.mod_lt ((time >>> timeLeastShift).toNat / 2 ^ (10 * i)) (Nat.two_pow_pos 10)
  refine ⟨_, ?_, turnedSlot_eq (by omega) hdvd hdigit⟩
  rw [mem_slots, Slot.inRange, decide_eq_true_eq, hv]
  omega

/-- A node whose digit comes with the next tick is in the list that comes down. -/
theorem turnedSlot_of_due {time : UInt64} {i expire index before : ℕ} (hi : i < timeLevelCount)
    (ht : time.toNat = before + 1) (hfar : Far (14 + 10 * i) 10 before expire (index + 1))
    (hdue : ¬ time.toNat / 2 ^ (14 + 10 * i) < expire / 2 ^ (14 + 10 * i)) :
    time.toNat % 2 ^ 14 = 0 ∧
      turnedSlot timeLevelCount 0 (time >>> timeLeastShift) = some (.level i index) := by
  rw [ht] at hdue
  obtain ⟨hdvd, hdigit⟩ := hfar.due hdue
  rw [← ht] at hdvd hdigit
  have hs := toNat_shiftRight_least time
  have hsplit : 2 ^ (14 + 10 * i) = 2 ^ 14 * 2 ^ (10 * i) := Nat.pow_add 2 14 (10 * i)
  have hdiv : time.toNat / 2 ^ (14 + 10 * i) =
      (time >>> timeLeastShift).toNat / 2 ^ (10 * i) := by
    rw [hs, hsplit, Nat.div_div_eq_div_mul]
  have hlow : 2 ^ (10 * i) ∣ (time >>> timeLeastShift).toNat := by
    rw [hs]
    exact Nat.dvd_div_of_mul_dvd (hsplit ▸ hdvd)
  rw [hdiv] at hdigit
  refine ⟨Nat.mod_eq_zero_of_dvd ((Nat.pow_dvd_pow 2 (by omega)).trans hdvd), ?_⟩
  rw [turnedSlot_eq (by omega) hlow (by omega), hdigit]
  simp

theorem mem_pending {node : Node σ} :
    node ∈ t.pending ↔ ∃ slot ∈ slots, node ∈ t.list slot := mem_listed

/-- What `wake` finds in a tick: all the nodes that expire in it, and no other. -/
structure Ticked (t : Timer σ) (due : List (Node σ)) (t' : Timer σ) : Prop where
  time : t'.time.toNat = t.time.toNat + 1
  wheel : Wheel t'
  pending : t.pending = t'.pending + due
  expired : ∀ node ∈ due, node.expire = t'.time
  woken : t'.woken = t.woken ++ due.map fun node => (t'.time, node.session)

theorem Far.level_lt {i time v : ℕ} {expire : UInt64}
    (h : Far (14 + 10 * i) 10 time expire.toNat v) : i < timeLevelCount := by
  have hpos : 0 < expire.toNat / 2 ^ (14 + 10 * i) := Nat.zero_lt_of_lt h.ahead
  have hle : 2 ^ (14 + 10 * i) ≤ expire.toNat := by
    by_contra hn
    rw [Nat.div_eq_of_lt (by omega)] at hpos
    cases hpos
  have hlt := (Nat.pow_lt_pow_iff_right (a := 2) (by decide)).mp (hle.trans_lt expire.toNat_lt)
  simp only [timeLevelCount]
  omega

/-- The cascade brings down every node whose digit has come, so that all are in place again. -/
theorem Wheel.cascade (h : Wheel t) {now : UInt64} (hn : now.toNat = t.time.toNat + 1) :
    ∃ t', ({ t with time := now } : Timer σ).cascade = some t' ∧ t'.time = now ∧
      t'.woken = t.woken ∧ t'.Placed ∧ t'.pending = t.pending := by
  let m : Timer σ := { t with time := now }
  have hlist : m.list = t.list := list_setTime t now
  have hpending : m.pending = t.pending := by rw [Timer.pending, hlist, Timer.pending]
  have hreached : ∀ slot, ∀ node ∈ t.list slot, now.toNat ≤ node.expire.toNat := fun slot node hm =>
    hn ▸ h.ahead slot node hm
  have hz : m.time &&& timeLeastMask = 0 ↔ now.toNat % 2 ^ 14 = 0 := by
    rw [← UInt64.toNat_inj, toNat_and_timeLeastMask]
    rfl
  -- every node that is not in the list to come down stays in place
  have hstay : ∀ slot, ∀ node ∈ t.list slot,
      slot.Holds now.toNat node.expire.toNat ∨ (now.toNat % 2 ^ 14 = 0 ∧
        turnedSlot timeLevelCount 0 (now >>> timeLeastShift) = some slot) := by
    intro slot node hm
    have hh := h.placed slot node hm
    have ha := h.ahead slot node hm
    cases slot with
    | least index =>
      left
      rw [hn]
      exact Near.tick hh ha
    | level i index =>
      by_cases hd : now.toNat / 2 ^ (14 + 10 * i) < node.expire.toNat / 2 ^ (14 + 10 * i)
      · left
        rw [hn] at hd ⊢
        exact Far.tick hh hd
      · right
        exact turnedSlot_of_due (Far.level_lt hh) hn hh hd
  unfold Timer.cascade
  by_cases ht : now.toNat % 2 ^ 14 = 0
  · rw [if_pos (hz.mpr ht)]
    obtain ⟨slot, hs, hturned⟩ := turnedSlot_total (by omega) ht
    have hplaced : (m.setList [] slot).Placed := by
      intro other node hm
      rw [list_setList] at hm
      rw [setList_time]
      by_cases ho : other = slot
      · rw [ho, Function.update_self] at hm
        cases hm
      · rw [Function.update_of_ne ho, hlist] at hm
        refine (hstay other node hm).resolve_right fun hd => ho ?_
        simpa [hturned] using hd.2.symm
    obtain ⟨t', ht', hq⟩ := hplaced.queueList (m.list slot) fun node hm => by
      rw [hlist] at hm
      simpa using hreached slot node hm
    refine ⟨t', ?_, by simpa using hq.time, by simpa using hq.woken, hq.placed, ?_⟩
    · simp only [hturned, Option.bind_some, Timer.clear, mem_slots.mp hs, if_true]
      exact ht'
    · rw [hq.pending, pending_clear hs, hpending]
  · rw [if_neg (mt hz.mp ht)]
    refine ⟨m, rfl, rfl, rfl, ?_, hpending⟩
    intro slot node hm
    rw [hlist] at hm
    exact (hstay slot node hm).resolve_right fun hd => ht hd.1

theorem Wheel.tick (h : Wheel t) (ht : t.time.toNat + 1 < 2 ^ 64) :
    ∃ due t', t.tick = some t' ∧ Ticked t due t' := by
  have hnow : (t.time + 1).toNat = t.time.toNat + 1 := by
    rw [UInt64.toNat_add]
    exact Nat.mod_eq_of_lt ht
  obtain ⟨m, hm, htime, hwoken, hplaced, hpending⟩ := h.cascade hnow
  let slot : Slot := .least (m.time &&& timeLeastMask).toNat
  have hindex := toNat_and_timeLeastMask m.time
  have hs : slot.inRange = true := by
    simp only [slot, Slot.inRange, hindex, toNat_timeLeastValue, decide_eq_true_eq]
    exact Nat.mod_lt _ (Nat.two_pow_pos 14)
  refine ⟨m.list slot, (m.setList [] slot).wake (m.list slot), ?_, ?_⟩
  · unfold Timer.tick
    rw [hm]
    simp only [Option.bind_some, Timer.clear, hs, slot, if_true, Option.map_some]
  have hlater : ∀ other, other ≠ slot → ∀ node ∈ m.list other,
      m.time.toNat < node.expire.toNat := by
    intro other ho node hn
    have hh := hplaced other node hn
    cases other with
    | least index =>
      refine Near.later hh fun he => ho ?_
      simp only [slot, hindex, he]
    | level i index => exact Far.lt hh
  have hclear : ∀ other, ∀ node ∈ (m.setList [] slot).list other,
      other ≠ slot ∧ node ∈ m.list other := by
    intro other node hn
    rw [list_setList] at hn
    by_cases ho : other = slot
    · rw [ho, Function.update_self] at hn
      cases hn
    · rw [Function.update_of_ne ho] at hn
      exact ⟨ho, hn⟩
  constructor
  · simp only [Timer.wake, setList_time, htime, hnow]
  · constructor
    · intro other node hn
      obtain ⟨_, hn⟩ := hclear other node hn
      simpa [Timer.wake] using hplaced other node hn
    · intro other node hn
      obtain ⟨ho, hn⟩ := hclear other node hn
      simpa [Timer.wake] using hlater other ho node hn
  · rw [← hpending]
    exact (pending_clear (mem_slots.mpr hs)).symm
  · intro node hn
    have hh := hplaced slot node hn
    have he := Near.expired hh hindex.symm
    simpa [Timer.wake] using UInt64.toNat_inj.mp he
  · simp only [Timer.wake, setList_woken, setList_time, hwoken]

/-- What the timer is for: a clock and the sessions registered so far with their deadlines. -/
structure Alarms (σ : Type*) where
  now : ℕ
  registered : List (ℕ × σ)

def Alarms.new (σ : Type*) : Alarms σ := ⟨0, []⟩

def Alarms.step (a : Alarms σ) : Op σ → Alarms σ
  | .timeout timeout session =>
    { a with registered := a.registered ++ [(a.now + timeout.toNat, session)] }
  | .update time => { a with now := max a.now time.toNat }

def Alarms.after (ops : List (Op σ)) : Alarms σ := ops.foldl Alarms.step (.new σ)

/-- A timeout is at least one tick, and its deadline is a time the clock can show. -/
def Alarms.Admits (a : Alarms σ) : Op σ → Prop
  | .timeout timeout _ => 1 ≤ timeout.toNat ∧ a.now + timeout.toNat < 2 ^ 64
  | .update _ => True

instance (a : Alarms σ) : ∀ op, Decidable (a.Admits op)
  | .timeout timeout _ =>
    inferInstanceAs (Decidable (1 ≤ timeout.toNat ∧ a.now + timeout.toNat < 2 ^ 64))
  | .update _ => isTrue trivial

/-- The registered sessions have been woken at their deadlines or wait for them. -/
structure Refines (t : Timer σ) (a : Alarms σ) : Prop where
  wheel : Wheel t
  clock : t.time.toNat = a.now
  past : ∀ wake ∈ t.woken, wake.1.toNat ≤ a.now
  registered : (a.registered : Multiset (ℕ × σ)) =
    (t.woken.map fun wake => (wake.1.toNat, wake.2) : List (ℕ × σ)) +
      t.pending.map fun node => (node.expire.toNat, node.session)

theorem new_pending : (Timer.new σ).pending = 0 := by
  refine Multiset.eq_zero_of_forall_notMem fun node hm => ?_
  obtain ⟨slot, _, hm⟩ := mem_pending.mp hm
  cases slot <;> cases hm

theorem new_refines : Refines (Timer.new σ) (.new σ) where
  wheel := new_wheel
  clock := rfl
  past wake hm := by cases hm
  registered := by rw [new_pending]; rfl

variable {a : Alarms σ}

theorem Refines.timeout (h : Refines t a) (timeout : UInt64) (session : σ)
    (ha : a.Admits (.timeout timeout session)) :
    ∃ t', t.timeout timeout session = some t' ∧
      Refines t' (a.step (.timeout timeout session)) := by
  obtain ⟨hpos, hlt⟩ := ha
  rw [← h.clock] at hlt
  have hexpire : (t.time + timeout).toNat = t.time.toNat + timeout.toNat := by
    rw [UInt64.toNat_add]
    exact Nat.mod_eq_of_lt hlt
  obtain ⟨t', ht, hq⟩ := h.wheel.placed.queueNode ⟨t.time + timeout, session⟩ (by
    simp only [hexpire]
    omega)
  refine ⟨t', ht, ⟨hq.placed, ?_⟩, hq.time ▸ h.clock, hq.woken ▸ h.past, ?_⟩
  · intro slot node hm
    rw [hq.time]
    rcases hq.origin slot node hm with hm | hm
    · exact h.wheel.ahead slot node hm
    · rw [List.mem_singleton.mp hm]
      simp only [hexpire]
      omega
  · rw [hq.woken, hq.pending, Multiset.map_add, ← add_assoc, ← h.registered]
    simp only [Alarms.step, Multiset.coe_singleton, Multiset.map_singleton, hexpire, h.clock]
    rw [← Multiset.coe_singleton, Multiset.coe_add]

theorem Refines.tick (h : Refines t a) (ht : a.now + 1 < 2 ^ 64) :
    ∃ t', t.tick = some t' ∧ Refines t' { a with now := a.now + 1 } := by
  rw [← h.clock] at ht
  obtain ⟨due, t', he, hk⟩ := h.wheel.tick ht
  have hclock : t'.time.toNat = a.now + 1 := by rw [hk.time, h.clock]
  refine ⟨t', he, hk.wheel, hclock, ?_, ?_⟩
  · intro wake hm
    rw [hk.woken] at hm
    rcases List.mem_append.mp hm with hm | hm
    · exact Nat.le_succ_of_le (h.past wake hm)
    · obtain ⟨node, _, rfl⟩ := List.mem_map.mp hm
      exact Nat.le_of_eq hclock
  · -- the nodes woken in this tick are recorded with their own deadline
    have hdue : (due.map fun node => (t'.time, node.session)).map
        (fun wake => (wake.1.toNat, wake.2)) =
          due.map fun node => (node.expire.toNat, node.session) := by
      rw [List.map_map]
      exact List.map_congr_left fun node hm => by simp [hk.expired node hm]
    rw [h.registered, hk.woken, hk.pending, List.map_append, hdue, ← Multiset.coe_add,
      Multiset.map_add, Multiset.map_coe]
    abel

theorem Refines.tickTo {time : UInt64} {ticks : ℕ} (h : Refines t a)
    (ht : t.time.toNat + ticks = time.toNat ∨ ticks = 0 ∧ time.toNat ≤ t.time.toNat) :
    ∃ t', t.tickTo time ticks = some t' ∧ Refines t' (a.step (.update time)) := by
  induction ticks generalizing t a with
  | zero =>
    have hmax : max a.now time.toNat = a.now := by
      have := h.clock
      omega
    exact ⟨t, rfl, by simpa [Alarms.step, hmax] using h⟩
  | succ ticks ih =>
    have hlt : t.time < time := UInt64.lt_iff_toNat_lt.mpr (by omega)
    have hbound := time.toNat_lt
    have hclock := h.clock
    obtain ⟨m, hm, hr⟩ := h.tick (by omega)
    have hmclock : m.time.toNat = a.now + 1 := hr.clock
    obtain ⟨t', ht', hr'⟩ := ih hr (Or.inl (by omega))
    refine ⟨t', ?_, ?_⟩
    · unfold Timer.tickTo
      rw [if_pos hlt, hm]
      exact ht'
    · have hmax : max (a.now + 1) time.toNat = max a.now time.toNat := by omega
      simpa [Alarms.step, hmax] using hr'

theorem Refines.update (h : Refines t a) (time : UInt64) :
    ∃ t', t.update time = some t' ∧ Refines t' (a.step (.update time)) :=
  h.tickTo (by omega)

theorem Refines.step (h : Refines t a) {op : Op σ} (ha : a.Admits op) :
    ∃ t', t.step op = some t' ∧ Refines t' (a.step op) := by
  cases op with
  | timeout timeout session => exact h.timeout timeout session ha
  | update time => exact h.update time

/-- The abstract timer as a system, whose steps never fail. -/
def alarms (σ : Type*) : System (Alarms σ) (Op σ) where
  init := .new σ
  step a op := some (a.step op)

theorem Refines.run (h : Refines t a) {ops : List (Op σ)}
    (ha : (alarms σ).AllSteps Alarms.Admits a ops) :
    ∃ t', (system σ).runFrom t ops = some t' ∧ Refines t' (ops.foldl Alarms.step a) := by
  induction ops generalizing t a with
  | nil => exact ⟨t, rfl, h⟩
  | cons op ops ih =>
    obtain ⟨hop, hrest⟩ := ha
    obtain ⟨m, hm, hr⟩ := h.step hop
    obtain ⟨t', ht, hr'⟩ := ih hr (hrest _ rfl)
    refine ⟨t', ?_, hr'⟩
    simp only [System.runFrom, List.foldlM_cons]
    rw [show (system σ).step t op = some m from hm]
    exact ht

theorem Refines.woken_perm (h : Refines t a) :
    (t.woken.map fun wake => (wake.1.toNat, wake.2)).Perm
      (a.registered.filter fun entry => entry.1 ≤ a.now) := by
  rw [← Multiset.coe_eq_coe, ← Multiset.filter_coe, h.registered, Multiset.filter_add,
    Multiset.filter_eq_self.mpr, Multiset.filter_eq_nil.mpr, add_zero]
  · intro entry hm
    obtain ⟨node, hn, rfl⟩ := Multiset.mem_map.mp hm
    obtain ⟨slot, _, hs⟩ := mem_pending.mp hn
    have := h.wheel.ahead slot node hs
    have := h.clock
    dsimp only
    omega
  · intro entry hm
    obtain ⟨wake, hw, rfl⟩ := List.mem_map.mp hm
    exact h.past wake hw

/-- The timer takes every sequence of calls that it admits without a failure, and has then woken
just the sessions whose deadline has come, each once and in the tick of its deadline. -/
theorem timer_exact {ops : List (Op σ)} (h : (alarms σ).AllSteps Alarms.Admits (.new σ) ops) :
    ∃ t, (system σ).runFrom (.new σ) ops = some t ∧
      t.time.toNat = (Alarms.after ops).now ∧
      (t.woken.map fun wake => (wake.1.toNat, wake.2)).Perm
        ((Alarms.after ops).registered.filter fun entry => entry.1 ≤ (Alarms.after ops).now) := by
  obtain ⟨t, ht, hr⟩ := new_refines.run h
  exact ⟨t, ht, hr.clock, hr.woken_perm⟩

/-- Two sleepers of the next ring and one of a ring above it, which comes down at 16384. -/
def cascadeOps : List (Op ℕ) :=
  [.timeout 2 7, .update 1, .timeout 20000 8, .timeout 1 9, .update 20001]

theorem cascade_exact : ∃ t : Timer ℕ, (system ℕ).runFrom (.new ℕ) cascadeOps = some t ∧
    t.time.toNat = 20001 ∧
    (t.woken.map fun wake => (wake.1.toNat, wake.2)).Perm [(2, 7), (20001, 8), (2, 9)] :=
  @timer_exact ℕ cascadeOps (by decide)

end Time
