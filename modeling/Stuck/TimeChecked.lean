import Stuck.Sleep

/-! The timer under overflow checks, as dev and test builds compile it (src/time.rs). Every
addition, subtraction and shift of the source is checked; a panic is `none`. Where no check fails
the timer is the one of the wrapping arithmetic. -/
namespace Time

open TransitionSystem TimingWheel

def checkedAdd (x y : UInt64) : Option UInt64 :=
  if x.toNat + y.toNat < 2 ^ 64 then some (x + y) else none

def checkedSub (x y : UInt64) : Option UInt64 := if y ≤ x then some (x - y) else none

/-- Only the amount is checked, not the bits that are lost. -/
def checkedShiftRight (x : UInt64) (shift : ℕ) : Option UInt64 :=
  if shift < 64 then some (x >>> UInt64.ofNat shift) else none

def checkedShiftLeft (x : UInt64) (shift : ℕ) : Option UInt64 :=
  if shift < 64 then some (x <<< UInt64.ofNat shift) else none

variable {σ : Type*} {t t' : Timer σ}

/-- The loop of `Timer::queue_node`. -/
def checkedFarSlot (expire time : UInt64) (rest level : ℕ) (exp2 : UInt64) : Option Slot :=
  (checkedShiftLeft exp2 timeLevelShift.toNat).bind fun exp2 =>
    (checkedSub exp2 1).bind fun mask =>
      if expire ||| mask = time ||| mask then
        let shift := timeLeastShift.toNat + level * timeLevelShift.toNat
        (checkedShiftRight expire shift).bind fun high =>
          (checkedSub (high &&& timeLevelMask) 1).map fun index => .level level index.toNat
      else match rest with
        | 0 => none
        | rest + 1 => checkedFarSlot expire time rest (level + 1) exp2

def Timer.checkedQueueNode (t : Timer σ) (node : Node σ) : Option (Timer σ) :=
  (checkedSub node.expire t.time).bind fun left =>
    if left < timeLeastValue then
      t.insert (.least (node.expire &&& timeLeastMask).toNat) node
    else
      (checkedFarSlot node.expire t.time timeLevelCount 0 (1 <<< timeLeastShift)).bind
        fun slot => t.insert slot node

def Timer.checkedQueueList (t : Timer σ) (list : List (Node σ)) : Option (Timer σ) :=
  list.foldlM Timer.checkedQueueNode t

/-- The loop of `Timer::tick` over the digits of the time. -/
def checkedTurnedSlot (rest level : ℕ) (time : UInt64) : Option Slot :=
  let value := time &&& timeLevelMask
  if value ≠ 0 then
    (checkedSub value 1).map fun index => .level level index.toNat
  else match rest with
    | 0 => none
    | rest + 1 => (checkedShiftRight time timeLevelShift.toNat).bind fun time =>
        checkedTurnedSlot rest (level + 1) time

def Timer.checkedCascade (t : Timer σ) : Option (Timer σ) :=
  if t.time &&& timeLeastMask = 0 then
    (checkedShiftRight t.time timeLeastShift.toNat).bind fun time =>
      (checkedTurnedSlot timeLevelCount 0 time).bind fun slot =>
        (t.clear slot).bind fun (list, t) => t.checkedQueueList list
  else some t

def Timer.checkedTick (t : Timer σ) : Option (Timer σ) :=
  (checkedAdd t.time 1).bind fun time =>
    { t with time := time }.checkedCascade.bind fun t =>
      (t.clear (.least (t.time &&& timeLeastMask).toNat)).map fun (list, t) => Timer.wake t list

def Timer.checkedTickTo (time : UInt64) : ℕ → Timer σ → Option (Timer σ)
  | 0, t => some t
  | ticks + 1, t =>
    if t.time < time then t.checkedTick.bind (Timer.checkedTickTo time ticks) else some t

def Timer.checkedUpdate (t : Timer σ) (time : UInt64) : Option (Timer σ) :=
  t.checkedTickTo time (time.toNat - t.time.toNat)

def Timer.checkedTimeout (t : Timer σ) (timeout : UInt64) (session : σ) : Option (Timer σ) :=
  (checkedAdd t.time timeout).bind fun expire => t.checkedQueueNode ⟨expire, session⟩

/-- What the loop of `timer` does with a message. The messages are the calls of the timer, but
that of a sleep brings its milliseconds, which `timer` adds one to. -/
def Timer.checkedReceive (t : Timer σ) : Op σ → Option (Timer σ)
  | .timeout millis session =>
    (checkedAdd millis 1).bind fun timeout => t.checkedTimeout timeout session
  | .update time => t.checkedUpdate time

def checkedSystem (σ : Type*) : System (Timer σ) (Op σ) where
  init := .new σ
  step := Timer.checkedReceive

/-- A deadline that needs no list of the fifth ring, which the bits of a `u64` leave no mask for. -/
def Fits (time expire : ℕ) : Prop :=
  expire < time + 2 ^ 14 ∨ expire / 2 ^ 54 = time / 2 ^ 54

instance (time expire : ℕ) : Decidable (Fits time expire) :=
  inferInstanceAs (Decidable (_ ∨ _))

theorem Fits.tick {time expire : ℕ} (h : Fits time expire) (hr : time + 1 ≤ expire) :
    Fits (time + 1) expire := by
  rcases h with h | h
  · exact Or.inl (by omega)
  · exact Or.inr (by omega)

theorem toNat_pos {x : UInt64} (h : x ≠ 0) : 0 < x.toNat :=
  Nat.pos_of_ne_zero fun h0 => h (UInt64.toNat_inj.mp h0)

theorem checkedAdd_eq {x y : UInt64} (h : x.toNat + y.toNat < 2 ^ 64) :
    checkedAdd x y = some (x + y) := if_pos h

theorem checkedSub_eq {x y : UInt64} (h : y.toNat ≤ x.toNat) : checkedSub x y = some (x - y) :=
  if_pos (UInt64.le_iff_toNat_le.mpr h)

theorem checkedShiftRight_eq {shift : ℕ} (x : UInt64) (h : shift < 64) :
    checkedShiftRight x shift = some (x >>> UInt64.ofNat shift) := if_pos h

theorem checkedShiftLeft_eq {shift : ℕ} (x : UInt64) (h : shift < 64) :
    checkedShiftLeft x shift = some (x <<< UInt64.ofNat shift) := if_pos h

/-- The checked loop finds the same list, except that no mask can be computed for the fifth
ring. -/
theorem checkedFarSlot_eq {expire time : UInt64} {rest level : ℕ} {exp2 : UInt64}
    (hl : level + rest = timeLevelCount) (hlt : level < timeLevelCount)
    (he : exp2.toNat = 2 ^ (14 + 10 * level))
    (ha : time.toNat / 2 ^ (14 + 10 * level) < expire.toNat / 2 ^ (14 + 10 * level)) :
    checkedFarSlot expire time rest level exp2 =
      if expire.toNat / 2 ^ 54 = time.toNat / 2 ^ 54 then farSlot expire time rest level exp2
      else none := by
  induction rest generalizing level exp2 with
  | zero => omega
  | succ rest ih =>
    have hlt : level < 5 := hlt
    have hexp := toNat_exp2 he
    have hsame := @same_above expire time exp2 level hlt he
    have hshl : checkedShiftLeft exp2 timeLevelShift.toNat = some (exp2 <<< timeLevelShift) := by
      rw [checkedShiftLeft_eq exp2 (by decide)]
      rfl
    unfold checkedFarSlot
    rw [hshl, Option.bind_some]
    by_cases hfour : level = 4
    · -- the bit has been shifted out
      subst hfour
      have hzero : checkedSub (exp2 <<< timeLevelShift) 1 = none := by
        refine if_neg fun hle => ?_
        have := UInt64.le_iff_toNat_le.mp hle
        rw [hexp] at this
        exact absurd this (by decide)
      have hne : expire.toNat / 2 ^ 54 ≠ time.toNat / 2 ^ 54 := Nat.ne_of_gt ha
      rw [hzero, if_neg hne]
      rfl
    · have hlow : level < 4 := by omega
      have hpow : (exp2 <<< timeLevelShift).toNat = 2 ^ (14 + 10 * (level + 1)) := by
        rw [hexp]
        interval_cases level <;> rfl
      have hmask : checkedSub (exp2 <<< timeLevelShift) 1 =
          some (exp2 <<< timeLevelShift - 1) :=
        checkedSub_eq (by rw [hpow]; exact Nat.one_le_two_pow)
      rw [hmask, Option.bind_some]
      unfold farSlot
      by_cases hs : expire.toNat / 2 ^ (14 + 10 * level + 10) =
          time.toNat / 2 ^ (14 + 10 * level + 10)
      · have hagree : expire.toNat / 2 ^ 54 = time.toNat / 2 ^ 54 := by
          have hk : 54 = 14 + 10 * level + 10 + (30 - 10 * level) := by omega
          rw [hk, div_two_pow_add expire.toNat, div_two_pow_add time.toNat, hs]
        have hfar : Far (14 + 10 * level) 10 time.toNat expire.toNat
            (expire.toNat / 2 ^ (14 + 10 * level) % 2 ^ 10) := ⟨hs, ha, rfl⟩
        have hshr : checkedShiftRight expire (timeLeastShift.toNat + level * timeLevelShift.toNat) =
            some (expire >>> (timeLeastShift + UInt64.ofNat level * timeLevelShift)) := by
          interval_cases level <;> rfl
        have hpos := hfar.pos
        rw [← toNat_digit expire hlt] at hpos
        rw [if_pos (hsame.mpr hs), if_pos hagree, if_pos (hsame.mpr hs)]
        dsimp only
        rw [hshr, Option.bind_some, checkedSub_eq (y := 1) hpos]
        rfl
      · have hlevel : 14 + 10 * (level + 1) = 14 + 10 * level + 10 := by omega
        rw [if_neg (mt hsame.mp hs), if_neg (mt hsame.mp hs)]
        refine @ih (level + 1) _ (by omega) (by simp only [timeLevelCount]; omega) hpow ?_
        have hle : time.toNat / 2 ^ (14 + 10 * level + 10) ≤
            expire.toNat / 2 ^ (14 + 10 * level + 10) := by
          rw [div_two_pow_add _ (14 + 10 * level), div_two_pow_add _ (14 + 10 * level)]
          exact Nat.div_le_div_right (Nat.le_of_lt ha)
        rw [hlevel]
        omega

/-- `queue_node` under overflow checks, for a node that is not overdue. -/
theorem checkedQueueNode_eq {node : Node σ} (h : t.time.toNat ≤ node.expire.toNat) :
    t.checkedQueueNode node =
      if Fits t.time.toNat node.expire.toNat then t.queueNode node else none := by
  have hsub : (node.expire - t.time).toNat = node.expire.toNat - t.time.toNat :=
    UInt64.toNat_sub_of_le _ _ (UInt64.le_iff_toNat_le.mpr h)
  unfold Timer.checkedQueueNode Timer.queueNode
  rw [checkedSub_eq h, Option.bind_some]
  by_cases hn : node.expire - t.time < timeLeastValue
  · have hlt : node.expire.toNat - t.time.toNat < 2 ^ 14 := by
      have := UInt64.lt_iff_toNat_lt.mp hn
      rwa [hsub, toNat_timeLeastValue] at this
    have hfits : Fits t.time.toNat node.expire.toNat := Or.inl (by omega)
    rw [if_pos hn, if_pos hn, if_pos hfits]
  · have hge : 2 ^ 14 ≤ node.expire.toNat - t.time.toNat := by
      have := mt UInt64.lt_iff_toNat_lt.mpr hn
      rw [hsub, toNat_timeLeastValue] at this
      omega
    have hfits : Fits t.time.toNat node.expire.toNat ↔
        node.expire.toNat / 2 ^ 54 = t.time.toNat / 2 ^ 54 := or_iff_right (by omega)
    rw [if_neg hn, if_neg hn, checkedFarSlot_eq rfl (by decide) (by decide) (by omega)]
    by_cases hf : node.expire.toNat / 2 ^ 54 = t.time.toNat / 2 ^ 54
    · rw [if_pos hf, if_pos (hfits.mpr hf)]
    · rw [if_neg hf, if_neg (mt hfits.mp hf)]
      rfl

theorem checkedQueueList_eq {list : List (Node σ)}
    (h : ∀ node ∈ list, t.time.toNat ≤ node.expire.toNat ∧
      Fits t.time.toNat node.expire.toNat) :
    t.checkedQueueList list = t.queueList list := by
  induction list generalizing t with
  | nil => rfl
  | cons node rest ih =>
    obtain ⟨hr, hf⟩ := h node (by simp)
    obtain ⟨slot, _, hq, _⟩ := queueNode_holds hr
    simp only [Timer.checkedQueueList, Timer.queueList, List.foldlM_cons]
    rw [checkedQueueNode_eq hr, if_pos hf, hq]
    exact ih fun other ho => by
      rw [setList_time]
      exact h other (by simp [ho])

theorem checkedTurnedSlot_eq (rest level : ℕ) (time : UInt64) :
    checkedTurnedSlot rest level time = turnedSlot rest level time := by
  induction rest generalizing level time with
  | zero =>
    unfold checkedTurnedSlot turnedSlot
    by_cases hv : time &&& timeLevelMask ≠ 0
    · rw [if_pos hv, if_pos hv, checkedSub_eq (y := 1) (toNat_pos hv)]
      rfl
    · rw [if_neg hv, if_neg hv]
  | succ rest ih =>
    unfold checkedTurnedSlot turnedSlot
    by_cases hv : time &&& timeLevelMask ≠ 0
    · rw [if_pos hv, if_pos hv, checkedSub_eq (y := 1) (toNat_pos hv)]
      rfl
    · rw [if_neg hv, if_neg hv]
      dsimp only
      rw [checkedShiftRight_eq time (by decide), Option.bind_some, ih]
      rfl

theorem checkedCascade_eq (h : ∀ slot, ∀ node ∈ t.list slot,
      t.time.toNat ≤ node.expire.toNat ∧ Fits t.time.toNat node.expire.toNat) :
    t.checkedCascade = t.cascade := by
  unfold Timer.checkedCascade Timer.cascade
  by_cases hz : t.time &&& timeLeastMask = 0
  · rw [if_pos hz, if_pos hz, checkedShiftRight_eq t.time (by decide), Option.bind_some,
      checkedTurnedSlot_eq]
    refine Option.bind_congr fun slot _ => ?_
    by_cases hs : slot.inRange = true
    · rw [Timer.clear, if_pos hs]
      refine checkedQueueList_eq fun node hm => ?_
      rw [setList_time]
      exact h slot node hm
    · rw [Timer.clear, if_neg hs]
      rfl
  · rw [if_neg hz, if_neg hz]

theorem Slot.Holds.mem_slots {time : ℕ} {expire : UInt64} {slot : Slot}
    (h : slot.Holds time expire.toNat) : slot ∈ slots := by
  rw [Time.mem_slots]
  cases slot with
  | least index =>
    have hi := Near.slot h
    have hlt := Nat.mod_lt expire.toNat (Nat.two_pow_pos 14)
    simp only [Slot.inRange, toNat_timeLeastValue, decide_eq_true_eq]
    omega
  | level i index =>
    have hv : timeLevelValue.toNat = 2 ^ 10 := by decide
    have hwidth := Far.lt_width h
    simp only [Slot.inRange, hv, decide_eq_true_eq]
    exact ⟨Far.level_lt h, by omega⟩

theorem Wheel.mem_pending (h : Wheel t) {slot : Slot} {node : Node σ} (hm : node ∈ t.list slot) :
    node ∈ t.pending :=
  Time.mem_pending.mpr ⟨slot, (h.placed slot node hm).mem_slots, hm⟩

/-- Between two messages every node still fits. -/
structure Roomy (t : Timer σ) : Prop where
  wheel : Wheel t
  fits : ∀ node ∈ t.pending, Fits t.time.toNat node.expire.toNat

theorem new_roomy : Roomy (Timer.new σ) where
  wheel := new_wheel
  fits node hm := by
    rw [new_pending] at hm
    cases hm

theorem Roomy.tick (h : Roomy t) (ht : t.time.toNat + 1 < 2 ^ 64) :
    ∃ t', t.checkedTick = some t' ∧ t'.time.toNat = t.time.toNat + 1 ∧ Roomy t' := by
  obtain ⟨due, t', he, hk⟩ := h.wheel.tick ht
  have hnow : (t.time + 1).toNat = t.time.toNat + 1 := by
    rw [UInt64.toNat_add]
    exact Nat.mod_eq_of_lt ht
  have hfits : ∀ slot, ∀ node ∈ t.list slot, t.time.toNat + 1 ≤ node.expire.toNat ∧
      Fits (t.time.toNat + 1) node.expire.toNat := by
    intro slot node hm
    have hr : t.time.toNat + 1 ≤ node.expire.toNat := h.wheel.ahead slot node hm
    exact ⟨hr, (h.fits node (h.wheel.mem_pending hm)).tick hr⟩
  refine ⟨t', ?_, hk.time, hk.wheel, fun node hm => ?_⟩
  · rw [← he]
    unfold Timer.checkedTick Timer.tick
    rw [checkedAdd_eq (y := 1) ht, Option.bind_some, checkedCascade_eq]
    intro slot node hm
    rw [list_setTime] at hm
    simpa only [hnow] using hfits slot node hm
  · have hp : node ∈ t.pending := by
      rw [hk.pending]
      exact Multiset.mem_add.mpr (Or.inl hm)
    obtain ⟨slot, _, hs⟩ := Time.mem_pending.mp hp
    rw [hk.time]
    exact (hfits slot node hs).2

theorem Roomy.tickTo {time : UInt64} {ticks : ℕ} (h : Roomy t)
    (ht : t.time.toNat + ticks = time.toNat ∨ ticks = 0 ∧ time.toNat ≤ t.time.toNat) :
    ∃ t', t.checkedTickTo time ticks = some t' ∧
      t'.time.toNat = max t.time.toNat time.toNat ∧ Roomy t' := by
  induction ticks generalizing t with
  | zero => exact ⟨t, rfl, by omega, h⟩
  | succ ticks ih =>
    have hlt : t.time < time := UInt64.lt_iff_toNat_lt.mpr (by omega)
    have hbound := time.toNat_lt
    obtain ⟨m, hm, htime, hr⟩ := h.tick (by omega)
    obtain ⟨t', ht', htime', hr'⟩ := ih hr (Or.inl (by omega))
    refine ⟨t', ?_, by omega, hr'⟩
    unfold Timer.checkedTickTo
    rw [if_pos hlt, hm]
    exact ht'

theorem Roomy.update (h : Roomy t) (time : UInt64) :
    ∃ t', t.checkedUpdate time = some t' ∧ t'.time.toNat = max t.time.toNat time.toNat ∧
      Roomy t' :=
  h.tickTo (by omega)

/-- The message of a sleep of `millis` passes the checks. -/
def Passes (time millis : UInt64) : Prop :=
  time.toNat + millis.toNat + 1 < 2 ^ 64 ∧
    Fits time.toNat (time.toNat + millis.toNat + 1)

instance (time millis : UInt64) : Decidable (Passes time millis) :=
  inferInstanceAs (Decidable (_ ∧ _))

theorem Roomy.timeout (h : Roomy t) (millis : UInt64) (session : σ) :
    (Passes t.time millis → ∃ t', t.checkedReceive (.timeout millis session) = some t' ∧ Roomy t') ∧
      (¬ Passes t.time millis → t.checkedReceive (.timeout millis session) = none) := by
  by_cases hm : millis.toNat + 1 < 2 ^ 64
  · have hone : (millis + 1).toNat = millis.toNat + 1 := by
      rw [UInt64.toNat_add]
      exact Nat.mod_eq_of_lt hm
    have hadd : checkedAdd millis 1 = some (millis + 1) := checkedAdd_eq hm
    simp only [Timer.checkedReceive, hadd, Option.bind_some, Timer.checkedTimeout]
    by_cases hd : t.time.toNat + millis.toNat + 1 < 2 ^ 64
    · have hsum : t.time.toNat + (millis + 1).toNat < 2 ^ 64 := by omega
      have hexpire : (t.time + (millis + 1)).toNat = t.time.toNat + millis.toNat + 1 := by
        rw [UInt64.toNat_add, hone]
        exact Nat.mod_eq_of_lt hd
      have hr : t.time.toNat ≤ (t.time + (millis + 1)).toNat := by omega
      rw [checkedAdd_eq hsum, Option.bind_some, checkedQueueNode_eq hr]
      dsimp only
      rw [hexpire]
      refine ⟨fun hp => ?_, fun hp => if_neg fun hf => hp ⟨hd, hf⟩⟩
      obtain ⟨t', ht, hq⟩ := h.wheel.placed.queueNode ⟨t.time + (millis + 1), session⟩ hr
      refine ⟨t', by rw [if_pos hp.2, ht], ⟨hq.placed, ?_⟩, ?_⟩
      · intro slot node hn
        rw [hq.time]
        rcases hq.origin slot node hn with hn | hn
        · exact h.wheel.ahead slot node hn
        · rw [List.mem_singleton.mp hn]
          dsimp only
          omega
      · intro node hn
        rw [hq.pending] at hn
        rw [hq.time]
        rcases Multiset.mem_add.mp hn with hn | hn
        · exact h.fits node hn
        · rw [Multiset.mem_coe, List.mem_singleton] at hn
          rw [hn]
          dsimp only
          rw [hexpire]
          exact hp.2
    · have hnone : checkedAdd t.time (millis + 1) = none := if_neg (by omega)
      rw [hnone]
      exact ⟨fun hp => absurd hp.1 hd, fun _ => rfl⟩
  · have hnone : checkedAdd millis 1 = none := if_neg hm
    simp only [Timer.checkedReceive, hnone, Option.bind_none]
    exact ⟨fun hp => absurd hp.1 (by omega), fun _ => trivial⟩

theorem reachable_roomy (h : Reachable (checkedSystem σ) t) : Roomy t := by
  induction h with
  | init => exact new_roomy
  | @step t t' e _ hs ih =>
    cases e with
    | timeout millis session =>
      obtain ⟨hpass, hfail⟩ := ih.timeout millis session
      by_cases hp : Passes t.time millis
      · obtain ⟨m, hm, hr⟩ := hpass hp
        cases (show some m = some t' from hm ▸ hs)
        exact hr
      · cases (show none = some t' from hfail hp ▸ hs)
    | update time =>
      obtain ⟨m, hm, _, hr⟩ := ih.update time
      cases (show some m = some t' from hm ▸ hs)
      exact hr

/-- At every time that the clock comes to, the message of a sleep is taken without a failed check
just if it passes; the ticks themselves never fail one, and they come to every time. -/
theorem timer_checks (h : Reachable (checkedSystem σ) t) :
    (∀ millis session, (t.checkedReceive (.timeout millis session)).isSome = true ↔
      Passes t.time millis) ∧
    ∀ time, ∃ t', t.checkedReceive (.update time) = some t' ∧
      t'.time.toNat = max t.time.toNat time.toNat := by
  have hr := reachable_roomy h
  refine ⟨fun millis session => ?_, fun time => ?_⟩
  · obtain ⟨hpass, hfail⟩ := hr.timeout millis session
    by_cases hp : Passes t.time millis
    · obtain ⟨t', ht, _⟩ := hpass hp
      simp [ht, hp]
    · simp [hfail hp, hp]
  · obtain ⟨t', ht, htime, _⟩ := hr.update time
    exact ⟨t', ht, htime⟩

/-- Two sleeps are queued, in two rings, when the longest one that still passes comes in. -/
theorem long_sleep_passes : ∃ t, (checkedSystem ℕ).runFrom (.new ℕ)
      [.timeout 20 1, .timeout 20000 2, .update 3] = some t ∧
    (t.checkedReceive (.timeout 18014398509481979 7)).isSome = true ∧
    ∃ t', t.checkedReceive (.update 30000) = some t' ∧ t'.time.toNat = 30000 := by
  obtain ⟨t, ht, htime⟩ : ∃ t, (checkedSystem ℕ).runFrom (.new ℕ)
      [.timeout 20 1, .timeout 20000 2, .update 3] = some t ∧ t.time = 3 := ⟨_, rfl, rfl⟩
  obtain ⟨hsleep, hticks⟩ := timer_checks (run_reachable _ ht)
  rw [htime] at hsleep hticks
  exact ⟨t, ht, (hsleep _ _).mpr (by decide), hticks 30000⟩

/-- The longest duration of all is one that `sleep` sends as 2^64 - 1 milliseconds, and a sleep
of 2^54 - 1 is the first that needs the fifth ring at time 0. -/
theorem endless_sleep_overflows :
    UInt64.ofNat (Sleep.Duration.mk 18446744073709551615 999999999 (by decide)).asMillis =
      18446744073709551615 ∧
    Reachable (checkedSystem ℕ) (.new ℕ) ∧
    (Timer.new ℕ).checkedReceive (.timeout 18446744073709551615 7) = none ∧
    (Timer.new ℕ).checkedReceive (.timeout 18014398509481983 7) = none := by
  refine ⟨by decide, .init, ?_, ?_⟩ <;> rfl

end Time
