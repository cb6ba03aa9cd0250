import Stuck.TimeExact

/-! Timeouts of no ticks. `timer` adds one to the milliseconds of a sleep, and in a release build
the longest one wraps. Such a node joins the list of a tick that has passed, and waits there until
the ring has turned; all others are queued and woken as if it were not there. -/
namespace Time

open TransitionSystem TimingWheel

variable {σ : Type*} {t t' u u' : Timer σ} {bound : ℕ}

/-- The list that `queue_node` picks; nothing but the deadline and the time decides it. -/
def nodeSlot (expire time : UInt64) : Option Slot :=
  if expire - time < timeLeastValue then some (.least (expire &&& timeLeastMask).toNat)
  else farSlot expire time timeLevelCount 0 (1 <<< timeLeastShift)

theorem queueNode_eq (t : Timer σ) (node : Node σ) :
    t.queueNode node = (nodeSlot node.expire t.time).bind fun slot => t.insert slot node := by
  unfold Timer.queueNode nodeSlot
  split <;> rfl

theorem insert_eq_some {slot : Slot} {node : Node σ} (h : t.insert slot node = some t') :
    slot ∈ slots ∧ t' = t.setList (t.list slot ++ [node]) slot := by
  unfold Timer.insert at h
  split at h
  case isTrue hs =>
    cases h
    exact ⟨mem_slots.mpr hs, rfl⟩
  · cases h

theorem clear_eq_some {slot : Slot} {list : List (Node σ)} (h : t.clear slot = some (list, t')) :
    slot ∈ slots ∧ list = t.list slot ∧ t' = t.setList [] slot := by
  unfold Timer.clear at h
  split at h
  case isTrue hs =>
    cases h
    exact ⟨mem_slots.mpr hs, rfl, rfl⟩
  · cases h

/-- Only the rings above the first one turn a list down. -/
theorem turnedSlot_level {rest level : ℕ} {time : UInt64} {slot : Slot}
    (h : turnedSlot rest level time = some slot) : ∃ i index, slot = .level i index := by
  induction rest generalizing level time with
  | zero =>
    unfold turnedSlot at h
    dsimp only at h
    split at h
    · cases h
      exact ⟨_, _, rfl⟩
    · cases h
  | succ rest ih =>
    unfold turnedSlot at h
    dsimp only at h
    split at h
    · cases h
      exact ⟨_, _, rfl⟩
    · exact ih h

/-- `u` has the nodes of `t` that expire after `bound`; the rest of them are in the first ring. -/
structure Shadow (bound : ℕ) (t u : Timer σ) : Prop where
  time : u.time = t.time
  lists : ∀ slot, u.list slot = (t.list slot).filter fun node => bound < node.expire.toNat
  levels : ∀ i index, ∀ node ∈ t.list (.level i index), bound < node.expire.toNat
  woken : u.woken.Sublist t.woken

theorem Shadow.setList (h : Shadow bound t u) {slot : Slot} {list kept : List (Node σ)}
    (hk : kept = list.filter fun node => bound < node.expire.toNat)
    (hl : (∃ i index, slot = .level i index) → ∀ node ∈ list, bound < node.expire.toNat) :
    Shadow bound (t.setList list slot) (u.setList kept slot) where
  time := by simpa using h.time
  lists other := by
    rw [list_setList, list_setList]
    by_cases ho : other = slot
    · subst ho
      simpa using hk
    · rw [Function.update_of_ne ho, Function.update_of_ne ho]
      exact h.lists other
  levels i index node hm := by
    rw [list_setList] at hm
    by_cases ho : Slot.level i index = slot
    · subst ho
      rw [Function.update_self] at hm
      exact hl ⟨i, index, rfl⟩ node hm
    · rw [Function.update_of_ne ho] at hm
      exact h.levels i index node hm
  woken := by simpa using h.woken

theorem Shadow.setTime (h : Shadow bound t u) (time : UInt64) :
    Shadow bound { t with time } { u with time } where
  time := rfl
  lists := by
    rw [list_setTime, list_setTime]
    exact h.lists
  levels := h.levels
  woken := h.woken

theorem Shadow.queueNode (h : Shadow bound t u) {node : Node σ} (hn : bound < node.expire.toNat)
    (hu : u.queueNode node = some u') : ∃ t', t.queueNode node = some t' ∧ Shadow bound t' u' := by
  rw [queueNode_eq, h.time] at hu
  obtain ⟨slot, hslot, hinsert⟩ := Option.bind_eq_some_iff.mp hu
  obtain ⟨hs, rfl⟩ := insert_eq_some hinsert
  refine ⟨t.setList (t.list slot ++ [node]) slot, ?_, h.setList ?_ ?_⟩
  · rw [queueNode_eq, hslot, Option.bind_some, Timer.insert, if_pos (mem_slots.mp hs)]
  · rw [h.lists slot, List.filter_append, List.filter_singleton]
    simp [hn]
  · rintro ⟨i, index, rfl⟩ other ho
    rcases List.mem_append.mp ho with ho | ho
    · exact h.levels i index other ho
    · rw [List.mem_singleton.mp ho]
      exact hn

theorem Shadow.queueList (h : Shadow bound t u) {list : List (Node σ)}
    (hl : ∀ node ∈ list, bound < node.expire.toNat) (hu : u.queueList list = some u') :
    ∃ t', t.queueList list = some t' ∧ Shadow bound t' u' := by
  induction list generalizing t u with
  | nil =>
    cases hu
    exact ⟨t, rfl, h⟩
  | cons node rest ih =>
    obtain ⟨m, hm, hrest⟩ := Option.bind_eq_some_iff.mp hu
    obtain ⟨n, hn, hmn⟩ := h.queueNode (hl node List.mem_cons_self) hm
    obtain ⟨t', ht, ht'⟩ := ih hmn (fun other ho => hl other (List.mem_cons_of_mem _ ho)) hrest
    exact ⟨t', Option.bind_eq_some_iff.mpr ⟨n, hn, ht⟩, ht'⟩

/-- The list that comes down has nothing overdue. -/
theorem Shadow.cascade (h : Shadow bound t u) (hu : u.cascade = some u') :
    ∃ t', t.cascade = some t' ∧ Shadow bound t' u' := by
  unfold Timer.cascade at hu ⊢
  rw [h.time] at hu
  split at hu
  case isTrue hz =>
    rw [if_pos hz]
    obtain ⟨slot, hslot, hdown⟩ := Option.bind_eq_some_iff.mp hu
    obtain ⟨⟨list, m⟩, hclear, hqueue⟩ := Option.bind_eq_some_iff.mp hdown
    obtain ⟨hs, rfl, rfl⟩ := clear_eq_some hclear
    obtain ⟨i, index, rfl⟩ := turnedSlot_level hslot
    have hsame : u.list (.level i index) = t.list (.level i index) := by
      rw [h.lists]
      exact List.filter_eq_self.mpr fun node hm => decide_eq_true (h.levels i index node hm)
    have hcleared : Shadow bound (t.setList [] (.level i index)) (u.setList [] (.level i index)) :=
      h.setList rfl fun _ node hm => absurd hm List.not_mem_nil
    dsimp only at hqueue
    rw [hsame] at hqueue
    obtain ⟨t', ht, ht'⟩ := hcleared.queueList (h.levels i index) hqueue
    refine ⟨t', ?_, ht'⟩
    rw [hslot, Option.bind_some, Timer.clear, if_pos (mem_slots.mp hs), Option.bind_some]
    exact ht
  case isFalse hz =>
    rw [if_neg hz]
    cases hu
    exact ⟨t, rfl, h⟩

/-- The overdue nodes of the list of the tick are woken with the others. -/
theorem Shadow.tick (h : Shadow bound t u) (hu : u.tick = some u') :
    ∃ t', t.tick = some t' ∧ Shadow bound t' u' := by
  unfold Timer.tick at hu ⊢
  obtain ⟨m, hm, hwake⟩ := Option.bind_eq_some_iff.mp hu
  rw [h.time] at hm
  obtain ⟨n, hn, hmn⟩ := (h.setTime (t.time + 1)).cascade hm
  obtain ⟨⟨list, v⟩, hclear, rfl⟩ := Option.map_eq_some_iff.mp hwake
  rw [hmn.time] at hclear
  obtain ⟨hs, rfl, rfl⟩ := clear_eq_some hclear
  let slot : Slot := .least (n.time &&& timeLeastMask).toNat
  refine ⟨(n.setList [] slot).wake (n.list slot), ?_, ?_⟩
  · rw [hn, Option.bind_some, Timer.clear, if_pos (mem_slots.mp hs), Option.map_some]
  · have hcleared : Shadow bound (n.setList [] slot) (m.setList [] slot) :=
      hmn.setList rfl fun _ node hm => absurd hm List.not_mem_nil
    refine ⟨hcleared.time, ?_, hcleared.levels, ?_⟩
    · intro slot
      exact hcleared.lists slot
    · simp only [Timer.wake, setList_time, setList_woken, hmn.time, hmn.lists]
      exact hmn.woken.append (List.filter_sublist.map _)

/-- Whatever is left of `u` expires later than the next bound as well. -/
theorem Shadow.rebound (h : Shadow bound t u) {next : ℕ} (hb : bound ≤ next)
    (hn : ∀ slot, ∀ node ∈ u.list slot, next < node.expire.toNat) : Shadow next t u where
  time := h.time
  lists slot := by
    have hkept : (u.list slot).filter (fun node => next < node.expire.toNat) = u.list slot :=
      List.filter_eq_self.mpr fun node hm => decide_eq_true (hn slot node hm)
    rw [← hkept, h.lists slot, List.filter_filter]
    refine List.filter_congr fun node _ => ?_
    simp only [Bool.and_eq_left_iff_imp, decide_eq_true_eq]
    exact fun hlt => Nat.lt_of_le_of_lt hb hlt
  levels i index node hm := by
    refine hn (.level i index) node ?_
    rw [h.lists]
    exact List.mem_filter.mpr ⟨hm, decide_eq_true (h.levels i index node hm)⟩
  woken := h.woken

theorem Shadow.tickTo {time : UInt64} {ticks : ℕ} (h : Shadow bound t u)
    (hu : u.tickTo time ticks = some u') :
    ∃ t', t.tickTo time ticks = some t' ∧ Shadow bound t' u' := by
  induction ticks generalizing t u with
  | zero =>
    cases hu
    exact ⟨t, rfl, h⟩
  | succ ticks ih =>
    unfold Timer.tickTo at hu ⊢
    rw [h.time] at hu
    by_cases hlt : t.time < time
    · rw [if_pos hlt] at hu ⊢
      obtain ⟨m, hm, hrest⟩ := Option.bind_eq_some_iff.mp hu
      obtain ⟨n, hn, hmn⟩ := h.tick hm
      obtain ⟨t', ht, ht'⟩ := ih hmn hrest
      exact ⟨t', Option.bind_eq_some_iff.mpr ⟨n, hn, ht⟩, ht'⟩
    · rw [if_neg hlt] at hu ⊢
      cases hu
      exact ⟨t, rfl, h⟩

/-- A node that is overdue at once is not in the shadow. -/
theorem Shadow.overdue (h : Shadow t.time.toNat t u) (session : σ) :
    ∃ t', t.timeout 0 session = some t' ∧ Shadow t'.time.toNat t' u := by
  have hnow : t.time.toNat ≤ (Node.mk (t.time + 0) session).expire.toNat := by simp
  obtain ⟨slot, hs, hq, hh⟩ := queueNode_holds hnow
  refine ⟨_, hq, ?_, ?_, ?_, by simpa using h.woken⟩
  · simpa using h.time
  · intro other
    rw [list_setList, setList_time, h.lists other]
    by_cases ho : other = slot
    · subst ho
      simp [List.filter_append]
    · rw [Function.update_of_ne ho]
  · intro i index node hm
    rw [list_setList] at hm
    rw [setList_time]
    by_cases ho : Slot.level i index = slot
    · subst ho
      have hlt := Far.lt hh
      simp at hlt
    · rw [Function.update_of_ne ho] at hm
      exact h.levels i index node hm

variable {a b : Alarms σ} {ops : List (Op σ)}

/-- No deadline is beyond what the clock can show. -/
def Alarms.Bounded (a : Alarms σ) : Op σ → Prop
  | .timeout timeout _ => a.now + timeout.toNat < 2 ^ 64
  | .update _ => True

instance (a : Alarms σ) : ∀ op, Decidable (a.Bounded op)
  | .timeout timeout _ => inferInstanceAs (Decidable (a.now + timeout.toNat < 2 ^ 64))
  | .update _ => isTrue trivial

def Op.isTimed : Op σ → Bool
  | .timeout ticks _ => decide (1 ≤ ticks.toNat)
  | .update _ => true

theorem Alarms.Bounded.admits {op : Op σ} (h : a.Bounded op) (ht : op.isTimed = true)
    (hn : b.now = a.now) : b.Admits op := by
  cases op with
  | timeout timeout session => exact ⟨of_decide_eq_true ht, hn ▸ h⟩
  | update time => trivial

theorem Alarms.now_untimed {op : Op σ} (ht : ¬ op.isTimed = true) : (a.step op).now = a.now := by
  cases op with
  | timeout timeout session => rfl
  | update time => exact absurd rfl ht

theorem Alarms.now_step {op : Op σ} (hn : b.now = a.now) : (b.step op).now = (a.step op).now := by
  cases op with
  | timeout timeout session => exact hn
  | update time => exact congrArg (max · time.toNat) hn

theorem Alarms.now_timed (hn : b.now = a.now) :
    ((ops.filter Op.isTimed).foldl Alarms.step b).now = (ops.foldl Alarms.step a).now := by
  induction ops generalizing a b with
  | nil => exact hn
  | cons op ops ih =>
    by_cases ht : op.isTimed = true
    · rw [List.filter_cons_of_pos ht]
      exact ih (Alarms.now_step hn)
    · rw [List.filter_cons_of_neg ht]
      exact ih (hn.trans (Alarms.now_untimed ht).symm)

theorem Alarms.admits_timed (h : (alarms σ).AllSteps Alarms.Bounded a ops) (hn : b.now = a.now) :
    (alarms σ).AllSteps Alarms.Admits b (ops.filter Op.isTimed) := by
  induction ops generalizing a b with
  | nil => trivial
  | cons op ops ih =>
    obtain ⟨hop, hrest⟩ := h
    by_cases ht : op.isTimed = true
    · rw [List.filter_cons_of_pos ht]
      refine ⟨hop.admits ht hn, fun m hm => ?_⟩
      obtain rfl := Option.some.inj hm
      exact ih (hrest _ rfl) (Alarms.now_step hn)
    · rw [List.filter_cons_of_neg ht]
      exact ih (hrest _ rfl) (hn.trans (Alarms.now_untimed ht).symm)

theorem Alarms.now_le_step (a : Alarms σ) (op : Op σ) : a.now ≤ (a.step op).now := by
  cases op with
  | timeout timeout session => exact Nat.le_refl _
  | update time => exact Nat.le_max_left _ _

/-- Every call that the shadow takes does the same to the timer. -/
theorem Shadow.step (h : Shadow t.time.toNat t u) (hr : Refines u a) {op : Op σ}
    (ha : a.Admits op) :
    ∃ t' u', t.step op = some t' ∧ u.step op = some u' ∧ Shadow t'.time.toNat t' u' ∧
      Refines u' (a.step op) := by
  obtain ⟨u', hu, hr'⟩ := hr.step ha
  have hboth : ∃ t', t.step op = some t' ∧ Shadow t.time.toNat t' u' := by
    cases op with
    | timeout timeout session =>
      have hclock : t.time.toNat = a.now := by rw [← h.time, hr.clock]
      have hlater : t.time.toNat < (u.time + timeout).toNat := by
        rw [h.time, UInt64.toNat_add, Nat.mod_eq_of_lt (hclock ▸ ha.2)]
        exact Nat.lt_add_of_pos_right ha.1
      obtain ⟨t', ht, hs⟩ := h.queueNode hlater hu
      refine ⟨t', ?_, hs⟩
      rw [← ht, h.time]
      rfl
    | update time =>
      change u.tickTo time _ = some u' at hu
      rw [h.time] at hu
      exact h.tickTo hu
  obtain ⟨t', ht, hs⟩ := hboth
  have hbound : t.time.toNat ≤ t'.time.toNat := by
    rw [← h.time, ← hs.time, hr.clock, hr'.clock]
    exact a.now_le_step op
  exact ⟨t', u', ht, hu, hs.rebound hbound (hs.time ▸ hr'.wheel.ahead), hr'⟩

/-- The timer runs as it would without the timeouts of no ticks. -/
theorem Shadow.run (h : Shadow t.time.toNat t u) (hr : Refines u b) (hn : b.now = a.now)
    (ha : (alarms σ).AllSteps Alarms.Bounded a ops) :
    ∃ t' u', (system σ).runFrom t ops = some t' ∧
      (system σ).runFrom u (ops.filter Op.isTimed) = some u' ∧ Shadow t'.time.toNat t' u' := by
  induction ops generalizing t u a b with
  | nil => exact ⟨t, u, rfl, rfl, h⟩
  | cons op ops ih =>
    obtain ⟨hop, hrest⟩ := ha
    by_cases ht : op.isTimed = true
    · rw [List.filter_cons_of_pos ht]
      obtain ⟨m, v, hm, hv, hmv, hrv⟩ := h.step hr (hop.admits ht hn)
      obtain ⟨t', u', ht', hu', hs⟩ := ih hmv hrv (Alarms.now_step hn) (hrest _ rfl)
      exact ⟨t', u', run_cons.mpr ⟨m, hm, ht'⟩,
        run_cons.mpr ⟨v, hv, hu'⟩, hs⟩
    · rw [List.filter_cons_of_neg ht]
      cases op with
      | timeout timeout session =>
        have hzero : timeout = 0 := by
          simpa [Op.isTimed, ← UInt64.toNat_inj] using ht
        subst hzero
        obtain ⟨m, hm, hmu⟩ := h.overdue session
        obtain ⟨t', u', ht', hu', hs⟩ := ih hmu hr (hn.trans (Alarms.now_untimed ht).symm) (hrest _ rfl)
        exact ⟨t', u', run_cons.mpr ⟨m, hm, ht'⟩, hu', hs⟩
      | update time => exact absurd rfl ht

theorem new_shadow : Shadow bound (Timer.new σ) (.new σ) where
  time := rfl
  lists slot := by cases slot <;> rfl
  levels i index node hm := absurd hm List.not_mem_nil
  woken := List.Sublist.refl _

end Time
