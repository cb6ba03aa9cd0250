import Stuck.TimeOverdue

/-! Stability of the timer: sessions registered at the same time with the same timeout are woken
in the order of their registration. -/
namespace Time

open TransitionSystem

variable {σ : Type*} {t t' : Timer σ} {a : Alarms σ} {deadline : UInt64} {sessions : List σ}

/-- Each list has got, at its end, just the nodes that belong there, in the order they came in. -/
structure Dealt (t : Timer σ) (list : List (Node σ)) (t' : Timer σ) : Prop where
  time : t'.time = t.time
  woken : t'.woken = t.woken
  slot : ∀ node ∈ list, ∃ slot, nodeSlot node.expire t.time = some slot
  lists : ∀ slot, t'.list slot =
    t.list slot ++ list.filter fun node => nodeSlot node.expire t.time = some slot
  pending : t'.pending = t.pending + list

theorem queueNode_dealt {node : Node σ} (h : t.queueNode node = some t') :
    Dealt t [node] t' := by
  rw [queueNode_eq] at h
  obtain ⟨slot, hslot, hinsert⟩ := Option.bind_eq_some_iff.mp h
  obtain ⟨hs, rfl⟩ := insert_eq_some hinsert
  refine ⟨by simp, by simp, ?_, ?_, ?_⟩
  · intro other ho
    rw [List.mem_singleton.mp ho]
    exact ⟨slot, hslot⟩
  · intro other
    rw [list_setList, List.filter_singleton, hslot]
    by_cases ho : other = slot
    · subst ho
      simp
    · simp [Function.update_of_ne ho, Ne.symm ho]
  · rw [pending_insert hs, ← Multiset.singleton_add, add_comm, Multiset.coe_singleton]

theorem queueList_dealt {list : List (Node σ)} (h : t.queueList list = some t') :
    Dealt t list t' := by
  induction list generalizing t with
  | nil =>
    cases h
    exact ⟨rfl, rfl, by simp, by simp, by simp⟩
  | cons node rest ih =>
    obtain ⟨m, hm, hrest⟩ := Option.bind_eq_some_iff.mp h
    have hd := queueNode_dealt hm
    have hr := ih hrest
    refine ⟨hr.time.trans hd.time, hr.woken.trans hd.woken, ?_, ?_, ?_⟩
    · intro other ho
      rcases List.mem_cons.mp ho with rfl | ho
      · exact hd.slot other (by simp)
      · rw [← hd.time]
        exact hr.slot other ho
    · intro slot
      rw [hr.lists slot, hd.lists slot, hd.time, List.append_assoc, ← List.filter_append,
        List.singleton_append]
    · rw [hr.pending, hd.pending, add_assoc, Multiset.coe_add, List.singleton_append]

/-- The nodes of the sessions wait in one list, in this order. -/
def Waits (t : Timer σ) (deadline : UInt64) (sessions : List σ) : Prop :=
  ∃ slot, (sessions.map (Node.mk deadline)).Sublist (t.list slot)

/-- The sessions wait in this order or have been woken in it. -/
def InOrder (t : Timer σ) (deadline : UInt64) (sessions : List σ) : Prop :=
  Waits t deadline sessions ∨
    (sessions.map fun session => (deadline, session)).Sublist t.woken

theorem Dealt.grows {list : List (Node σ)} (h : Dealt t list t') (slot : Slot) :
    (t.list slot).Sublist (t'.list slot) := by
  rw [h.lists slot]
  exact List.sublist_append_left _ _

/-- Nodes of one deadline stay together when their list is dealt out. -/
theorem Dealt.waits {list : List (Node σ)} (h : Dealt t list t')
    (hs : (sessions.map (Node.mk deadline)).Sublist list) : Waits t' deadline sessions := by
  rcases sessions with _ | ⟨first, rest⟩
  · exact ⟨.least 0, List.nil_sublist _⟩
  obtain ⟨slot, hslot⟩ := h.slot (Node.mk deadline first) (hs.subset (by simp))
  refine ⟨slot, ?_⟩
  have hall : ((first :: rest).map (Node.mk deadline)).filter
      (fun node => nodeSlot node.expire t.time = some slot) =
        (first :: rest).map (Node.mk deadline) := by
    refine List.filter_eq_self.mpr fun node hn => ?_
    obtain ⟨session, _, rfl⟩ := List.mem_map.mp hn
    exact decide_eq_true hslot
  rw [h.lists slot, ← hall]
  exact (hs.filter _).trans (List.sublist_append_right _ _)

/-- A cascade takes one list down and deals it out. -/
theorem cascade_cases (h : t.cascade = some t') :
    t' = t ∨ ∃ slot ∈ slots, Dealt (t.setList [] slot) (t.list slot) t' := by
  unfold Timer.cascade at h
  split at h
  · obtain ⟨slot, _, hdown⟩ := Option.bind_eq_some_iff.mp h
    obtain ⟨⟨list, m⟩, hclear, hqueue⟩ := Option.bind_eq_some_iff.mp hdown
    obtain ⟨hs, rfl, rfl⟩ := clear_eq_some hclear
    exact Or.inr ⟨slot, hs, queueList_dealt hqueue⟩
  · cases h
    exact Or.inl rfl

theorem cascade_kept (h : t.cascade = some t') :
    t'.time = t.time ∧ t'.woken = t.woken ∧ t'.pending = t.pending := by
  rcases cascade_cases h with rfl | ⟨slot, hs, hd⟩
  · exact ⟨rfl, rfl, rfl⟩
  · refine ⟨by simpa using hd.time, by simpa using hd.woken, ?_⟩
    rw [hd.pending, pending_clear hs]

/-- Each registered session has been woken or waits. -/
def Recorded (t : Timer σ) (a : Alarms σ) : Prop :=
  (t.woken.map Prod.snd : Multiset σ) + t.pending.map Node.session = a.registered.map Prod.snd

theorem new_recorded : Recorded (Timer.new σ) (.new σ) := by
  unfold Recorded
  rw [new_pending]
  rfl

theorem Recorded.tick (h : Recorded t a) (hstep : t.tick = some t') : Recorded t' a := by
  obtain ⟨m, hm, hwake⟩ := Option.bind_eq_some_iff.mp hstep
  obtain ⟨⟨list, n⟩, hclear, rfl⟩ := Option.map_eq_some_iff.mp hwake
  obtain ⟨hs, rfl, rfl⟩ := clear_eq_some hclear
  obtain ⟨_, hwoken, hpending⟩ := cascade_kept hm
  have hraise : ({ t with time := t.time + 1 } : Timer σ).pending = t.pending := by
    rw [Timer.pending, list_setTime, Timer.pending]
  have hsplit := pending_clear (t := m) hs
  rw [hpending, hraise] at hsplit
  dsimp only
  unfold Recorded at h ⊢
  rw [← h, ← hsplit]
  simp only [Timer.wake, setList_woken, hwoken, List.map_append, List.map_map, Multiset.map_add,
    ← Multiset.coe_add, Multiset.map_coe]
  rw [add_assoc, add_comm (Multiset.map Node.session _)]
  rfl

theorem Recorded.tickTo {time : UInt64} {ticks : ℕ} (h : Recorded t a)
    (hrun : t.tickTo time ticks = some t') : Recorded t' a := by
  induction ticks generalizing t with
  | zero =>
    cases hrun
    exact h
  | succ ticks ih =>
    unfold Timer.tickTo at hrun
    split at hrun
    · obtain ⟨m, hm, hrest⟩ := Option.bind_eq_some_iff.mp hrun
      exact ih (h.tick hm) hrest
    · cases hrun
      exact h

theorem timeout_dealt {timeout : UInt64} {session : σ} (h : t.timeout timeout session = some t') :
    Dealt t [⟨t.time + timeout, session⟩] t' := queueNode_dealt h

theorem Recorded.step (h : Recorded t a) {op : Op σ} (hstep : t.step op = some t') :
    Recorded t' (a.step op) := by
  cases op with
  | timeout timeout session =>
    have hd := timeout_dealt hstep
    unfold Recorded at h ⊢
    rw [hd.woken, hd.pending, Multiset.map_add, ← add_assoc, h]
    simp only [Alarms.step, List.map_append, ← Multiset.coe_add, Multiset.map_coe, List.map_cons,
      List.map_nil]
  | update time => exact h.tickTo hstep

theorem Recorded.run (h : Recorded t a) {ops : List (Op σ)}
    (hrun : (system σ).runFrom t ops = some t') : Recorded t' (ops.foldl Alarms.step a) := by
  induction ops generalizing t a with
  | nil =>
    cases hrun
    exact h
  | cons op ops ih =>
    obtain ⟨m, hm, hrest⟩ := run_cons.mp hrun
    exact ih (h.step hm) hrest

theorem Waits.cascade (hw : Waits t deadline sessions) (h : t.cascade = some t') :
    Waits t' deadline sessions := by
  rcases cascade_cases h with rfl | ⟨turned, _, hd⟩
  · exact hw
  obtain ⟨slot, hs⟩ := hw
  by_cases ho : slot = turned
  · subst ho
    exact hd.waits hs
  · refine ⟨slot, List.Sublist.trans ?_ (hd.grows slot)⟩
    rw [list_setList, Function.update_of_ne ho]
    exact hs

/-- In its tick the whole list of the deadline is woken from its first node to its last. -/
theorem Waits.wake (hw : Waits t deadline sessions) (hp : t.Placed) :
    let slot := Slot.least (t.time &&& timeLeastMask).toNat
    InOrder ((t.setList [] slot).wake (t.list slot)) deadline sessions := by
  intro due
  obtain ⟨slot, hs⟩ := hw
  by_cases ho : slot = due
  · subst ho
    right
    have hexpired : ∀ session ∈ sessions, deadline = t.time := by
      intro session hm
      have hin := hs.subset (List.mem_map_of_mem (f := Node.mk deadline) hm)
      have hh := hp due _ hin
      exact UInt64.toNat_inj.mp (hh.expired (toNat_and_timeLeastMask t.time).symm)
    have hmap : sessions.map (fun session => (deadline, session)) =
        (sessions.map (Node.mk deadline)).map fun node => (t.time, node.session) := by
      rw [List.map_map]
      exact List.map_congr_left fun session hm => by simp [hexpired session hm]
    rw [hmap]
    simp only [Timer.wake, setList_time, setList_woken]
    exact (hs.map _).trans (List.sublist_append_right _ _)
  · left
    refine ⟨slot, ?_⟩
    show (sessions.map (Node.mk deadline)).Sublist ((t.setList [] due).list slot)
    rw [list_setList, Function.update_of_ne ho]
    exact hs

theorem InOrder.tick (h : InOrder t deadline sessions) (hw : Wheel t)
    (ht : t.time.toNat + 1 < 2 ^ 64) (hstep : t.tick = some t') :
    InOrder t' deadline sessions := by
  have hnow : (t.time + 1).toNat = t.time.toNat + 1 := by
    rw [UInt64.toNat_add]
    exact Nat.mod_eq_of_lt ht
  obtain ⟨m, hm, _, hwoken, hplaced, _⟩ := hw.cascade hnow
  unfold Timer.tick at hstep
  rw [hm, Option.bind_some] at hstep
  obtain ⟨⟨list, n⟩, hclear, rfl⟩ := Option.map_eq_some_iff.mp hstep
  obtain ⟨_, rfl, rfl⟩ := clear_eq_some hclear
  rcases h with ⟨slot, hs⟩ | hs
  · have hrise : Waits { t with time := t.time + 1 } deadline sessions :=
      ⟨slot, by rw [list_setTime]; exact hs⟩
    exact (hrise.cascade hm).wake hplaced
  · right
    simp only [Timer.wake, setList_woken, hwoken]
    exact hs.trans (List.sublist_append_left _ _)

theorem InOrder.tickTo {time : UInt64} {ticks : ℕ} (h : InOrder t deadline sessions)
    (hw : Wheel t) (hrun : t.tickTo time ticks = some t') : InOrder t' deadline sessions := by
  induction ticks generalizing t with
  | zero =>
    cases hrun
    exact h
  | succ ticks ih =>
    unfold Timer.tickTo at hrun
    split at hrun
    · have hlt : t.time.toNat < time.toNat := UInt64.lt_iff_toNat_lt.mp (by assumption)
      have hbound := time.toNat_lt
      have ht : t.time.toNat + 1 < 2 ^ 64 := by omega
      obtain ⟨m, hm, hrest⟩ := Option.bind_eq_some_iff.mp hrun
      obtain ⟨due, m', hm', hticked⟩ := hw.tick ht
      obtain rfl : m = m' := Option.some.inj (hm.symm.trans hm')
      exact ih (h.tick hw ht hm) hticked.wheel hrest
    · cases hrun
      exact h

theorem InOrder.step (h : InOrder t deadline sessions) (hw : Wheel t) {op : Op σ}
    (hstep : t.step op = some t') : InOrder t' deadline sessions := by
  cases op with
  | timeout timeout session =>
    have hd := timeout_dealt hstep
    rcases h with ⟨slot, hs⟩ | hs
    · exact Or.inl ⟨slot, hs.trans (hd.grows slot)⟩
    · exact Or.inr (hd.woken ▸ hs)
  | update time => exact h.tickTo hw hstep

theorem Refines.of_step (h : Refines t a) {op : Op σ} (ha : a.Admits op)
    (hstep : t.step op = some t') : Refines t' (a.step op) := by
  obtain ⟨m, hm, hr⟩ := h.step ha
  obtain rfl : m = t' := Option.some.inj (hm.symm.trans hstep)
  exact hr

theorem Refines.of_run (h : Refines t a) {ops : List (Op σ)}
    (ha : (alarms σ).AllSteps Alarms.Admits a ops)
    (hrun : (system σ).runFrom t ops = some t') : Refines t' (ops.foldl Alarms.step a) := by
  obtain ⟨m, hm, hr⟩ := h.run ha
  obtain rfl : m = t' := Option.some.inj (hm.symm.trans hrun)
  exact hr

/-- Whatever happens to other timers and however far the clock goes, the order stays. -/
theorem InOrder.run (h : InOrder t deadline sessions) (hr : Refines t a) {ops : List (Op σ)}
    (ha : (alarms σ).AllSteps Alarms.Admits a ops)
    (hrun : (system σ).runFrom t ops = some t') : InOrder t' deadline sessions := by
  induction ops generalizing t a with
  | nil =>
    cases hrun
    exact h
  | cons op ops ih =>
    obtain ⟨hop, hrest⟩ := ha
    obtain ⟨m, hm, hnext⟩ := run_cons.mp hrun
    exact ih (h.step hr.wheel hm) (hr.of_step hop hm) (hrest _ rfl) hnext

theorem update_past {time : UInt64} (h : time.toNat ≤ t.time.toNat) : t.update time = some t := by
  unfold Timer.update
  rw [Nat.sub_eq_zero_of_le h]
  rfl

theorem Alarms.now_le_foldl (a : Alarms σ) (ops : List (Op σ)) :
    a.now ≤ (ops.foldl Alarms.step a).now := by
  induction ops generalizing a with
  | nil => exact Nat.le_refl _
  | cons op ops ih => exact (a.now_le_step op).trans (ih _)

/-- While the time stands still the lists only grow. -/
theorem Refines.grows (hr : Refines t a) {ops : List (Op σ)}
    (ha : (alarms σ).AllSteps Alarms.Admits a ops)
    (hnow : (ops.foldl Alarms.step a).now = a.now)
    (hrun : (system σ).runFrom t ops = some t') (slot : Slot) :
    (t.list slot).Sublist (t'.list slot) := by
  induction ops generalizing t a with
  | nil =>
    cases hrun
    exact List.Sublist.refl _
  | cons op ops ih =>
    obtain ⟨hop, hrest⟩ := ha
    obtain ⟨m, hm, hnext⟩ := run_cons.mp hrun
    have hr' := hr.of_step hop hm
    have hstill : (a.step op).now = a.now := by
      have hlow := a.now_le_step op
      have hhigh : (a.step op).now ≤ a.now := hnow ▸ (a.step op).now_le_foldl ops
      omega
    refine List.Sublist.trans ?_ (ih hr' (hrest _ rfl) (hstill ▸ hnow) hnext)
    cases op with
    | timeout timeout session => exact (timeout_dealt hm).grows slot
    | update time =>
      have hpast : time.toNat ≤ t.time.toNat := by
        rw [hr.clock, ← hstill]
        exact Nat.le_max_right _ _
      obtain rfl : t = m := Option.some.inj ((update_past hpast).symm.trans hm)
      exact List.Sublist.refl _

theorem allSteps_append {ops more : List (Op σ)}
    (h : (alarms σ).AllSteps Alarms.Admits a (ops ++ more)) :
    (alarms σ).AllSteps Alarms.Admits a ops ∧
      (alarms σ).AllSteps Alarms.Admits (ops.foldl Alarms.step a) more := by
  induction ops generalizing a with
  | nil => exact ⟨trivial, h⟩
  | cons op ops ih =>
    obtain ⟨hop, hrest⟩ := h
    obtain ⟨hops, hmore⟩ := ih (hrest _ rfl)
    exact ⟨⟨hop, fun t ht => Option.some.inj ht ▸ hops⟩, hmore⟩

/-- The second of two equal deadlines joins the list in which the first one still waits. -/
theorem Refines.joined (hr : Refines t a) {ops : List (Op σ)} {timeout : UInt64}
    {first second : σ}
    (ha : (alarms σ).AllSteps Alarms.Admits a
      (Op.timeout timeout first :: ops ++ [.timeout timeout second]))
    (hnow : ((Op.timeout timeout first :: ops).foldl Alarms.step a).now = a.now) :
    ∃ t', (system σ).runFrom t (Op.timeout timeout first :: ops ++ [.timeout timeout second]) =
        some t' ∧
      Refines t' ((Op.timeout timeout first :: ops ++ [Op.timeout timeout second]).foldl
        Alarms.step a) ∧
      Waits t' (t.time + timeout) [first, second] := by
  obtain ⟨t', hrun, hr'⟩ := hr.run ha
  refine ⟨t', hrun, hr', ?_⟩
  obtain ⟨hboth, _⟩ := allSteps_append ha
  obtain ⟨u, hu, hsecond⟩ := run_snoc hrun
  obtain ⟨m, hm, hops⟩ := run_cons.mp hu
  have hrm := hr.of_step hboth.1 hm
  have hru := hr.of_run hboth hu
  have htime : u.time = t.time := by
    rw [← UInt64.toNat_inj, hru.clock, hr.clock, hnow]
  have hfirst := timeout_dealt hm
  have hlast := timeout_dealt hsecond
  rw [htime] at hlast
  obtain ⟨slot, hslot⟩ := hfirst.slot _ (List.mem_singleton_self _)
  have hwaits : [Node.mk (t.time + timeout) first].Sublist (u.list slot) := by
    refine List.Sublist.trans ?_ (hrm.grows (hboth.2 _ rfl) hnow hops slot)
    rw [hfirst.lists slot, List.filter_singleton, hslot]
    simp
  refine ⟨slot, ?_⟩
  rw [hlast.lists slot, List.filter_singleton, htime, hslot]
  simpa using hwaits.append (List.Sublist.refl [Node.mk (t.time + timeout) second])

/-- With a timeout of at least one tick everywhere, the two are always in order. -/
theorem ordered_of_admits {before between after : List (Op σ)} {timeout : UInt64}
    {first second : σ}
    (h : (alarms σ).AllSteps Alarms.Admits (.new σ)
      (before ++ .timeout timeout first :: between ++ .timeout timeout second :: after))
    (hnow : (Alarms.after (before ++ .timeout timeout first :: between)).now =
      (Alarms.after before).now) :
    ∃ t, (system σ).runFrom (.new σ)
        (before ++ .timeout timeout first :: between ++ .timeout timeout second :: after) =
          some t ∧
      Wheel t ∧ (∀ wake ∈ t.woken, wake.1 ≤ t.time) ∧
      InOrder t (UInt64.ofNat ((Alarms.after before).now + timeout.toNat)) [first, second] := by
  have hops : before ++ .timeout timeout first :: between ++ .timeout timeout second :: after =
      before ++ (Op.timeout timeout first :: between ++ [.timeout timeout second]) ++ after := by
    simp
  rw [hops] at h ⊢
  obtain ⟨hfront, hafter⟩ := allSteps_append h
  obtain ⟨hbefore, hboth⟩ := allSteps_append hfront
  obtain ⟨t, ht, hr⟩ := new_refines.run hbefore
  have hstill : ((Op.timeout timeout first :: between).foldl Alarms.step
      (Alarms.after before)).now = (Alarms.after before).now := by
    rw [← hnow, Alarms.after, Alarms.after, List.foldl_append]
  obtain ⟨m, hm, hrm, hwaits⟩ := hr.joined hboth hstill
  rw [List.foldl_append] at hafter
  obtain ⟨t', ht', hr'⟩ := hrm.run hafter
  have horder := InOrder.run (Or.inl hwaits) hrm hafter ht'
  have hdeadline : t.time + timeout = UInt64.ofNat ((Alarms.after before).now + timeout.toNat) := by
    rw [← UInt64.toNat_inj, UInt64.toNat_add, hr.clock, UInt64.toNat_ofNat']
    rfl
  refine ⟨t', run_trans (run_trans ht hm) ht', hr'.wheel, ?_, hdeadline ▸ horder⟩
  intro wake hw
  rw [UInt64.le_iff_toNat_le, hr'.clock]
  exact hr'.past wake hw

/-- Of two sessions registered at the same time with the same timeout the first is woken first:
they wait in this order up to their deadline, in its tick they are woken in this order, and no
session is woken more often than it was registered. -/
theorem timer_stable {before between after : List (Op σ)} {timeout : UInt64} {first second : σ}
    (hpos : 1 ≤ timeout.toNat)
    (h : (alarms σ).AllSteps Alarms.Bounded (.new σ)
      (before ++ .timeout timeout first :: between ++ .timeout timeout second :: after))
    (hnow : (Alarms.after (before ++ .timeout timeout first :: between)).now =
      (Alarms.after before).now) :
    let ops := before ++ .timeout timeout first :: between ++ .timeout timeout second :: after
    let deadline := UInt64.ofNat ((Alarms.after before).now + timeout.toNat)
    ∃ t, (system σ).runFrom (.new σ) ops = some t ∧
      (t.time < deadline → Waits t deadline [first, second]) ∧
      (deadline ≤ t.time → [(deadline, first), (deadline, second)].Sublist t.woken) ∧
      (t.woken.map Prod.snd : Multiset σ) + t.pending.map Node.session =
        (Alarms.after ops).registered.map Prod.snd := by
  intro ops deadline
  obtain ⟨t, u, ht, hu, hs⟩ := new_shadow.run (a := .new σ) new_refines rfl h
  have hfilter : ops.filter Op.isTimed = before.filter Op.isTimed ++ .timeout timeout first ::
      between.filter Op.isTimed ++ .timeout timeout second :: after.filter Op.isTimed := by
    simp [ops, Op.isTimed, hpos]
  have hbefore : (Alarms.after (before.filter Op.isTimed)).now = (Alarms.after before).now :=
    Alarms.now_timed rfl
  have hboth : (before ++ .timeout timeout first :: between).filter Op.isTimed =
      before.filter Op.isTimed ++ .timeout timeout first :: between.filter Op.isTimed := by
    simp [Op.isTimed, hpos]
  have hstill : (Alarms.after (before.filter Op.isTimed ++ .timeout timeout first ::
      between.filter Op.isTimed)).now = (Alarms.after (before.filter Op.isTimed)).now := by
    rw [← hboth, hbefore, ← hnow]
    exact Alarms.now_timed rfl
  have hadmits := Alarms.admits_timed (b := .new σ) h rfl
  rw [hfilter] at hu hadmits
  obtain ⟨v, hv, hwheel, hpast, horder⟩ := ordered_of_admits hadmits hstill
  obtain rfl : u = v := Option.some.inj (hu.symm.trans hv)
  rw [hbefore] at horder
  refine ⟨t, ht, fun hearly => ?_, fun hdue => ?_, new_recorded.run ht⟩
  · rcases horder with ⟨slot, hw⟩ | hw
    · refine ⟨slot, hw.trans ?_⟩
      rw [hs.lists slot]
      exact List.filter_sublist
    · have hle : deadline ≤ u.time := hpast _ (hw.subset List.mem_cons_self)
      rw [hs.time] at hle
      exact absurd hearly (UInt64.not_lt.mpr hle)
  · rcases horder with ⟨slot, hw⟩ | hw
    · have hahead := hwheel.ahead slot _ (hw.subset List.mem_cons_self)
      rw [hs.time, ← UInt64.lt_iff_toNat_lt] at hahead
      exact absurd hahead (UInt64.not_lt.mpr hdue)
    · exact hw.trans hs.woken

/-- Both sleepers of 20000 ticks wait in a ring above the first one; a third that is due in the
same tick is registered later and comes between the cascade and the wakes, and one of no ticks is
overdue when it is registered. -/
theorem cascade_stable : ∃ t : Timer ℕ, (system ℕ).runFrom (.new ℕ)
      ([.update 1] ++ .timeout 20000 8 :: [.timeout 0 12, .timeout 1 9] ++ .timeout 20000 10 ::
        [.update 16500, .timeout 3501 11, .update 20001]) = some t ∧
    (t.time < 20001 → Waits t 20001 [8, 10]) ∧
    (20001 ≤ t.time → [((20001 : UInt64), 8), (20001, 10)].Sublist t.woken) ∧
    (t.woken.map Prod.snd : Multiset ℕ) + t.pending.map Node.session =
      ([8, 12, 9, 10, 11] : List ℕ) :=
  @timer_stable ℕ [.update 1] [.timeout 0 12, .timeout 1 9]
    [.update 16500, .timeout 3501 11, .update 20001] 20000 8 10 (by decide) (by decide)
    (by decide)

end Time
