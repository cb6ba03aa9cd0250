import Stuck.ParallelChannelBalance
import Stuck.ParallelChannelUnwatch

/-! A `send` or `recv` that panics. An interrupted wait leaves a dead waiter behind, and the
channel goes on as if the call had not been made; the session of an aborting coroutine is refused
while the mutex is held, which poisons it for everybody. -/
namespace ParallelChannel

open TransitionSystem OneShot SharedTypes

variable {T : Type*} {c d : Config T} {i j : ℕ} {k : Call T}

/-- The channel without the call `i`: its waiters are gone, and `k` has its number. -/
def Config.without (c : Config T) (i : ℕ) (k : Call T) : Config T :=
  { c with
    senders := c.senders.filter fun w => w.call != i
    receivers := c.receivers.filter fun w => w.call != i
    calls := Function.update c.calls i k }

/-- Not woken so far. -/
def Call.unwoken : Call T → Bool
  | .waiting _ _ (.fired _) => false
  | _ => true

/-- `i` has been made and is queued as a task if at all. -/
structure Apart (c : Config T) (i : ℕ) : Prop where
  created : i < c.created
  senders : ∀ w ∈ c.senders, w.call = i → ∃ value, w = .task i value
  receivers : ∀ w ∈ c.receivers, w.call = i → w = .task i

section Commutes

@[simp] theorem without_closed : (c.without i k).closed = c.closed := rfl
@[simp] theorem without_deque : (c.without i k).deque = c.deque := rfl
@[simp] theorem without_bound : (c.without i k).bound = c.bound := rfl
@[simp] theorem without_sendPermits : (c.without i k).sendPermits = c.sendPermits := rfl
@[simp] theorem without_recvPermits : (c.without i k).recvPermits = c.recvPermits := rfl
@[simp] theorem without_poisoned : (c.without i k).poisoned = c.poisoned := rfl
@[simp] theorem without_created : (c.without i k).created = c.created := rfl
@[simp] theorem without_isFull : (c.without i k).isFull = c.isFull := rfl
@[simp] theorem without_isEmpty : (c.without i k).isEmpty = c.isEmpty := rfl
@[simp] theorem without_isRecvable : (c.without i k).isRecvable = c.isRecvable := rfl
@[simp] theorem without_recvableLen : (c.without i k).recvableLen = c.recvableLen := rfl

theorem without_calls (hj : j ≠ i) : (c.without i k).calls j = c.calls j :=
  Function.update_of_ne hj _ _

theorem without_calls_self : (c.without i k).calls i = k := Function.update_self _ _ _

theorem without_finish (hj : j ≠ i) (call : Call T) :
    (c.without i k).finish j call = (c.finish j call).without i k := by
  simp only [Config.without, Config.finish, Function.update_comm hj]

theorem without_finish_self (call : Call T) : (c.finish i call).without i k = c.without i k := by
  simp only [Config.without, Config.finish, Function.update_idem]

theorem without_fire (hj : j ≠ i) (o : Outcome T) :
    (c.without i k).fire j o = (c.fire j o).without i k := by
  rw [Config.fire, Config.fire, without_calls hj, without_finish hj]

theorem without_begin (hi : i < c.created) (call : Call T) :
    (c.without i k).begin call = (c.begin call).without i k := by
  have hn : c.created ≠ i := Nat.ne_of_gt hi
  simp only [Config.without, Config.begin, Function.update_comm hn]

theorem without_pushBack (value : T) :
    (c.without i k).pushBack j value = (c.pushBack j value).without i k := rfl

theorem without_popFront (value : T) (rest : List T) :
    (c.without i k).popFront j value rest = (c.popFront j value rest).without i k := rfl

theorem without_poison : (c.without i k).poison = c.poison.without i k := rfl

theorem without_enqueueSender {w : Waiter T} (hw : w.call ≠ i) :
    (c.without i k).enqueueSender w = (c.enqueueSender w).without i k := by
  simp [Config.without, Config.enqueueSender, List.filter_append, hw]

theorem without_enqueueReceiver {w : RecvWaiter} (hw : w.call ≠ i) :
    (c.without i k).enqueueReceiver w = (c.enqueueReceiver w).without i k := by
  simp [Config.without, Config.enqueueReceiver, List.filter_append, hw]

end Commutes

/-- A firing that leaves the call unwoken has found it settled. -/
theorem Call.not_pending_of_fire {call : Call T} {o : Outcome T}
    (h : (call.fire o).unwoken = true) : call.pending = false := by
  cases call with
  | waiting op watched cell => cases cell <;> first | rfl | cases h
  | unused | permitted | elsewhere | sent | received | panicked => rfl

theorem Call.fire_of_not_pending {call : Call T} (h : call.pending = false) (o : Outcome T) :
    call.fire o = call := by
  cases call with
  | waiting op watched cell => cases cell <;> first | rfl | cases h
  | unused | permitted | elsewhere | sent | received | panicked => rfl

theorem not_pending_of_fire {o : Outcome T} (h : ((c.fire i o).calls i).unwoken = true) :
    (c.calls i).pending = false := by
  simp only [Config.fire, Config.finish, Function.update_self] at h
  exact Call.not_pending_of_fire h

theorem fire_of_not_pending (h : (c.calls i).pending = false) (o : Outcome T) :
    c.fire i o = c := by
  rw [Config.fire, Call.fire_of_not_pending h, Config.finish, Function.update_eq_self]

theorem wakeSenders_without {queue : List (Waiter T)}
    (hq : ∀ w ∈ queue, w.call = i → ∃ value, w = .task i value)
    (hu : ((c.wakeSenders queue).calls i).unwoken = true) :
    (c.without i k).wakeSenders (queue.filter fun w => w.call != i) =
      (c.wakeSenders queue).without i k := by
  induction queue with
  | nil => rfl
  | cons w rest ih =>
    have ih := ih fun v hv => hq v (by simp [hv])
    by_cases hw : w.call = i
    · obtain ⟨value, rfl⟩ := hq w (by simp) hw
      have hn : (c.calls i).pending = false := by
        by_contra hp
        simp only [Config.wakeSenders, if_pos (Bool.eq_true_of_not_eq_false hp)] at hu
        exact hp (not_pending_of_fire (c := { c with senders := rest }) hu)
      have he : c.wakeSenders (.task i value :: rest) = c.wakeSenders rest := by
        simp [Config.wakeSenders, hn]
      rw [he] at hu ⊢
      rw [List.filter_cons_of_neg (by simp [Waiter.call])]
      exact ih hu
    · rw [List.filter_cons_of_pos (by simpa using hw)]
      cases w with
      | task waker value =>
        have hw : waker ≠ i := hw
        simp only [Config.wakeSenders, without_calls hw] at hu ⊢
        by_cases hp : (c.calls waker).pending = true
        · rw [if_pos hp, if_pos hp, ← without_pushBack, ← without_fire hw]
          rfl
        · rw [if_neg hp] at hu
          rw [if_neg hp, if_neg hp]
          exact ih hu
      | thread waker value =>
        have hw : waker ≠ i := hw
        simp only [Config.wakeSenders]
        rw [← without_fire hw, ← without_pushBack]
        rfl
      | selector s =>
        have hw : s.waker ≠ i := hw
        simp only [Config.wakeSenders, without_calls hw] at hu ⊢
        by_cases hp : (c.calls s.waker).pending = true
        · rw [if_pos hp, if_pos hp, ← without_fire hw]
          rfl
        · rw [if_neg hp] at hu
          rw [if_neg hp, if_neg hp]
          exact ih hu

theorem wakeReceivers_without {queue : List RecvWaiter}
    (hq : ∀ w ∈ queue, w.call = i → w = .task i)
    (hu : ((c.wakeReceivers queue).calls i).unwoken = true) :
    (c.without i k).wakeReceivers (queue.filter fun w => w.call != i) =
      (c.wakeReceivers queue).without i k := by
  induction queue with
  | nil => rfl
  | cons w rest ih =>
    have ih := ih fun v hv => hq v (by simp [hv])
    by_cases hw : w.call = i
    · obtain rfl := hq w (by simp) hw
      have hn : (c.calls i).pending = false := by
        by_contra hp
        simp only [Config.wakeReceivers, if_pos (Bool.eq_true_of_not_eq_false hp)] at hu
        exact hp (not_pending_of_fire
          (c := { c with receivers := rest, recvPermits := c.recvPermits + 1 }) hu)
      have he : c.wakeReceivers (.task i :: rest) = c.wakeReceivers rest := by
        simp [Config.wakeReceivers, hn]
      rw [he] at hu ⊢
      rw [List.filter_cons_of_neg (by simp [RecvWaiter.call])]
      exact ih hu
    · rw [List.filter_cons_of_pos (by simpa using hw)]
      cases w with
      | selector s =>
        have hw : s.waker ≠ i := hw
        simp only [Config.wakeReceivers, without_calls hw] at hu ⊢
        by_cases hp : (c.calls s.waker).pending = true
        · rw [if_pos hp, if_pos hp, ← without_fire hw]
          rfl
        · rw [if_neg hp] at hu
          rw [if_neg hp, if_neg hp]
          exact ih hu
      | task session =>
        have hw : session ≠ i := hw
        simp only [Config.wakeReceivers, without_calls hw] at hu ⊢
        by_cases hp : (c.calls session).pending = true
        · rw [if_pos hp, if_pos hp, ← without_fire hw]
          rfl
        · rw [if_neg hp] at hu
          rw [if_neg hp, if_neg hp]
          exact ih hu
      | thread waker =>
        have hw : waker ≠ i := hw
        simp only [Config.wakeReceivers, without_deque]
        cases c.deque with
        | nil => rfl
        | cons value deque =>
          dsimp only
          rw [← without_fire hw]
          rfl

theorem fireAll_without {wakes : List (ℕ × Outcome T)}
    (hu : ((c.fireAll wakes).calls i).unwoken = true) :
    (c.without i k).fireAll (wakes.filter fun wake => wake.1 != i) =
      (c.fireAll wakes).without i k := by
  induction wakes generalizing c with
  | nil => rfl
  | cons wake rest ih =>
    have he : c.fireAll (wake :: rest) = (c.fire wake.1 wake.2).fireAll rest := rfl
    by_cases hw : wake.1 = i
    · have hn : (c.calls i).pending = false := by
        rcases fireAll_calls c (wake :: rest) i with ⟨_, hne⟩ | ⟨_, _, _, hc⟩
        · exact absurd hw (hne wake (by simp))
        · rw [hc] at hu
          exact Call.not_pending_of_fire hu
      rw [he, hw, fire_of_not_pending hn] at hu
      rw [he, hw, fire_of_not_pending hn, List.filter_cons_of_neg (by simp [hw])]
      exact ih hu
    · rw [List.filter_cons_of_pos (by simpa using hw), he, ← ih (he ▸ hu), ← without_fire hw]
      rfl

theorem closeSenders_without (hu : (c.closeSenders.calls i).unwoken = true) :
    (c.without i k).closeSenders = c.closeSenders.without i k := by
  rw [closeSenders_eq] at hu ⊢
  rw [closeSenders_eq, ← fireAll_without hu, List.filter_map]
  simp only [Function.comp_def, Waiter.closing_call]
  rfl

theorem closeReceivers_without (hu : (c.closeReceivers.calls i).unwoken = true) :
    (c.without i k).closeReceivers = c.closeReceivers.without i k := by
  rw [closeReceivers_eq] at hu ⊢
  rw [closeReceivers_eq, ← fireAll_without hu, List.filter_map]
  simp only [Function.comp_def, RecvWaiter.closing_call]
  rfl

theorem Call.unwoken_of_fire {call : Call T} {o : Outcome T} (h : (call.fire o).unwoken = true) :
    call.unwoken = true := by
  rwa [Call.fire_of_not_pending (Call.not_pending_of_fire h)] at h

theorem unwoken_of_fireAll {wakes : List (ℕ × Outcome T)}
    (h : ((c.fireAll wakes).calls i).unwoken = true) : (c.calls i).unwoken = true := by
  rcases fireAll_calls c wakes i with ⟨hc, _⟩ | ⟨_, _, _, hc⟩
  · rwa [hc] at h
  · rw [hc] at h
    exact Call.unwoken_of_fire h

theorem unwoken_of_closeReceivers (h : (c.closeReceivers.calls i).unwoken = true) :
    (c.calls i).unwoken = true := by
  rw [closeReceivers_eq] at h
  exact unwoken_of_fireAll (c := { c with receivers := [] }) h

theorem Apart.of_eq (h : Apart c i) (hs : d.senders = c.senders) (hr : d.receivers = c.receivers)
    (hc : c.created ≤ d.created) : Apart d i :=
  ⟨Nat.lt_of_lt_of_le h.created hc, hs ▸ h.senders, hr ▸ h.receivers⟩

section Operations

variable (ha : Apart c i)
include ha

theorem Apart.wakeSender (hu : (c.wakeSender.calls i).unwoken = true) :
    (c.without i k).wakeSender = c.wakeSender.without i k :=
  wakeSenders_without ha.senders hu

theorem Apart.wakeReceiver (hu : (c.wakeReceiver.calls i).unwoken = true) :
    (c.without i k).wakeReceiver = c.wakeReceiver.without i k :=
  wakeReceivers_without ha.receivers hu

omit ha in
theorem close_without (hu : (c.close.calls i).unwoken = true) :
    (c.without i k).close = c.close.without i k := by
  let m : Config T := { c with closed := true }
  have hm : ({ c.without i k with closed := true } : Config T) = m.without i k := rfl
  have hs : (m.closeSenders.calls i).unwoken = true →
      (m.without i k).closeSenders = m.closeSenders.without i k := closeSenders_without
  unfold Config.close at hu ⊢
  dsimp only at hu ⊢
  rw [hm]
  by_cases hr : (!m.closeSenders.isRecvable) = true
  · rw [if_pos hr] at hu
    have hs := hs (unwoken_of_closeReceivers hu)
    rw [if_pos hr, hs, without_isRecvable, if_pos hr, closeReceivers_without hu]
  · rw [if_neg hr] at hu
    have hs := hs hu
    rw [if_neg hr, hs, without_isRecvable, if_neg hr]

theorem Apart.send {caller : Caller} {trying : Bool} {value : T}
    (hu : ((c.send caller trying value).calls i).unwoken = true) :
    (c.without i k).send caller trying value = (c.send caller trying value).without i k := by
  have hn : c.created ≠ i := Nat.ne_of_gt ha.created
  unfold Config.send at hu ⊢
  rw [without_closed, without_isFull, without_created]
  by_cases hc : c.closed = true
  · rw [if_pos hc, if_pos hc, without_begin ha.created]
  rw [if_neg hc] at hu
  rw [if_neg hc, if_neg hc]
  by_cases hf : (!c.isFull) = true
  · rw [if_pos hf] at hu
    rw [if_pos hf, if_pos hf, without_begin ha.created, without_pushBack]
    exact (ha.of_eq (d := (c.begin _).pushBack _ _) rfl rfl (Nat.le_succ _)).wakeReceiver hu
  rw [if_neg hf, if_neg hf]
  by_cases ht : trying = true
  · rw [if_pos ht, if_pos ht, without_begin ha.created]
  rw [if_neg ht, if_neg ht]
  cases caller with
  | task status =>
    cases status with
    | aborting =>
      dsimp only
      rw [without_begin ha.created, without_poison]
    | running | cancelling | completed =>
      dsimp only
      rw [without_enqueueSender (w := .task c.created value) hn, without_begin]
      exact ha.created
  | thread =>
    dsimp only
    rw [without_enqueueSender (w := .thread c.created value) hn, without_begin]
    exact ha.created

theorem Apart.recv {caller : Caller} {trying : Bool}
    (hu : ((c.recv caller trying).calls i).unwoken = true) :
    (c.without i k).recv caller trying = (c.recv caller trying).without i k := by
  have hn : c.created ≠ i := Nat.ne_of_gt ha.created
  unfold Config.recv at hu ⊢
  rw [without_isEmpty, without_closed, without_isRecvable, without_created, without_deque]
  by_cases he : c.isEmpty = true
  · rw [if_pos he, if_pos he]
    by_cases hc : (c.closed && !c.isRecvable) = true
    · rw [if_pos hc, if_pos hc, without_begin ha.created]
    rw [if_neg hc, if_neg hc]
    by_cases ht : trying = true
    · rw [if_pos ht, if_pos ht, without_begin ha.created]
    rw [if_neg ht, if_neg ht]
    cases caller with
    | task status =>
      cases status with
      | aborting =>
        dsimp only
        rw [without_begin ha.created, without_poison]
      | running | cancelling | completed =>
        dsimp only
        rw [without_enqueueReceiver (w := .task c.created) hn, without_begin]
        exact ha.created
    | thread =>
      dsimp only
      rw [without_enqueueReceiver (w := .thread c.created) hn, without_begin]
      exact ha.created
  · rw [if_neg he] at hu
    rw [if_neg he, if_neg he]
    cases hd : c.deque with
    | nil => exact absurd (by simp [State.isEmpty, hd]) he
    | cons value rest =>
      rw [hd] at hu
      dsimp only at hu ⊢
      let m := (c.begin (.received (.ok value))).popFront c.created value rest
      have hm : ((c.without i k).begin (.received (.ok value))).popFront c.created value rest =
          m.without i k := by rw [without_begin ha.created, without_popFront]
      have hmu : (m.wakeSender.calls i).unwoken = true := by
        by_cases hb : m.wakeSender.recvableLen ≤ m.wakeSender.bound
        · rwa [if_pos hb] at hu
        · rw [if_neg hb] at hu
          simpa [Config.poison, Config.finish, Function.update_of_ne (Ne.symm hn)] using hu
      have hw := (ha.of_eq (d := m) rfl rfl (Nat.le_succ _)).wakeSender (k := k) hmu
      rw [hm, hw, without_recvableLen, without_bound]
      by_cases hb : m.wakeSender.recvableLen ≤ m.wakeSender.bound
      · rw [if_pos hb, if_pos hb]
      · rw [if_neg hb, if_neg hb, without_finish hn, without_poison]

omit ha in
theorem without_fillReserved (hj : j ≠ i) (value : T) :
    (c.without i k).fillReserved j value = (c.fillReserved j value).without i k := by
  rw [Config.fillReserved, Config.fillReserved, ← without_pushBack, ← without_finish hj]
  rfl

omit ha in
theorem without_takeReserved (hj : j ≠ i) (value : T) (rest : List T) :
    (c.without i k).takeReserved j value rest = (c.takeReserved j value rest).without i k := by
  rw [Config.takeReserved, Config.takeReserved, ← without_popFront, ← without_finish hj]
  rfl

theorem Apart.consumeSendPermit {op : Op T} {value : T} (hj : j ≠ i)
    (hu : ((c.consumeSendPermit j op value).calls i).unwoken = true) :
    (c.without i k).consumeSendPermit j op value =
      (c.consumeSendPermit j op value).without i k := by
  have heq : ∀ m : Config T, m.consumeSendPermit j op value =
      if m.sendPermits = 0 then (m.finish j (.panicked op)).poison
      else if State.isFull { m.toState with sendPermits := m.sendPermits - 1 } = true then
        ({ m with sendPermits := m.sendPermits - 1 }.finish j (.panicked op)).poison
      else if (!(m.fillReserved j value).closed) = true then (m.fillReserved j value).wakeReceiver
      else if (!(m.fillReserved j value).isRecvable) = true then
        (m.fillReserved j value).closeReceivers
      else m.fillReserved j value := fun _ => rfl
  have hf : Apart (c.fillReserved j value) i := ha.of_eq rfl rfl (Nat.le_refl _)
  rw [heq] at hu
  rw [heq, heq, without_sendPermits, without_fillReserved hj,
    without_closed (c := c.fillReserved j value), without_isRecvable]
  by_cases hz : c.sendPermits = 0
  · rw [if_pos hz, if_pos hz, without_finish hj, without_poison]
  rw [if_neg hz] at hu
  rw [if_neg hz, if_neg hz]
  have hfull : State.isFull { (c.without i k).toState with sendPermits := c.sendPermits - 1 } =
      State.isFull { c.toState with sendPermits := c.sendPermits - 1 } := rfl
  rw [hfull]
  by_cases hs : State.isFull { c.toState with sendPermits := c.sendPermits - 1 } = true
  · rw [if_pos hs, if_pos hs, ← without_poison, ← without_finish hj]
    rfl
  rw [if_neg hs] at hu
  rw [if_neg hs, if_neg hs]
  by_cases hc : (!(c.fillReserved j value).closed) = true
  · rw [if_pos hc] at hu
    rw [if_pos hc, if_pos hc, hf.wakeReceiver hu]
  rw [if_neg hc] at hu
  rw [if_neg hc, if_neg hc]
  by_cases hr : (!(c.fillReserved j value).isRecvable) = true
  · rw [if_pos hr] at hu
    rw [if_pos hr, if_pos hr, closeReceivers_without hu]
  · rw [if_neg hr, if_neg hr]

theorem Apart.consumeRecvPermit {op : Op T} (hj : j ≠ i)
    (hu : ((c.consumeRecvPermit j op).calls i).unwoken = true) :
    (c.without i k).consumeRecvPermit j op = (c.consumeRecvPermit j op).without i k := by
  have hdrained : ∀ m : Config T, m.recvPermits ≠ 0 → m.deque = [] → m.consumeRecvPermit j op =
      { m with recvPermits := m.recvPermits - 1 }.finish j (.received (.error .closed)) := by
    intro m hz hd
    simp only [Config.consumeRecvPermit, if_neg hz, hd]
  have htaken : ∀ (m : Config T) value rest, m.recvPermits ≠ 0 → m.deque = value :: rest →
      m.consumeRecvPermit j op = if (m.takeReserved j value rest).closed = true then
        if (!(m.takeReserved j value rest).isRecvable) = true then
          (m.takeReserved j value rest).closeReceivers
        else m.takeReserved j value rest
      else if m.isFull = true then (m.takeReserved j value rest).wakeSender
      else m.takeReserved j value rest := by
    intro m value rest hz hd
    simp only [Config.consumeRecvPermit, if_neg hz, hd]
    rfl
  by_cases hz : c.recvPermits = 0
  · unfold Config.consumeRecvPermit
    rw [if_pos hz, without_recvPermits, if_pos hz, without_finish hj, without_poison]
  cases hd : c.deque with
  | nil =>
    rw [hdrained c hz hd, hdrained (c.without i k) hz hd, ← without_finish hj]
    rfl
  | cons value rest =>
    have hf : Apart (c.takeReserved j value rest) i := ha.of_eq rfl rfl (Nat.le_refl _)
    rw [htaken c value rest hz hd] at hu
    rw [htaken c value rest hz hd, htaken (c.without i k) value rest hz hd,
      without_takeReserved hj, without_closed (c := c.takeReserved j value rest),
      without_isRecvable, without_isFull]
    by_cases hc : (c.takeReserved j value rest).closed = true
    · rw [if_pos hc] at hu
      rw [if_pos hc, if_pos hc]
      by_cases hr : (!(c.takeReserved j value rest).isRecvable) = true
      · rw [if_pos hr] at hu
        rw [if_pos hr, if_pos hr, closeReceivers_without hu]
      · rw [if_neg hr, if_neg hr]
    rw [if_neg hc] at hu
    rw [if_neg hc, if_neg hc]
    by_cases hl : c.isFull = true
    · rw [if_pos hl] at hu
      rw [if_pos hl, if_pos hl, hf.wakeSender hu]
    · rw [if_neg hl, if_neg hl]

end Operations

/-- The steps without the call `i` are those with it, as long as it is not woken. -/
def Follows (i : ℕ) (k : Call T) : Option (Config T) → Option (Config T) → Prop :=
  Option.Rel fun m d => (d.calls i).unwoken = true → m = d.without i k

theorem Follows.finish (hj : j ≠ i) (call : Call T) :
    Follows i k (some ((c.without i k).finish j call)) (some (c.finish j call)) :=
  .some fun _ => without_finish hj call

theorem Follows.locked {x y : Option (Config T)} (h : Follows i k x y) :
    Follows i k (if (c.without i k).poisoned then none else x) (if c.poisoned then none else y) := by
  rw [without_poisoned]
  by_cases hp : c.poisoned = true
  · rw [if_pos hp, if_pos hp]
    exact .none
  · rw [if_neg hp, if_neg hp]
    exact h

theorem Apart.resume (ha : Apart c i) (hj : j ≠ i) :
    Follows i k ((c.without i k).resume j) (c.resume j) := by
  unfold Config.resume
  rw [without_calls hj, without_poisoned]
  split
  next => split <;> exact .finish hj _
  next => exact .finish hj _
  next =>
    split
    · exact .finish hj _
    · exact .some (ha.consumeRecvPermit hj)
  next value _ =>
    split
    · exact .finish hj _
    · cases value <;> exact .finish hj _
  next => exact .finish hj _
  next => exact .finish hj _
  next => exact .none

/-- The same answer about a permit, from the state with the call and the one without. -/
def Answers (c : Config T) (i : ℕ) (k : Call T) (x y : Option Permit × State T) : Prop :=
  (∃ s s', y = (none, s) ∧ x = (none, s')) ∨
    ∃ permit s s', y = (some permit, s) ∧ x = (some permit, s') ∧
      (c.without i k).setState s' = (c.setState s).without i k

theorem answers_send : Answers c i k (c.without i k).selectSendPermit c.selectSendPermit := by
  unfold State.selectSendPermit
  rw [without_closed, without_isFull]
  by_cases hc : c.closed = true
  · rw [if_pos hc, if_pos hc]
    exact Or.inr ⟨_, _, _, rfl, rfl, rfl⟩
  rw [if_neg hc, if_neg hc]
  by_cases hf : (!c.isFull) = true
  · rw [if_pos hf, if_pos hf]
    exact Or.inr ⟨_, _, _, rfl, rfl, rfl⟩
  · rw [if_neg hf, if_neg hf]
    exact Or.inl ⟨_, _, rfl, rfl⟩

theorem answers_recv : Answers c i k (c.without i k).selectRecvPermit c.selectRecvPermit := by
  unfold State.selectRecvPermit
  rw [without_closed, without_isEmpty, without_sendPermits, without_deque]
  by_cases he : (!c.isEmpty) = true
  · rw [if_pos he, if_pos he]
    exact Or.inr ⟨_, _, _, rfl, rfl, rfl⟩
  rw [if_neg he, if_neg he]
  by_cases hc : c.closed = true
  · rw [if_pos hc, if_pos hc]
    by_cases hp : (c.sendPermits != 0) = true
    · rw [if_pos hp, if_pos hp]
      exact Or.inl ⟨_, _, rfl, rfl⟩
    rw [if_neg hp, if_neg hp]
    by_cases hd : c.deque.isEmpty = true
    · rw [if_pos hd, if_pos hd]
      exact Or.inr ⟨_, _, _, rfl, rfl, rfl⟩
    · rw [if_neg hd, if_neg hd]
      exact Or.inr ⟨_, _, _, rfl, rfl, rfl⟩
  · rw [if_neg hc, if_neg hc]
    exact Or.inl ⟨_, _, rfl, rfl⟩

theorem Apart.trySelect (ha : Apart c i) (caller : Caller) (slice : Slice)
    (identifier index : ℕ) :
    Follows i k ((c.without i k).trySelect caller slice identifier index)
      (c.trySelect caller slice identifier index) := by
  unfold Config.trySelect
  dsimp only
  split
  next =>
    rcases answers_send (c := c) (i := i) (k := k) with ⟨_, _, hy, hx⟩ | ⟨_, s, _, hy, hx, hs⟩
    · rw [hx, hy]
      exact .none
    · rw [hx, hy]
      dsimp only
      rw [hs]
      exact .some fun _ => without_begin (c := c.setState s) ha.created _
  next =>
    rcases answers_recv (c := c) (i := i) (k := k) with ⟨_, _, hy, hx⟩ | ⟨_, s, _, hy, hx, hs⟩
    · rw [hx, hy]
      exact .none
    · rw [hx, hy]
      dsimp only
      rw [hs]
      exact .some fun _ => without_begin (c := c.setState s) ha.created _
  next => exact .none

theorem watchSendPermit_without {s : Selector} (hs : s.waker ≠ i) :
    (c.without i k).watchSendPermit s =
      ((c.watchSendPermit s).1.without i k, (c.watchSendPermit s).2) := by
  unfold Config.watchSendPermit
  rcases answers_send (c := c) (i := i) (k := k) with ⟨_, _, hy, hx⟩ | ⟨permit, _, _, hy, hx, he⟩
  · rw [hx, hy]
    dsimp only
    rw [without_enqueueSender (w := .selector s) hs]
  · rw [hx, hy]
    dsimp only
    rw [he, without_calls hs]
    by_cases hp : (c.calls s.waker).pending = true
    · rw [if_pos hp, if_pos hp, without_fire hs]
    rw [if_neg hp, if_neg hp]
    by_cases hc : permit = .consume
    · rw [if_pos hc, if_pos hc]
      rfl
    · rw [if_neg hc, if_neg hc]

theorem watchRecvPermit_without {s : Selector} (hs : s.waker ≠ i) :
    (c.without i k).watchRecvPermit s =
      ((c.watchRecvPermit s).1.without i k, (c.watchRecvPermit s).2) := by
  unfold Config.watchRecvPermit
  rcases answers_recv (c := c) (i := i) (k := k) with ⟨_, _, hy, hx⟩ | ⟨permit, _, _, hy, hx, he⟩
  · rw [hx, hy]
    dsimp only
    rw [without_enqueueReceiver (w := .selector s) hs]
  · rw [hx, hy]
    dsimp only
    rw [he, without_calls hs]
    by_cases hp : (c.calls s.waker).pending = true
    · rw [if_pos hp, if_pos hp, without_fire hs]
    rw [if_neg hp, if_neg hp]
    by_cases hc : permit = .consume
    · rw [if_pos hc, if_pos hc]
      rfl
    · rw [if_neg hc, if_neg hc]

theorem checked_without (hj : j ≠ i) (index : ℕ) (available ready : Bool) :
    Follows i k ((c.without i k).checked j index available ready)
      (c.checked j index available ready) := by
  unfold Config.checked
  rw [without_calls hj]
  by_cases hr : ready = false
  · rw [if_pos hr, if_pos hr]
    exact .finish hj _
  rw [if_neg hr, if_neg hr]
  by_cases hp : available = true ∧ (c.calls j).pending = false
  · rw [if_pos hp, if_pos hp]
    exact .some fun _ => rfl
  · rw [if_neg hp, if_neg hp]
    exact .none

theorem watch_without (hj : j ≠ i) (index : ℕ) (ready : Bool) :
    Follows i k ((c.without i k).watch j index ready) (c.watch j index ready) := by
  unfold Config.watch
  rw [without_calls hj]
  split
  next identifier _ cell _ =>
    by_cases hc : cell.isCancelled = true
    · rw [if_pos hc, if_pos hc]
      exact .none
    rw [if_neg hc, if_neg hc]
    split
    next =>
      rw [watchSendPermit_without (s := ⟨index, j, identifier⟩) hj]
      exact checked_without hj _ _ _
    next =>
      rw [watchRecvPermit_without (s := ⟨index, j, identifier⟩) hj]
      exact checked_without hj _ _ _
    next => exact .none
  next => exact .none

/-- `unwatch_send_permit` finds its selector and removes a receiver at that position. -/
def Config.misplaces (c : Config T) : Event T → Bool
  | .unwatch i index =>
    match c.calls i with
    | .waiting (.select _ slice identifier) _ _ =>
      slice[index]? == some (some .send) &&
        (c.senders.findIdx? (·.matches identifier)).any fun position =>
          decide (position < c.receivers.length)
    | _ => false
  | _ => false

theorem eraseP_filter_comm {α : Type*} {p q : α → Bool} {l : List α}
    (h : ∀ x ∈ l, p x = true → q x = true) : (l.filter q).eraseP p = (l.eraseP p).filter q := by
  induction l with
  | nil => rfl
  | cons x rest ih =>
    have ih := ih fun y hy => h y (by simp [hy])
    by_cases hp : p x = true
    · have hq := h x (by simp) hp
      rw [List.filter_cons_of_pos hq, List.eraseP_cons_of_pos hp, List.eraseP_cons_of_pos hp]
    · rw [List.eraseP_cons_of_neg hp]
      by_cases hq : q x = true
      · rw [List.filter_cons_of_pos hq, List.filter_cons_of_pos hq, List.eraseP_cons_of_neg hp, ih]
      · rw [List.filter_cons_of_neg hq, List.filter_cons_of_neg hq, ih]

theorem Apart.unwatchRecvPermit (ha : Apart c i) (identifier : ℕ) :
    (c.without i k).unwatchRecvPermit identifier =
      (c.unwatchRecvPermit identifier).without i k := by
  have hq : ∀ w ∈ c.receivers, w.matches identifier = true → (w.call != i) = true := by
    intro w hm hw
    rw [bne_iff_ne]
    rintro hi
    rw [ha.receivers w hm hi] at hw
    cases hw
  rw [unwatchRecvPermit_eq, unwatchRecvPermit_eq]
  simp only [Config.without, eraseP_filter_comm hq]

theorem unwatchSendPermit_of_misplaces {caller : Caller} {slice : Slice}
    {identifier index : ℕ} {watched : List ℕ} {cell : Cell (Outcome T)}
    (hn : c.misplaces (.unwatch j index) = false)
    (hc : c.calls j = .waiting (.select caller slice identifier) watched cell)
    (hs : slice[index]? = some (some .send)) : c.unwatchSendPermit identifier = c := by
  refine unwatchSendPermit_eq fun position hf => ?_
  simp only [Config.misplaces, hc, hs, hf] at hn
  simpa using hn

theorem Apart.unwatch (ha : Apart c i) (hj : j ≠ i) {index : ℕ}
    (hn : c.misplaces (.unwatch j index) = false)
    (hn' : (c.without i k).misplaces (.unwatch j index) = false) :
    Follows i k ((c.without i k).unwatch j index) (c.unwatch j index) := by
  unfold Config.unwatch
  rw [without_calls hj]
  split
  next caller slice identifier watched cell hc =>
    by_cases hg : cell.isPending = true ∨ index ∉ watched
    · rw [if_pos hg, if_pos hg]
      exact .none
    rw [if_neg hg, if_neg hg]
    dsimp only
    split
    next hs =>
      rw [unwatchSendPermit_of_misplaces hn hc hs,
        unwatchSendPermit_of_misplaces hn' (by rw [without_calls hj, hc]) hs]
      exact .finish hj _
    next =>
      rw [ha.unwatchRecvPermit]
      exact .finish hj _
    next => exact .none
  next => exact .none

theorem consumeSend_without (ha : Apart c i) (hj : j ≠ i) (value : T) :
    Follows i k ((c.without i k).consumeSend j value) (c.consumeSend j value) := by
  unfold Config.consumeSend
  rw [without_calls hj, without_poisoned]
  split
  next slice _ index permit _ =>
    by_cases hs : slice[index]? ≠ some (some .send)
    · rw [if_pos hs, if_pos hs]
      exact .none
    rw [if_neg hs, if_neg hs]
    cases permit with
    | closed => exact .finish hj _
    | consume =>
      dsimp only
      by_cases hp : c.poisoned = true
      · rw [if_pos hp, if_pos hp]
        exact .none
      · rw [if_neg hp, if_neg hp]
        exact .some (ha.consumeSendPermit hj)
  next => exact .none

theorem consumeRecv_without (ha : Apart c i) (hj : j ≠ i) :
    Follows i k ((c.without i k).consumeRecv j) (c.consumeRecv j) := by
  unfold Config.consumeRecv
  rw [without_calls hj, without_poisoned]
  split
  next slice _ index permit _ =>
    by_cases hs : slice[index]? ≠ some (some .recv)
    · rw [if_pos hs, if_pos hs]
      exact .none
    rw [if_neg hs, if_neg hs]
    cases permit with
    | closed => exact .finish hj _
    | consume =>
      dsimp only
      by_cases hp : c.poisoned = true
      · rw [if_pos hp, if_pos hp]
        exact .none
      · rw [if_neg hp, if_neg hp]
        exact .some (ha.consumeRecvPermit hj)
  next => exact .none

theorem cancel_without (hj : j ≠ i) :
    Follows i k ((c.without i k).cancel j) (c.cancel j) := by
  unfold Config.cancel
  rw [without_calls hj]
  split
  · exact .none
  · exact .none
  · exact .finish hj _
  · exact .none

theorem elsewhere_without (hj : j ≠ i) :
    Follows i k ((c.without i k).step (.elsewhere j)) (c.step (.elsewhere j)) := by
  simp only [Config.step]
  rw [without_calls hj]
  split
  · exact .some fun _ => without_fire hj _
  · exact .none

/-- A `send` or `recv` of a task. -/
def Op.ofTask : Op T → Bool
  | .send (.task _) _ | .recv (.task _) => true
  | _ => false

/-- The call is blocked in a `send` or `recv` of a task and has not been woken. -/
structure Blocked (c : Config T) (i : ℕ) (op : Op T) : Prop where
  direct : op.ofTask = true
  waits : ∃ watched cell, c.calls i = .waiting op watched cell ∧
    (cell = .pending ∨ cell = .cancelled)

variable {op : Op T}

/-- But for its own interruption no event is about the blocked call. -/
theorem Blocked.idle (hb : Blocked c i op) : c.resume i = none ∧ c.step (.elsewhere i) = none ∧
    (∀ index ready, c.watch i index ready = none) ∧ (∀ index, c.unwatch i index = none) ∧
    (∀ value, c.consumeSend i value = none) ∧ c.consumeRecv i = none := by
  obtain ⟨watched, cell, hc, hcell⟩ := hb.waits
  cases op with
  | select => cases hb.direct
  | send caller value =>
    rcases hcell with rfl | rfl <;>
      simp [Config.resume, Config.step, Config.watch, Config.unwatch, Config.consumeSend,
        Config.consumeRecv, hc]
  | recv caller =>
    rcases hcell with rfl | rfl <;>
      simp [Config.resume, Config.step, Config.watch, Config.unwatch, Config.consumeSend,
        Config.consumeRecv, hc]

theorem panicked_idle {op' : Op T} (hc : c.calls i = .panicked op') : c.resume i = none ∧
    c.step (.elsewhere i) = none ∧ (∀ index ready, c.watch i index ready = none) ∧
    (∀ index, c.unwatch i index = none) ∧ (∀ value, c.consumeSend i value = none) ∧
    c.consumeRecv i = none := by
  simp [Config.resume, Config.step, Config.watch, Config.unwatch, Config.consumeSend,
    Config.consumeRecv, hc]

theorem Blocked.identifies (hb : Blocked c i op) (identifier : ℕ) :
    ((c.without i (.panicked op)).calls j).identifies identifier =
      (c.calls j).identifies identifier := by
  by_cases hj : j = i
  · subst hj
    obtain ⟨watched, cell, hc, _⟩ := hb.waits
    rw [without_calls_self, hc]
    cases op with
    | select => cases hb.direct
    | send | recv => rfl
  · rw [without_calls hj]

/-- Every event but the interruption of the blocked call goes the same way without it. -/
theorem Blocked.step (hb : Blocked c i op) (ha : Apart c i) {e : Event T}
    (he : e ≠ .cancel i) (hn : c.misplaces e = false)
    (hn' : (c.without i (.panicked op)).misplaces e = false) :
    Follows i (.panicked op) ((c.without i (.panicked op)).step e) (c.step e) := by
  obtain ⟨hr, hel, hw, huw, hcs, hcr⟩ := hb.idle
  obtain ⟨hr', hel', hw', huw', hcs', hcr'⟩ :=
    panicked_idle (c := c.without i (.panicked op)) (i := i) without_calls_self
  cases e with
  | send caller trying value => exact .locked (.some ha.send)
  | recv caller trying => exact .locked (.some ha.recv)
  | resume j =>
    by_cases hj : j = i
    · subst hj
      simp only [Config.step, hr, hr']
      exact .none
    · exact ha.resume hj
  | cancel j => exact cancel_without fun hj => he (hj ▸ rfl)
  | trySelect caller slice identifier index => exact .locked (ha.trySelect _ _ _ _)
  | select caller slice identifier =>
    simp only [Config.step, without_created, hb.identifies]
    by_cases hs : caller = .task .aborting
    · rw [if_pos hs, if_pos hs]
      exact .none
    rw [if_neg hs, if_neg hs]
    by_cases hi : ((List.range c.created).any fun j => (c.calls j).identifies identifier) = true
    · rw [if_pos hi, if_pos hi]
      exact .none
    · rw [if_neg hi, if_neg hi]
      exact .some fun _ => without_begin ha.created _
  | watch j index ready =>
    by_cases hj : j = i
    · subst hj
      simp only [Config.step, hw, hw']
      exact .locked .none
    · exact .locked (watch_without hj index ready)
  | elsewhere j =>
    by_cases hj : j = i
    · subst hj
      rw [hel, hel']
      exact .none
    · exact elsewhere_without hj
  | unwatch j index =>
    by_cases hj : j = i
    · subst hj
      simp only [Config.step, huw, huw']
      exact .locked .none
    · exact .locked (ha.unwatch hj hn hn')
  | consumeSend j value =>
    by_cases hj : j = i
    · subst hj
      simp only [Config.step, hcs, hcs']
      exact .none
    · exact consumeSend_without ha hj value
  | consumeRecv j =>
    by_cases hj : j = i
    · subst hj
      simp only [Config.step, hcr, hcr']
      exact .none
    · exact consumeRecv_without ha hj
  | close => exact .locked (.some close_without)

theorem Blocked.used (hb : Blocked c i op) : c.calls i ≠ .unused := by
  obtain ⟨_, _, hc, _⟩ := hb.waits
  rw [hc]
  nofun

theorem Blocked.unwoken (hb : Blocked c i op) : (c.calls i).unwoken = true := by
  obtain ⟨_, _, hc, rfl | rfl⟩ := hb.waits <;> rw [hc] <;> rfl

theorem Blocked.apart (hb : Blocked c i op) (hw : WellFormed c) : Apart c i where
  created := hw.lt_created hb.used
  senders w hm hi := by
    obtain ⟨_, _, hc, _⟩ := hb.waits
    have hv := hw.senders_valid w hm
    cases w with
    | task j value => exact ⟨value, by rw [show j = i from hi]⟩
    | thread j value =>
      obtain ⟨_, hv⟩ := hv
      rw [show j = i from hi, hc] at hv
      cases hv
      cases hb.direct
    | selector s =>
      simp only [Waiter.Valid] at hv
      rw [show s.waker = i from hi, hc] at hv
      cases op with
      | select => cases hb.direct
      | send | recv => cases hv
  receivers w hm hi := by
    obtain ⟨_, _, hc, _⟩ := hb.waits
    have hv := hw.receivers_valid w hm
    cases w with
    | task j => rw [show j = i from hi]
    | thread j =>
      obtain ⟨_, hv⟩ := hv
      rw [show j = i from hi, hc] at hv
      cases hv
      cases hb.direct
    | selector s =>
      simp only [RecvWaiter.Valid] at hv
      rw [show s.waker = i from hi, hc] at hv
      cases op with
      | select => cases hb.direct
      | send | recv => cases hv

/-- The wait is over: the call has been woken or has come to its end. -/
def Call.over : Call T → Bool
  | .unused | .waiting _ _ .pending | .waiting _ _ .cancelled => false
  | _ => true

theorem Call.Step.over {poisoned : Bool} {a b : Call T} (hs : Call.Step poisoned a b)
    (h : a.over = true) : b.over = true := by
  cases hs with
  | begun | granted => cases h
  | fired | cancelled => cases h
  | @rewatched _ _ _ cell => cases cell <;> first | rfl | cases h
  | returned | returnedElsewhere | sent | received | panicked => rfl

theorem Call.Step.blocked {poisoned : Bool} {a b : Call T} (hs : Call.Step poisoned a b)
    (h : a.over = true ∨ ∃ watched cell, a = .waiting op watched cell ∧
      (cell = .pending ∨ cell = .cancelled)) :
    b.over = true ∨ ∃ watched cell, b = .waiting op watched cell ∧
      (cell = .pending ∨ cell = .cancelled) := by
  rcases h with h | ⟨watched, cell, rfl, hcell⟩
  · exact Or.inl (hs.over h)
  cases hs with
  | fired => exact Or.inl rfl
  | cancelled => exact Or.inr ⟨_, _, rfl, Or.inr rfl⟩
  | rewatched => exact Or.inr ⟨_, _, rfl, hcell⟩
  | returned | returnedElsewhere => rcases hcell with hcell | hcell <;> cases hcell
  | sent | received | panicked => exact Or.inl rfl

/-- An interrupted wait is never woken. -/
theorem Call.Step.interrupted {poisoned : Bool} {a b : Call T} (hs : Call.Step poisoned a b)
    (h : a ≠ .unused ∧ a.pending = false ∧ a.unwoken = true) :
    b ≠ .unused ∧ b.pending = false ∧ b.unwoken = true := by
  obtain ⟨hu, hp, hw⟩ := h
  cases hs with
  | begun | granted => exact absurd rfl hu
  | fired | cancelled => cases hp
  | @rewatched _ _ _ cell => exact ⟨nofun, hp, by cases cell <;> first | rfl | cases hw⟩
  | returned | returnedElsewhere => cases hw
  | sent | received | panicked => exact ⟨nofun, rfl, rfl⟩

/-- What every step of a call keeps, every event keeps. -/
theorem Invariant.keeps (h : Invariant c) {P : Call T → Prop}
    (hP : ∀ {poisoned a b}, Call.Step poisoned a b → P a → P b) {e : Event T}
    (hs : c.step e = some d) (hu : c.calls i ≠ .unused) (hc : P (c.calls i)) : P (d.calls i) := by
  rcases h.evolves (move_of_step hs) with hv | ha
  · have hstar : ∀ b, Relation.ReflTransGen (Call.Step c.poisoned) (c.calls i) b → P b := by
      intro b hb
      induction hb with
      | refl => exact hc
      | tail _ hs ih => exact hP hs ih
    exact hstar _ (hv.calls i)
  · have hi := h.wellFormed.lt_created hu
    have he : d.calls i = c.calls i := by
      cases ha <;> simp [Config.begin, Config.poison, Function.update_of_ne (Nat.ne_of_lt hi)]
    rw [he]
    exact hc

theorem Blocked.next (hb : Blocked c i op) (h : Invariant c) {e : Event T}
    (hs : c.step e = some d) : (d.calls i).over = true ∨ Blocked d i op := by
  refine (h.keeps (fun hst => hst.blocked) hs hb.used (Or.inr hb.waits)).imp_right fun hw => ?_
  exact ⟨hb.direct, hw⟩

theorem Call.used_of_over {call : Call T} (h : call.over = true) : call ≠ .unused := by
  rintro rfl
  cases h

/-- An event that interrupts the call. -/
def Event.interrupts (i : ℕ) : Event T → Bool
  | .cancel j => j == i
  | _ => false

/-- No selector is looked up in the wrong queue, with the call or without it. -/
def Tidy (i : ℕ) (k : Call T) (c : Config T) (e : Event T) : Prop :=
  c.misplaces e = false ∧ (c.without i k).misplaces e = false

instance (i : ℕ) (k : Call T) (c : Config T) (e : Event T) : Decidable (Tidy i k c e) :=
  inferInstanceAs (Decidable (_ ∧ _))

theorem over_run {capacity : Capacity} (h : Reachable (system T capacity) c) {es : List (Event T)}
    (hs : (system T capacity).runFrom c es = some d) (ho : (c.calls i).over = true) :
    (d.calls i).over = true := by
  induction es generalizing c with
  | nil => cases hs; exact ho
  | cons e es ih =>
    obtain ⟨m, hm, hs⟩ := run_cons.mp hs
    refine ih (h.step hm) hs ?_
    exact (reachable_invariant h).keeps (fun hst => hst.over) hm (Call.used_of_over ho) ho

/-- A run in which the call stays blocked or is interrupted is, for everybody else, a run without
the call. -/
theorem Blocked.run {capacity : Capacity} (h : Reachable (system T capacity) c)
    (hb : Blocked c i op) {es : List (Event T)}
    (hs : (system T capacity).runFrom c es = some d) (hd : (d.calls i).over = false)
    (hn : (system T capacity).AllSteps (Tidy i (.panicked op)) c es) :
    (system T capacity).runFrom (c.without i (.panicked op))
      (es.filter fun e => !e.interrupts i) = some (d.without i (.panicked op)) := by
  induction es generalizing c with
  | nil => cases hs; rfl
  | cons e es ih =>
    obtain ⟨m, hm, hs⟩ := run_cons.mp hs
    obtain ⟨ht, hn⟩ := hn
    have hi := reachable_invariant h
    rcases hb.next hi hm with ho | hbm
    · rw [over_run (h.step hm) hs ho] at hd
      cases hd
    have ih := ih (h.step hm) hbm hs (hn m hm)
    by_cases he : e.interrupts i = true
    · rw [List.filter_cons_of_neg (by simpa using he)]
      have hsame : m.without i (.panicked op) = c.without i (.panicked op) := by
        cases e with
        | cancel j =>
          have hj : j = i := by simpa [Event.interrupts] using he
          subst hj
          have hmv := move_of_step (show c.step (.cancel j) = some m from hm)
          cases hmv with
          | cancelled => exact without_finish_self _
        | _ => cases he
      rw [hsame] at ih
      exact ih
    · rw [List.filter_cons_of_pos (by simpa using he)]
      have hne : e ≠ .cancel i := by
        rintro rfl
        exact he (by simp [Event.interrupts])
      have hf := hb.step (hb.apart hi.wellFormed) hne ht.1 ht.2
      have hm' : c.step e = some m := hm
      rw [hm'] at hf
      cases hstep : (c.without i (.panicked op)).step e with
      | none => rw [hstep] at hf; cases hf
      | some m' =>
        rw [hstep] at hf
        cases hf with
        | some hr =>
          obtain rfl := hr hbm.unwoken
          exact Option.bind_eq_some_iff.mpr ⟨_, hstep, ih⟩

/-- From the interruption on every event of others goes just as without the call. -/
theorem interrupted_step (h : Invariant c) {watched : List ℕ}
    (hc : c.calls i = .waiting op watched .cancelled) (hop : op.ofTask = true) {e : Event T}
    (he : e.interrupts i = false) (hn : Tidy i (.panicked op) c e) :
    (c.without i (.panicked op)).step e =
      (c.step e).map fun d => d.without i (.panicked op) := by
  have hb : Blocked c i op := ⟨hop, _, _, hc, Or.inr rfl⟩
  have hne : e ≠ .cancel i := by
    rintro rfl
    simp [Event.interrupts] at he
  have hf := hb.step (hb.apart h.wellFormed) hne hn.1 hn.2
  cases hs : c.step e with
  | none =>
    rw [hs] at hf
    cases hm : (c.without i (.panicked op)).step e with
    | none => rfl
    | some => rw [hm] at hf; cases hf
  | some d =>
    rw [hs] at hf
    have hu := (h.keeps (fun hst => hst.interrupted) hs hb.used
      ⟨hb.used, by rw [hc]; rfl, hb.unwoken⟩).2.2
    cases hm : (c.without i (.panicked op)).step e with
    | none => rw [hm] at hf; cases hf
    | some =>
      rw [hm] at hf
      cases hf with
      | some hr => rw [hr hu]; rfl

/-- The channel call that an event begins. -/
def Event.begins : Event T → Option (Op T)
  | .send caller _ value => some (.send caller value)
  | .recv caller _ => some (.recv caller)
  | _ => none

/-- The call has to wait, and `task::session()` refuses its coroutine. -/
def Config.refuses (c : Config T) : Event T → Bool
  | .send (.task .aborting) false _ => !c.closed && c.isFull
  | .recv (.task .aborting) false => c.isEmpty && !(c.closed && !c.isRecvable)
  | _ => false

/-- A refused call panics with the mutex in its hands. -/
theorem refused_step {e : Event T} (hop : e.begins = some op) (hr : c.refuses e = true)
    (hp : c.poisoned = false) : c.step e = some (c.begin (.panicked op)).poison := by
  cases e with
  | send caller trying value =>
    cases hop
    simp only [Config.refuses] at hr
    split at hr
    next he =>
      cases he
      simp only [Bool.and_eq_true, Bool.not_eq_true'] at hr
      simp [Config.step, hp, Config.send, hr.1, hr.2]
    next he => cases he
    next => cases hr
  | recv caller trying =>
    cases hop
    simp only [Config.refuses] at hr
    split at hr
    next he => cases he
    next he =>
      cases he
      simp only [Bool.and_eq_true, Bool.not_eq_true'] at hr
      simp [Config.step, hp, Config.recv, hr.1, hr.2]
    next => cases hr
  | _ => cases hop

/-- Any other call returns or waits. -/
theorem Invariant.evolves_send (h : Invariant c) {caller : Caller} {trying : Bool} {value : T}
    (hr : c.refuses (.send caller trying value) = false) :
    Evolves c (c.send caller trying value) := by
  have hw := h.wellFormed
  unfold Config.send
  by_cases hc : c.closed = true
  · rw [if_pos hc]
    exact hw.evolves_begin .sent
  rw [if_neg hc]
  by_cases hf : (!c.isFull) = true
  · rw [if_pos hf]
    exact hw.evolves_sendNow value
  rw [if_neg hf]
  by_cases ht : trying = true
  · rw [if_pos ht]
    exact hw.evolves_begin .sent
  rw [if_neg ht]
  split
  next =>
    obtain rfl : trying = false := by simpa using ht
    simp only [Config.refuses] at hr
    simp_all
  next => exact (hw.evolves_begin (.begun (by simp))).trans (.of_eq rfl rfl)
  next => exact (hw.evolves_begin (.begun (by simp))).trans (.of_eq rfl rfl)

theorem Invariant.evolves_recv (h : Invariant c) {caller : Caller} {trying : Bool}
    (hr : c.refuses (.recv caller trying) = false) : Evolves c (c.recv caller trying) := by
  have hw := h.wellFormed
  unfold Config.recv
  by_cases he : c.isEmpty = true
  · rw [if_pos he]
    by_cases hc : (c.closed && !c.isRecvable) = true
    · rw [if_pos hc]
      exact hw.evolves_begin .received
    rw [if_neg hc]
    by_cases ht : trying = true
    · rw [if_pos ht]
      exact hw.evolves_begin .received
    rw [if_neg ht]
    split
    next =>
      obtain rfl : trying = false := by simpa using ht
      simp only [Config.refuses] at hr
      simp_all
    next hs => exact (hw.evolves_begin (.begun (by simpa using hs))).trans (.of_eq rfl rfl)
    next => exact (hw.evolves_begin (.begun (by simp))).trans (.of_eq rfl rfl)
  · have hl : c.recvPermits < c.deque.length := by simpa [State.isEmpty] using he
    rw [if_neg he]
    split
    next hd => simp [hd] at hl
    next value rest hd =>
      dsimp only
      split
      next => exact hw.evolves_takeFree value rest
      next hb => exact absurd (takeFree_levels h hd hl).2 hb

theorem Invariant.evolves_call (h : Invariant c) {e : Event T} (hop : e.begins = some op)
    (hr : c.refuses e = false) (hs : c.step e = some d) : Evolves c d := by
  cases e with
  | send caller trying value =>
    simp only [Config.step] at hs
    split at hs
    next => cases hs
    next => cases hs; exact h.evolves_send hr
  | recv caller trying =>
    simp only [Config.step] at hs
    split at hs
    next => cases hs
    next => cases hs; exact h.evolves_recv hr
  | _ => cases hop

theorem unpoisoned_of_begins {e : Event T} (hop : e.begins = some op) (hs : c.step e = some d) :
    c.poisoned = false := by
  by_contra hp
  have hp : c.poisoned = true := by simpa using hp
  cases e with
  | send | recv => simp [Config.step, hp] at hs
  | _ => cases hop

/-- A call panics at once just if it is refused, and then the mutex is poisoned. -/
theorem Invariant.refuses_iff (h : Invariant c) {e : Event T} (hop : e.begins = some op)
    (hs : c.step e = some d) :
    (d.calls c.created = .panicked op ↔ c.refuses e = true) ∧
      (d.poisoned = true ↔ c.refuses e = true) := by
  have hp := unpoisoned_of_begins hop hs
  by_cases hr : c.refuses e = true
  · rw [refused_step hop hr hp] at hs
    cases hs
    simp [hr, Config.poison, Config.begin]
  · have hv := h.evolves_call hop (by simpa using hr) hs
    have hne : ∀ b, Relation.ReflTransGen (Call.Step c.poisoned) (c.calls c.created) b →
        b ≠ .panicked op := by
      intro b hb
      induction hb with
      | refl =>
        rw [h.wellFormed.fresh _ (Nat.le_refl _)]
        simp
      | tail _ hst _ =>
        rintro rfl
        cases hst with
        | panicked hpt => rw [hp] at hpt; cases hpt
    simp [hr, hne _ (hv.calls _), hv.poisoned, hp]

theorem Evolves.over (h : Evolves c d) (ho : (c.calls i).over = true) :
    (d.calls i).over = true := by
  have hstar : ∀ b, Relation.ReflTransGen (Call.Step c.poisoned) (c.calls i) b →
      b.over = true := by
    intro b hb
    induction hb with
    | refl => exact ho
    | tail _ hs ih => exact hs.over ih
  exact hstar _ (h.calls i)

theorem WellFormed.filter_senders (h : WellFormed c) :
    (c.senders.filter fun w => w.call != c.created) = c.senders :=
  List.filter_eq_self.mpr fun w hw =>
    bne_iff_ne.mpr (Nat.ne_of_lt (h.lt_created (h.senders_valid w hw).used))

theorem WellFormed.filter_receivers (h : WellFormed c) :
    (c.receivers.filter fun w => w.call != c.created) = c.receivers :=
  List.filter_eq_self.mpr fun w hw =>
    bne_iff_ne.mpr (Nat.ne_of_lt (h.lt_created (h.receivers_valid w hw).used))

/-- The channel in which a task has just begun to wait is, without that call, the one in which it
has not been made. -/
theorem Invariant.blocked_call (h : Invariant c) {e : Event T} (hop : e.begins = some op)
    (ht : op.ofTask = true) (hs : c.step e = some d) (ho : (d.calls c.created).over = false) :
    Blocked d c.created op ∧
      d.without c.created (.panicked op) = c.begin (.panicked op) := by
  have hw := h.wellFormed
  have hbegin : ∀ {k : Call T}, k.over = true → ((c.begin k).calls c.created).over = true := by
    intro k hk
    simpa [Config.begin] using hk
  cases e with
  | send caller trying value =>
    cases hop
    have hm := move_of_step hs
    cases hm with
    | sendRefused => rw [hbegin rfl] at ho; cases ho
    | sendPanicked =>
      simp [Config.poison, Config.begin, Call.over] at ho
    | sendNow =>
      let m := (c.begin (.sent value (.ok ()))).pushBack c.created value
      have hmw : WellFormed m := (hw.begin (.sent value (.ok ()))).of_eq rfl rfl rfl rfl rfl
      have hv : Evolves m m.wakeReceiver :=
        hmw.evolves_wakeReceiver (by simp [m, Config.begin, Config.pushBack])
      rw [hv.over (i := c.created) (hbegin rfl)] at ho
      cases ho
    | sendTask =>
      refine ⟨⟨ht, [], .pending, ?_, Or.inl rfl⟩, ?_⟩
      · simp [Config.begin, Config.enqueueSender]
      · have hs : ((c.senders ++ [Waiter.task c.created value]).filter
            fun w => w.call != c.created) = c.senders := by
          rw [List.filter_append, hw.filter_senders]
          simp [Waiter.call]
        simp only [Config.without, Config.begin, Config.enqueueSender, hs, hw.filter_receivers,
          Function.update_idem]
    | sendThread => cases ht
  | recv caller trying =>
    cases hop
    have hm := move_of_step hs
    cases hm with
    | recvRefused => rw [hbegin rfl] at ho; cases ho
    | recvPanicked =>
      simp [Config.poison, Config.begin, Call.over] at ho
    | @recvNow _ _ value rest =>
      let m := (c.begin (.received (.ok value))).popFront c.created value rest
      have hmw : WellFormed m := (hw.begin (.received (.ok value))).of_eq rfl rfl rfl rfl rfl
      have hv : Evolves m (c.takeFree value rest) := hmw.evolves_wakeSender
      rw [hv.over (i := c.created) (hbegin rfl)] at ho
      cases ho
    | recvOverflowed =>
      simp [Config.poison, Config.finish, Call.over] at ho
    | recvTask =>
      refine ⟨⟨ht, [], .pending, ?_, Or.inl rfl⟩, ?_⟩
      · simp [Config.begin, Config.enqueueReceiver]
      · have hr : ((c.receivers ++ [RecvWaiter.task c.created]).filter
            fun w => w.call != c.created) = c.receivers := by
          rw [List.filter_append, hw.filter_receivers]
          simp [RecvWaiter.call]
        simp only [Config.without, Config.begin, Config.enqueueReceiver, hr, hw.filter_senders,
          Function.update_idem]
    | recvThread => cases ht
  | _ => cases hop

/-- A `send` or `recv` panics at once just if it is refused, and poisons the mutex just then. A
wait that is interrupted leaves a dead waiter and nothing else: what the others have done since the
call began, and whatever they do later, they do as if it had not been made, as long as no selector
is looked up in the wrong queue. -/
theorem panics_harmless {capacity : Capacity} (h : Reachable (system T capacity) c) {e : Event T}
    (hop : e.begins = some op) (hs : c.step e = some d) :
    ((d.calls c.created = .panicked op ↔ c.refuses e = true) ∧
      (d.poisoned = true ↔ c.refuses e = true)) ∧
    ∀ es f watched, op.ofTask = true → (system T capacity).runFrom d es = some f →
      f.calls c.created = .waiting op watched .cancelled →
      (system T capacity).AllSteps (Tidy c.created (.panicked op)) d es →
      (system T capacity).runFrom (c.begin (.panicked op))
        (es.filter fun e => !e.interrupts c.created) =
          some (f.without c.created (.panicked op)) ∧
      ∀ e', e'.interrupts c.created = false → Tidy c.created (.panicked op) f e' →
        (f.without c.created (.panicked op)).step e' =
          (f.step e').map fun g => g.without c.created (.panicked op) := by
  have hi := reachable_invariant h
  refine ⟨hi.refuses_iff hop hs, fun es f watched ht hrun hf hn => ?_⟩
  have hover : (f.calls c.created).over = false := by rw [hf]; rfl
  have hd := h.step (show (system T capacity).step c e = some d from hs)
  have ho : (d.calls c.created).over = false := by
    by_contra hno
    rw [over_run hd hrun (by simpa using hno)] at hover
    cases hover
  obtain ⟨hb, hwithout⟩ := hi.blocked_call hop ht hs ho
  have hfi := reachable_invariant (hd.run hrun)
  refine ⟨?_, fun e' he' hn' => interrupted_step hfi hf ht he' hn'⟩
  rw [← hwithout]
  exact hb.run hd hrun hover hn

/-- A task waits for a value and is interrupted, then a thread sends one and another takes it. -/
def interruptedWait : Execution (system ℕ ⟨1, Nat.one_pos⟩) where
  events := [.recv (.task .running) false, .cancel 0, .send .thread true 5, .recv .thread true]
  fires := by decide +kernel

theorem interrupted_wait_harmless : (system ℕ ⟨1, by decide⟩).runFrom
    ((initial ⟨1, by decide⟩).begin (.panicked (.recv (.task .running))))
      [.send .thread true 5, .recv .thread true] =
    some (interruptedWait.final.without 0 (.panicked (.recv (.task .running)))) := by
  have h : Reachable (system ℕ ⟨1, by decide⟩) (initial ⟨1, by decide⟩) := .init
  have hf := (panics_harmless h (e := .recv (.task .running) false) rfl rfl).2
    [.cancel 0, .send .thread true 5, .recv .thread true] interruptedWait.final []
  exact (hf rfl rfl rfl (by decide +kernel)).1

/-- An aborting coroutine has to wait for a value. -/
theorem aborting_recv_poisons : ∃ c d : Config ℕ, Reachable (system ℕ ⟨1, by decide⟩) c ∧
    c.step (.recv (.task .aborting) false) = some d ∧
    d.calls c.created = .panicked (.recv (.task .aborting)) ∧ d.poisoned = true ∧
    (c.step (.send .thread true 5)).isSome = true ∧ d.step (.send .thread true 5) = none :=
  ⟨initial _, _, .init, rfl, rfl, rfl, rfl, rfl⟩

end ParallelChannel
