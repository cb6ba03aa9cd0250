import Stuck.ParallelChannel

/-! What one event of a parallel channel can do. The wake loops are characterised by the
first live waiter of their queue, and `move_of_step` lists the outcomes of every event, so
that later invariants are case analyses over `Move`. -/
namespace ParallelChannel

open TransitionSystem OneShot SharedTypes WaitQueue

variable {T : Type*} {c d : Config T}

def Waiter.call : Waiter T → ℕ
  | .task waker _ | .thread waker _ => waker
  | .selector s => s.waker

def RecvWaiter.call : RecvWaiter → ℕ
  | .selector s => s.waker
  | .task session => session
  | .thread waker => waker

/-- The call of a blocked `send`; a selector stands for a `select!`. -/
def Waiter.direct : Waiter T → Option ℕ
  | .task waker _ | .thread waker _ => some waker
  | .selector _ => none

def RecvWaiter.direct : RecvWaiter → Option ℕ
  | .selector _ => none
  | .task session => some session
  | .thread waker => some waker

/-- Live: neither cancelled nor woken. -/
def Waiter.live (calls : ℕ → Call T) (w : Waiter T) : Bool := (calls w.call).pending
def RecvWaiter.live (calls : ℕ → Call T) (w : RecvWaiter) : Bool := (calls w.call).pending

/-- The call is neither a blocked `send` or `recv` nor still to be made, and if it is a
waiting `select!` then the selector is one of its branches. -/
def Call.selects : Call T → Side → Selector → Bool
  | .waiting (.select _ slice identifier) .., side, s =>
    identifier == s.identifier && slice[s.index]? == some (some side)
  | .unused, _, _ | .waiting .., _, _ => false
  | _, _, _ => true

def Waiter.Valid (calls : ℕ → Call T) : Waiter T → Prop
  | .task i value => ∃ status watched cell,
      calls i = .waiting (.send (.task status) value) watched cell ∧
        (cell = .pending ∨ cell = .cancelled)
  | .thread i value => ∃ watched, calls i = .waiting (.send .thread value) watched .pending
  | .selector s => (calls s.waker).selects .send s = true

def RecvWaiter.Valid (calls : ℕ → Call T) : RecvWaiter → Prop
  | .task i => ∃ status watched cell,
      calls i = .waiting (.recv (.task status)) watched cell ∧
        (cell = .pending ∨ cell = .cancelled)
  | .thread i => ∃ watched, calls i = .waiting (.recv .thread) watched .pending
  | .selector s => (calls s.waker).selects .recv s = true

structure WellFormed (c : Config T) : Prop where
  fresh : ∀ i, c.created ≤ i → c.calls i = .unused
  senders_valid : ∀ w ∈ c.senders, w.Valid c.calls
  receivers_valid : ∀ w ∈ c.receivers, w.Valid c.calls
  senders_nodup : (c.senders.filterMap Waiter.direct).Nodup
  receivers_nodup : (c.receivers.filterMap RecvWaiter.direct).Nodup
  closed_senders : c.closed = true → c.senders = []

/-- A live sender receives the free slot: its value goes into the deque, or a permit to
its `select!`. -/
def Config.grantSender (c : Config T) : Waiter T → Config T
  | .task i value | .thread i value => (c.fire i (.sent (.ok ()))).pushBack i value
  | .selector s =>
    { c with sendPermits := c.sendPermits + 1 }.fire s.waker (.selected s.index .consume)

def Config.grantReceiver (c : Config T) : RecvWaiter → Config T
  | .selector s =>
    { c with recvPermits := c.recvPermits + 1 }.fire s.waker (.selected s.index .consume)
  | .task i => { c with recvPermits := c.recvPermits + 1 }.fire i (.permit .consume)
  | .thread i =>
    match c.deque with
    | [] => c.poison
    | value :: rest => (c.popFront i value rest).fire i (.received (some value))

theorem Waiter.Valid.thread_live {calls : ℕ → Call T} {i : ℕ} {value : T}
    (h : (Waiter.thread i value).Valid calls) : (calls i).pending = true := by
  obtain ⟨watched, hc⟩ := h
  simp [hc, Call.pending, Cell.isPending]

theorem RecvWaiter.Valid.thread_live {calls : ℕ → Call T} {i : ℕ}
    (h : (RecvWaiter.thread i).Valid calls) : (calls i).pending = true := by
  obtain ⟨watched, hc⟩ := h
  simp [hc, Call.pending, Cell.isPending]

private theorem wakeSenders_eq {queue : List (Waiter T)}
    (h : ∀ w ∈ queue, w.Valid c.calls) :
    c.wakeSenders queue = match takeFirst (Waiter.live c.calls) queue with
      | none => { c with senders := [] }
      | some (w, rest) => { c with senders := rest }.grantSender w := by
  induction queue with
  | nil => rfl
  | cons w rest ih =>
    have ih := ih fun v hv => h v (by simp [hv])
    cases w with
    | task i value =>
      by_cases hp : (c.calls i).pending
      · simp [Config.wakeSenders, takeFirst, Waiter.live, Waiter.call, hp, Config.grantSender]
      · simpa [Config.wakeSenders, takeFirst, Waiter.live, Waiter.call, hp] using ih
    | thread i value =>
      have hp := (h _ List.mem_cons_self).thread_live
      simp only [Config.wakeSenders, takeFirst, Waiter.live, Waiter.call, hp, if_true]
      rfl
    | selector s =>
      by_cases hp : (c.calls s.waker).pending
      · simp [Config.wakeSenders, takeFirst, Waiter.live, Waiter.call, hp, Config.grantSender]
      · simpa [Config.wakeSenders, takeFirst, Waiter.live, Waiter.call, hp] using ih

private theorem wakeReceivers_eq {queue : List RecvWaiter}
    (h : ∀ w ∈ queue, w.Valid c.calls) :
    c.wakeReceivers queue = match takeFirst (RecvWaiter.live c.calls) queue with
      | none => { c with receivers := [] }
      | some (w, rest) => { c with receivers := rest }.grantReceiver w := by
  induction queue with
  | nil => rfl
  | cons w rest ih =>
    have ih := ih fun v hv => h v (by simp [hv])
    cases w with
    | selector s =>
      by_cases hp : (c.calls s.waker).pending
      · simp [Config.wakeReceivers, takeFirst, RecvWaiter.live, RecvWaiter.call, hp,
          Config.grantReceiver]
      · simpa [Config.wakeReceivers, takeFirst, RecvWaiter.live, RecvWaiter.call, hp] using ih
    | task i =>
      by_cases hp : (c.calls i).pending
      · simp [Config.wakeReceivers, takeFirst, RecvWaiter.live, RecvWaiter.call, hp,
          Config.grantReceiver]
      · simpa [Config.wakeReceivers, takeFirst, RecvWaiter.live, RecvWaiter.call, hp] using ih
    | thread i =>
      have hp := (h _ List.mem_cons_self).thread_live
      simp only [Config.wakeReceivers, takeFirst, RecvWaiter.live, RecvWaiter.call, hp, if_true]
      rfl

/-- `wake_sender` drops the dead waiters in front and grants the first live one. -/
theorem wakeSender_cases (h : ∀ w ∈ c.senders, w.Valid c.calls) :
    ((∀ w ∈ c.senders, w.live c.calls = false) ∧ c.wakeSender = { c with senders := [] }) ∨
    ∃ w rest, takeFirst (Waiter.live c.calls) c.senders = some (w, rest) ∧
      c.wakeSender = { c with senders := rest }.grantSender w := by
  unfold Config.wakeSender
  rw [wakeSenders_eq h]
  cases ht : takeFirst (Waiter.live c.calls) c.senders with
  | none => exact Or.inl ⟨takeFirst_eq_none.mp ht, rfl⟩
  | some p => exact Or.inr ⟨p.1, p.2, rfl, rfl⟩

theorem wakeReceiver_cases (h : ∀ w ∈ c.receivers, w.Valid c.calls) :
    ((∀ w ∈ c.receivers, w.live c.calls = false) ∧ c.wakeReceiver = { c with receivers := [] }) ∨
    ∃ w rest, takeFirst (RecvWaiter.live c.calls) c.receivers = some (w, rest) ∧
      c.wakeReceiver = { c with receivers := rest }.grantReceiver w := by
  unfold Config.wakeReceiver
  rw [wakeReceivers_eq h]
  cases ht : takeFirst (RecvWaiter.live c.calls) c.receivers with
  | none => exact Or.inl ⟨takeFirst_eq_none.mp ht, rfl⟩
  | some p => exact Or.inr ⟨p.1, p.2, rfl, rfl⟩

theorem Waiter.Valid.congr {calls calls' : ℕ → Call T} {w : Waiter T}
    (he : calls' w.call = calls w.call) (h : w.Valid calls) : w.Valid calls' := by
  cases w <;> simp only [Waiter.call] at he <;> simpa only [Waiter.Valid, he] using h

theorem RecvWaiter.Valid.congr {calls calls' : ℕ → Call T} {w : RecvWaiter}
    (he : calls' w.call = calls w.call) (h : w.Valid calls) : w.Valid calls' := by
  cases w <;> simp only [RecvWaiter.call] at he <;> simpa only [RecvWaiter.Valid, he] using h

theorem Waiter.Valid.used {calls : ℕ → Call T} {w : Waiter T} (h : w.Valid calls) :
    calls w.call ≠ .unused := by
  cases w with
  | task i value => obtain ⟨_, _, _, h, _⟩ := h; simp [Waiter.call, h]
  | thread i value => obtain ⟨_, h⟩ := h; simp [Waiter.call, h]
  | selector s => intro hu; simp only [Waiter.call] at hu; simp [Waiter.Valid, hu, Call.selects] at h

theorem RecvWaiter.Valid.used {calls : ℕ → Call T} {w : RecvWaiter} (h : w.Valid calls) :
    calls w.call ≠ .unused := by
  cases w with
  | task i => obtain ⟨_, _, _, h, _⟩ := h; simp [RecvWaiter.call, h]
  | thread i => obtain ⟨_, h⟩ := h; simp [RecvWaiter.call, h]
  | selector s =>
    intro hu; simp only [RecvWaiter.call] at hu; simp [RecvWaiter.Valid, hu, Call.selects] at h

def Call.sends : Call T → Bool
  | .waiting (.send ..) .. => true
  | _ => false

def Call.receives : Call T → Bool
  | .waiting (.recv ..) .. => true
  | _ => false

@[simp] theorem Call.sends_fire (call : Call T) (o : Outcome T) :
    (call.fire o).sends = call.sends := by
  cases call with
  | waiting op _ _ => cases op <;> rfl
  | _ => rfl

@[simp] theorem Call.receives_fire (call : Call T) (o : Outcome T) :
    (call.fire o).receives = call.receives := by
  cases call with
  | waiting op _ _ => cases op <;> rfl
  | _ => rfl

@[simp] theorem Call.selects_fire (call : Call T) (o : Outcome T) (side : Side) (s : Selector) :
    (call.fire o).selects side s = call.selects side s := by
  cases call with
  | waiting op _ _ => cases op <;> rfl
  | _ => rfl

theorem Call.fire_ne_unused {call : Call T} (h : call ≠ .unused) (o : Outcome T) :
    call.fire o ≠ .unused := by
  cases call <;> simp_all [Call.fire]

@[simp] theorem Call.pending_fire (call : Call T) (o : Outcome T) :
    (call.fire o).pending = false := by
  cases call with
  | waiting op _ cell => cases cell <;> rfl
  | _ => rfl

@[simp] theorem Call.fire_fire (call : Call T) (o o' : Outcome T) :
    (call.fire o).fire o' = call.fire o := by
  cases call with
  | waiting op _ cell => cases cell <;> rfl
  | _ => rfl

theorem Waiter.Valid.not_receives {calls : ℕ → Call T} {w : Waiter T} (h : w.Valid calls) :
    (calls w.call).receives = false := by
  cases w with
  | task i value => obtain ⟨_, _, _, h, _⟩ := h; simp [Waiter.call, h, Call.receives]
  | thread i value => obtain ⟨_, h⟩ := h; simp [Waiter.call, h, Call.receives]
  | selector s =>
    simp only [Waiter.Valid] at h
    simp only [Waiter.call]
    revert h
    cases calls s.waker with
    | waiting op _ _ => cases op <;> simp [Call.selects, Call.receives]
    | _ => simp [Call.selects, Call.receives]

theorem RecvWaiter.Valid.not_sends {calls : ℕ → Call T} {w : RecvWaiter}
    (h : w.Valid calls) : (calls w.call).sends = false := by
  cases w with
  | task i => obtain ⟨_, _, _, h, _⟩ := h; simp [RecvWaiter.call, h, Call.sends]
  | thread i => obtain ⟨_, h⟩ := h; simp [RecvWaiter.call, h, Call.sends]
  | selector s =>
    simp only [RecvWaiter.Valid] at h
    simp only [RecvWaiter.call]
    revert h
    cases calls s.waker with
    | waiting op _ _ => cases op <;> simp [Call.selects, Call.sends]
    | _ => simp [Call.selects, Call.sends]

/-- The call behind a direct waiter is that blocked call, and it has not been woken. -/
theorem Waiter.Valid.direct {calls : ℕ → Call T} {w : Waiter T} {i : ℕ}
    (h : w.Valid calls) (hd : w.direct = some i) : ∃ caller value watched cell,
      calls i = .waiting (.send caller value) watched cell ∧
        (cell = .pending ∨ cell = .cancelled) := by
  cases w with
  | task j value =>
    cases hd
    obtain ⟨status, watched, cell, hc, hp⟩ := h
    exact ⟨_, _, _, _, hc, hp⟩
  | thread j value =>
    cases hd
    obtain ⟨watched, hc⟩ := h
    exact ⟨_, _, _, _, hc, Or.inl rfl⟩
  | selector s => cases hd

theorem RecvWaiter.Valid.direct {calls : ℕ → Call T} {w : RecvWaiter} {i : ℕ}
    (h : w.Valid calls) (hd : w.direct = some i) : ∃ caller watched cell,
      calls i = .waiting (.recv caller) watched cell ∧
        (cell = .pending ∨ cell = .cancelled) := by
  cases w with
  | task j =>
    cases hd
    obtain ⟨status, watched, cell, hc, hp⟩ := h
    exact ⟨_, _, _, hc, hp⟩
  | thread j =>
    cases hd
    obtain ⟨watched, hc⟩ := h
    exact ⟨_, _, _, hc, Or.inl rfl⟩
  | selector s => cases hd

theorem WellFormed.lt_created (h : WellFormed c) {i : ℕ} (hu : c.calls i ≠ .unused) :
    i < c.created := by
  by_contra hn
  exact hu (h.fresh i (by omega))

theorem initial_wellFormed (capacity : Capacity) : WellFormed (initial (T := T) capacity) := by
  constructor <;> simp [initial]

/-- The clauses read nothing but the calls, the two queues and `closed`. -/
theorem WellFormed.of_eq (h : WellFormed c) (hc : d.calls = c.calls)
    (hn : d.created = c.created) (hs : d.senders = c.senders)
    (hr : d.receivers = c.receivers) (hcl : d.closed = c.closed) : WellFormed d := by
  constructor
  · rw [hc, hn]; exact h.fresh
  · rw [hc, hs]; exact h.senders_valid
  · rw [hc, hr]; exact h.receivers_valid
  · rw [hs]; exact h.senders_nodup
  · rw [hr]; exact h.receivers_nodup
  · rw [hcl, hs]; exact h.closed_senders

theorem WellFormed.dropSenders (h : WellFormed c) {rest : List (Waiter T)}
    (hr : rest.Sublist c.senders) : WellFormed { c with senders := rest } where
  fresh := h.fresh
  senders_valid w hw := h.senders_valid w (hr.subset hw)
  receivers_valid := h.receivers_valid
  senders_nodup := h.senders_nodup.sublist (hr.filterMap _)
  receivers_nodup := h.receivers_nodup
  closed_senders hc := by
    have := h.closed_senders hc
    rw [this] at hr
    exact List.sublist_nil.mp hr

theorem WellFormed.dropReceivers (h : WellFormed c) {rest : List RecvWaiter}
    (hr : rest.Sublist c.receivers) : WellFormed { c with receivers := rest } where
  fresh := h.fresh
  senders_valid := h.senders_valid
  receivers_valid w hw := h.receivers_valid w (hr.subset hw)
  senders_nodup := h.senders_nodup
  receivers_nodup := h.receivers_nodup.sublist (hr.filterMap _)
  closed_senders := h.closed_senders

theorem WellFormed.begin (h : WellFormed c) (call : Call T) : WellFormed (c.begin call) where
  fresh i hi := by
    have hi : c.created + 1 ≤ i := hi
    simp only [Config.begin]
    rw [Function.update_of_ne (by omega)]
    exact h.fresh i (by omega)
  senders_valid w hw := by
    have hv := h.senders_valid w hw
    have := h.lt_created hv.used
    exact hv.congr (Function.update_of_ne (by omega) _ _)
  receivers_valid w hw := by
    have hv := h.receivers_valid w hw
    have := h.lt_created hv.used
    exact hv.congr (Function.update_of_ne (by omega) _ _)
  senders_nodup := h.senders_nodup
  receivers_nodup := h.receivers_nodup
  closed_senders := h.closed_senders

/-- One call changes; the waiters queued for it must stay valid. -/
theorem WellFormed.finish (h : WellFormed c) {i : ℕ} {call : Call T}
    (hu : c.calls i ≠ .unused)
    (hs : ∀ w ∈ c.senders, w.call = i → w.Valid (Function.update c.calls i call))
    (hr : ∀ w ∈ c.receivers, w.call = i → w.Valid (Function.update c.calls i call)) :
    WellFormed (c.finish i call) where
  fresh j hj := by
    have hi := h.lt_created hu
    have hj : c.created ≤ j := hj
    simp only [Config.finish]
    rw [Function.update_of_ne (by omega)]
    exact h.fresh j hj
  senders_valid w hw := by
    by_cases hi : w.call = i
    · exact hs w hw hi
    · exact (h.senders_valid w hw).congr (Function.update_of_ne hi _ _)
  receivers_valid w hw := by
    by_cases hi : w.call = i
    · exact hr w hw hi
    · exact (h.receivers_valid w hw).congr (Function.update_of_ne hi _ _)
  senders_nodup := h.senders_nodup
  receivers_nodup := h.receivers_nodup
  closed_senders := h.closed_senders

private theorem waiter_valid_update {calls : ℕ → Call T} {i : ℕ} {call : Call T}
    {w : Waiter T} (h : w.Valid calls) (hi : w.call = i) (hd : w.direct ≠ some i)
    (hs : ∀ side s, (calls i).selects side s = true → call.selects side s = true) :
    w.Valid (Function.update calls i call) := by
  subst hi
  cases w with
  | task | thread => exact absurd rfl hd
  | selector s =>
    simp only [Waiter.Valid, Waiter.call, Function.update_self]
    exact hs _ _ h

private theorem recvWaiter_valid_update {calls : ℕ → Call T} {i : ℕ} {call : Call T}
    {w : RecvWaiter} (h : w.Valid calls) (hi : w.call = i) (hd : w.direct ≠ some i)
    (hs : ∀ side s, (calls i).selects side s = true → call.selects side s = true) :
    w.Valid (Function.update calls i call) := by
  subst hi
  cases w with
  | task | thread => exact absurd rfl hd
  | selector s =>
    simp only [RecvWaiter.Valid, RecvWaiter.call, Function.update_self]
    exact hs _ _ h

/-- No direct waiter is queued for the call, so it may become anything that still selects. -/
theorem WellFormed.settle (h : WellFormed c) {i : ℕ} {call : Call T}
    (hu : c.calls i ≠ .unused) (hs : ∀ w ∈ c.senders, w.direct ≠ some i)
    (hr : ∀ w ∈ c.receivers, w.direct ≠ some i)
    (hk : ∀ side s, (c.calls i).selects side s = true → call.selects side s = true) :
    WellFormed (c.finish i call) :=
  h.finish hu (fun w hw hi => waiter_valid_update (h.senders_valid w hw) hi (hs w hw) hk)
    (fun w hw hi => recvWaiter_valid_update (h.receivers_valid w hw) hi (hr w hw) hk)

theorem WellFormed.no_sender (h : WellFormed c) {i : ℕ} (hn : (c.calls i).sends = false) :
    ∀ w ∈ c.senders, w.direct ≠ some i := by
  intro w hw hd
  obtain ⟨caller, value, watched, cell, hc, _⟩ := (h.senders_valid w hw).direct hd
  simp [hc, Call.sends] at hn

theorem WellFormed.no_receiver (h : WellFormed c) {i : ℕ}
    (hn : (c.calls i).receives = false) : ∀ w ∈ c.receivers, w.direct ≠ some i := by
  intro w hw hd
  obtain ⟨caller, watched, cell, hc, _⟩ := (h.receivers_valid w hw).direct hd
  simp [hc, Call.receives] at hn

theorem WellFormed.no_sender_of_woken (h : WellFormed c) {i : ℕ} {op : Op T}
    {watched : List ℕ} {o : Outcome T} (hc : c.calls i = .waiting op watched (.fired o)) :
    ∀ w ∈ c.senders, w.direct ≠ some i := by
  intro w hw hd
  obtain ⟨caller, value, watched, cell, hc', hp⟩ := (h.senders_valid w hw).direct hd
  simp only [hc, Call.waiting.injEq] at hc'
  obtain ⟨_, _, rfl⟩ := hc'
  rcases hp with hp | hp <;> cases hp

theorem WellFormed.no_receiver_of_woken (h : WellFormed c) {i : ℕ} {op : Op T}
    {watched : List ℕ} {o : Outcome T} (hc : c.calls i = .waiting op watched (.fired o)) :
    ∀ w ∈ c.receivers, w.direct ≠ some i := by
  intro w hw hd
  obtain ⟨caller, watched, cell, hc', hp⟩ := (h.receivers_valid w hw).direct hd
  simp only [hc, Call.waiting.injEq] at hc'
  obtain ⟨_, _, rfl⟩ := hc'
  rcases hp with hp | hp <;> cases hp

theorem WellFormed.fire (h : WellFormed c) {i : ℕ} (hu : c.calls i ≠ .unused)
    (hs : ∀ w ∈ c.senders, w.direct ≠ some i) (hr : ∀ w ∈ c.receivers, w.direct ≠ some i)
    (o : Outcome T) : WellFormed (c.fire i o) :=
  h.settle hu hs hr (by simp)

theorem WellFormed.grantSender (h : WellFormed c) {w : Waiter T} {rest : List (Waiter T)}
    (ht : takeFirst (Waiter.live c.calls) c.senders = some (w, rest)) :
    WellFormed ({ c with senders := rest }.grantSender w) := by
  have hv := h.senders_valid w (takeFirst_mem ht)
  have hrest := h.dropSenders ((List.sublist_cons_self w rest).trans (takeFirst_sublist ht))
  have hn : ((w :: rest).filterMap Waiter.direct).Nodup :=
    h.senders_nodup.sublist ((takeFirst_sublist ht).filterMap _)
  have hs : ∀ v ∈ rest, v.direct ≠ some w.call := by
    intro v hm hd
    obtain ⟨caller, value, watched, cell, hc, _⟩ :=
      (h.senders_valid v (mem_of_takeFirst ht hm)).direct hd
    cases w with
    | task i value | thread i value =>
      simp only [Waiter.direct, List.filterMap_cons, List.nodup_cons] at hn
      exact hn.1 (List.mem_filterMap.mpr ⟨v, hm, hd⟩)
    | selector s =>
      simp only [Waiter.Valid, Waiter.call] at hv hc
      simp [hc, Call.selects] at hv
  have hr := hrest.no_receiver (i := w.call) hv.not_receives
  cases w with
  | task i value | thread i value =>
    exact (hrest.fire (i := i) hv.used hs hr _).of_eq rfl rfl rfl rfl rfl
  | selector s =>
    exact (hrest.of_eq (d := { c with senders := rest, sendPermits := c.sendPermits + 1 })
      rfl rfl rfl rfl rfl).fire (i := s.waker) hv.used hs hr _

theorem WellFormed.wakeSender (h : WellFormed c) : WellFormed c.wakeSender := by
  rcases wakeSender_cases h.senders_valid with ⟨_, he⟩ | ⟨w, rest, ht, he⟩
  · rw [he]; exact h.dropSenders (List.nil_sublist _)
  · rw [he]; exact h.grantSender ht

theorem WellFormed.grantReceiver (h : WellFormed c) {w : RecvWaiter} {rest : List RecvWaiter}
    (ht : takeFirst (RecvWaiter.live c.calls) c.receivers = some (w, rest)) :
    WellFormed ({ c with receivers := rest }.grantReceiver w) := by
  have hv := h.receivers_valid w (takeFirst_mem ht)
  have hrest := h.dropReceivers ((List.sublist_cons_self w rest).trans (takeFirst_sublist ht))
  have hn : ((w :: rest).filterMap RecvWaiter.direct).Nodup :=
    h.receivers_nodup.sublist ((takeFirst_sublist ht).filterMap _)
  have hr : ∀ v ∈ rest, v.direct ≠ some w.call := by
    intro v hm hd
    obtain ⟨caller, watched, cell, hc, _⟩ :=
      (h.receivers_valid v (mem_of_takeFirst ht hm)).direct hd
    cases w with
    | task i | thread i =>
      simp only [RecvWaiter.direct, List.filterMap_cons, List.nodup_cons] at hn
      exact hn.1 (List.mem_filterMap.mpr ⟨v, hm, hd⟩)
    | selector s =>
      simp only [RecvWaiter.Valid, RecvWaiter.call] at hv hc
      simp [hc, Call.selects] at hv
  have hs := hrest.no_sender (i := w.call) hv.not_sends
  cases w with
  | task i =>
    exact (hrest.of_eq (d := { c with receivers := rest, recvPermits := c.recvPermits + 1 })
      rfl rfl rfl rfl rfl).fire (i := i) hv.used hs hr _
  | thread i =>
    simp only [Config.grantReceiver]
    cases c.deque with
    | nil => exact hrest.of_eq rfl rfl rfl rfl rfl
    | cons value deque =>
      exact (hrest.fire (i := i) hv.used hs hr _).of_eq rfl rfl rfl rfl rfl
  | selector s =>
    exact (hrest.of_eq (d := { c with receivers := rest, recvPermits := c.recvPermits + 1 })
      rfl rfl rfl rfl rfl).fire (i := s.waker) hv.used hs hr _

theorem WellFormed.wakeReceiver (h : WellFormed c) : WellFormed c.wakeReceiver := by
  rcases wakeReceiver_cases h.receivers_valid with ⟨_, he⟩ | ⟨w, rest, ht, he⟩
  · rw [he]; exact h.dropReceivers (List.nil_sublist _)
  · rw [he]; exact h.grantReceiver ht

/-- The cells settled by a list of wakers, in order. -/
def Config.fireAll (c : Config T) (wakes : List (ℕ × Outcome T)) : Config T :=
  wakes.foldl (fun c wake => c.fire wake.1 wake.2) c

/-- What closing the channel tells a waiter. -/
def Waiter.closing : Waiter T → ℕ × Outcome T
  | .task waker value | .thread waker value => (waker, .sent (.error (.closed value)))
  | .selector s => (s.waker, .selected s.index .closed)

def RecvWaiter.closing : RecvWaiter → ℕ × Outcome T
  | .selector s => (s.waker, .selected s.index .closed)
  | .task session => (session, .permit .closed)
  | .thread waker => (waker, .received none)

@[simp] theorem Waiter.closing_call (w : Waiter T) : w.closing.1 = w.call := by cases w <;> rfl

@[simp] theorem RecvWaiter.closing_call (w : RecvWaiter) :
    (w.closing : ℕ × Outcome T).1 = w.call := by cases w <;> rfl

theorem closeSenders_eq (c : Config T) : c.closeSenders =
    { c with senders := [] }.fireAll (c.senders.map Waiter.closing) := by
  have hw : (Config.closeSender : Config T → Waiter T → Config T) =
      fun c w => c.fire w.closing.1 w.closing.2 := by
    funext c w
    cases w <;> rfl
  rw [Config.closeSenders, Config.fireAll, List.foldl_map, hw]

theorem closeReceivers_eq (c : Config T) : c.closeReceivers =
    { c with receivers := [] }.fireAll (c.receivers.map RecvWaiter.closing) := by
  have hw : (Config.closeReceiver : Config T → RecvWaiter → Config T) =
      fun c w => c.fire (w.closing : ℕ × Outcome T).1 w.closing.2 := by
    funext c w
    cases w <;> rfl
  rw [Config.closeReceivers, Config.fireAll, List.foldl_map, hw]

/-- Settling cells touches nothing but the calls. -/
theorem fireAll_eq (c : Config T) (wakes : List (ℕ × Outcome T)) :
    c.fireAll wakes = { c with calls := (c.fireAll wakes).calls } := by
  induction wakes generalizing c with
  | nil => rfl
  | cons wake rest ih => exact ih (c.fire wake.1 wake.2)

/-- Each call keeps its state or is settled by one of the wakers meant for it. -/
theorem fireAll_calls (c : Config T) (wakes : List (ℕ × Outcome T)) (i : ℕ) :
    ((c.fireAll wakes).calls i = c.calls i ∧ ∀ wake ∈ wakes, wake.1 ≠ i) ∨
    ∃ wake ∈ wakes, wake.1 = i ∧ (c.fireAll wakes).calls i = (c.calls i).fire wake.2 := by
  induction wakes generalizing c with
  | nil => exact Or.inl ⟨rfl, by simp⟩
  | cons wake rest ih =>
    have he : c.fireAll (wake :: rest) = (c.fire wake.1 wake.2).fireAll rest := rfl
    rw [he]
    by_cases hi : wake.1 = i
    · refine Or.inr ⟨wake, by simp, hi, ?_⟩
      have hc : (c.fire wake.1 wake.2).calls i = (c.calls i).fire wake.2 := by
        subst hi; exact Function.update_self _ _ _
      rcases ih (c.fire wake.1 wake.2) with ⟨h, _⟩ | ⟨v, _, _, h⟩
      · rw [h, hc]
      · rw [h, hc, Call.fire_fire]
    · have hc : (c.fire wake.1 wake.2).calls i = c.calls i :=
        Function.update_of_ne (Ne.symm hi) _ _
      rcases ih (c.fire wake.1 wake.2) with ⟨h, hn⟩ | ⟨v, hv, hvi, h⟩
      · refine Or.inl ⟨h.trans hc, ?_⟩
        intro v hv
        rcases List.mem_cons.mp hv with rfl | hv
        · exact hi
        · exact hn v hv
      · exact Or.inr ⟨v, by simp [hv], hvi, by rw [h, hc]⟩

theorem WellFormed.fireAll (h : WellFormed c) {wakes : List (ℕ × Outcome T)}
    (hu : ∀ wake ∈ wakes, c.calls wake.1 ≠ .unused)
    (hs : ∀ wake ∈ wakes, ∀ w ∈ c.senders, w.direct ≠ some wake.1)
    (hr : ∀ wake ∈ wakes, ∀ w ∈ c.receivers, w.direct ≠ some wake.1) :
    WellFormed (c.fireAll wakes) := by
  induction wakes generalizing c with
  | nil => exact h
  | cons wake rest ih =>
    apply ih (h.fire (hu wake (by simp)) (hs wake (by simp)) (hr wake (by simp)) wake.2)
    · intro v hv
      by_cases hvi : v.1 = wake.1
      · simp only [Config.fire, Config.finish, hvi, Function.update_self]
        exact Call.fire_ne_unused (hu wake (by simp)) _
      · simp only [Config.fire, Config.finish, Function.update_of_ne hvi]
        exact hu v (by simp [hv])
    · exact fun v hv => hs v (by simp [hv])
    · exact fun v hv => hr v (by simp [hv])

theorem WellFormed.closeSenders (h : WellFormed c) (closed : Bool) :
    WellFormed { c with closed := closed }.closeSenders := by
  rw [closeSenders_eq]
  have hd := h.dropSenders (List.nil_sublist _)
  apply WellFormed.fireAll (c := { c with closed := closed, senders := [] })
    ⟨hd.fresh, hd.senders_valid, hd.receivers_valid, hd.senders_nodup, hd.receivers_nodup,
      fun _ => rfl⟩
  · intro wake hw
    obtain ⟨w, hm, rfl⟩ := List.mem_map.mp hw
    simpa using (h.senders_valid w hm).used
  · simp
  · intro wake hw
    obtain ⟨w, hm, rfl⟩ := List.mem_map.mp hw
    rw [Waiter.closing_call]
    exact h.no_receiver (h.senders_valid w hm).not_receives

theorem WellFormed.closeReceivers (h : WellFormed c) : WellFormed c.closeReceivers := by
  rw [closeReceivers_eq]
  apply (h.dropReceivers (List.nil_sublist _)).fireAll
  · intro wake hw
    obtain ⟨w, hm, rfl⟩ := List.mem_map.mp hw
    simpa using (h.receivers_valid w hm).used
  · intro wake hw
    obtain ⟨w, hm, rfl⟩ := List.mem_map.mp hw
    rw [RecvWaiter.closing_call]
    exact h.no_sender (h.receivers_valid w hm).not_sends
  · simp

theorem closeSenders_frame (c : Config T) :
    c.closeSenders = { c with senders := [], calls := c.closeSenders.calls } := by
  rw [closeSenders_eq]
  exact fireAll_eq _ _

theorem closeReceivers_frame (c : Config T) :
    c.closeReceivers = { c with receivers := [], calls := c.closeReceivers.calls } := by
  rw [closeReceivers_eq]
  exact fireAll_eq _ _

end ParallelChannel
