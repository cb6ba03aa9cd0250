import Stuck.ParallelChannelSteps

/-! The outcomes of every event of a parallel channel, and the well-formedness of every
reachable configuration: which calls the queued waiters stand for. -/
namespace ParallelChannel

open TransitionSystem OneShot SharedTypes WaitQueue

variable {T : Type*} {c d : Config T}

/-- A reserved value is taken: the permit goes, the front of the deque is returned. -/
def Config.takeReserved (c : Config T) (i : ℕ) (value : T) (rest : List T) : Config T :=
  ({ c with recvPermits := c.recvPermits - 1 }.finish i (.received (.ok value))).popFront i
    value rest

/-- A reserved slot is filled: the permit goes, the value enters the deque. -/
def Config.fillReserved (c : Config T) (i : ℕ) (value : T) : Config T :=
  ({ c with sendPermits := c.sendPermits - 1 }.finish i (.sent value (.ok ()))).pushBack i value

/-- A free value is taken by a `recv` that just starts, and its slot is offered. -/
def Config.takeFree (c : Config T) (value : T) (rest : List T) : Config T :=
  ((c.begin (.received (.ok value))).popFront c.created value rest).wakeSender

inductive ConsumesRecv (c : Config T) (i : ℕ) (op : Op T) : Config T → Prop where
  | underflow : c.recvPermits = 0 → ConsumesRecv c i op (c.finish i (.panicked op)).poison
  | drained : 0 < c.recvPermits → c.deque = [] → ConsumesRecv c i op
      ({ c with recvPermits := c.recvPermits - 1 }.finish i (.received (.error .closed)))
  | kept {value rest} : 0 < c.recvPermits → c.deque = value :: rest →
      (c.closed = true → (c.takeReserved i value rest).isRecvable = true) →
      (c.closed = false → c.isFull = false) →
      ConsumesRecv c i op (c.takeReserved i value rest)
  | refilled {value rest} : 0 < c.recvPermits → c.deque = value :: rest → c.closed = false →
      c.isFull = true → ConsumesRecv c i op (c.takeReserved i value rest).wakeSender
  | exhausted {value rest} : 0 < c.recvPermits → c.deque = value :: rest → c.closed = true →
      (c.takeReserved i value rest).isRecvable = false →
      ConsumesRecv c i op (c.takeReserved i value rest).closeReceivers

theorem consumesRecv (c : Config T) (i : ℕ) (op : Op T) :
    ConsumesRecv c i op (c.consumeRecvPermit i op) := by
  unfold Config.consumeRecvPermit
  by_cases hp : c.recvPermits = 0
  · simp only [hp, if_true]
    exact .underflow hp
  simp only [hp, if_false]
  have hp : 0 < c.recvPermits := by omega
  split
  next hd => exact .drained hp hd
  next value rest hd =>
    change ConsumesRecv c i op
      (if c.closed then
        if !(c.takeReserved i value rest).isRecvable then
          (c.takeReserved i value rest).closeReceivers
        else c.takeReserved i value rest
      else if c.isFull then (c.takeReserved i value rest).wakeSender
      else c.takeReserved i value rest)
    cases hc : c.closed <;> cases hf : c.isFull <;>
      cases hr : (c.takeReserved i value rest).isRecvable <;>
      simp only [Bool.not_true, Bool.not_false, Bool.false_eq_true, if_true, if_false]
    all_goals first
      | exact .exhausted hp hd hc hr
      | exact .refilled hp hd hc hf
      | exact .kept hp hd (by simp [hc, hr]) (by simp [hc, hf])

/-- The release of the receivers on a closed channel is guarded by an empty deque that was
just pushed to, so it never runs. -/
inductive ConsumesSend (c : Config T) (i : ℕ) (op : Op T) (value : T) : Config T → Prop where
  | noPermit : c.sendPermits = 0 →
      ConsumesSend c i op value (c.finish i (.panicked op)).poison
  | noSlot : 0 < c.sendPermits → State.isFull { c.toState with sendPermits := c.sendPermits - 1 } →
      ConsumesSend c i op value
        ({ c with sendPermits := c.sendPermits - 1 }.finish i (.panicked op)).poison
  | delivered : 0 < c.sendPermits → c.closed = false →
      ConsumesSend c i op value (c.fillReserved i value).wakeReceiver
  | stored : 0 < c.sendPermits → c.closed = true →
      ConsumesSend c i op value (c.fillReserved i value)

theorem consumesSend (c : Config T) (i : ℕ) (op : Op T) (value : T) :
    ConsumesSend c i op value (c.consumeSendPermit i op value) := by
  unfold Config.consumeSendPermit
  by_cases hp : c.sendPermits = 0
  · simp only [hp, if_true]
    exact .noPermit hp
  simp only [hp, if_false]
  have hp : 0 < c.sendPermits := by omega
  split
  next hf => exact .noSlot hp hf
  next =>
    have hr : (c.fillReserved i value).isRecvable = true := by
      simp [Config.fillReserved, Config.finish, Config.pushBack, State.isRecvable,
        State.recvableLen]
    change ConsumesSend c i op value
      (if !c.closed then (c.fillReserved i value).wakeReceiver
      else if !(c.fillReserved i value).isRecvable then (c.fillReserved i value).closeReceivers
      else c.fillReserved i value)
    cases hc : c.closed
    · exact .delivered hp hc
    · simp only [hr]
      exact .stored hp hc

theorem selectSendPermit_cases (s : State T) :
    (s.closed = true ∧ s.selectSendPermit = (some .closed, s)) ∨
    (s.closed = false ∧ s.isFull = false ∧
      s.selectSendPermit = (some .consume, { s with sendPermits := s.sendPermits + 1 })) ∨
    (s.closed = false ∧ s.isFull = true ∧ s.selectSendPermit = (none, s)) := by
  unfold State.selectSendPermit
  cases s.closed <;> cases s.isFull <;> simp

/-- A closed channel also grants permits beyond its values, for the permittees to contend. -/
theorem selectRecvPermit_cases (s : State T) :
    ((s.recvPermits < s.deque.length ∨ (s.closed = true ∧ s.sendPermits = 0 ∧ s.deque ≠ [])) ∧
      s.selectRecvPermit = (some .consume, { s with recvPermits := s.recvPermits + 1 })) ∨
    (s.closed = true ∧ s.sendPermits = 0 ∧ s.deque = [] ∧
      s.selectRecvPermit = (some .closed, s)) ∨
    (s.isEmpty = true ∧ (s.closed = true → 0 < s.sendPermits) ∧
      s.selectRecvPermit = (none, s)) := by
  unfold State.selectRecvPermit
  cases he : s.isEmpty
  · have : s.recvPermits < s.deque.length := by simpa [State.isEmpty] using he
    simp [this]
  cases hc : s.closed
  · simp
  by_cases hs : s.sendPermits = 0
  · cases hd : s.deque <;> simp [hs]
  · simp [hs, Nat.pos_of_ne_zero hs]

/-- The outcomes of a watch on the sending side: the configuration, and whether a permit was
available. -/
inductive WatchesSend (c : Config T) (s : Selector) : Config T × Bool → Prop where
  | closed : c.closed = true → (c.calls s.waker).pending = true →
      WatchesSend c s (c.fire s.waker (.selected s.index .closed), true)
  | granted : c.closed = false → c.isFull = false → (c.calls s.waker).pending = true →
      WatchesSend c s ({ c with sendPermits := c.sendPermits + 1 }.fire s.waker
        (.selected s.index .consume), true)
  | late : (c.calls s.waker).pending = false → WatchesSend c s (c, true)
  | queued : c.closed = false → c.isFull = true →
      WatchesSend c s (c.enqueueSender (.selector s), false)

theorem watchesSend (c : Config T) (s : Selector) : WatchesSend c s (c.watchSendPermit s) := by
  unfold Config.watchSendPermit
  rcases selectSendPermit_cases c.toState with ⟨hc, he⟩ | ⟨hc, hf, he⟩ | ⟨hc, hf, he⟩
  · rw [he]
    cases hp : (c.calls s.waker).pending
    · exact .late hp
    · exact .closed hc hp
  · rw [he]
    cases hp : (c.calls s.waker).pending
    · exact .late hp
    · exact .granted hc hf hp
  · rw [he]
    exact .queued hc hf

inductive WatchesRecv (c : Config T) (s : Selector) : Config T × Bool → Prop where
  | granted : c.recvPermits < c.deque.length ∨
        (c.closed = true ∧ c.sendPermits = 0 ∧ c.deque ≠ []) →
      (c.calls s.waker).pending = true →
      WatchesRecv c s ({ c with recvPermits := c.recvPermits + 1 }.fire s.waker
        (.selected s.index .consume), true)
  | closed : c.closed = true → c.sendPermits = 0 → c.deque = [] →
      (c.calls s.waker).pending = true →
      WatchesRecv c s (c.fire s.waker (.selected s.index .closed), true)
  | late : (c.calls s.waker).pending = false → WatchesRecv c s (c, true)
  | queued : c.isEmpty = true → (c.closed = true → 0 < c.sendPermits) →
      WatchesRecv c s (c.enqueueReceiver (.selector s), false)

theorem watchesRecv (c : Config T) (s : Selector) : WatchesRecv c s (c.watchRecvPermit s) := by
  unfold Config.watchRecvPermit
  rcases selectRecvPermit_cases c.toState with ⟨hl, he⟩ | ⟨hc, hs, hd, he⟩ | ⟨hl, hs, he⟩
  · rw [he]
    cases hp : (c.calls s.waker).pending
    · exact .late hp
    · exact .granted hl hp
  · rw [he]
    cases hp : (c.calls s.waker).pending
    · exact .late hp
    · exact .closed hc hs hd hp
  · rw [he]
    exact .queued hl hs

inductive Checks (c : Config T) (i index : ℕ) : Bool → Bool → Config T → Prop where
  | counted {available} :
      Checks c i index available false (c.finish i ((c.calls i).watch index))
  | broken : (c.calls i).pending = false → Checks c i index true true c

theorem checks_of_checked {i index : ℕ} {available ready : Bool}
    (h : c.checked i index available ready = some d) : Checks c i index available ready d := by
  unfold Config.checked at h
  split at h
  next hr => cases h; subst hr; exact .counted
  next hr =>
    split at h
    next ha =>
      cases h
      obtain ⟨rfl, hp⟩ := ha
      rw [Bool.not_eq_false] at hr
      subst hr
      exact .broken hp
    next => cases h

/-- What an event does, one constructor for each way through its code. -/
inductive Move (c : Config T) : Event T → Config T → Prop where
  | sendRefused {caller trying value error} : TrySendError.value error = value →
      Move c (.send caller trying value) (c.begin (.sent value (.error error)))
  | sendPanicked {caller trying value} : caller = .task .aborting →
      Move c (.send caller trying value) (c.begin (.panicked (.send caller value))).poison
  | sendNow {caller trying value} : c.closed = false → c.isFull = false →
      Move c (.send caller trying value)
        ((c.begin (.sent value (.ok ()))).pushBack c.created value).wakeReceiver
  | sendTask {status trying value} : c.closed = false → c.isFull = true → status ≠ .aborting →
      Move c (.send (.task status) trying value)
        ((c.enqueueSender (.task c.created value)).begin
          (.waiting (.send (.task status) value) [] .pending))
  | sendThread {trying value} : c.closed = false → c.isFull = true →
      Move c (.send .thread trying value)
        ((c.enqueueSender (.thread c.created value)).begin
          (.waiting (.send .thread value) [] .pending))
  | recvRefused {caller trying error} :
      (error = .closed → c.closed = true ∧ c.isRecvable = false) →
      Move c (.recv caller trying) (c.begin (.received (.error error)))
  | recvPanicked {caller trying} : caller = .task .aborting →
      Move c (.recv caller trying) (c.begin (.panicked (.recv caller))).poison
  | recvNow {caller trying value rest} : c.deque = value :: rest →
      c.recvPermits < c.deque.length →
      Move c (.recv caller trying) (c.takeFree value rest)
  | recvOverflowed {caller trying value rest} : c.deque = value :: rest →
      c.recvPermits < c.deque.length →
      (c.takeFree value rest).bound < (c.takeFree value rest).recvableLen →
      Move c (.recv caller trying)
        ((c.takeFree value rest).finish c.created (.panicked (.recv caller))).poison
  | recvTask {status trying} : c.isEmpty = true → (c.closed = true → c.isRecvable = true) →
      status ≠ .aborting → Move c (.recv (.task status) trying)
        ((c.enqueueReceiver (.task c.created)).begin
          (.waiting (.recv (.task status)) [] .pending))
  | recvThread {trying} : c.isEmpty = true → (c.closed = true → c.isRecvable = true) →
      Move c (.recv .thread trying)
        ((c.enqueueReceiver (.thread c.created)).begin (.waiting (.recv .thread) [] .pending))
  | sendReturned {i caller value watched result} :
      c.calls i = .waiting (.send caller value) watched (.fired (.sent result)) →
      Move c (.resume i)
        (c.finish i (.sent value (result.mapError SendError.toTrySendError)))
  | recvClosed {i caller watched o} :
      c.calls i = .waiting (.recv caller) watched (.fired o) →
      o = .permit .closed ∨ o = .received none →
      Move c (.resume i) (c.finish i (.received (.error .closed)))
  | recvReturned {i caller watched value} :
      c.calls i = .waiting (.recv caller) watched (.fired (.received (some value))) →
      Move c (.resume i) (c.finish i (.received (.ok value)))
  | waitPanicked {i op watched o} : c.calls i = .waiting op watched (.fired o) →
      c.poisoned = true →
      Move c (.resume i) (c.finish i (.panicked op))
  | recvResumed {i caller watched d} :
      c.calls i = .waiting (.recv caller) watched (.fired (.permit .consume)) →
      c.poisoned = false → ConsumesRecv c i (.recv caller) d → Move c (.resume i) d
  | selectReturned {i caller slice identifier index permit} :
      c.calls i = .waiting (.select caller slice identifier) []
        (.fired (.selected index permit)) →
      Move c (.resume i) (c.finish i (.permitted (.select caller slice identifier) index permit))
  | returnedElsewhere {i caller slice identifier} :
      c.calls i = .waiting (.select caller slice identifier) [] (.fired .elsewhere) →
      Move c (.resume i) (c.finish i .elsewhere)
  | cancelled {i op watched} : c.calls i = .waiting op watched .pending →
      (∀ value, op ≠ .send .thread value) → op ≠ .recv .thread →
      Move c (.cancel i) (c.finish i (.waiting op watched .cancelled))
  | sendSelected {caller slice identifier index permit s} : slice[index]? = some (some .send) →
      c.selectSendPermit = (some permit, s) →
      Move c (.trySelect caller slice identifier index)
        ((c.setState s).begin (.permitted (.select caller slice identifier) index permit))
  | recvSelected {caller slice identifier index permit s} : slice[index]? = some (some .recv) →
      c.selectRecvPermit = (some permit, s) →
      Move c (.trySelect caller slice identifier index)
        ((c.setState s).begin (.permitted (.select caller slice identifier) index permit))
  | selectStarted {caller slice identifier} :
      (∀ j < c.created, (c.calls j).identifies identifier = false) → Move c (.select caller slice identifier)
      (c.begin (.waiting (.select caller slice identifier) [] .pending))
  | sendWatched {i index caller slice identifier watched cell d available ready d'} :
      c.calls i = .waiting (.select caller slice identifier) watched cell → cell ≠ .cancelled →
      slice[index]? = some (some .send) →
      WatchesSend c ⟨index, i, identifier⟩ (d, available) → Checks d i index available ready d' →
      Move c (.watch i index ready) d'
  | recvWatched {i index caller slice identifier watched cell d available ready d'} :
      c.calls i = .waiting (.select caller slice identifier) watched cell → cell ≠ .cancelled →
      slice[index]? = some (some .recv) →
      WatchesRecv c ⟨index, i, identifier⟩ (d, available) → Checks d i index available ready d' →
      Move c (.watch i index ready) d'
  | firedElsewhere {i caller slice identifier watched} :
      c.calls i = .waiting (.select caller slice identifier) watched .pending →
      Move c (.elsewhere i) (c.fire i .elsewhere)
  | sendUnwatched {i index caller slice identifier watched cell} :
      c.calls i = .waiting (.select caller slice identifier) watched cell →
      slice[index]? = some (some .send) → cell ≠ .pending → index ∈ watched →
      Move c (.unwatch i index) ((c.unwatchSendPermit identifier).finish i
        (.waiting (.select caller slice identifier) (watched.erase index) cell))
  | recvUnwatched {i index caller slice identifier watched cell} :
      c.calls i = .waiting (.select caller slice identifier) watched cell →
      slice[index]? = some (some .recv) → cell ≠ .pending → index ∈ watched →
      Move c (.unwatch i index) ((c.unwatchRecvPermit identifier).finish i
        (.waiting (.select caller slice identifier) (watched.erase index) cell))
  | sendDetached {i value caller slice identifier index} :
      c.calls i = .permitted (.select caller slice identifier) index .closed →
      slice[index]? = some (some .send) →
      Move c (.consumeSend i value) (c.finish i (.sent value (.error (.closed value))))
  | sendConsumed {i value caller slice identifier index d} :
      c.calls i = .permitted (.select caller slice identifier) index .consume →
      slice[index]? = some (some .send) → c.poisoned = false →
      ConsumesSend c i (.select caller slice identifier) value d → Move c (.consumeSend i value) d
  | recvDetached {i caller slice identifier index} :
      c.calls i = .permitted (.select caller slice identifier) index .closed →
      slice[index]? = some (some .recv) →
      Move c (.consumeRecv i) (c.finish i (.received (.error .closed)))
  | recvConsumed {i caller slice identifier index d} :
      c.calls i = .permitted (.select caller slice identifier) index .consume →
      slice[index]? = some (some .recv) → c.poisoned = false →
      ConsumesRecv c i (.select caller slice identifier) d → Move c (.consumeRecv i) d
  | closed : Move c .close c.close

theorem move_send (c : Config T) (caller : Caller) (trying : Bool) (value : T) :
    Move c (.send caller trying value) (c.send caller trying value) := by
  unfold Config.send
  split
  next => exact .sendRefused rfl
  next hc =>
    have hc : c.closed = false := by simpa using hc
    split
    next hf => exact .sendNow hc (by simpa using hf)
    next hf =>
      have hf : c.isFull = true := by simpa using hf
      split
      next => exact .sendRefused rfl
      next =>
        split
        next => exact .sendPanicked rfl
        next ha => exact .sendTask hc hf ha
        next => exact .sendThread hc hf

theorem move_recv (c : Config T) (caller : Caller) (trying : Bool) :
    Move c (.recv caller trying) (c.recv caller trying) := by
  unfold Config.recv
  split
  next he =>
    split
    next hr => exact .recvRefused fun _ => by simpa using hr
    next hn =>
      have hn : c.closed = true → c.isRecvable = true := by simpa using hn
      split
      next => exact .recvRefused (by simp)
      next =>
        split
        next => exact .recvPanicked rfl
        next ha => exact .recvTask he hn ha
        next => exact .recvThread he hn
  next he =>
    have hl : c.recvPermits < c.deque.length := by simpa [State.isEmpty] using he
    split
    next hd => simp [hd] at hl
    next value rest hd =>
      dsimp only
      split
      next => exact .recvNow hd hl
      next hb => exact .recvOverflowed hd hl (Nat.lt_of_not_le hb)

theorem move_resume {i : ℕ} (h : c.resume i = some d) : Move c (.resume i) d := by
  unfold Config.resume at h
  split at h
  next hc =>
    split at h
    next hp => cases h; exact .waitPanicked hc hp.2
    next => cases h; exact .sendReturned hc
  next hc => cases h; exact .recvClosed hc (Or.inl rfl)
  next hc =>
    split at h
    next hp => cases h; exact .waitPanicked hc hp
    next hp => cases h; exact .recvResumed hc (by simpa using hp) (consumesRecv c i _)
  next hc =>
    split at h
    next hp => cases h; exact .waitPanicked hc hp
    next =>
      split at h
      next => cases h; exact .recvClosed hc (Or.inr rfl)
      next => cases h; exact .recvReturned hc
  next hc => cases h; exact .selectReturned hc
  next hc => cases h; exact .returnedElsewhere hc
  next => cases h

theorem move_cancel {i : ℕ} (h : c.cancel i = some d) : Move c (.cancel i) d := by
  unfold Config.cancel at h
  split at h
  next => cases h
  next => cases h
  next op watched hs hr hc =>
    cases h
    rw [hc]
    refine .cancelled hc ?_ ?_
    · rintro value rfl
      exact hs value rfl
    · rintro rfl
      exact hr rfl
  next => cases h

theorem move_trySelect {caller : Caller} {slice : Slice} {identifier index : ℕ}
    (h : c.trySelect caller slice identifier index = some d) :
    Move c (.trySelect caller slice identifier index) d := by
  unfold Config.trySelect at h
  split at h
  next hi =>
    rcases selectSendPermit_cases c.toState with ⟨_, he⟩ | ⟨_, _, he⟩ | ⟨_, _, he⟩ <;>
      rw [he] at h <;> cases h
    · exact .sendSelected hi he
    · exact .sendSelected hi he
  next hi =>
    rcases selectRecvPermit_cases c.toState with ⟨_, he⟩ | ⟨_, _, _, he⟩ | ⟨_, _, he⟩ <;>
      rw [he] at h <;> cases h
    · exact .recvSelected hi he
    · exact .recvSelected hi he
  next => cases h

theorem move_watch {i index : ℕ} {ready : Bool} (h : c.watch i index ready = some d) :
    Move c (.watch i index ready) d := by
  unfold Config.watch at h
  split at h
  next hc =>
    split at h
    next => cases h
    next hn =>
      have hn : _ ≠ Cell.cancelled := fun he => hn (Cell.isCancelled_iff.mpr he)
      split at h
      next hi => exact .sendWatched hc hn hi (watchesSend c _) (checks_of_checked h)
      next hi => exact .recvWatched hc hn hi (watchesRecv c _) (checks_of_checked h)
      next => cases h
  next => cases h

theorem move_unwatch {i index : ℕ} (h : c.unwatch i index = some d) :
    Move c (.unwatch i index) d := by
  unfold Config.unwatch at h
  split at h
  next hc =>
    split at h
    next => cases h
    next hp =>
      obtain ⟨hp, hm⟩ := not_or.mp hp
      simp only [Cell.isPending_iff, not_not] at hp hm
      split at h
      next hi => cases h; exact .sendUnwatched hc hi hp hm
      next hi => cases h; exact .recvUnwatched hc hi hp hm
      next => cases h
  next => cases h

theorem move_consumeSend {i : ℕ} {value : T} (h : c.consumeSend i value = some d) :
    Move c (.consumeSend i value) d := by
  unfold Config.consumeSend at h
  split at h
  next hc =>
    split at h
    next => cases h
    next hi =>
      split at h
      next => cases h; exact .sendDetached hc (by simpa using hi)
      next =>
        split at h
        next => cases h
        next hp =>
          cases h
          exact .sendConsumed hc (by simpa using hi) (by simpa using hp) (consumesSend c i _ value)
  next => cases h

theorem move_consumeRecv {i : ℕ} (h : c.consumeRecv i = some d) :
    Move c (.consumeRecv i) d := by
  unfold Config.consumeRecv at h
  split at h
  next hc =>
    split at h
    next => cases h
    next hi =>
      split at h
      next => cases h; exact .recvDetached hc (by simpa using hi)
      next =>
        split at h
        next => cases h
        next hp =>
          cases h
          exact .recvConsumed hc (by simpa using hi) (by simpa using hp) (consumesRecv c i _)
  next => cases h

theorem move_of_step {e : Event T} (h : c.step e = some d) : Move c e d := by
  cases e with
  | send caller trying value =>
    simp only [Config.step] at h
    split at h
    · cases h
    · cases h; exact move_send c caller trying value
  | recv caller trying =>
    simp only [Config.step] at h
    split at h
    · cases h
    · cases h; exact move_recv c caller trying
  | resume i => exact move_resume h
  | cancel i => exact move_cancel h
  | trySelect caller slice identifier index =>
    simp only [Config.step] at h
    split at h
    · cases h
    · exact move_trySelect h
  | select caller slice identifier =>
    simp only [Config.step] at h
    split at h
    · cases h
    · split at h
      · cases h
      next ha =>
        cases h
        exact .selectStarted (by simpa using ha)
  | watch i index ready =>
    simp only [Config.step] at h
    split at h
    · cases h
    · exact move_watch h
  | elsewhere i =>
    simp only [Config.step] at h
    split at h
    next hc => cases h; exact .firedElsewhere hc
    next => cases h
  | unwatch i index =>
    simp only [Config.step] at h
    split at h
    · cases h
    · exact move_unwatch h
  | consumeSend i value => exact move_consumeSend h
  | consumeRecv i => exact move_consumeRecv h
  | close =>
    simp only [Config.step] at h
    split at h
    · cases h
    · cases h; exact .closed

end ParallelChannel
