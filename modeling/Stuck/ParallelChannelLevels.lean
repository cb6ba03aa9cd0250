import Stuck.ParallelChannelPermits

/-! How an event moves the counters of a parallel channel and the live waiters of its two
queues: the view of a configuration on which the wake-up properties depend. -/
namespace ParallelChannel

open TransitionSystem OneShot SharedTypes WaitQueue

variable {T : Type*} {c d m : Config T}

structure Levels where
  closed : Bool
  bound : ℕ
  sendPermits : ℕ
  recvPermits : ℕ
  length : ℕ
  deriving DecidableEq, Repr

def Config.levels (c : Config T) : Levels :=
  ⟨c.closed, c.bound, c.sendPermits, c.recvPermits, c.deque.length⟩

/-- The waiter that `wake_sender` would wake. -/
def Config.nextSender (c : Config T) : Option (Waiter T) :=
  (takeFirst (Waiter.live c.calls) c.senders).map Prod.fst

def Config.nextReceiver (c : Config T) : Option RecvWaiter :=
  (takeFirst (RecvWaiter.live c.calls) c.receivers).map Prod.fst

theorem nextSender_isSome :
    c.nextSender.isSome = true ↔ ∃ w ∈ c.senders, w.live c.calls = true := by
  rw [Config.nextSender, Option.isSome_map, takeFirst_isSome]

theorem nextReceiver_isSome :
    c.nextReceiver.isSome = true ↔ ∃ w ∈ c.receivers, w.live c.calls = true := by
  rw [Config.nextReceiver, Option.isSome_map, takeFirst_isSome]

/-- No waiter becomes live. -/
structure Calm (c d : Config T) : Prop where
  sender : d.nextSender.isSome → c.nextSender.isSome
  receiver : d.nextReceiver.isSome → c.nextReceiver.isSome

theorem Calm.trans (h : Calm c m) (h' : Calm m d) : Calm c d :=
  ⟨h.sender ∘ h'.sender, h.receiver ∘ h'.receiver⟩

/-- The calls of `c` that are pending in `d` are pending in `c`. -/
def Settles (c d : Config T) : Prop :=
  ∀ i, c.calls i ≠ .unused → (d.calls i).pending = true → (c.calls i).pending = true

theorem Config.Advances.settles (h : c.Advances true d) : Settles c d := fun i _ => (h i).pending

theorem WellFormed.settles_begin (h : WellFormed c) {call : Call T}
    (ha : (c.begin call).Advances true d) : Settles c d := by
  intro i hu hp
  have hi := h.lt_created hu
  have := (ha i).pending hp
  simpa [Config.begin, Function.update_of_ne (by omega : i ≠ c.created)] using this

theorem WellFormed.settles (h : WellFormed c) {e : Event T} (hm : Move c e d) : Settles c d := by
  rcases h.advances hm with ha | ⟨call, _, ha⟩
  · exact ha.weaken.settles
  · exact h.settles_begin ha.weaken

theorem WellFormed.sender_calm (h : WellFormed c) (hs : Settles c d)
    (hq : ∀ w ∈ d.senders, w ∈ c.senders) : d.nextSender.isSome → c.nextSender.isSome := by
  rw [nextSender_isSome, nextSender_isSome]
  rintro ⟨w, hw, hl⟩
  exact ⟨w, hq w hw, hs w.call (h.senders_valid w (hq w hw)).used hl⟩

theorem WellFormed.receiver_calm (h : WellFormed c) (hs : Settles c d)
    (hq : ∀ w ∈ d.receivers, w ∈ c.receivers) : d.nextReceiver.isSome → c.nextReceiver.isSome := by
  rw [nextReceiver_isSome, nextReceiver_isSome]
  rintro ⟨w, hw, hl⟩
  exact ⟨w, hq w hw, hs w.call (h.receivers_valid w (hq w hw)).used hl⟩

theorem WellFormed.calm (h : WellFormed c) (hs : Settles c d) (hq : d.senders = c.senders)
    (hr : d.receivers = c.receivers) : Calm c d :=
  ⟨h.sender_calm hs (by rw [hq]; exact fun _ => id),
    h.receiver_calm hs (by rw [hr]; exact fun _ => id)⟩

theorem nextSender_congr (hq : d.senders = c.senders)
    (hp : ∀ w ∈ c.senders, (d.calls w.call).pending = (c.calls w.call).pending) :
    d.nextSender = c.nextSender := by
  have ht : takeFirst (Waiter.live d.calls) c.senders = takeFirst (Waiter.live c.calls) c.senders :=
    takeFirst_congr hp
  rw [Config.nextSender, hq, ht, Config.nextSender]

theorem nextReceiver_congr (hq : d.receivers = c.receivers)
    (hp : ∀ w ∈ c.receivers, (d.calls w.call).pending = (c.calls w.call).pending) :
    d.nextReceiver = c.nextReceiver := by
  have ht : takeFirst (RecvWaiter.live d.calls) c.receivers =
      takeFirst (RecvWaiter.live c.calls) c.receivers := takeFirst_congr hp
  rw [Config.nextReceiver, hq, ht, Config.nextReceiver]

/-- The two queues look the same to the wake loops. -/
structure SameQueues (c d : Config T) : Prop where
  sender : d.nextSender = c.nextSender
  receiver : d.nextReceiver = c.nextReceiver

theorem WellFormed.sameQueues (h : WellFormed c) (hs : d.senders = c.senders)
    (hr : d.receivers = c.receivers)
    (hp : ∀ i, c.calls i ≠ .unused → (d.calls i).pending = (c.calls i).pending) :
    SameQueues c d :=
  ⟨nextSender_congr hs fun w hw => hp _ (h.senders_valid w hw).used,
    nextReceiver_congr hr fun w hw => hp _ (h.receivers_valid w hw).used⟩

theorem WellFormed.sameQueues_begin (h : WellFormed c) (call : Call T)
    (hs : d.senders = c.senders) (hr : d.receivers = c.receivers)
    (hc : d.calls = (c.begin call).calls) : SameQueues c d := by
  refine h.sameQueues hs hr fun i hu => ?_
  have hi := h.lt_created hu
  rw [hc]
  simp only [Config.begin, Function.update_of_ne (by omega : i ≠ c.created)]

theorem WellFormed.sameQueues_finish (h : WellFormed c) {i : ℕ} {k : Call T}
    (hp : k.pending = (c.calls i).pending) (hs : d.senders = c.senders)
    (hr : d.receivers = c.receivers) (hc : d.calls = (c.finish i k).calls) :
    SameQueues c d := by
  refine h.sameQueues hs hr fun j _ => ?_
  rw [hc]
  by_cases hj : j = i
  · subst hj; simpa [Config.finish] using hp
  · simp only [Config.finish, Function.update_of_ne hj]

/-- What `wake_sender` does: nothing without a live sender, else the first one puts its value
into the deque or takes a permit. -/
inductive WakesSender (c d : Config T) : Prop where
  | idle : c.nextSender = none → d.nextSender = none → d.nextReceiver = c.nextReceiver →
      d.levels = c.levels → WakesSender c d
  | pushed (w : Waiter T) : c.nextSender = some w → w.direct.isSome = true → Calm c d →
      d.nextReceiver = c.nextReceiver →
      d.levels = { c.levels with length := c.deque.length + 1 } → WakesSender c d
  | granted (s : Selector) : c.nextSender = some (.selector s) → Calm c d →
      d.levels = { c.levels with sendPermits := c.sendPermits + 1 } → WakesSender c d

theorem WellFormed.wakesSender (h : WellFormed c) : WakesSender c c.wakeSender := by
  have hset := h.advances_wakeSender.settles
  rcases wakeSender_cases h.senders_valid with ⟨hn, he⟩ | ⟨w, rest, ht, he⟩
  · have hnone : c.nextSender = none := by
      simp [Config.nextSender, takeFirst_eq_none.mpr hn]
    rw [he]
    exact .idle hnone rfl rfl rfl
  have hnext : c.nextSender = some w := by simp [Config.nextSender, ht]
  have hv := h.senders_valid w (takeFirst_mem ht)
  rw [he] at hset ⊢
  have hs : ∀ v ∈ ({ c with senders := rest }.grantSender w).senders, v ∈ c.senders := by
    cases w <;> exact fun v hm => mem_of_takeFirst ht hm
  have hr : ({ c with senders := rest }.grantSender w).receivers = c.receivers := by
    cases w <;> rfl
  have hcalm : Calm c ({ c with senders := rest }.grantSender w) :=
    ⟨h.sender_calm hset hs, h.receiver_calm hset (by rw [hr]; exact fun _ => id)⟩
  cases w with
  | task i value | thread i value =>
    refine .pushed _ hnext rfl hcalm (nextReceiver_congr hr fun v hm => ?_)
      (by simp [Config.levels, Config.grantSender, Config.fire, Config.finish, Config.pushBack])
    -- the woken call sends, the queued receivers' calls do not
    have hi : v.call ≠ i := by
      intro hi
      have hsends := (h.receivers_valid v hm).not_sends
      obtain ⟨_, _, _, _, hc, _⟩ := hv.direct (i := i) rfl
      rw [hi, hc] at hsends
      cases hsends
    simp only [Config.grantSender, Config.fire, Config.finish, Config.pushBack,
      Function.update_of_ne hi]
  | selector s => exact .granted s hnext hcalm rfl

/-- What `wake_receiver` does: a selector or task gets a permit, a thread the front value. -/
inductive WakesReceiver (c d : Config T) : Prop where
  | idle : c.nextReceiver = none → d.nextReceiver = none → d.nextSender = c.nextSender →
      d.levels = c.levels → WakesReceiver c d
  | granted (w : RecvWaiter) : c.nextReceiver = some w → (∀ i, w ≠ .thread i) → Calm c d →
      d.levels = { c.levels with recvPermits := c.recvPermits + 1 } → WakesReceiver c d
  | handed (i : ℕ) : c.nextReceiver = some (.thread i) → Calm c d →
      d.nextSender = c.nextSender →
      d.levels = { c.levels with length := c.deque.length - 1 } → WakesReceiver c d

theorem WellFormed.wakesReceiver (h : WellFormed c) (hd : c.deque ≠ []) :
    WakesReceiver c c.wakeReceiver := by
  have hset := h.advances_wakeReceiver.settles
  rcases wakeReceiver_cases h.receivers_valid with ⟨hn, he⟩ | ⟨w, rest, ht, he⟩
  · have hnone : c.nextReceiver = none := by
      simp [Config.nextReceiver, takeFirst_eq_none.mpr hn]
    rw [he]
    exact .idle hnone rfl rfl rfl
  have hnext : c.nextReceiver = some w := by simp [Config.nextReceiver, ht]
  have hv := h.receivers_valid w (takeFirst_mem ht)
  obtain ⟨value, deque, hd⟩ := List.exists_cons_of_ne_nil hd
  rw [he] at hset ⊢
  have hr : ∀ v ∈ ({ c with receivers := rest }.grantReceiver w).receivers, v ∈ c.receivers := by
    cases w <;> simp only [Config.grantReceiver, hd] <;> exact fun v hm => mem_of_takeFirst ht hm
  have hs : ({ c with receivers := rest }.grantReceiver w).senders = c.senders := by
    cases w <;> simp only [Config.grantReceiver, hd] <;> rfl
  have hcalm : Calm c ({ c with receivers := rest }.grantReceiver w) :=
    ⟨h.sender_calm hset (by rw [hs]; exact fun _ => id), h.receiver_calm hset hr⟩
  cases w with
  | task i => exact .granted _ hnext (by simp) hcalm rfl
  | selector s => exact .granted _ hnext (by simp) hcalm rfl
  | thread i =>
    refine .handed i hnext hcalm (nextSender_congr hs fun v hm => ?_)
      (by simp [Config.levels, Config.grantReceiver, hd, Config.fire, Config.finish,
        Config.popFront])
    -- the woken call receives, the queued senders' calls do not
    have hi : v.call ≠ i := by
      intro hi
      have hreceives := (h.senders_valid v hm).not_receives
      obtain ⟨_, _, _, hc, _⟩ := hv.direct (i := i) rfl
      rw [hi, hc] at hreceives
      cases hreceives
    simp only [Config.grantReceiver, hd, Config.fire, Config.finish, Config.popFront,
      Function.update_of_ne hi]

structure Invariant (c : Config T) : Prop where
  wellFormed : WellFormed c
  distinctFrames : DistinctFrames c
  accounted : Accounted c
  capacity : c.recvableLen ≤ c.bound
  reserved : c.closed = false → c.recvPermits ≤ c.deque.length

theorem initial_invariant (capacity : Capacity) : Invariant (initial (T := T) capacity) where
  wellFormed := initial_wellFormed capacity
  distinctFrames := by simp [DistinctFrames, initial, Call.identifies]
  accounted _ side := by cases side <;> rfl
  capacity := by simp [initial, State.recvableLen]
  reserved := by simp [initial]

theorem Accounted.positive (h : Accounted c) (hp : c.poisoned = false) {i : ℕ} {side : Side}
    (hi : i < c.created) (hh : (c.calls i).holds side = true) : 0 < c.permits side := by
  rw [h hp side]
  exact Census.count_pos_iff.mpr ⟨i, hi, hh⟩

/-- What an event is to the counters: it closes the channel, consumes a permit, or neither. -/
inductive Role where
  | plain
  | closes
  | consumes (side : Side)
  deriving DecidableEq, Repr

def Config.role (c : Config T) : Event T → Role
  | .resume i =>
    match c.calls i with
    | .waiting (.recv _) _ (.fired (.permit .consume)) =>
      if c.poisoned then .plain else .consumes .recv
    | _ => .plain
  | .consumeSend i _ =>
    match c.calls i with
    | .permitted _ _ .consume => .consumes .send
    | _ => .plain
  | .consumeRecv i =>
    match c.calls i with
    | .permitted _ _ .consume => .consumes .recv
    | _ => .plain
  | .close => .closes
  | _ => .plain

/-- The effects of an event on the counters and on the live waiters, by its role. -/
inductive Effect (c : Config T) : Role → Config T → Prop where
  | still {d : Config T} : d.levels = c.levels → Calm c d → Effect c .plain d
  | sendGranted {d : Config T} : c.closed = false → c.isFull = false →
      d.levels = { c.levels with sendPermits := c.sendPermits + 1 } → Calm c d → Effect c .plain d
  | recvGranted {d : Config T} : c.recvPermits < c.deque.length ∨
        (c.closed = true ∧ c.sendPermits = 0 ∧ c.deque ≠ []) →
      d.levels = { c.levels with recvPermits := c.recvPermits + 1 } → Calm c d → Effect c .plain d
  | senderQueued {d : Config T} : c.closed = false → c.isFull = true → d.levels = c.levels →
      (d.nextReceiver.isSome → c.nextReceiver.isSome) → Effect c .plain d
  | receiverQueued {d : Config T} : c.isEmpty = true → (c.closed = true → c.isRecvable = true) →
      d.levels = c.levels → (d.nextSender.isSome → c.nextSender.isSome) → Effect c .plain d
  | pushed {m d : Config T} : c.closed = false → c.isFull = false → SameQueues c m →
      m.levels = { c.levels with length := c.deque.length + 1 } → WakesReceiver m d →
      Effect c .plain d
  | delivered {m d : Config T} : c.closed = false → 0 < c.sendPermits → SameQueues c m →
      m.levels = { c.levels with
        sendPermits := c.sendPermits - 1, length := c.deque.length + 1 } →
      WakesReceiver m d → Effect c (.consumes .send) d
  | stored {d : Config T} : c.closed = true → 0 < c.sendPermits →
      d.levels = { c.levels with
        sendPermits := c.sendPermits - 1, length := c.deque.length + 1 } →
      Calm c d → Effect c (.consumes .send) d
  | popped {m d : Config T} : c.recvPermits < c.deque.length → SameQueues c m →
      m.levels = { c.levels with length := c.deque.length - 1 } → WakesSender m d →
      Effect c .plain d
  | taken {d : Config T} : 0 < c.recvPermits → 0 < c.deque.length →
      (c.closed = true → 1 < c.recvableLen) → (c.closed = false → c.isFull = false) →
      d.levels = { c.levels with
        recvPermits := c.recvPermits - 1, length := c.deque.length - 1 } →
      Calm c d → Effect c (.consumes .recv) d
  | refilled {m d : Config T} : 0 < c.recvPermits → 0 < c.deque.length → c.closed = false →
      c.isFull = true → SameQueues c m →
      m.levels = { c.levels with
        recvPermits := c.recvPermits - 1, length := c.deque.length - 1 } →
      WakesSender m d → Effect c (.consumes .recv) d
  | exhausted {d : Config T} : 0 < c.recvPermits → c.closed = true → c.recvableLen = 1 →
      c.deque.length = 1 → d.levels = { c.levels with
        recvPermits := c.recvPermits - 1, length := 0 } →
      (d.nextSender.isSome → c.nextSender.isSome) → d.nextReceiver = none →
      Effect c (.consumes .recv) d
  | drained {d : Config T} : 0 < c.recvPermits → c.closed = true → c.deque = [] →
      d.levels = { c.levels with recvPermits := c.recvPermits - 1 } → Calm c d →
      Effect c (.consumes .recv) d
  | closing {d : Config T} : d.levels = { c.levels with closed := true } → d.nextSender = none →
      (d.nextReceiver.isSome → c.nextReceiver.isSome ∧ c.isRecvable = true) → Effect c .closes d

theorem WellFormed.sameQueues_takeReserved (h : WellFormed c) {i : ℕ}
    (hp : (c.calls i).pending = false) (value : T) (rest : List T) :
    SameQueues c (c.takeReserved i value rest) :=
  h.sameQueues_finish (k := .received (.ok value)) (by rw [hp]; rfl) rfl rfl rfl

theorem WellFormed.sameQueues_fillReserved (h : WellFormed c) {i : ℕ}
    (hp : (c.calls i).pending = false) (value : T) : SameQueues c (c.fillReserved i value) :=
  h.sameQueues_finish (k := .sent value (.ok ())) (by rw [hp]; rfl) rfl rfl rfl

theorem SameQueues.calm (h : SameQueues c d) : Calm c d :=
  ⟨by rw [h.sender]; exact id, by rw [h.receiver]; exact id⟩

theorem Invariant.consumesRecv (h : Invariant c) {i : ℕ} {op : Op T}
    (hs : ConsumesRecv c i op d) (hp : (c.calls i).pending = false) (hi : Detached c i)
    (hh : (c.calls i).holds .recv = true) (hn : c.poisoned = false) :
    Effect c (.consumes .recv) d := by
  have hw := h.wellFormed
  have hpos : 0 < c.recvPermits := h.accounted.positive hn (hw.lt_created hi.used) hh
  cases hs with
  | underflow h0 => omega
  | drained _ hd =>
    have hc : c.closed = true := by
      cases hc : c.closed with
      | true => rfl
      | false =>
        have := h.reserved hc
        simp only [hd, List.length_nil] at this
        omega
    refine .drained hpos hc hd rfl (SameQueues.calm ?_)
    exact hw.sameQueues_finish (k := .received (.error .closed)) (by rw [hp]; rfl) rfl rfl rfl
  | @kept value rest _ hd hr hf =>
    refine .taken hpos (by simp [hd]) (fun hc => ?_) hf ?_ (hw.sameQueues_takeReserved hp value rest).calm
    · have := hr hc
      simp only [State.isRecvable, State.recvableLen, Config.takeReserved, Config.finish,
        Config.popFront, bne_iff_ne] at this
      simp only [State.recvableLen, hd, List.length_cons]
      omega
    · simp [Config.levels, Config.takeReserved, Config.finish, Config.popFront, hd]
  | @refilled value rest _ hd hc hf =>
    refine .refilled hpos (by simp [hd]) hc hf (hw.sameQueues_takeReserved hp value rest) ?_
      (hw.takeReserved hi value rest).wakesSender
    simp [Config.levels, Config.takeReserved, Config.finish, Config.popFront, hd]
  | @exhausted value rest _ hd hc hr =>
    have hl : rest.length = 0 ∧ c.sendPermits = 0 := by
      simpa [State.isRecvable, State.recvableLen, Config.takeReserved, Config.finish,
        Config.popFront] using hr
    have hm := hw.sameQueues_takeReserved hp value rest
    have hset := (advances_closeReceivers (c := c.takeReserved i value rest)).settles
    refine .exhausted hpos hc ?_ ?_ ?_ ?_ ?_
    · simp [State.recvableLen, hd, hl]
    · simp [hd, hl]
    · rw [closeReceivers_frame]
      simp [Config.levels, Config.takeReserved, Config.finish, Config.popFront, hl]
    · refine fun hsome => hm.calm.sender ((hw.takeReserved hi value rest).sender_calm hset ?_ hsome)
      rw [closeReceivers_frame]
      exact fun _ => id
    · rw [closeReceivers_frame]; rfl

theorem Invariant.consumesSend (h : Invariant c) {i : ℕ} {op : Op T} {value : T}
    (hs : ConsumesSend c i op value d) (hp : (c.calls i).pending = false) (hi : Detached c i)
    (hh : (c.calls i).holds .send = true) (hn : c.poisoned = false) :
    Effect c (.consumes .send) d := by
  have hw := h.wellFormed
  have hpos : 0 < c.sendPermits := h.accounted.positive hn (hw.lt_created hi.used) hh
  have hcap := h.capacity
  cases hs with
  | noPermit h0 => omega
  | noSlot _ hf =>
    simp only [State.isFull, State.recvableLen, beq_iff_eq] at hf hcap
    omega
  | delivered _ hc =>
    refine .delivered hc hpos (hw.sameQueues_fillReserved hp value) ?_
      ((hw.fillReserved hi value).wakesReceiver ?_)
    · simp [Config.levels, Config.fillReserved, Config.finish, Config.pushBack]
    · simp [Config.fillReserved, Config.finish, Config.pushBack]
  | stored _ hc =>
    refine .stored hc hpos ?_ (hw.sameQueues_fillReserved hp value).calm
    simp [Config.levels, Config.fillReserved, Config.finish, Config.pushBack]

theorem SameQueues.refl (c : Config T) : SameQueues c c := ⟨rfl, rfl⟩

/-- Counting the watched branch changes neither the counters nor what is live. -/
theorem Checks.same {i index : ℕ} {available ready : Bool}
    (hk : Checks c i index available ready d) (h : WellFormed c) :
    d.levels = c.levels ∧ SameQueues c d := by
  cases hk with
  | counted =>
    exact ⟨rfl, h.sameQueues_finish (by cases c.calls i <;> rfl) rfl rfl rfl⟩
  | broken => exact ⟨rfl, .refl c⟩

theorem Invariant.watchesSend (h : Invariant c) {s : Selector} {available : Bool}
    (hs : WatchesSend c s (m, available)) (hl : d.levels = m.levels) (hq : Calm m d) :
    Effect c .plain d := by
  have hset := hs.advances.settles
  cases hs with
  | closed => exact .still hl ((h.wellFormed.calm hset rfl rfl).trans hq)
  | granted hc hf => exact .sendGranted hc hf hl ((h.wellFormed.calm hset rfl rfl).trans hq)
  | late => exact .still hl hq
  | queued hc hf =>
    exact .senderQueued hc hf hl (h.wellFormed.receiver_calm hset (fun _ => id) ∘ hq.receiver)

theorem Invariant.watchesRecv (h : Invariant c) {s : Selector} {available : Bool}
    (hs : WatchesRecv c s (m, available)) (hl : d.levels = m.levels) (hq : Calm m d) :
    Effect c .plain d := by
  have hset := hs.advances.settles
  cases hs with
  | closed => exact .still hl ((h.wellFormed.calm hset rfl rfl).trans hq)
  | granted hg => exact .recvGranted hg hl ((h.wellFormed.calm hset rfl rfl).trans hq)
  | late => exact .still hl hq
  | queued he hp =>
    refine .receiverQueued he (fun hc => ?_) hl
      (h.wellFormed.sender_calm hset (fun _ => id) ∘ hq.sender)
    have := hp hc
    simp only [State.isRecvable, State.recvableLen, bne_iff_ne]
    omega

theorem removeReceiver_frame (c : Config T) (position : ℕ) :
    (c.removeReceiver position).levels = c.levels ∧
      (c.removeReceiver position).senders = c.senders ∧
      (c.removeReceiver position).receivers.Sublist c.receivers := by
  unfold Config.removeReceiver
  split
  next w _ => cases w <;> exact ⟨rfl, rfl, c.receivers.eraseIdx_sublist position⟩
  next => exact ⟨rfl, rfl, .refl _⟩

theorem unwatchSendPermit_frame (c : Config T) (identifier : ℕ) :
    (c.unwatchSendPermit identifier).levels = c.levels ∧
      (c.unwatchSendPermit identifier).senders = c.senders ∧
      (c.unwatchSendPermit identifier).receivers.Sublist c.receivers := by
  unfold Config.unwatchSendPermit
  split
  · exact removeReceiver_frame c _
  · exact ⟨rfl, rfl, .refl _⟩

theorem unwatchRecvPermit_frame (c : Config T) (identifier : ℕ) :
    (c.unwatchRecvPermit identifier).levels = c.levels ∧
      (c.unwatchRecvPermit identifier).senders = c.senders ∧
      (c.unwatchRecvPermit identifier).receivers.Sublist c.receivers := by
  unfold Config.unwatchRecvPermit
  split
  · exact removeReceiver_frame c _
  · exact ⟨rfl, rfl, .refl _⟩

theorem takeFree_levels (h : Invariant c) {value : T} {rest : List T}
    (hd : c.deque = value :: rest) (hl : c.recvPermits < c.deque.length) :
    Effect c .plain (c.takeFree value rest) ∧
      (c.takeFree value rest).recvableLen ≤ (c.takeFree value rest).bound := by
  have hw := h.wellFormed
  have hcap := h.capacity
  let m := (c.begin (.received (.ok value))).popFront c.created value rest
  have hm : WellFormed m := (hw.begin (.received (.ok value))).of_eq rfl rfl rfl rfl rfl
  have hml : m.levels = { c.levels with length := c.deque.length - 1 } := by
    simp [m, Config.levels, Config.begin, Config.popFront, hd]
  have hwake : WakesSender m (c.takeFree value rest) := hm.wakesSender
  refine ⟨.popped hl (hw.sameQueues_begin (.received (.ok value)) (d := m) rfl rfl rfl) hml hwake, ?_⟩
  simp only [State.recvableLen, hd, List.length_cons] at hcap
  simp only [Config.levels, Levels.mk.injEq, hd, List.length_cons] at hml
  simp only [State.recvableLen]
  cases hwake with
  | idle _ _ _ he | pushed _ _ _ _ _ he | granted _ _ _ he =>
    simp only [Config.levels, Levels.mk.injEq] at he
    omega

theorem Invariant.close (h : Invariant c) : Effect c .closes c.close := by
  have hw := h.wellFormed
  have hset : Settles c c.close := advances_close.settles
  have hs : c.close.senders = [] := by
    unfold Config.close
    dsimp only
    split
    · rw [closeReceivers_frame, closeSenders_frame]
    · rw [closeSenders_frame]
  refine .closing ?_ (by simp [Config.nextSender, hs, takeFirst]) ?_
  · unfold Config.close
    dsimp only
    split
    · rw [closeReceivers_frame, closeSenders_frame]; rfl
    · rw [closeSenders_frame]; rfl
  · intro hn
    unfold Config.close at hn hset
    dsimp only at hn hset
    split at hn
    · rw [closeReceivers_frame] at hn
      simp [Config.nextReceiver, takeFirst] at hn
    next hr =>
      rw [if_neg hr] at hset
      refine ⟨hw.receiver_calm hset ?_ hn, ?_⟩
      · rw [closeSenders_frame]; exact fun _ => id
      · rw [closeSenders_frame] at hr
        simpa [State.isRecvable, State.recvableLen] using hr

theorem Invariant.effect (h : Invariant c) {e : Event T} (hm : Move c e d) :
    Effect c (c.role e) d := by
  have hw := h.wellFormed
  have hset := hw.settles hm
  cases hm with
  | sendRefused | sendPanicked | recvRefused | recvPanicked | selectStarted =>
    exact .still rfl (hw.calm hset rfl rfl)
  | sendNow hc hf =>
    refine .pushed (m := (c.begin (.sent _ (.ok ()))).pushBack c.created _) hc hf
      (hw.sameQueues_begin _ rfl rfl rfl) ?_ (WellFormed.wakesReceiver ?_ ?_)
    · simp [Config.levels, Config.begin, Config.pushBack]
    · exact (hw.begin (.sent _ (.ok ()))).of_eq rfl rfl rfl rfl rfl
    · simp [Config.begin, Config.pushBack]
  | sendTask hc hf | sendThread hc hf =>
    exact .senderQueued hc hf rfl (hw.receiver_calm hset fun _ => id)
  | recvNow hd hl => exact (takeFree_levels h hd hl).1
  | recvOverflowed hd hl hb => exact absurd (takeFree_levels h hd hl).2 (by omega)
  | recvTask he hr | recvThread he hr =>
    exact .receiverQueued he hr rfl (hw.sender_calm hset fun _ => id)
  | sendReturned hc | recvReturned hc =>
    simp only [Config.role, hc]
    exact .still rfl (hw.calm hset rfl rfl)
  | @recvClosed i caller watched o hc ho =>
    have hn : c.role (.resume i) = .plain := by
      simp only [Config.role, hc]
      rcases ho with rfl | rfl <;> rfl
    rw [hn]
    exact .still rfl (hw.calm hset rfl rfl)
  | @waitPanicked i op watched o hc hp =>
    have hn : c.role (.resume i) = .plain := by
      simp only [Config.role, hc, hp]
      split <;> rfl
    rw [hn]
    exact .still rfl (hw.calm hset rfl rfl)
  | recvResumed hc hp hs =>
    simp only [Config.role, hc, hp, Bool.false_eq_true, if_false]
    exact h.consumesRecv hs (by rw [hc]; rfl) (hw.detached_of_woken hc) (by rw [hc]; rfl) hp
  | selectReturned hc | returnedElsewhere hc =>
    simp only [Config.role, hc]
    exact .still rfl (hw.calm hset rfl rfl)
  | cancelled | firedElsewhere => exact .still rfl (hw.calm hset rfl rfl)
  | sendSelected hi he =>
    rcases selectSendPermit_cases c.toState with ⟨_, h'⟩ | ⟨hc, hf, h'⟩ | ⟨_, _, h'⟩ <;>
      rw [h'] at he <;> cases he
    · exact .still rfl (hw.calm hset rfl rfl)
    · exact .sendGranted hc hf rfl (hw.calm hset rfl rfl)
  | recvSelected hi he =>
    rcases selectRecvPermit_cases c.toState with ⟨hl, h'⟩ | ⟨_, _, _, h'⟩ | ⟨_, _, h'⟩ <;>
      rw [h'] at he <;> cases he
    · exact .recvGranted hl rfl (hw.calm hset rfl rfl)
    · exact .still rfl (hw.calm hset rfl rfl)
  | sendWatched hc hn hi hs hk =>
    have hm := hs.wellFormed hw (hw.detached_of_select hc) (by simp [hc, Call.selects, hi])
    exact h.watchesSend hs (hk.same hm).1 (hk.same hm).2.calm
  | recvWatched hc hn hi hs hk =>
    have hm := hs.wellFormed hw (hw.detached_of_select hc) (by simp [hc, Call.selects, hi])
    exact h.watchesRecv hs (hk.same hm).1 (hk.same hm).2.calm
  | sendUnwatched =>
    obtain ⟨hl, hs, hr⟩ := unwatchSendPermit_frame c _
    exact .still hl ⟨hw.sender_calm hset (fun _ hm => hs ▸ hm),
      hw.receiver_calm hset fun _ hm => hr.subset hm⟩
  | recvUnwatched =>
    obtain ⟨hl, hs, hr⟩ := unwatchRecvPermit_frame c _
    exact .still hl ⟨hw.sender_calm hset (fun _ hm => hs ▸ hm),
      hw.receiver_calm hset fun _ hm => hr.subset hm⟩
  | sendDetached hc | recvDetached hc =>
    simp only [Config.role, hc]
    exact .still rfl (hw.calm hset rfl rfl)
  | sendConsumed hc hi hp hs =>
    simp only [Config.role, hc]
    exact h.consumesSend hs (by rw [hc]; rfl) (hw.detached_of_permitted hc)
      (by simp [hc, Call.holds, hi]) hp
  | recvConsumed hc hi hp hs =>
    simp only [Config.role, hc]
    exact h.consumesRecv hs (by rw [hc]; rfl) (hw.detached_of_permitted hc)
      (by simp [hc, Call.holds, hi]) hp
  | closed => exact h.close

theorem isFull_iff (s : State T) : s.isFull = true ↔ s.deque.length + s.sendPermits = s.bound := by
  simp [State.isFull, State.recvableLen]

theorem isRecvable_iff (s : State T) : s.isRecvable = true ↔ 0 < s.deque.length + s.sendPermits := by
  simp only [State.isRecvable, State.recvableLen, bne_iff_ne]
  omega

/-- The bounds on the counters, on the view that the effects speak about. -/
structure Levels.Bounded (l : Levels) : Prop where
  capacity : l.length + l.sendPermits ≤ l.bound
  reserved : l.closed = false → l.recvPermits ≤ l.length

theorem Invariant.bounded (h : Invariant c) : c.levels.Bounded := ⟨h.capacity, h.reserved⟩

theorem WakesSender.bounded (hw : WakesSender c d) (h : c.levels.Bounded)
    (hroom : c.deque.length + c.sendPermits < c.bound) : d.levels.Bounded := by
  obtain ⟨hc, hr⟩ := h
  simp only [Config.levels] at hc hr
  cases hw with
  | idle _ _ _ hl => rw [hl]; exact ⟨hc, hr⟩
  | pushed _ _ _ _ _ hl | granted _ _ _ hl =>
    rw [hl]
    refine ⟨?_, fun ho => ?_⟩
    · simp only [Config.levels]; omega
    · have := hr ho
      simp only [Config.levels]
      omega

theorem WakesReceiver.bounded (hw : WakesReceiver c d) (hc : c.deque.length + c.sendPermits ≤ c.bound)
    (hr : c.closed = false → c.recvPermits < c.deque.length) : d.levels.Bounded := by
  cases hw with
  | idle _ _ _ hl | granted _ _ _ _ hl | handed _ _ _ _ hl =>
    rw [hl]
    refine ⟨?_, fun ho => ?_⟩
    · simp only [Config.levels]; omega
    · have := hr ho
      simp only [Config.levels]
      omega

theorem Effect.bounded {role : Role} (he : Effect c role d) (h : Invariant c) :
    d.levels.Bounded := by
  obtain ⟨hc, hr⟩ := h.bounded
  simp only [Config.levels] at hc hr
  cases he with
  | still hl | senderQueued _ _ hl | receiverQueued _ _ hl => rw [hl]; exact ⟨hc, hr⟩
  | sendGranted ho hf hl =>
    have hf : ¬ c.isFull = true := by simp [hf]
    rw [isFull_iff] at hf
    rw [hl]
    refine ⟨?_, hr⟩
    simp only [Config.levels]
    omega
  | recvGranted hg hl =>
    rw [hl]
    refine ⟨hc, fun ho => ?_⟩
    rcases hg with hg | ⟨hcl, _⟩
    · exact hg
    · simp only [Config.levels] at ho
      simp [hcl] at ho
  | @pushed m d ho hf hq hl hw =>
    have hf : ¬ c.isFull = true := by simp [hf]
    rw [isFull_iff] at hf
    simp only [Config.levels, Levels.mk.injEq] at hl
    have := hr ho
    exact hw.bounded (by omega) (fun _ => by omega)
  | @delivered m d ho hp hq hl hw =>
    simp only [Config.levels, Levels.mk.injEq] at hl
    have := hr ho
    exact hw.bounded (by omega) (fun _ => by omega)
  | stored ho hp hl =>
    rw [hl]
    refine ⟨?_, fun ho' => ?_⟩
    · simp only [Config.levels]; omega
    · simp only [Config.levels] at ho'; simp [ho] at ho'
  | @popped m d hlt hq hl hw =>
    have hl' := hl
    simp only [Config.levels, Levels.mk.injEq] at hl'
    refine hw.bounded ?_ (by omega)
    rw [hl]
    refine ⟨?_, fun ho => ?_⟩
    · simp only [Config.levels]; omega
    · have := hr ho
      simp only [Config.levels]
      omega
  | @refilled m d hp hlen ho hf hq hl hw =>
    have hl' := hl
    simp only [Config.levels, Levels.mk.injEq] at hl'
    refine hw.bounded ?_ (by omega)
    rw [hl]
    refine ⟨?_, fun ho => ?_⟩
    · simp only [Config.levels]; omega
    · have := hr ho
      simp only
      omega
  | taken _ _ _ _ hl =>
    rw [hl]
    refine ⟨?_, fun ho => ?_⟩
    · simp only [Config.levels]; omega
    · have := hr ho
      simp only
      omega
  | exhausted _ ho _ hlen hl =>
    rw [hl]
    refine ⟨?_, fun ho' => ?_⟩
    · simp only [Config.levels]; omega
    · simp only [Config.levels] at ho'; simp [ho] at ho'
  | drained _ ho _ hl =>
    rw [hl]
    refine ⟨hc, fun ho' => ?_⟩
    simp only [Config.levels] at ho'
    simp [ho] at ho'
  | closing hl =>
    rw [hl]
    exact ⟨hc, fun ho => by cases ho⟩

theorem step_preserves_invariant {e : Event T} (h : Invariant c) (hs : c.step e = some d) :
    Invariant d := by
  have hm := move_of_step hs
  have hb := (h.effect hm).bounded h
  exact ⟨h.wellFormed.step hm, h.distinctFrames.step h.wellFormed hm,
    h.accounted.step h.wellFormed hm, hb.capacity, hb.reserved⟩

theorem reachable_invariant {capacity : Capacity} (h : Reachable (system T capacity) c) :
    Invariant c :=
  Reachable.invariant (I := Invariant) (initial_invariant capacity)
    (fun _ _ _ hi hs => step_preserves_invariant hi hs) h

end ParallelChannel
