import Stuck.ParallelChannelWakeups

/-! What unwatching leaves alone. Both operations look a selector up by its identifier; the one
for send permits removes the position it finds from the other queue. -/
namespace ParallelChannel

open TransitionSystem OneShot SharedTypes WaitQueue

variable {T : Type*} {c d : Config T}

/-- The deque, the counters and the waits of all calls stay as they are. -/
structure Undisturbed (c d : Config T) : Prop where
  deque : d.deque = c.deque
  send_permits : d.sendPermits = c.sendPermits
  recv_permits : d.recvPermits = c.recvPermits
  closed : d.closed = c.closed
  calls : d.calls = c.calls

/-- At most the first selector with this identifier leaves `senders`. -/
structure SendFramed (c d : Config T) (identifier : ℕ) : Prop extends Undisturbed c d where
  own : d.senders = c.senders ∨ d.senders = c.senders.eraseP (·.matches identifier)
  other : d.receivers = c.receivers

structure RecvFramed (c d : Config T) (identifier : ℕ) : Prop extends Undisturbed c d where
  own : d.receivers = c.receivers.eraseP (·.matches identifier)
  other : d.senders = c.senders

theorem removeReceiver_none {position : ℕ} (h : c.receivers.length ≤ position) :
    c.removeReceiver position = c := by
  simp [Config.removeReceiver, List.getElem?_eq_none h]

theorem removeReceiver_length {position : ℕ} (h : position < c.receivers.length) :
    (c.removeReceiver position).receivers.length + 1 = c.receivers.length := by
  have hl := List.length_eraseIdx_add_one h
  unfold Config.removeReceiver
  rw [List.getElem?_eq_getElem h]
  dsimp only
  cases c.receivers[position] <;> exact hl

/-- A removed selector ends no wait. -/
theorem removeReceiver_selector {position : ℕ} {s : Selector}
    (h : c.receivers[position]? = some (.selector s)) :
    c.removeReceiver position = { c with receivers := c.receivers.eraseIdx position } := by
  rw [Config.removeReceiver, h]
  rfl

theorem unwatchRecvPermit_eq (c : Config T) (identifier : ℕ) : c.unwatchRecvPermit identifier =
    { c with receivers := c.receivers.eraseP (·.matches identifier) } := by
  have he := @List.eraseP_eq_eraseIdx _ c.receivers (·.matches identifier)
  unfold Config.unwatchRecvPermit
  cases hf : c.receivers.findIdx? (·.matches identifier) with
  | none =>
    rw [hf] at he
    rw [he]
  | some position =>
    rw [hf] at he
    obtain ⟨hlt, hm, _⟩ := List.findIdx?_eq_some_iff_getElem.mp hf
    -- only selectors match an identifier
    cases hw : c.receivers[position] with
    | task | thread => rw [hw] at hm; cases hm
    | selector s =>
      have hsome : c.receivers[position]? = some (.selector s) := by
        rw [List.getElem?_eq_getElem hlt, hw]
      dsimp only
      rw [removeReceiver_selector hsome, he]

theorem recv_framed (c : Config T) (identifier : ℕ) :
    RecvFramed c (c.unwatchRecvPermit identifier) identifier := by
  rw [unwatchRecvPermit_eq]
  exact ⟨⟨rfl, rfl, rfl, rfl, rfl⟩, rfl, rfl⟩

/-- A send permit is unwatched without any effect where no receiver stands at the position. -/
theorem unwatchSendPermit_eq {identifier : ℕ}
    (h : ∀ position, c.senders.findIdx? (·.matches identifier) = some position →
      c.receivers.length ≤ position) : c.unwatchSendPermit identifier = c := by
  unfold Config.unwatchSendPermit
  cases hf : c.senders.findIdx? (·.matches identifier) with
  | none => rfl
  | some position => exact removeReceiver_none (h position hf)

theorem send_framed_iff (c : Config T) (identifier : ℕ) :
    SendFramed c (c.unwatchSendPermit identifier) identifier ↔
      ∀ position, c.senders.findIdx? (·.matches identifier) = some position →
        c.receivers.length ≤ position := by
  constructor
  · intro h position hf
    by_contra hlt
    have hl := removeReceiver_length (c := c) (Nat.lt_of_not_le hlt)
    have ho := h.other
    simp only [Config.unwatchSendPermit, hf] at ho
    rw [ho] at hl
    omega
  · intro h
    rw [unwatchSendPermit_eq h]
    exact ⟨⟨rfl, rfl, rfl, rfl, rfl⟩, Or.inl rfl, rfl⟩

/-- Unwatching a receive permit is framed; unwatching a send permit is framed unless a receiver
stands where the first sender with its identifier stands in the other queue. Framed or not, an
unwatch that does not hit a waiting receiver leaves all waiting receivers and senders queued. -/
theorem unwatch_framed (c : Config T) :
    (∀ identifier, RecvFramed c (c.unwatchRecvPermit identifier) identifier ∧
      (SendFramed c (c.unwatchSendPermit identifier) identifier ↔
        ∀ position, c.senders.findIdx? (·.matches identifier) = some position →
          c.receivers.length ≤ position)) ∧
    (∀ capacity i index d, Reachable (system T capacity) c → c.step (.unwatch i index) = some d →
      ¬ DislodgesReceiver c (.unwatch i index) → Keeps c d ∧ d.senders = c.senders) := by
  refine ⟨fun identifier => ⟨recv_framed c identifier, send_framed_iff c identifier⟩, ?_⟩
  intro capacity i index d hr hs hn
  have hm := move_of_step hs
  refine ⟨keeps_step (reachable_invariant hr) hm hn, ?_⟩
  cases hm with
  | sendUnwatched => exact (unwatchSendPermit_frame c _).2.1
  | recvUnwatched => exact (unwatchRecvPermit_frame c _).2.1

/-- A thread waits for a value and a `select!` for the only slot, which is promised to another
one: both queues are non-empty. -/
def crossedTrace : List (Event ℕ) :=
  [.trySelect (.task .running) [some .send] 0 0, .recv .thread false,
    .select (.task .running) [some .send, none] 7, .watch 2 0 false, .elsewhere 2]

theorem unwatch_removes_receiver : ¬ ∀ c : Config ℕ, Reachable (system ℕ ⟨1, by decide⟩) c →
    ∀ identifier, SendFramed c (c.unwatchSendPermit identifier) identifier := by
  intro h
  have hc := (h _ (run_reachable crossedTrace rfl) 7).other
  exact absurd (congrArg List.length hc) (by decide)

end ParallelChannel
