import Stuck.FifoQueues
import Stuck.SerialChannelQueues
import Mathlib.Algebra.BigOperators.Group.Finset.Basic
import Mathlib.Algebra.Order.Group.Multiset

/-! The order of the values of a serial channel, over every schedule of the coroutines: permits may
be lost, taken by another coroutine or forfeited, and calls may be interrupted. -/
namespace SerialChannel

open TransitionSystem OneShot SharedTypes

variable {T : Type*} {c d m : Config T} {i : ℕ}

/-- What wakers leave of a call: they change calls that wait, and only what these wait for. -/
def Call.settled : Call T → Option (Call T)
  | .sending .. | .receiving _ | .selecting .. | .permitted _ => none
  | call => some call

/-- The value that a call has put into the channel. -/
def Call.accepted : Call T → List T
  | .sent value (.ok ()) => [value]
  | _ => []

/-- The value that a call has got from the channel. -/
def Call.delivered : Call T → List T
  | .received (.ok value) => [value]
  | _ => []

theorem accepted_of_settled {call other : Call T} (h : call.settled = other.settled) :
    call.accepted = other.accepted := by
  cases call <;> cases other <;> simp_all [Call.settled, Call.accepted]

theorem delivered_of_settled {call other : Call T} (h : call.settled = other.settled) :
    call.delivered = other.delivered := by
  cases call <;> cases other <;> simp_all [Call.settled, Call.delivered]

theorem ended_of_settled {call : Call T} {result : Except TryRecvError T}
    (h : call.settled = (Call.received result : Call T).settled) : call = .received result := by
  cases call <;> simp_all [Call.settled]

/-- Waking, watching and unwatching: the values stay, and so does every call that does not wait. -/
structure Stirs (c d : Config T) : Prop where
  deque : d.deque = c.deque
  bound : d.bound = c.bound
  created : d.created = c.created
  closed : c.closed = true → d.closed = true
  calls : ∀ j, (d.calls j).settled = (c.calls j).settled

theorem Stirs.refl (c : Config T) : Stirs c c := ⟨rfl, rfl, rfl, id, fun _ => rfl⟩

theorem Stirs.trans (h : Stirs c m) (k : Stirs m d) : Stirs c d := by
  refine ⟨k.deque.trans h.deque, k.bound.trans h.bound, k.created.trans h.created, ?_, ?_⟩
  · intro hc
    exact k.closed (h.closed hc)
  · intro j
    exact (k.calls j).trans (h.calls j)

theorem Requeue.stirs (h : Requeue c d) : Stirs c d := by
  refine ⟨h.deque, h.bound, h.created, ?_, ?_⟩
  · rw [h.closed]
    exact id
  · intro j
    rw [h.calls]

theorem stirs_finish {call : Call T} (h : call.settled = (c.calls i).settled) :
    Stirs c (c.finish i call) := by
  refine ⟨rfl, rfl, rfl, id, fun j => ?_⟩
  by_cases hj : j = i
  · rw [hj]
    simpa [Config.finish] using h
  · simp [Config.finish, hj]

theorem wake_stirs (c : Config T) (w : Waker) : Stirs c (c.wake w).1 := by
  cases w with
  | selector s =>
    unfold Config.wake
    dsimp only
    split
    next h =>
      obtain ⟨slice, identifier, counted, hc⟩ := Call.applies_iff.mp h
      apply stirs_finish
      rw [hc]
      rfl
    next => exact .refl c
  | resumption j =>
    apply stirs_finish
    cases c.calls j <;> rfl

theorem wakeQueue_stirs (c : Config T) (side : Side) (queue : List Waker) :
    Stirs c (c.wakeQueue side queue) := by
  have hset : ∀ rest, Stirs c (c.setQueue side rest) := by
    intro rest
    exact (requeue_setQueue c side rest).stirs
  rcases wakeQueue_cases c side queue with ⟨_, heq⟩ | ⟨_, w, rest, _, _, heq⟩
  · rw [heq]
    exact hset []
  · rw [heq]
    exact (hset rest).trans (wake_stirs _ w)

theorem wakeAll_stirs (wakers : List Waker) (c : Config T) : Stirs c (c.wakeAll wakers) := by
  induction wakers generalizing c with
  | nil => exact .refl c
  | cons w rest ih => exact (wake_stirs c w).trans (ih _)

theorem close_stirs (c : Config T) : Stirs c c.close := by
  have hclosed : Stirs c { c with closed := true, senders := [] } :=
    ⟨rfl, rfl, rfl, fun _ => rfl, fun _ => rfl⟩
  have hsenders := hclosed.trans (wakeAll_stirs c.senders _)
  unfold Config.close
  apply hsenders.trans
  apply Stirs.trans _ (wakeAll_stirs c.receivers _)
  exact ⟨rfl, rfl, rfl, id, fun _ => rfl⟩

/-- Call `i` has its turn. -/
structure Turn (c : Config T) (i : ℕ) (d : Config T) : Prop where
  values : c.deque ++ (d.calls i).accepted = (d.calls i).delivered ++ d.deque
  room : c.deque.length ≤ c.bound → d.deque.length ≤ d.bound
  bound : d.bound = c.bound
  created : c.created ≤ d.created
  closed : c.closed = true → d.closed = true
  sealed : c.closed = true → (d.calls i).accepted = []
  last : d.calls i = .received (.error .closed) → c.closed = true ∧ d.deque = []
  others : ∀ j, j ≠ i → (d.calls j).settled = (c.calls j).settled

/-- Call `i` has waited for its turn, or has begun with it. -/
def Config.Awaits (c : Config T) (i : ℕ) (d : Config T) : Prop :=
  (c.calls i).settled = none ∨ i = c.created ∧ c.created < d.created

theorem Turn.start (h : Turn m i d) (hdeque : m.deque = c.deque) (hbound : m.bound = c.bound)
    (hcreated : c.created ≤ m.created) (hclosed : m.closed = c.closed)
    (hcalls : ∀ j, j ≠ i → (m.calls j).settled = (c.calls j).settled) : Turn c i d := by
  constructor
  · rw [← hdeque]
    exact h.values
  · rw [← hdeque, ← hbound]
    exact h.room
  · exact h.bound.trans hbound
  · exact hcreated.trans h.created
  · rw [← hclosed]
    exact h.closed
  · rw [← hclosed]
    exact h.sealed
  · rw [← hclosed]
    exact h.last
  · intro j hj
    exact (h.others j hj).trans (hcalls j hj)

theorem Turn.requeue (h : Turn m i d) (k : Requeue c m) : Turn c i d := by
  apply h.start k.deque k.bound k.created.ge k.closed
  intro j _
  rw [k.calls]

theorem Turn.begin {call : Call T} (h : Turn (c.begin call) c.created d) :
    Turn c c.created d ∧ c.Awaits c.created d := by
  constructor
  · apply h.start (c := c) rfl rfl (Nat.le_succ _) rfl
    intro j hj
    simp [Config.begin, hj]
  · right
    exact ⟨rfl, h.created⟩

theorem Turn.stirs (h : Turn c i m) (k : Stirs m d) : Turn c i d := by
  have haccepted := accepted_of_settled (k.calls i)
  have hdelivered := delivered_of_settled (k.calls i)
  constructor
  · rw [haccepted, hdelivered, k.deque]
    exact h.values
  · rw [k.deque, k.bound]
    exact h.room
  · exact k.bound.trans h.bound
  · rw [k.created]
    exact h.created
  · intro hc
    exact k.closed (h.closed hc)
  · rw [haccepted]
    exact h.sealed
  · intro he
    rw [k.deque]
    apply h.last
    apply ended_of_settled
    rw [← k.calls i, he]
  · intro j hj
    exact (k.calls j).trans (h.others j hj)

/-- A call that moves no value. -/
theorem turn_of_update {call : Call T} (hcalls : d.calls = Function.update c.calls i call)
    (hdeque : d.deque = c.deque) (hbound : d.bound = c.bound)
    (hcreated : c.created ≤ d.created) (hclosed : d.closed = c.closed)
    (hquiet : call.accepted = [] ∧ call.delivered = [])
    (hlast : call = .received (.error .closed) → c.closed = true ∧ c.deque = []) : Turn c i d := by
  have hcall : d.calls i = call := by
    rw [hcalls, Function.update_self]
  constructor
  · rw [hcall, hquiet.1, hquiet.2, List.append_nil, hdeque]
    rfl
  · rw [hdeque, hbound]
    exact id
  · exact hbound
  · exact hcreated
  · rw [hclosed]
    exact id
  · intro _
    rw [hcall]
    exact hquiet.1
  · rw [hcall, hdeque]
    exact hlast
  · intro j hj
    rw [hcalls, Function.update_of_ne hj]

theorem finish_turn (c : Config T) (i : ℕ) {call : Call T}
    (hquiet : call.accepted = [] ∧ call.delivered = [])
    (hlast : call = .received (.error .closed) → c.closed = true ∧ c.deque = []) :
    Turn c i (c.finish i call) :=
  turn_of_update rfl rfl rfl le_rfl rfl hquiet hlast

theorem begin_turn (c : Config T) {call : Call T}
    (hquiet : call.accepted = [] ∧ call.delivered = [])
    (hlast : call = .received (.error .closed) → c.closed = true ∧ c.deque = []) :
    Turn c c.created (c.begin call) ∧ c.Awaits c.created (c.begin call) :=
  ⟨turn_of_update rfl rfl rfl (Nat.le_succ _) rfl hquiet hlast, Or.inr ⟨rfl, Nat.lt_succ_self _⟩⟩

theorem send_turn (c : Config T) (i : ℕ) (trying : Bool) (value : T) :
    Turn c i (c.send i trying value) := by
  unfold Config.send
  split
  next => exact finish_turn c i ⟨rfl, rfl⟩ (by rintro ⟨⟩)
  next hopen =>
    split
    next hroom =>
      rw [wakeReceiver_eq]
      apply Turn.stirs _ (wakeQueue_stirs _ _ _)
      have hcall : ({ c with deque := c.deque ++ [value] }.finish i
          (.sent value (.ok ()))).calls i = .sent value (.ok ()) := Function.update_self ..
      constructor
      · rw [hcall]
        rfl
      · intro hle
        have hfull : c.isFull = false := by simpa using hroom
        have hne : c.bound ≠ c.deque.length := by simpa [State.isFull] using hfull
        simp only [Config.finish, List.length_append, List.length_singleton]
        omega
      · rfl
      · exact le_rfl
      · exact id
      · intro hc
        exact absurd hc hopen
      · rw [hcall]
        rintro ⟨⟩
      · intro j hj
        simp [Config.finish, hj]
    next =>
      split
      next => exact finish_turn c i ⟨rfl, rfl⟩ (by rintro ⟨⟩)
      next =>
        have hqueued := requeue_setQueue c .send (c.senders ++ [.resumption i])
        exact (finish_turn _ i ⟨rfl, rfl⟩ (by rintro ⟨⟩)).requeue hqueued

theorem recv_turn (c : Config T) (i : ℕ) (trying : Bool) : Turn c i (c.recv i trying) := by
  unfold Config.recv
  split
  next value rest hdeque =>
    rw [wakeSender_eq]
    apply Turn.stirs _ (wakeQueue_stirs _ _ _)
    have hcall : ({ c with deque := rest }.finish i (.received (.ok value))).calls i =
        .received (.ok value) := Function.update_self ..
    constructor
    · rw [hcall, hdeque]
      exact List.append_nil _
    · intro hle
      rw [hdeque, List.length_cons] at hle
      exact Nat.le_of_succ_le hle
    · rfl
    · exact le_rfl
    · exact id
    · rw [hcall]
      intro _
      rfl
    · rw [hcall]
      rintro ⟨⟩
    · intro j hj
      simp [Config.finish, hj]
  next hdeque =>
    split
    next hclosed => exact finish_turn c i ⟨rfl, rfl⟩ fun _ => ⟨hclosed, hdeque⟩
    next =>
      split
      next => exact finish_turn c i ⟨rfl, rfl⟩ (by rintro ⟨⟩)
      next =>
        have hqueued := requeue_setQueue c .recv (c.receivers ++ [.resumption i])
        exact (finish_turn _ i ⟨rfl, rfl⟩ (by rintro ⟨⟩)).requeue hqueued

/-- A permit that was stolen ends in a panic, and takes no value. -/
theorem Turn.panic (h : Turn c i m) (ha : (m.calls i).accepted = [])
    (hd : (m.calls i).delivered = []) (reason : String) :
    Turn c i (m.finish i (.panicked reason)) := by
  have hcall : (m.finish i (.panicked reason)).calls i = .panicked reason :=
    Function.update_self ..
  have hvalues := h.values
  rw [ha, hd] at hvalues
  constructor
  · rw [hcall]
    exact hvalues
  · exact h.room
  · exact h.bound
  · exact h.created
  · exact h.closed
  · rw [hcall]
    intro _
    rfl
  · rw [hcall]
    rintro ⟨⟩
  · intro j hj
    simpa [Config.finish, hj] using h.others j hj

theorem consumeSendPermit_turn (c : Config T) (i : ℕ) (value : T) :
    Turn c i (c.consumeSendPermit i value) := by
  have h := send_turn c i true value
  unfold Config.consumeSendPermit
  dsimp only
  split
  next hcall => exact h.panic (by rw [hcall]; rfl) (by rw [hcall]; rfl) _
  next => exact h

theorem consumeRecvPermit_turn (c : Config T) (i : ℕ) : Turn c i (c.consumeRecvPermit i) := by
  have h := recv_turn c i true
  unfold Config.consumeRecvPermit
  dsimp only
  split
  next hcall => exact h.panic (by rw [hcall]; rfl) (by rw [hcall]; rfl) _
  next => exact h

theorem selected_turn (c : Config T) (i : ℕ) (side : Side) : Turn c i (c.selected i side) := by
  cases side with
  | send => exact finish_turn c i ⟨rfl, rfl⟩ (by rintro ⟨⟩)
  | recv => exact consumeRecvPermit_turn c i

/-- The call that an event is about. -/
def Config.subject (c : Config T) : Event T → Option ℕ
  | .send .. | .recv _ | .trySelect .. | .select .. => some c.created
  | .resume i | .interrupt i | .elsewhere i | .consumeSend i _ | .forfeit i => some i
  | .close => none

theorem resume_turn (h : c.resume i = some d) : Turn c i d ∧ (c.calls i).settled = none := by
  unfold Config.resume at h
  split at h
  next value hcall =>
    cases h
    exact ⟨send_turn c i false value, by rw [hcall]; rfl⟩
  next hcall =>
    cases h
    exact ⟨recv_turn c i false, by rw [hcall]; rfl⟩
  next hcall =>
    cases h
    exact ⟨finish_turn c i ⟨rfl, rfl⟩ (by rintro ⟨⟩), by rw [hcall]; rfl⟩
  next hcall =>
    cases h
    exact ⟨finish_turn c i ⟨rfl, rfl⟩ (by rintro ⟨⟩), by rw [hcall]; rfl⟩
  next slice identifier counted cell hcall =>
    obtain ⟨hunwatched, _⟩ := unwatch_all_queues slice identifier counted c
    refine ⟨?_, by rw [hcall]; rfl⟩
    dsimp only at h
    split at h
    next => cases h
    next =>
      cases h
      exact (finish_turn _ i ⟨rfl, rfl⟩ (by rintro ⟨⟩)).requeue hunwatched
    next index =>
      obtain ⟨side, _, rfl⟩ := Option.map_eq_some_iff.mp h
      exact (selected_turn _ i side).requeue hunwatched
    next =>
      cases h
      exact (finish_turn _ i ⟨rfl, rfl⟩ (by rintro ⟨⟩)).requeue hunwatched
  next => cases h

theorem interrupt_turn {call : Call T} (h : (c.calls i).interrupt = some call) :
    Turn c i (c.finish i call) ∧ (c.calls i).settled = none := by
  unfold Call.interrupt at h
  split at h
  next hcall =>
    cases h
    exact ⟨finish_turn c i ⟨rfl, rfl⟩ (by rintro ⟨⟩), by rw [hcall]; rfl⟩
  next hcall =>
    cases h
    exact ⟨finish_turn c i ⟨rfl, rfl⟩ (by rintro ⟨⟩), by rw [hcall]; rfl⟩
  next hcall =>
    cases h
    exact ⟨finish_turn c i ⟨rfl, rfl⟩ (by rintro ⟨⟩), by rw [hcall]; rfl⟩
  next => cases h

theorem select_turn {slice : Slice} {identifier start : ℕ} {broken : Option ℕ} {skipped : Bool}
    (h : c.select slice identifier start broken skipped = some d) :
    Turn c c.created d ∧ c.Awaits c.created d := by
  obtain ⟨_, watched, counted, cell, _, rfl⟩ := select_begins h
  obtain ⟨hwatched, _⟩ := watch_all_queues slice c.created identifier watched c
  generalize watched.foldl (fun d index => d.watch slice c.created identifier index) c = m
    at hwatched ⊢
  obtain ⟨hturn, _⟩ : Turn m m.created (m.begin (.selecting slice identifier counted cell)) ∧ _ :=
    begin_turn m ⟨rfl, rfl⟩ (by rintro ⟨⟩)
  rw [hwatched.created] at hturn
  refine ⟨hturn.requeue hwatched, Or.inr ⟨rfl, ?_⟩⟩
  rw [← hwatched.created]
  exact Nat.lt_succ_self _

theorem trySelect_turn {slice : Slice} {index : ℕ} (h : c.step (.trySelect slice index) = some d) :
    Turn c c.created d ∧ c.Awaits c.created d := by
  unfold Config.step at h
  dsimp only at h
  split at h
  next =>
    split at h
    next =>
      cases h
      exact begin_turn c ⟨rfl, rfl⟩ (by rintro ⟨⟩)
    next => cases h
  next =>
    split at h
    next =>
      cases h
      exact (consumeRecvPermit_turn _ _).begin
    next => cases h
  next => cases h

theorem step_turn {e : Event T} (h : c.step e = some d) (hi : c.subject e = some i) :
    Turn c i d ∧ c.Awaits i d := by
  cases e with
  | send trying value =>
    cases h
    cases hi
    exact (send_turn _ _ trying value).begin
  | recv trying =>
    cases h
    cases hi
    exact (recv_turn _ _ trying).begin
  | resume j =>
    cases hi
    obtain ⟨hturn, hwaits⟩ := resume_turn h
    exact ⟨hturn, Or.inl hwaits⟩
  | interrupt j =>
    cases hi
    obtain ⟨call, hcall, rfl⟩ := Option.map_eq_some_iff.mp h
    obtain ⟨hturn, hwaits⟩ := interrupt_turn hcall
    exact ⟨hturn, Or.inl hwaits⟩
  | trySelect slice index =>
    cases hi
    exact trySelect_turn h
  | select slice identifier start broken skipped =>
    cases hi
    exact select_turn h
  | elsewhere j =>
    cases hi
    unfold Config.step at h
    dsimp only at h
    split at h
    next hcall =>
      cases h
      exact ⟨finish_turn c i ⟨rfl, rfl⟩ (by rintro ⟨⟩), Or.inl (by rw [hcall]; rfl)⟩
    next => cases h
  | consumeSend j value =>
    cases hi
    unfold Config.step at h
    dsimp only at h
    split at h
    next hcall =>
      cases h
      exact ⟨consumeSendPermit_turn c i value, Or.inl (by rw [hcall]; rfl)⟩
    next => cases h
  | forfeit j =>
    cases hi
    unfold Config.step at h
    dsimp only at h
    split at h
    next hcall =>
      cases h
      exact ⟨finish_turn c i ⟨rfl, rfl⟩ (by rintro ⟨⟩), Or.inl (by rw [hcall]; rfl)⟩
    next => cases h
  | close => cases hi

/-- What the call that an event is about has then put into the channel or got from it. -/
def Config.outcome (out : Call T → List T) (c : Config T) (e : Event T) : List T :=
  ((c.step e).bind fun d => (c.subject e).map fun i => out (d.calls i)).getD []

theorem outcome_of_step {out : Call T → List T} {e : Event T} (h : c.step e = some d)
    (hi : c.subject e = some i) : c.outcome out e = out (d.calls i) := by
  rw [Config.outcome, h, hi]
  rfl

theorem outcome_close (out : Call T → List T) {e : Event T} (h : c.subject e = none) :
    c.outcome out e = [] := by
  rw [Config.outcome, h]
  cases c.step e <;> rfl

theorem close_of_subject {e : Event T} (h : c.subject e = none) : e = .close := by
  cases e <;> first | rfl | cases h

theorem conserves (T : Type*) (capacity : Capacity) :
    Conserves (system T capacity) (fun c => c.deque) (Config.outcome Call.accepted)
      (Config.outcome Call.delivered) := by
  refine ⟨fun c e d h => ?_⟩
  have h : c.step e = some d := h
  cases hi : c.subject e with
  | none =>
    have hclose := close_of_subject hi
    subst hclose
    cases h
    rw [outcome_close _ hi, outcome_close _ hi, (close_stirs c).deque]
    exact List.append_nil _
  | some i =>
    rw [outcome_of_step h hi, outcome_of_step h hi]
    exact (step_turn h hi).1.values

/-- No call is there before it starts, and the calls that have received the end were right. -/
structure Ordered (capacity : Capacity) (c : Config T) : Prop where
  bound : c.bound = capacity.max
  room : c.deque.length ≤ c.bound
  fresh : ∀ i, c.created ≤ i → (c.calls i).settled = some .unused
  last : ∀ i, c.calls i = .received (.error .closed) → c.closed = true ∧ c.deque = []

variable {capacity : Capacity}

theorem initial_ordered (T : Type*) (capacity : Capacity) :
    Ordered capacity (initial capacity : Config T) := by
  constructor
  · rfl
  · exact Nat.zero_le _
  · intro _ _
    rfl
  · intro _ h
    cases h

theorem Ordered.stirs (h : Ordered capacity c) (k : Stirs c d) : Ordered capacity d := by
  constructor
  · exact k.bound.trans h.bound
  · rw [k.deque, k.bound]
    exact h.room
  · intro i hi
    rw [k.calls i]
    exact h.fresh i (k.created ▸ hi)
  · intro i he
    have hcall : c.calls i = .received (.error .closed) := by
      apply ended_of_settled
      rw [← k.calls i, he]
    obtain ⟨hclosed, hdeque⟩ := h.last i hcall
    exact ⟨k.closed hclosed, k.deque.trans hdeque⟩

/-- A call is over for good, and one that has its turn is not over. -/
theorem Ordered.begun (h : Ordered capacity c) (k : c.Awaits i d) (ht : Turn c i d) :
    i < d.created ∧ (c.calls i).accepted = [] ∧ (c.calls i).delivered = [] := by
  rcases k with hwaits | ⟨rfl, hgrows⟩
  · refine ⟨?_, ?_, ?_⟩
    · apply lt_of_lt_of_le _ ht.created
      by_contra hle
      rw [h.fresh i (Nat.le_of_not_lt hle)] at hwaits
      cases hwaits
    · cases hcall : c.calls i <;> first | rfl | (rw [hcall] at hwaits; cases hwaits)
    · cases hcall : c.calls i <;> first | rfl | (rw [hcall] at hwaits; cases hwaits)
  · have hunused : (c.calls c.created).settled = (Call.unused : Call T).settled :=
      h.fresh c.created le_rfl
    exact ⟨hgrows, accepted_of_settled hunused, delivered_of_settled hunused⟩

/-- Nothing comes out after the end. -/
theorem Turn.drained (h : Turn c i d) (hclosed : c.closed = true) (hdeque : c.deque = []) :
    (d.calls i).accepted = [] ∧ (d.calls i).delivered = [] ∧ d.deque = [] := by
  have haccepted := h.sealed hclosed
  have hvalues := h.values
  rw [haccepted, hdeque] at hvalues
  obtain ⟨hdelivered, hempty⟩ := List.append_eq_nil_iff.mp hvalues.symm
  exact ⟨haccepted, hdelivered, hempty⟩

theorem Ordered.turn (h : Ordered capacity c) (k : Turn c i d) (hawaits : c.Awaits i d) :
    Ordered capacity d := by
  obtain ⟨hbegun, _⟩ := h.begun hawaits k
  constructor
  · exact k.bound.trans h.bound
  · exact k.room h.room
  · intro j hj
    rw [k.others j (by omega)]
    exact h.fresh j (k.created.trans hj)
  · intro j he
    by_cases hj : j = i
    · rw [hj] at he
      obtain ⟨hclosed, hdeque⟩ := k.last he
      exact ⟨k.closed hclosed, hdeque⟩
    · have hcall : c.calls j = .received (.error .closed) := by
        apply ended_of_settled
        rw [← k.others j hj, he]
      obtain ⟨hclosed, hdeque⟩ := h.last j hcall
      exact ⟨k.closed hclosed, (k.drained hclosed hdeque).2.2⟩

theorem Ordered.step {e : Event T} (h : Ordered capacity c) (hs : c.step e = some d) :
    Ordered capacity d := by
  cases hi : c.subject e with
  | none =>
    have hclose := close_of_subject hi
    subst hclose
    cases hs
    exact h.stirs (close_stirs c)
  | some i =>
    obtain ⟨hturn, hawaits⟩ := step_turn hs hi
    exact h.turn hturn hawaits

/-- What the calls have put into the channel, or got from it. -/
def Config.total (out : Call T → List T) (c : Config T) : Multiset T :=
  ∑ i ∈ Finset.range c.created, (out (c.calls i) : Multiset T)

theorem Stirs.total {out : Call T → List T}
    (hout : ∀ call other : Call T, call.settled = other.settled → out call = out other)
    (h : Stirs c d) : d.total out = c.total out := by
  unfold Config.total
  rw [h.created]
  apply Finset.sum_congr rfl
  intro i _
  rw [hout _ _ (h.calls i)]

theorem Ordered.total {out : Call T → List T}
    (hout : ∀ call other : Call T, call.settled = other.settled → out call = out other)
    (hunused : out .unused = []) (h : Ordered capacity c) (k : Turn c i d)
    (hi : i < d.created) (hempty : out (c.calls i) = []) :
    d.total out = c.total out + out (d.calls i) := by
  have hold : c.total out = ∑ j ∈ Finset.range d.created, (out (c.calls j) : Multiset T) := by
    apply Finset.sum_subset (Finset.range_mono k.created)
    intro j _ hj
    have hle : c.created ≤ j := by simpa using hj
    rw [hout _ .unused (h.fresh j hle), hunused]
    rfl
  have hrest : ∑ j ∈ (Finset.range d.created).erase i, (out (d.calls j) : Multiset T) =
      ∑ j ∈ (Finset.range d.created).erase i, (out (c.calls j) : Multiset T) := by
    apply Finset.sum_congr rfl
    intro j hj
    rw [hout _ _ (k.others j (Finset.ne_of_mem_erase hj))]
  have hmem : i ∈ Finset.range d.created := Finset.mem_range.mpr hi
  rw [hold, Config.total, ← Finset.add_sum_erase _ _ hmem, ← Finset.add_sum_erase _ _ hmem, hrest,
    hempty, Multiset.coe_nil, zero_add, add_comm]

theorem step_total {out : Call T → List T}
    (hout : ∀ call other : Call T, call.settled = other.settled → out call = out other)
    (hunused : out .unused = [])
    (hempty : ∀ call : Call T, call.accepted = [] → call.delivered = [] → out call = [])
    {e : Event T} (h : Ordered capacity c) (hs : c.step e = some d) :
    d.total out = c.total out + c.outcome out e := by
  cases hi : c.subject e with
  | none =>
    have hclose := close_of_subject hi
    subst hclose
    cases hs
    rw [outcome_close out hi, (close_stirs c).total hout, Multiset.coe_nil, add_zero]
  | some i =>
    obtain ⟨hturn, hawaits⟩ := step_turn hs hi
    obtain ⟨hbegun, haccepted, hdelivered⟩ := h.begun hawaits hturn
    rw [outcome_of_step hs hi]
    exact h.total hout hunused hturn hbegun (hempty _ haccepted hdelivered)

theorem run_total {out : Call T → List T}
    (hout : ∀ call other : Call T, call.settled = other.settled → out call = out other)
    (hunused : out .unused = [])
    (hempty : ∀ call : Call T, call.accepted = [] → call.delivered = [] → out call = [])
    {es : List (Event T)} (h : Ordered capacity c)
    (hr : (system T capacity).runFrom c es = some d) :
    d.total out = c.total out + (system T capacity).trace (Config.outcome out) c es := by
  induction es generalizing c with
  | nil =>
    cases hr
    rw [System.trace, Multiset.coe_nil, add_zero]
  | cons e es ih =>
    obtain ⟨m, hm, hrest⟩ := run_cons.mp hr
    rw [ih (h.step hm) hrest, step_total hout hunused hempty h hm, System.trace_cons hm,
      ← Multiset.coe_add, add_assoc]

theorem ordered_run {es : List (Event T)} (h : Ordered capacity c)
    (hr : (system T capacity).runFrom c es = some d) : Ordered capacity d := by
  refine run_invariant (I := Ordered capacity) ?_ h hr
  intro s e t hs he
  exact hs.step he

/-- A serial channel hands over the values of the successful sends in their order, each once, with
at most its bound under way, whatever the coroutines do. -/
theorem values_in_order (ρ : Execution (system T capacity)) :
    (system T capacity).trace (Config.outcome Call.accepted) (initial capacity) ρ.events =
        (system T capacity).trace (Config.outcome Call.delivered) (initial capacity) ρ.events ++
          ρ.final.deque ∧
      ρ.final.total Call.accepted = ρ.final.total Call.delivered + ρ.final.deque ∧
      ρ.final.deque.length ≤ capacity.max := by
  have hr : (system T capacity).runFrom (initial capacity) ρ.events = some ρ.final :=
    (Option.some_get ρ.fires).symm
  have hinit := initial_ordered T capacity
  have hvalues := (conserves T capacity).run hr
  have htotal : ∀ out : Call T → List T, (initial capacity : Config T).total out = 0 := by
    intro out
    exact Finset.sum_range_zero _
  have haccepted : ρ.final.total Call.accepted = _ :=
    run_total (fun _ _ => accepted_of_settled) rfl (fun _ ha _ => ha) hinit hr
  have hdelivered : ρ.final.total Call.delivered = _ :=
    run_total (fun _ _ => delivered_of_settled) rfl (fun _ _ hd => hd) hinit hr
  refine ⟨hvalues, ?_, ?_⟩
  · rw [haccepted, hdelivered, htotal, htotal, zero_add, zero_add, Multiset.coe_add]
    exact congrArg _ hvalues
  · have hordered := ordered_run hinit hr
    exact hordered.room.trans_eq hordered.bound

theorem step_drained {e : Event T} (hs : c.step e = some d) (hclosed : c.closed = true)
    (hdeque : c.deque = []) :
    c.outcome Call.accepted e = [] ∧ c.outcome Call.delivered e = [] ∧
      d.closed = true ∧ d.deque = [] := by
  cases hi : c.subject e with
  | none =>
    have hclose := close_of_subject hi
    subst hclose
    cases hs
    have hstirs := close_stirs c
    exact ⟨outcome_close _ hi, outcome_close _ hi, hstirs.closed hclosed, hstirs.deque.trans hdeque⟩
  | some i =>
    obtain ⟨hturn, _⟩ := step_turn hs hi
    obtain ⟨haccepted, hdelivered, hempty⟩ := hturn.drained hclosed hdeque
    rw [outcome_of_step hs hi, outcome_of_step hs hi]
    exact ⟨haccepted, hdelivered, hturn.closed hclosed, hempty⟩

theorem run_drained {es : List (Event T)} (hr : (system T capacity).runFrom c es = some d)
    (hclosed : c.closed = true) (hdeque : c.deque = []) :
    (system T capacity).trace (Config.outcome Call.accepted) c es = [] ∧
      (system T capacity).trace (Config.outcome Call.delivered) c es = [] := by
  induction es generalizing c with
  | nil => exact ⟨rfl, rfl⟩
  | cons e es ih =>
    obtain ⟨m, hm, hrest⟩ := run_cons.mp hr
    obtain ⟨haccepted, hdelivered, hclosed', hdeque'⟩ := step_drained hm hclosed hdeque
    obtain ⟨hacc, hdel⟩ := ih hrest hclosed' hdeque'
    rw [System.trace_cons hm, System.trace_cons hm, haccepted, hdelivered]
    exact ⟨hacc, hdel⟩

/-- Who is told the end has been told it last: all that was accepted has been delivered, and
whatever the coroutines go on to do, nothing is accepted or delivered any more. -/
theorem end_observed_last (ρ : Execution (system T capacity)) {i : ℕ}
    (h : ρ.final.calls i = .received (.error .closed)) {es : List (Event T)} {d : Config T}
    (hr : (system T capacity).runFrom ρ.final es = some d) :
    (system T capacity).trace (Config.outcome Call.accepted) (initial capacity) ρ.events =
        (system T capacity).trace (Config.outcome Call.delivered) (initial capacity) ρ.events ∧
      (system T capacity).trace (Config.outcome Call.accepted) ρ.final es = [] ∧
      (system T capacity).trace (Config.outcome Call.delivered) ρ.final es = [] := by
  have hrun : (system T capacity).runFrom (initial capacity) ρ.events = some ρ.final :=
    (Option.some_get ρ.fires).symm
  obtain ⟨hclosed, hdeque⟩ := (ordered_run (initial_ordered T capacity) hrun).last i h
  have hvalues := (conserves T capacity).run hrun
  constructor
  · rw [hdeque, List.append_nil] at hvalues
    exact hvalues
  · exact run_drained hr hclosed hdeque

/-- A value is sent, the channel closed, and a receiver gets the value and then the end. -/
def drainedRun : List (Event ℕ) := [.send false 7, .close, .recv false, .recv false]

theorem drained_end_observed :
    ∃ ρ : Execution (system ℕ ⟨1, Nat.one_pos⟩), ρ.events = drainedRun ∧
      (system ℕ ⟨1, Nat.one_pos⟩).trace (Config.outcome Call.accepted) ρ.final
        [.send false 8, .recv true] = [] := by
  refine ⟨⟨drainedRun, rfl⟩, rfl, ?_⟩
  exact (end_observed_last ⟨drainedRun, rfl⟩ (i := 2) rfl (d := _) rfl).2.1

end SerialChannel
