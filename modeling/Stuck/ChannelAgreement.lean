import Stuck.ChannelHandles
import Stuck.SerialChannel
import Stuck.ParallelChannel

/-! The serial and the parallel channel are one bounded queue to a single party that never blocks,
although they decide closing, fullness and emptiness differently. -/
namespace ChannelAgreement

open SharedTypes ChannelHandles

variable {T : Type*}

/-- The state after a call together with what the call returned, if it did not panic. -/
def answer {σ β : Type*} (returned : σ → Option β) (d : σ) : Option (σ × β) :=
  (returned d).map fun result => (d, result)

theorem answer_eq {σ β : Type*} {returned : σ → Option β} {d e : σ} {result : β} (he : d = e)
    (hr : returned e = some result) : answer returned d = some (e, result) := by
  subst he
  simp [answer, hr]

def serialSent (i : ℕ) (c : SerialChannel.Config T) : Option (Except (TrySendError T) Unit) :=
  match c.calls i with
  | .sent _ result => some result
  | _ => none

def serialReceived (i : ℕ) (c : SerialChannel.Config T) : Option (Except TryRecvError T) :=
  match c.calls i with
  | .received result => some result
  | _ => none

/-- The result of `consume_send_permit`, unless it panics. -/
def serialConsumedSend (i : ℕ) (c : SerialChannel.Config T) : Option (Except (SendError T) Unit) :=
  match c.calls i with
  | .sent _ (.ok ()) => some (.ok ())
  | .sent _ (.error (.closed value)) => some (.error (.closed value))
  | _ => none

def serialConsumedRecv (i : ℕ) (c : SerialChannel.Config T) : Option (Option T) :=
  match c.calls i with
  | .received (.ok value) => some (some value)
  | .received (.error .closed) => some none
  | _ => none

/-- `impl shared::Channel for Rc<Channel>` (src/channel/serial.rs). -/
def serial : Channel T (SerialChannel.Config T) where
  send c value :=
    answer (serialSent c.created) ((c.begin (.sending value .pending)).send c.created true value)
  selectSendPermit c := (c, if c.isSendable then some .consume else none)
  consumeSendPermit c value :=
    answer (serialConsumedSend c.created)
      ((c.begin (.permitted false)).consumeSendPermit c.created value)
  recv c :=
    answer (serialReceived c.created) ((c.begin (.receiving .pending)).recv c.created true)
  selectRecvPermit c := (c, if c.isRecvable then some .consume else none)
  consumeRecvPermit c :=
    answer (serialConsumedRecv c.created)
      ((c.begin (.receiving .pending)).consumeRecvPermit c.created)
  close c := c.close

/-- A serial channel nobody waits on. -/
def serialIdle (q : Queue T) (calls : ℕ → SerialChannel.Call T) (n : ℕ) :
    SerialChannel.Config T where
  closed := q.closed
  bound := q.bound
  deque := q.items
  senders := []
  receivers := []
  calls := calls
  created := n

def SerialShows (c : SerialChannel.Config T) (q : Queue T) : Prop :=
  ∃ calls n, c = serialIdle q calls n

section Serial

variable {q : Queue T} (calls : ℕ → SerialChannel.Call T) (n i : ℕ) {value : T} {rest : List T}

theorem serialIdle_send_closed (trying : Bool) (hc : q.closed = true) :
    ∃ calls', (serialIdle q calls n).send i trying value = serialIdle q calls' n ∧
      calls' i = .sent value (.error (.closed value)) :=
  ⟨_, if_pos hc, Function.update_self ..⟩

omit i in
theorem serialIdle_isFull : (serialIdle q calls n).isFull = q.isFull :=
  Bool.beq_comm

theorem serialIdle_send_full (hc : q.closed = false) (hf : q.isFull = true) :
    ∃ calls', (serialIdle q calls n).send i true value = serialIdle q calls' n ∧
      calls' i = .sent value (.error (.full value)) := by
  have hf : (serialIdle q calls n).isFull = true := (serialIdle_isFull calls n).trans hf
  have hc : (serialIdle q calls n).closed = false := hc
  refine ⟨_, ?_, Function.update_self i (.sent value (.error (.full value))) calls⟩
  rw [SerialChannel.Config.send, hc, hf]
  rfl

theorem serialIdle_send_open (hc : q.closed = false) (hf : q.isFull = false) :
    ∃ calls', (serialIdle q calls n).send i true value =
        serialIdle { q with items := q.items ++ [value] } calls' n ∧
      calls' i = .sent value (.ok ()) := by
  have hf : (serialIdle q calls n).isFull = false := (serialIdle_isFull calls n).trans hf
  have hc' : (serialIdle q calls n).closed = false := hc
  refine ⟨_, ?_, Function.update_self i (.sent value (.ok ())) calls⟩
  rw [SerialChannel.Config.send, if_neg (by rw [hc']; nofun), if_pos (by rw [hf]; rfl)]
  rfl

theorem serialIdle_recv_item (hi : q.items = value :: rest) :
    ∃ calls', (serialIdle q calls n).recv i true = serialIdle { q with items := rest } calls' n ∧
      calls' i = .received (.ok value) := by
  have hd : (serialIdle q calls n).deque = value :: rest := hi
  refine ⟨_, ?_, Function.update_self i (.received (.ok value)) calls⟩
  rw [SerialChannel.Config.recv, hd]
  rfl

theorem serialIdle_recv_closed (hi : q.items = []) (hc : q.closed = true) :
    ∃ calls', (serialIdle q calls n).recv i true = serialIdle q calls' n ∧
      calls' i = .received (.error .closed) := by
  have hd : (serialIdle q calls n).deque = [] := hi
  have hc : (serialIdle q calls n).closed = true := hc
  refine ⟨_, ?_, Function.update_self i (.received (.error .closed)) calls⟩
  rw [SerialChannel.Config.recv, hd]
  exact if_pos hc

theorem serialIdle_recv_empty (hi : q.items = []) (hc : q.closed = false) :
    ∃ calls', (serialIdle q calls n).recv i true = serialIdle q calls' n ∧
      calls' i = .received (.error .empty) := by
  have hd : (serialIdle q calls n).deque = [] := hi
  have hc : (serialIdle q calls n).closed = false := hc
  refine ⟨_, ?_, Function.update_self i (.received (.error .empty)) calls⟩
  rw [SerialChannel.Config.recv, hd, hc]
  rfl

omit i in
theorem serialIdle_isSendable : (serialIdle q calls n).isSendable = (q.closed || !q.isFull) := by
  rw [SerialChannel.State.isSendable, serialIdle_isFull]
  rfl

/-- A consumer goes through `send(true, _)`, and passes on what is not `Full`. -/
theorem serialIdle_consumeSend {q' : Queue T} {calls' : ℕ → SerialChannel.Call T}
    {result : Except (TrySendError T) Unit}
    (he : (serialIdle q calls n).send i true value = serialIdle q' calls' n)
    (hi : calls' i = .sent value result) (hr : ∀ v, result ≠ .error (.full v)) :
    (serialIdle q calls n).consumeSendPermit i value = serialIdle q' calls' n := by
  unfold SerialChannel.Config.consumeSendPermit
  rw [he]
  dsimp only
  split
  next hf =>
    rw [show (serialIdle q' calls' n).calls i = calls' i from rfl, hi] at hf
    cases hf
    exact absurd rfl (hr _)
  next => rfl

theorem serialIdle_consumeRecv {q' : Queue T} {calls' : ℕ → SerialChannel.Call T}
    {result : Except TryRecvError T}
    (he : (serialIdle q calls n).recv i true = serialIdle q' calls' n)
    (hi : calls' i = .received result) (hr : result ≠ .error .empty) :
    (serialIdle q calls n).consumeRecvPermit i = serialIdle q' calls' n := by
  unfold SerialChannel.Config.consumeRecvPermit
  rw [he]
  dsimp only
  split
  next hf =>
    rw [show (serialIdle q' calls' n).calls i = calls' i from rfl, hi] at hf
    cases hf
    exact absurd rfl hr
  next => rfl

omit i value rest in
theorem serial_implements : Implements (serial (T := T)) SerialShows where
  send_closed := by
    rintro c q value ⟨calls, n, rfl⟩ hc
    obtain ⟨calls', he, hi⟩ := serialIdle_send_closed
      (Function.update calls n (.sending value .pending)) (n + 1) n true hc
    exact ⟨_, answer_eq he (by simp [serialSent, serialIdle, hi]), calls', n + 1, rfl⟩
  send_full := by
    rintro c q value ⟨calls, n, rfl⟩ hc hf
    obtain ⟨calls', he, hi⟩ := serialIdle_send_full
      (Function.update calls n (.sending value .pending)) (n + 1) n hc hf
    exact ⟨_, answer_eq he (by simp [serialSent, serialIdle, hi]), calls', n + 1, rfl⟩
  send_open := by
    rintro c q value ⟨calls, n, rfl⟩ hc hf
    obtain ⟨calls', he, hi⟩ := serialIdle_send_open
      (Function.update calls n (.sending value .pending)) (n + 1) n hc hf
    exact ⟨_, answer_eq he (by simp [serialSent, serialIdle, hi]), calls', n + 1, rfl⟩
  recv_item := by
    rintro c q value rest ⟨calls, n, rfl⟩ hd
    obtain ⟨calls', he, hi⟩ := serialIdle_recv_item
      (Function.update calls n (.receiving .pending)) (n + 1) n hd
    exact ⟨_, answer_eq he (by simp [serialReceived, serialIdle, hi]), calls', n + 1, rfl⟩
  recv_closed := by
    rintro c q ⟨calls, n, rfl⟩ hd hc
    obtain ⟨calls', he, hi⟩ := serialIdle_recv_closed
      (Function.update calls n (.receiving .pending)) (n + 1) n hd hc
    exact ⟨_, answer_eq he (by simp [serialReceived, serialIdle, hi]), calls', n + 1, rfl⟩
  recv_empty := by
    rintro c q ⟨calls, n, rfl⟩ hd hc
    obtain ⟨calls', he, hi⟩ := serialIdle_recv_empty
      (Function.update calls n (.receiving .pending)) (n + 1) n hd hc
    exact ⟨_, answer_eq he (by simp [serialReceived, serialIdle, hi]), calls', n + 1, rfl⟩
  close := by
    rintro c q ⟨calls, n, rfl⟩
    exact ⟨calls, n, rfl⟩
  selectSend_full := by
    rintro c q ⟨calls, n, rfl⟩ hc hf
    refine ⟨_, Prod.ext rfl ?_, calls, n, rfl⟩
    exact if_neg (by simp [serialIdle_isSendable, hc, hf])
  selectSend_open := by
    rintro c q value ⟨calls, n, rfl⟩ hc hf
    obtain ⟨calls', he, hi⟩ := serialIdle_send_open
      (Function.update calls n (.permitted false)) (n + 1) n hc hf
    refine ⟨serialIdle q calls n, _, Prod.ext rfl (if_pos ?_), answer_eq (serialIdle_consumeSend _ _ n he hi nofun) ?_,
      calls', n + 1, rfl⟩
    · simp [serialIdle_isSendable, hf]
    · simp [serialConsumedSend, serialIdle, hi]
  selectSend_closed := by
    rintro c q value ⟨calls, n, rfl⟩ hc
    obtain ⟨calls', he, hi⟩ := serialIdle_send_closed
      (Function.update calls n (.permitted false)) (n + 1) n true hc
    refine ⟨serialIdle q calls n, Or.inr ⟨_, Prod.ext rfl (if_pos ?_),
      answer_eq (serialIdle_consumeSend _ _ n he hi nofun) ?_, calls', n + 1, rfl⟩⟩
    · simp [serialIdle_isSendable, hc]
    · simp [serialConsumedSend, serialIdle, hi]
  selectRecv_empty := by
    rintro c q ⟨calls, n, rfl⟩ hd hc
    refine ⟨_, Prod.ext rfl ?_, calls, n, rfl⟩
    exact if_neg (by simp [SerialChannel.State.isRecvable, serialIdle, hc, hd])
  selectRecv_item := by
    rintro c q value rest ⟨calls, n, rfl⟩ hd
    obtain ⟨calls', he, hi⟩ := serialIdle_recv_item
      (Function.update calls n (.receiving .pending)) (n + 1) n hd
    refine ⟨serialIdle q calls n, _, Prod.ext rfl (if_pos ?_), answer_eq (serialIdle_consumeRecv _ _ n he hi nofun) ?_,
      calls', n + 1, rfl⟩
    · simp [SerialChannel.State.isRecvable, serialIdle, hd]
    · simp [serialConsumedRecv, serialIdle, hi]
  selectRecv_closed := by
    rintro c q ⟨calls, n, rfl⟩ hd hc
    obtain ⟨calls', he, hi⟩ := serialIdle_recv_closed
      (Function.update calls n (.receiving .pending)) (n + 1) n hd hc
    refine ⟨serialIdle q calls n, Or.inr ⟨_, Prod.ext rfl (if_pos ?_),
      answer_eq (serialIdle_consumeRecv _ _ n he hi nofun) ?_, calls', n + 1, rfl⟩⟩
    · simp [SerialChannel.State.isRecvable, serialIdle, hc]
    · simp [serialConsumedRecv, serialIdle, hi]

end Serial

section Parallel

def parallelSent (i : ℕ) (c : ParallelChannel.Config T) : Option (Except (TrySendError T) Unit) :=
  match c.calls i with
  | .sent _ result => some result
  | _ => none

def parallelReceived (i : ℕ) (c : ParallelChannel.Config T) : Option (Except TryRecvError T) :=
  match c.calls i with
  | .received result => some result
  | _ => none

def parallelConsumedSend (i : ℕ) (c : ParallelChannel.Config T) :
    Option (Except (SendError T) Unit) :=
  match c.calls i with
  | .sent _ (.ok ()) => some (.ok ())
  | .sent _ (.error (.closed value)) => some (.error (.closed value))
  | _ => none

def parallelConsumedRecv (i : ℕ) (c : ParallelChannel.Config T) : Option (Option T) :=
  match c.calls i with
  | .received (.ok value) => some (some value)
  | .received (.error .closed) => some none
  | _ => none

/-- The `select!` of this party, which consumes the permit that it has just been given. -/
def permittee (caller : ParallelChannel.Caller) (side : Side) : ParallelChannel.Op T :=
  .select caller [some side] 0

def permitted (caller : ParallelChannel.Caller) (side : Side) : ParallelChannel.Call T :=
  .permitted (permittee caller side) 0 .consume

/-- `impl shared::Channel for Arc<Channel>` (src/channel/parallel.rs), for a task or a thread. -/
def parallel (caller : ParallelChannel.Caller) : Channel T (ParallelChannel.Config T) where
  send c value := answer (parallelSent c.created) (c.send caller true value)
  selectSendPermit c := (c.setState c.selectSendPermit.2, c.selectSendPermit.1)
  consumeSendPermit c value :=
    answer (parallelConsumedSend c.created)
      ((c.begin (permitted caller .send)).consumeSendPermit c.created (permittee caller .send) value)
  recv c := answer (parallelReceived c.created) (c.recv caller true)
  selectRecvPermit c := (c.setState c.selectRecvPermit.2, c.selectRecvPermit.1)
  consumeRecvPermit c :=
    answer (parallelConsumedRecv c.created)
      ((c.begin (permitted caller .recv)).consumeRecvPermit c.created (permittee caller .recv))
  close c := c.close

/-- A parallel channel nobody waits on, with these permits out. -/
def parallelIdle (q : Queue T) (sendPermits recvPermits : ℕ) (calls : ℕ → ParallelChannel.Call T)
    (n : ℕ) (accepted handed : List (ℕ × T)) : ParallelChannel.Config T where
  closed := q.closed
  sendPermits := sendPermits
  recvPermits := recvPermits
  bound := q.bound
  deque := q.items
  senders := []
  receivers := []
  poisoned := false
  calls := calls
  created := n
  accepted := accepted
  handed := handed

def ParallelShows (c : ParallelChannel.Config T) (q : Queue T) : Prop :=
  q.items.length ≤ q.bound ∧
    ∃ calls n accepted handed, c = parallelIdle q 0 0 calls n accepted handed

variable {q : Queue T} {caller : ParallelChannel.Caller} (calls : ℕ → ParallelChannel.Call T)
  (n : ℕ) (accepted handed : List (ℕ × T)) {value : T} {rest : List T}

omit calls n accepted handed in
theorem length_push (hl : q.items.length ≤ q.bound) (hf : q.isFull = false) (value : T) :
    (q.items ++ [value]).length ≤ q.bound := by
  have hne : q.items.length ≠ q.bound := by simpa [Queue.isFull] using hf
  rw [List.length_append, List.length_singleton]
  omega

omit calls n accepted handed in
theorem length_pop (hl : q.items.length ≤ q.bound) (hd : q.items = value :: rest) :
    rest.length ≤ q.bound := by
  rw [hd] at hl
  exact Nat.le_of_succ_le hl

theorem parallelIdle_send_closed (hc : q.closed = true) :
    (parallelIdle q 0 0 calls n accepted handed).send caller true value =
      parallelIdle q 0 0 (Function.update calls n (.sent value (.error (.closed value)))) (n + 1)
        accepted handed :=
  if_pos hc

theorem parallelIdle_send_open (hc : q.closed = false) (hf : q.isFull = false) :
    (parallelIdle q 0 0 calls n accepted handed).send caller true value =
      parallelIdle { q with items := q.items ++ [value] } 0 0
        (Function.update calls n (.sent value (.ok ()))) (n + 1) (accepted ++ [(n, value)]) handed := by
  have hc' : (parallelIdle q 0 0 calls n accepted handed).closed = false := hc
  have hf' : (parallelIdle q 0 0 calls n accepted handed).isFull = false := hf
  unfold ParallelChannel.Config.send
  rw [if_neg (by rw [hc']; nofun), if_pos (by rw [hf']; rfl)]
  rfl

theorem parallelIdle_send_full (hc : q.closed = false) (hf : q.isFull = true) :
    (parallelIdle q 0 0 calls n accepted handed).send caller true value =
      parallelIdle q 0 0 (Function.update calls n (.sent value (.error (.full value)))) (n + 1)
        accepted handed := by
  have hc' : (parallelIdle q 0 0 calls n accepted handed).closed = false := hc
  have hf' : (parallelIdle q 0 0 calls n accepted handed).isFull = true := hf
  unfold ParallelChannel.Config.send
  rw [if_neg (by rw [hc']; nofun), if_neg (by rw [hf']; nofun)]
  rfl

theorem parallelIdle_recv_item (hl : q.items.length ≤ q.bound) (hd : q.items = value :: rest) :
    (parallelIdle q 0 0 calls n accepted handed).recv caller true =
      parallelIdle { q with items := rest } 0 0
        (Function.update calls n (.received (.ok value))) (n + 1) accepted
        (handed ++ [(n, value)]) := by
  have he : (parallelIdle q 0 0 calls n accepted handed).isEmpty = false := by
    simp [ParallelChannel.State.isEmpty, parallelIdle, hd]
  have hd' : (parallelIdle q 0 0 calls n accepted handed).deque = value :: rest := hd
  have hl' : rest.length ≤ q.bound := length_pop hl hd
  unfold ParallelChannel.Config.recv
  rw [if_neg (by rw [he]; nofun), hd']
  exact if_pos hl'

theorem parallelIdle_recv_end (hd : q.items = []) :
    (parallelIdle q 0 0 calls n accepted handed).recv caller true =
      parallelIdle q 0 0
        (Function.update calls n (.received (.error (if q.closed then .closed else .empty))))
        (n + 1) accepted handed := by
  have he : (parallelIdle q 0 0 calls n accepted handed).isEmpty = true := by
    simp [ParallelChannel.State.isEmpty, parallelIdle, hd]
  have hr : (parallelIdle q 0 0 calls n accepted handed).isRecvable = false := by
    simp [ParallelChannel.State.isRecvable, ParallelChannel.State.recvableLen, parallelIdle, hd]
  have hc' : (parallelIdle q 0 0 calls n accepted handed).closed = q.closed := rfl
  unfold ParallelChannel.Config.recv
  rw [if_pos he, hr, hc']
  cases q.closed <;> rfl

theorem parallelIdle_consumeSend (hc : q.closed = false) (hf : q.isFull = false)
    {op : ParallelChannel.Op T} :
    (parallelIdle q 1 0 calls (n + 1) accepted handed).consumeSendPermit n op value =
      parallelIdle { q with items := q.items ++ [value] } 0 0
        (Function.update calls n (.sent value (.ok ()))) (n + 1) (accepted ++ [(n, value)])
        handed := by
  have hf' : (parallelIdle q 0 0 calls (n + 1) accepted handed).isFull = false := hf
  unfold ParallelChannel.Config.consumeSendPermit
  rw [if_neg (show (parallelIdle q 1 0 calls (n + 1) accepted handed).sendPermits ≠ 0 from nofun)]
  refine (if_neg (show ¬ (parallelIdle q 0 0 calls (n + 1) accepted handed).isFull = true by
    rw [hf']; nofun)).trans ?_
  exact if_pos (show (!q.closed) = true by rw [hc]; rfl)

theorem parallelIdle_consumeRecv (hd : q.items = value :: rest) {op : ParallelChannel.Op T} :
    (parallelIdle q 0 1 calls (n + 1) accepted handed).consumeRecvPermit n op =
      parallelIdle { q with items := rest } 0 0
        (Function.update calls n (.received (.ok value))) (n + 1) accepted
        (handed ++ [(n, value)]) := by
  unfold ParallelChannel.Config.consumeRecvPermit
  dsimp only
  rw [if_neg (show (parallelIdle q 0 1 calls (n + 1) accepted handed).recvPermits ≠ 0 from nofun),
    show (parallelIdle q 0 1 calls (n + 1) accepted handed).deque = value :: rest from hd]
  dsimp only
  split
  · split <;> rfl
  · split <;> rfl

omit calls n accepted handed in
theorem parallel_implements : Implements (parallel (T := T) caller) ParallelShows where
  send_closed := by
    rintro c q value ⟨hl, calls, n, accepted, handed, rfl⟩ hc
    exact ⟨_, answer_eq (parallelIdle_send_closed calls n accepted handed hc)
      (by simp [parallelSent, parallelIdle]), hl, _, _, _, _, rfl⟩
  send_full := by
    rintro c q value ⟨hl, calls, n, accepted, handed, rfl⟩ hc hf
    exact ⟨_, answer_eq (parallelIdle_send_full calls n accepted handed hc hf)
      (by simp [parallelSent, parallelIdle]), hl, _, _, _, _, rfl⟩
  send_open := by
    rintro c q value ⟨hl, calls, n, accepted, handed, rfl⟩ hc hf
    exact ⟨_, answer_eq (parallelIdle_send_open calls n accepted handed hc hf)
      (by simp [parallelSent, parallelIdle]), length_push hl hf value, _, _, _, _, rfl⟩
  recv_item := by
    rintro c q value rest ⟨hl, calls, n, accepted, handed, rfl⟩ hd
    have hl' : rest.length ≤ q.bound := length_pop hl hd
    exact ⟨_, answer_eq (parallelIdle_recv_item calls n accepted handed hl hd)
      (by simp [parallelReceived, parallelIdle]), hl', _, _, _, _, rfl⟩
  recv_closed := by
    rintro c q ⟨hl, calls, n, accepted, handed, rfl⟩ hd hc
    exact ⟨_, answer_eq (parallelIdle_recv_end calls n accepted handed hd)
      (by simp [parallelReceived, parallelIdle, hc]), hl, _, _, _, _, rfl⟩
  recv_empty := by
    rintro c q ⟨hl, calls, n, accepted, handed, rfl⟩ hd hc
    exact ⟨_, answer_eq (parallelIdle_recv_end calls n accepted handed hd)
      (by simp [parallelReceived, parallelIdle, hc]), hl, _, _, _, _, rfl⟩
  close := by
    rintro c q ⟨hl, calls, n, accepted, handed, rfl⟩
    refine ⟨hl, calls, n, accepted, handed, ?_⟩
    change ParallelChannel.Config.close _ = _
    unfold ParallelChannel.Config.close
    dsimp only
    split <;> rfl
  selectSend_full := by
    rintro c q ⟨hl, calls, n, accepted, handed, rfl⟩ hc hf
    have hselect : (parallelIdle q 0 0 calls n accepted handed).selectSendPermit =
        (none, (parallelIdle q 0 0 calls n accepted handed).toState) := by
      have hf' : (parallelIdle q 0 0 calls n accepted handed).isFull = true := hf
      have hc' : (parallelIdle q 0 0 calls n accepted handed).closed = false := hc
      rw [ParallelChannel.State.selectSendPermit, hc', hf']
      rfl
    refine ⟨parallelIdle q 0 0 calls n accepted handed, ?_, hl, calls, n, accepted, handed, rfl⟩
    simp only [parallel, hselect]
    rfl
  selectSend_open := by
    rintro c q value ⟨hl, calls, n, accepted, handed, rfl⟩ hc hf
    have hselect : (parallelIdle q 0 0 calls n accepted handed).selectSendPermit =
        (some .consume, (parallelIdle q 1 0 calls n accepted handed).toState) := by
      have hf' : (parallelIdle q 0 0 calls n accepted handed).isFull = false := hf
      have hc' : (parallelIdle q 0 0 calls n accepted handed).closed = false := hc
      rw [ParallelChannel.State.selectSendPermit, if_neg (by rw [hc']; nofun),
        if_pos (by rw [hf']; rfl)]
      rfl
    refine ⟨parallelIdle q 1 0 calls n accepted handed, _, ?_,
      answer_eq (parallelIdle_consumeSend _ n accepted handed hc hf)
        (by simp [parallelConsumedSend, parallelIdle]),
      length_push hl hf value, _, _, _, _, rfl⟩
    simp only [parallel, hselect]
    rfl
  selectSend_closed := by
    rintro c q value ⟨hl, calls, n, accepted, handed, rfl⟩ hc
    have hselect : (parallelIdle q 0 0 calls n accepted handed).selectSendPermit =
        (some .closed, (parallelIdle q 0 0 calls n accepted handed).toState) := if_pos hc
    refine ⟨parallelIdle q 0 0 calls n accepted handed, Or.inl ⟨?_, hl, calls, n, accepted, handed,
      rfl⟩⟩
    simp only [parallel, hselect]
    rfl
  selectRecv_empty := by
    rintro c q ⟨hl, calls, n, accepted, handed, rfl⟩ hd hc
    have hselect : (parallelIdle q 0 0 calls n accepted handed).selectRecvPermit =
        (none, (parallelIdle q 0 0 calls n accepted handed).toState) := by
      have he : (parallelIdle q 0 0 calls n accepted handed).isEmpty = true := by
        simp [ParallelChannel.State.isEmpty, parallelIdle, hd]
      have hc' : (parallelIdle q 0 0 calls n accepted handed).closed = false := hc
      rw [ParallelChannel.State.selectRecvPermit, he, hc']
      rfl
    refine ⟨parallelIdle q 0 0 calls n accepted handed, ?_, hl, calls, n, accepted, handed, rfl⟩
    simp only [parallel, hselect]
    rfl
  selectRecv_item := by
    rintro c q value rest ⟨hl, calls, n, accepted, handed, rfl⟩ hd
    have hselect : (parallelIdle q 0 0 calls n accepted handed).selectRecvPermit =
        (some .consume, (parallelIdle q 0 1 calls n accepted handed).toState) := by
      have he : (parallelIdle q 0 0 calls n accepted handed).isEmpty = false := by
        simp [ParallelChannel.State.isEmpty, parallelIdle, hd]
      rw [ParallelChannel.State.selectRecvPermit, he]
      rfl
    have hl' : rest.length ≤ q.bound := length_pop hl hd
    refine ⟨parallelIdle q 0 1 calls n accepted handed, _, ?_,
      answer_eq (parallelIdle_consumeRecv _ n accepted handed hd)
        (by simp [parallelConsumedRecv, parallelIdle]),
      hl', _, _, _, _, rfl⟩
    simp only [parallel, hselect]
    rfl
  selectRecv_closed := by
    rintro c q ⟨hl, calls, n, accepted, handed, rfl⟩ hd hc
    have hselect : (parallelIdle q 0 0 calls n accepted handed).selectRecvPermit =
        (some .closed, (parallelIdle q 0 0 calls n accepted handed).toState) := by
      have he : (parallelIdle q 0 0 calls n accepted handed).isEmpty = true := by
        simp [ParallelChannel.State.isEmpty, parallelIdle, hd]
      have hc' : (parallelIdle q 0 0 calls n accepted handed).closed = true := hc
      have hd' : (parallelIdle q 0 0 calls n accepted handed).deque = [] := hd
      rw [ParallelChannel.State.selectRecvPermit, he, hc', hd']
      rfl
    refine ⟨parallelIdle q 0 0 calls n accepted handed, Or.inl ⟨?_, hl, calls, n, accepted, handed,
      rfl⟩⟩
    simp only [parallel, hselect]
    rfl

end Parallel

/-- No program of one party that does not block can tell the serial channel from the parallel
one. -/
theorem implementations_agree (capacity : Capacity) (caller : ParallelChannel.Caller)
    (ops : List (Op T)) :
    (Endpoints.start (SerialChannel.initial capacity)).observe serial ops =
      (Endpoints.start (ParallelChannel.initial capacity)).observe (parallel caller) ops :=
  observe_congr serial_implements parallel_implements
    (start_shows ⟨_, _, rfl⟩) (start_shows ⟨Nat.zero_le capacity.max, _, _, _, _, rfl⟩) ops

/-- A value survives the close, and a clone made after the end is drained from the start. -/
example : (Endpoints.start (SerialChannel.initial ⟨1, by decide⟩)).observe serial
    [.trySend 0 5, .selectSend 0 6, .closeSender 0, .selectRecv 0, .tryRecv 0, .cloneReceiver 0] =
      some ([.sent (.ok ()), .wouldBlock, .done, .selectedRecv (some 5),
        .received (.error .closed), .done], [some true], [some true, some true]) := rfl

end ChannelAgreement
