import Stuck.SharedTypes
import Mathlib.Data.List.Basic
import Mathlib.Data.List.Count

/-! The handles of a channel (src/channel/shared.rs) in programs that never block, over any
implementation of the trait. The two handle counters close the channel; a handle that sees the
end detaches, with or without giving up its place in the counter. -/
namespace ChannelHandles

open SharedTypes

variable {T σ : Type*}

/-- The non-blocking part of `trait Channel`: `send` and `recv` are trying, `none` is a panic. -/
structure Channel (T σ : Type*) where
  send : σ → T → Option (σ × Except (TrySendError T) Unit)
  selectSendPermit : σ → σ × Option Permit
  consumeSendPermit : σ → T → Option (σ × Except (SendError T) Unit)
  recv : σ → Option (σ × Except TryRecvError T)
  selectRecvPermit : σ → σ × Option Permit
  consumeRecvPermit : σ → Option (σ × Option T)
  close : σ → σ

/-- The `Option` of a handle, for as long as it is not dropped. -/
inductive Handle where
  | attached | detached | dropped
  deriving DecidableEq, Repr

structure Endpoints (σ : Type*) where
  channel : σ
  senders : ℕ
  receivers : ℕ
  sendHandles : List Handle
  recvHandles : List Handle

inductive Op (T : Type*) where
  | trySend (handle : ℕ) (value : T)
  | tryRecv (handle : ℕ)
  | selectSend (handle : ℕ) (value : T)
  | selectRecv (handle : ℕ)
  | cloneSender (handle : ℕ)
  | cloneReceiver (handle : ℕ)
  | closeSender (handle : ℕ)
  | closeReceiver (handle : ℕ)
  | terminate (handle : ℕ)
  | dropSender (handle : ℕ)
  | dropReceiver (handle : ℕ)
  deriving DecidableEq, Repr

/-- What the program sees. `wouldBlock` and `completed` are the two errors of `try_select`, which
lead to the `default` and the `complete` branch. -/
inductive Answer (T : Type*) where
  | sent (result : Except (TrySendError T) Unit)
  | received (result : Except TryRecvError T)
  | selectedSend (result : Except (SendError T) Unit)
  | selectedRecv (result : Option T)
  | wouldBlock
  | completed
  | done
  | panicked

def Endpoints.setSender (p : Endpoints σ) (h : ℕ) (handle : Handle) : Endpoints σ :=
  { p with sendHandles := p.sendHandles.set h handle }

def Endpoints.setReceiver (p : Endpoints σ) (h : ℕ) (handle : Handle) : Endpoints σ :=
  { p with recvHandles := p.recvHandles.set h handle }

/-- `remove_sender`: the one that takes the counter to zero closes the channel. -/
def Endpoints.removeSender (C : Channel T σ) (p : Endpoints σ) : Endpoints σ :=
  { p with
    senders := p.senders - 1
    channel := if p.senders = 1 then C.close p.channel else p.channel }

def Endpoints.removeReceiver (C : Channel T σ) (p : Endpoints σ) : Endpoints σ :=
  { p with
    receivers := p.receivers - 1
    channel := if p.receivers = 1 then C.close p.channel else p.channel }

def Endpoints.trySend (C : Channel T σ) (p : Endpoints σ) (h : ℕ) (value : T) :
    Endpoints σ × Answer T :=
  match C.send p.channel value with
  | none => (p, .panicked)
  | some (s, .error (.closed value)) =>
    (({ p with channel := s }.removeSender C).setSender h .detached, .sent (.error (.closed value)))
  | some (s, result) => ({ p with channel := s }, .sent result)

def Endpoints.tryRecv (C : Channel T σ) (p : Endpoints σ) (h : ℕ) : Endpoints σ × Answer T :=
  match C.recv p.channel with
  | none => (p, .panicked)
  | some (s, .error .closed) =>
    (({ p with channel := s }.removeReceiver C).setReceiver h .detached, .received (.error .closed))
  | some (s, result) => ({ p with channel := s }, .received result)

/-- `try_select` over one sender and the `consume_permit` that follows. -/
def Endpoints.selectSend (C : Channel T σ) (p : Endpoints σ) (h : ℕ) (value : T) :
    Endpoints σ × Answer T :=
  match C.selectSendPermit p.channel with
  | (s, none) => ({ p with channel := s }, .wouldBlock)
  | (s, some .closed) =>
    ({ p with channel := s }.setSender h .detached, .selectedSend (.error (.closed value)))
  | (s, some .consume) =>
    match C.consumeSendPermit s value with
    | none => ({ p with channel := s }, .panicked)
    | some (s, .error error) =>
      (({ p with channel := s }.removeSender C).setSender h .detached, .selectedSend (.error error))
    | some (s, .ok ()) => ({ p with channel := s }, .selectedSend (.ok ()))

def Endpoints.selectRecv (C : Channel T σ) (p : Endpoints σ) (h : ℕ) : Endpoints σ × Answer T :=
  match C.selectRecvPermit p.channel with
  | (s, none) => ({ p with channel := s }, .wouldBlock)
  | (s, some .closed) => ({ p with channel := s }.setReceiver h .detached, .selectedRecv none)
  | (s, some .consume) =>
    match C.consumeRecvPermit s with
    | none => ({ p with channel := s }, .panicked)
    | some (s, none) =>
      (({ p with channel := s }.removeReceiver C).setReceiver h .detached, .selectedRecv none)
    | some (s, some value) => ({ p with channel := s }, .selectedRecv (some value))

/-- An operation on a handle that does not exist, or no longer, is not a program. -/
def Endpoints.step (C : Channel T σ) (p : Endpoints σ) : Op T → Option (Endpoints σ × Answer T)
  | .trySend h value =>
    match p.sendHandles[h]? with
    | some .attached => some (p.trySend C h value)
    | some .detached => some (p, .sent (.error (.closed value)))
    | _ => none
  | .tryRecv h =>
    match p.recvHandles[h]? with
    | some .attached => some (p.tryRecv C h)
    | some .detached => some (p, .received (.error .closed))
    | _ => none
  | .selectSend h value =>
    match p.sendHandles[h]? with
    | some .attached => some (p.selectSend C h value)
    | some .detached => some (p, .completed)
    | _ => none
  | .selectRecv h =>
    match p.recvHandles[h]? with
    | some .attached => some (p.selectRecv C h)
    | some .detached => some (p, .completed)
    | _ => none
  | .cloneSender h =>
    match p.sendHandles[h]? with
    | some .attached =>
      some ({ p with senders := p.senders + 1, sendHandles := p.sendHandles ++ [.attached] }, .done)
    | some .detached => some ({ p with sendHandles := p.sendHandles ++ [.detached] }, .done)
    | _ => none
  | .cloneReceiver h =>
    match p.recvHandles[h]? with
    | some .attached =>
      some ({ p with receivers := p.receivers + 1, recvHandles := p.recvHandles ++ [.attached] },
        .done)
    | some .detached => some ({ p with recvHandles := p.recvHandles ++ [.detached] }, .done)
    | _ => none
  | .closeSender h =>
    match p.sendHandles[h]? with
    | some .attached => some ((p.removeSender C).setSender h .detached, .done)
    | some .detached => some (p, .done)
    | _ => none
  | .closeReceiver h =>
    match p.recvHandles[h]? with
    | some .attached => some ({ p with channel := C.close p.channel }, .done)
    | some .detached => some (p, .done)
    | _ => none
  | .terminate h =>
    match p.recvHandles[h]? with
    | some .attached => some ((p.removeReceiver C).setReceiver h .detached, .done)
    | some .detached => some (p, .done)
    | _ => none
  | .dropSender h =>
    match p.sendHandles[h]? with
    | some .attached => some ((p.removeSender C).setSender h .dropped, .done)
    | some .detached => some (p.setSender h .dropped, .done)
    | _ => none
  | .dropReceiver h =>
    match p.recvHandles[h]? with
    | some .attached => some ((p.removeReceiver C).setReceiver h .dropped, .done)
    | some .detached => some (p.setReceiver h .dropped, .done)
    | _ => none

/-- `channel` of both implementations: one sender and one receiver. -/
def Endpoints.start (s : σ) : Endpoints σ where
  channel := s
  senders := 1
  receivers := 1
  sendHandles := [.attached]
  recvHandles := [.attached]

/-- A program of one party: its answers and where it leaves the endpoints. -/
def Endpoints.run (C : Channel T σ) (p : Endpoints σ) : List (Op T) →
    Option (List (Answer T) × Endpoints σ)
  | [] => some ([], p)
  | op :: ops =>
    match p.step C op with
    | none => none
    | some (q, answer) => (q.run C ops).map fun (answers, r) => (answer :: answers, r)

/-- `is_closed` of the senders that are left, and `is_drained` of the receivers. -/
def Endpoints.isClosed (p : Endpoints σ) : List (Option Bool) :=
  p.sendHandles.map fun handle => if handle = .dropped then none else some (handle == .detached)

def Endpoints.isDrained (p : Endpoints σ) : List (Option Bool) :=
  p.recvHandles.map fun handle => if handle = .dropped then none else some (handle == .detached)

/-- What a channel is for: a bounded queue that can be closed. -/
structure Queue (T : Type*) where
  closed : Bool
  bound : ℕ
  items : List T

def Queue.isFull (q : Queue T) : Bool := q.items.length == q.bound

/-- The channel behaves as the queue does, which it shows as `R`. In between a permit and its
consumption it may reserve what it likes. -/
structure Implements (C : Channel T σ) (R : σ → Queue T → Prop) : Prop where
  send_closed : ∀ s q value, R s q → q.closed = true →
    ∃ t, C.send s value = some (t, .error (.closed value)) ∧ R t q
  send_full : ∀ s q value, R s q → q.closed = false → q.isFull = true →
    ∃ t, C.send s value = some (t, .error (.full value)) ∧ R t q
  send_open : ∀ s q value, R s q → q.closed = false → q.isFull = false →
    ∃ t, C.send s value = some (t, .ok ()) ∧ R t { q with items := q.items ++ [value] }
  recv_item : ∀ s q value rest, R s q → q.items = value :: rest →
    ∃ t, C.recv s = some (t, .ok value) ∧ R t { q with items := rest }
  recv_closed : ∀ s q, R s q → q.items = [] → q.closed = true →
    ∃ t, C.recv s = some (t, .error .closed) ∧ R t q
  recv_empty : ∀ s q, R s q → q.items = [] → q.closed = false →
    ∃ t, C.recv s = some (t, .error .empty) ∧ R t q
  close : ∀ s q, R s q → R (C.close s) { q with closed := true }
  selectSend_full : ∀ s q, R s q → q.closed = false → q.isFull = true →
    ∃ t, C.selectSendPermit s = (t, none) ∧ R t q
  selectSend_open : ∀ s q value, R s q → q.closed = false → q.isFull = false →
    ∃ t u, C.selectSendPermit s = (t, some .consume) ∧
      C.consumeSendPermit t value = some (u, .ok ()) ∧ R u { q with items := q.items ++ [value] }
  selectSend_closed : ∀ s q value, R s q → q.closed = true →
    ∃ t, (C.selectSendPermit s = (t, some .closed) ∧ R t q) ∨
      ∃ u, C.selectSendPermit s = (t, some .consume) ∧
        C.consumeSendPermit t value = some (u, .error (.closed value)) ∧ R u q
  selectRecv_empty : ∀ s q, R s q → q.items = [] → q.closed = false →
    ∃ t, C.selectRecvPermit s = (t, none) ∧ R t q
  selectRecv_item : ∀ s q value rest, R s q → q.items = value :: rest →
    ∃ t u, C.selectRecvPermit s = (t, some .consume) ∧
      C.consumeRecvPermit t = some (u, some value) ∧ R u { q with items := rest }
  selectRecv_closed : ∀ s q, R s q → q.items = [] → q.closed = true →
    ∃ t, (C.selectRecvPermit s = (t, some .closed) ∧ R t q) ∨
      ∃ u, C.selectRecvPermit s = (t, some .consume) ∧
        C.consumeRecvPermit t = some (u, none) ∧ R u q

/-- The queue and its handles, without counters: the channel is closed as soon as one side has
no attached handle left. -/
structure Party (T : Type*) extends Queue T where
  sendHandles : List Handle
  recvHandles : List Handle

def Party.leaveSender (a : Party T) (h : ℕ) (handle : Handle) : Party T :=
  { a with
    sendHandles := a.sendHandles.set h handle
    closed := a.closed || !(a.sendHandles.set h handle).contains .attached }

def Party.leaveReceiver (a : Party T) (h : ℕ) (handle : Handle) : Party T :=
  { a with
    recvHandles := a.recvHandles.set h handle
    closed := a.closed || !(a.recvHandles.set h handle).contains .attached }

def Party.send (a : Party T) (h : ℕ) (value : T) (refused full accepted : Answer T) :
    Party T × Answer T :=
  if a.closed then (a.leaveSender h .detached, refused)
  else if a.isFull then (a, full)
  else ({ a with items := a.items ++ [value] }, accepted)

def Party.recv (a : Party T) (h : ℕ) (refused empty : Answer T) (handed : T → Answer T) :
    Party T × Answer T :=
  match a.items with
  | value :: rest => ({ a with items := rest }, handed value)
  | [] => if a.closed then (a.leaveReceiver h .detached, refused) else (a, empty)

def Party.step (a : Party T) : Op T → Option (Party T × Answer T)
  | .trySend h value =>
    match a.sendHandles[h]? with
    | some .attached =>
      some (a.send h value (.sent (.error (.closed value))) (.sent (.error (.full value)))
        (.sent (.ok ())))
    | some .detached => some (a, .sent (.error (.closed value)))
    | _ => none
  | .tryRecv h =>
    match a.recvHandles[h]? with
    | some .attached =>
      some (a.recv h (.received (.error .closed)) (.received (.error .empty))
        fun value => .received (.ok value))
    | some .detached => some (a, .received (.error .closed))
    | _ => none
  | .selectSend h value =>
    match a.sendHandles[h]? with
    | some .attached =>
      some (a.send h value (.selectedSend (.error (.closed value))) .wouldBlock
        (.selectedSend (.ok ())))
    | some .detached => some (a, .completed)
    | _ => none
  | .selectRecv h =>
    match a.recvHandles[h]? with
    | some .attached =>
      some (a.recv h (.selectedRecv none) .wouldBlock fun value => .selectedRecv (some value))
    | some .detached => some (a, .completed)
    | _ => none
  | .cloneSender h =>
    match a.sendHandles[h]? with
    | some .attached => some ({ a with sendHandles := a.sendHandles ++ [.attached] }, .done)
    | some .detached => some ({ a with sendHandles := a.sendHandles ++ [.detached] }, .done)
    | _ => none
  | .cloneReceiver h =>
    match a.recvHandles[h]? with
    | some .attached => some ({ a with recvHandles := a.recvHandles ++ [.attached] }, .done)
    | some .detached => some ({ a with recvHandles := a.recvHandles ++ [.detached] }, .done)
    | _ => none
  | .closeSender h =>
    match a.sendHandles[h]? with
    | some .attached => some (a.leaveSender h .detached, .done)
    | some .detached => some (a, .done)
    | _ => none
  | .closeReceiver h =>
    match a.recvHandles[h]? with
    | some .attached => some ({ a with closed := true }, .done)
    | some .detached => some (a, .done)
    | _ => none
  | .terminate h =>
    match a.recvHandles[h]? with
    | some .attached => some (a.leaveReceiver h .detached, .done)
    | some .detached => some (a, .done)
    | _ => none
  | .dropSender h =>
    match a.sendHandles[h]? with
    | some .attached => some (a.leaveSender h .dropped, .done)
    | some .detached => some ({ a with sendHandles := a.sendHandles.set h .dropped }, .done)
    | _ => none
  | .dropReceiver h =>
    match a.recvHandles[h]? with
    | some .attached => some (a.leaveReceiver h .dropped, .done)
    | some .detached => some ({ a with recvHandles := a.recvHandles.set h .dropped }, .done)
    | _ => none

def Party.start (bound : ℕ) : Party T where
  closed := false
  bound := bound
  items := []
  sendHandles := [.attached]
  recvHandles := [.attached]

def Party.run (a : Party T) : List (Op T) → Option (List (Answer T) × Party T)
  | [] => some ([], a)
  | op :: ops =>
    match a.step op with
    | none => none
    | some (b, answer) => (b.run ops).map fun (answers, r) => (answer :: answers, r)

/-- While the channel is open the counters count the attached handles; afterwards nobody asks. -/
structure Shows (R : σ → Queue T → Prop) (p : Endpoints σ) (a : Party T) : Prop where
  channel : R p.channel a.toQueue
  sendHandles : p.sendHandles = a.sendHandles
  recvHandles : p.recvHandles = a.recvHandles
  counted : a.closed = false →
    p.senders = a.sendHandles.count .attached ∧ p.receivers = a.recvHandles.count .attached

variable {C : Channel T σ} {R : σ → Queue T → Prop} {p : Endpoints σ} {a : Party T} {h : ℕ}

theorem count_leave {handles : List Handle} {handle : Handle} (hh : handles[h]? = some .attached)
    (hne : handle ≠ .attached) :
    (handles.set h handle).count .attached + 1 = handles.count .attached := by
  obtain ⟨hlt, hget⟩ := List.getElem?_eq_some_iff.mp hh
  have hpos : 0 < handles.count .attached :=
    List.count_pos_iff.mpr (hget ▸ List.getElem_mem hlt)
  rw [List.count_set hlt, hget]
  have hf : (handle == Handle.attached) = false := by simpa using hne
  simp only [beq_self_eq_true, if_true, hf, Bool.false_eq_true, if_false]
  omega

theorem closed_or {q : Queue T} (hc : q.closed = true) (b : Bool) :
    { q with closed := q.closed || b } = q := by
  obtain ⟨closed, bound, items⟩ := q
  cases hc
  rfl

/-- A handle goes: the counter tells whether it was the last attached one. -/
theorem Implements.leave (hC : Implements C R) {s : σ} {q : Queue T} (hr : R s q)
    {handles : List Handle} {handle : Handle} (hh : handles[h]? = some .attached)
    (hne : handle ≠ .attached) {n : ℕ} (hn : q.closed = false → n = handles.count .attached) :
    R (if n = 1 then C.close s else s)
        { q with closed := q.closed || !(handles.set h handle).contains .attached } ∧
      (q.closed = false → n - 1 = (handles.set h handle).count .attached) := by
  have hcount := count_leave hh hne
  have hcontains : (handles.set h handle).contains .attached =
      decide (0 < (handles.set h handle).count .attached) := by
    rw [Bool.eq_iff_iff]
    simp [List.count_pos_iff]
  by_cases hc : q.closed = true
  · refine ⟨?_, fun ho => by rw [hc] at ho; cases ho⟩
    rw [closed_or hc]
    split
    · have hclose := hC.close _ _ hr
      rwa [show { q with closed := true } = q from closed_or hc true ▸ by rw [hc]; rfl] at hclose
    · exact hr
  · have ho : q.closed = false := by simpa using hc
    have hn := hn ho
    refine ⟨?_, fun _ => by omega⟩
    rw [hcontains, ho]
    split
    next hone =>
      rw [show (handles.set h handle).count .attached = 0 by omega]
      exact hC.close _ _ hr
    next hone =>
      have hpos : 0 < (handles.set h handle).count .attached := by omega
      rw [decide_eq_true hpos, show (false || !true) = q.closed by rw [ho]; rfl]
      exact hr

theorem Shows.leaveSender (hC : Implements C R) (hs : Shows R p a)
    (hh : a.sendHandles[h]? = some .attached) {handle : Handle} (hne : handle ≠ .attached) :
    Shows R ((p.removeSender C).setSender h handle) (a.leaveSender h handle) := by
  obtain ⟨hchannel, hsend, hrecv, hcounted⟩ := hs
  obtain ⟨hr, hcount⟩ := hC.leave hchannel hh hne fun ho => (hcounted ho).1
  refine ⟨hr, congrArg (List.set · h handle) hsend, hrecv, fun ho => ?_⟩
  have ho : a.closed = false := (Bool.or_eq_false_iff.mp ho).1
  exact ⟨hcount ho, (hcounted ho).2⟩

theorem Shows.leaveReceiver (hC : Implements C R) (hs : Shows R p a)
    (hh : a.recvHandles[h]? = some .attached) {handle : Handle} (hne : handle ≠ .attached) :
    Shows R ((p.removeReceiver C).setReceiver h handle) (a.leaveReceiver h handle) := by
  obtain ⟨hchannel, hsend, hrecv, hcounted⟩ := hs
  obtain ⟨hr, hcount⟩ := hC.leave hchannel hh hne fun ho => (hcounted ho).2
  refine ⟨hr, hsend, congrArg (List.set · h handle) hrecv, fun ho => ?_⟩
  have ho : a.closed = false := (Bool.or_eq_false_iff.mp ho).1
  exact ⟨(hcounted ho).1, hcount ho⟩

/-- A closed channel can let a handle go without counting it. -/
theorem Shows.detachSender (hs : Shows R p a) (hc : a.closed = true) (handle : Handle) :
    Shows R (p.setSender h handle) (a.leaveSender h handle) := by
  have hq : (a.leaveSender h handle).toQueue = a.toQueue := closed_or hc _
  refine ⟨?_, congrArg (List.set · h handle) hs.sendHandles, hs.recvHandles, fun ho => ?_⟩
  · rw [hq]
    exact hs.channel
  · rw [hq, hc] at ho
    cases ho

theorem Shows.detachReceiver (hs : Shows R p a) (hc : a.closed = true) (handle : Handle) :
    Shows R (p.setReceiver h handle) (a.leaveReceiver h handle) := by
  have hq : (a.leaveReceiver h handle).toQueue = a.toQueue := closed_or hc _
  refine ⟨?_, hs.sendHandles, congrArg (List.set · h handle) hs.recvHandles, fun ho => ?_⟩
  · rw [hq]
    exact hs.channel
  · rw [hq, hc] at ho
    cases ho

/-- The channel moves on under the same handles. -/
theorem Shows.move (hs : Shows R p a) {s : σ} {q : Queue T} (hr : R s q)
    (hc : q.closed = a.closed) : Shows R { p with channel := s } { a with toQueue := q } :=
  ⟨hr, hs.sendHandles, hs.recvHandles, fun ho => hs.counted (hc ▸ ho)⟩

/-- One operation has one answer, and the endpoints still show the party afterwards. -/
def Matches (R : σ → Queue T → Prop) (x : Endpoints σ × Answer T) (y : Party T × Answer T) : Prop :=
  x.2 = y.2 ∧ Shows R x.1 y.1

theorem matches_trySend (hC : Implements C R) (hs : Shows R p a)
    (hh : a.sendHandles[h]? = some .attached) (value : T) :
    Matches R (p.trySend C h value) (a.send h value (.sent (.error (.closed value)))
      (.sent (.error (.full value))) (.sent (.ok ()))) := by
  unfold Endpoints.trySend Party.send
  by_cases hc : a.closed = true
  · obtain ⟨t, ht, hr⟩ := hC.send_closed _ _ value hs.channel hc
    rw [ht, if_pos hc]
    exact ⟨rfl, (hs.move hr rfl).leaveSender hC hh nofun⟩
  · have ho : a.closed = false := by simpa using hc
    rw [if_neg hc]
    by_cases hf : a.isFull = true
    · obtain ⟨t, ht, hr⟩ := hC.send_full _ _ value hs.channel ho hf
      rw [ht, if_pos hf]
      exact ⟨rfl, hs.move hr rfl⟩
    · obtain ⟨t, ht, hr⟩ := hC.send_open _ _ value hs.channel ho (by simpa using hf)
      rw [ht, if_neg hf]
      exact ⟨rfl, hs.move hr rfl⟩

theorem matches_selectSend (hC : Implements C R) (hs : Shows R p a)
    (hh : a.sendHandles[h]? = some .attached) (value : T) :
    Matches R (p.selectSend C h value) (a.send h value (.selectedSend (.error (.closed value)))
      .wouldBlock (.selectedSend (.ok ()))) := by
  unfold Endpoints.selectSend Party.send
  by_cases hc : a.closed = true
  · rw [if_pos hc]
    obtain ⟨t, ⟨ht, hr⟩ | ⟨u, ht, hu, hr⟩⟩ := hC.selectSend_closed _ _ value hs.channel hc
    · rw [ht]
      exact ⟨rfl, (hs.move hr rfl).detachSender hc _⟩
    · simp only [ht, hu]
      exact ⟨rfl, (hs.move hr rfl).leaveSender hC hh nofun⟩
  · have ho : a.closed = false := by simpa using hc
    rw [if_neg hc]
    by_cases hf : a.isFull = true
    · obtain ⟨t, ht, hr⟩ := hC.selectSend_full _ _ hs.channel ho hf
      rw [ht, if_pos hf]
      exact ⟨rfl, hs.move hr rfl⟩
    · obtain ⟨t, u, ht, hu, hr⟩ := hC.selectSend_open _ _ value hs.channel ho (by simpa using hf)
      simp only [ht, hu, if_neg hf]
      exact ⟨rfl, hs.move hr rfl⟩

theorem matches_tryRecv (hC : Implements C R) (hs : Shows R p a)
    (hh : a.recvHandles[h]? = some .attached) :
    Matches R (p.tryRecv C h) (a.recv h (.received (.error .closed)) (.received (.error .empty))
      fun value => .received (.ok value)) := by
  unfold Endpoints.tryRecv Party.recv
  cases hi : a.items with
  | nil =>
    by_cases hc : a.closed = true
    · obtain ⟨t, ht, hr⟩ := hC.recv_closed _ _ hs.channel hi hc
      rw [ht]
      simp only [if_pos hc]
      exact ⟨rfl, (hs.move hr rfl).leaveReceiver hC hh nofun⟩
    · obtain ⟨t, ht, hr⟩ := hC.recv_empty _ _ hs.channel hi (by simpa using hc)
      rw [ht]
      simp only [if_neg hc]
      exact ⟨rfl, hs.move hr rfl⟩
  | cons value rest =>
    obtain ⟨t, ht, hr⟩ := hC.recv_item _ _ value rest hs.channel hi
    rw [ht]
    exact ⟨rfl, hs.move hr rfl⟩

theorem matches_selectRecv (hC : Implements C R) (hs : Shows R p a)
    (hh : a.recvHandles[h]? = some .attached) :
    Matches R (p.selectRecv C h) (a.recv h (.selectedRecv none) .wouldBlock
      fun value => .selectedRecv (some value)) := by
  unfold Endpoints.selectRecv Party.recv
  cases hi : a.items with
  | nil =>
    by_cases hc : a.closed = true
    · simp only [if_pos hc]
      obtain ⟨t, ⟨ht, hr⟩ | ⟨u, ht, hu, hr⟩⟩ := hC.selectRecv_closed _ _ hs.channel hi hc
      · rw [ht]
        exact ⟨rfl, (hs.move hr rfl).detachReceiver hc _⟩
      · simp only [ht, hu]
        exact ⟨rfl, (hs.move hr rfl).leaveReceiver hC hh nofun⟩
    · obtain ⟨t, ht, hr⟩ := hC.selectRecv_empty _ _ hs.channel hi (by simpa using hc)
      rw [ht]
      simp only [if_neg hc]
      exact ⟨rfl, hs.move hr rfl⟩
  | cons value rest =>
    obtain ⟨t, u, ht, hu, hr⟩ := hC.selectRecv_item _ _ value rest hs.channel hi
    simp only [ht, hu]
    exact ⟨rfl, hs.move hr rfl⟩

theorem Shows.cloneSender (hs : Shows R p a) {handle : Handle} {n : ℕ}
    (hn : n = if handle = .attached then p.senders + 1 else p.senders) :
    Shows R { p with senders := n, sendHandles := a.sendHandles ++ [handle] }
      { a with sendHandles := a.sendHandles ++ [handle] } := by
  refine ⟨hs.channel, rfl, hs.recvHandles, fun ho => ⟨?_, ?_⟩⟩
  · have hsenders := (hs.counted ho).1
    change n = (a.sendHandles ++ [handle]).count .attached
    rw [List.count_append, ← hsenders, hn]
    cases handle <;> rfl
  · exact (hs.counted ho).2

theorem Shows.cloneReceiver (hs : Shows R p a) {handle : Handle} {n : ℕ}
    (hn : n = if handle = .attached then p.receivers + 1 else p.receivers) :
    Shows R { p with receivers := n, recvHandles := a.recvHandles ++ [handle] }
      { a with recvHandles := a.recvHandles ++ [handle] } := by
  refine ⟨hs.channel, hs.sendHandles, rfl, fun ho => ⟨?_, ?_⟩⟩
  · exact (hs.counted ho).1
  · have hreceivers := (hs.counted ho).2
    change n = (a.recvHandles ++ [handle]).count .attached
    rw [List.count_append, ← hreceivers, hn]
    cases handle <;> rfl

theorem count_drop {handles : List Handle} (hh : handles[h]? = some .detached) :
    (handles.set h .dropped).count .attached = handles.count .attached := by
  obtain ⟨hlt, hget⟩ := List.getElem?_eq_some_iff.mp hh
  rw [List.count_set hlt, hget]
  simp

theorem Shows.dropSender (hs : Shows R p a) (hh : a.sendHandles[h]? = some .detached) :
    Shows R (p.setSender h .dropped) { a with sendHandles := a.sendHandles.set h .dropped } := by
  refine ⟨hs.channel, congrArg (List.set · h Handle.dropped) hs.sendHandles, hs.recvHandles,
    fun ho => ⟨?_, (hs.counted ho).2⟩⟩
  exact (hs.counted ho).1.trans (count_drop hh).symm

theorem Shows.dropReceiver (hs : Shows R p a) (hh : a.recvHandles[h]? = some .detached) :
    Shows R (p.setReceiver h .dropped) { a with recvHandles := a.recvHandles.set h .dropped } := by
  refine ⟨hs.channel, hs.sendHandles, congrArg (List.set · h Handle.dropped) hs.recvHandles,
    fun ho => ⟨(hs.counted ho).1, ?_⟩⟩
  exact (hs.counted ho).2.trans (count_drop hh).symm

theorem step_matches (hC : Implements C R) (hs : Shows R p a) (op : Op T) :
    Option.Rel (Matches R) (p.step C op) (a.step op) := by
  cases op with
  | trySend h value =>
    simp only [Endpoints.step, Party.step, hs.sendHandles]
    split
    next hh => exact .some (matches_trySend hC hs hh value)
    next => exact .some ⟨rfl, hs⟩
    next => exact .none
  | tryRecv h =>
    simp only [Endpoints.step, Party.step, hs.recvHandles]
    split
    next hh => exact .some (matches_tryRecv hC hs hh)
    next => exact .some ⟨rfl, hs⟩
    next => exact .none
  | selectSend h value =>
    simp only [Endpoints.step, Party.step, hs.sendHandles]
    split
    next hh => exact .some (matches_selectSend hC hs hh value)
    next => exact .some ⟨rfl, hs⟩
    next => exact .none
  | selectRecv h =>
    simp only [Endpoints.step, Party.step, hs.recvHandles]
    split
    next hh => exact .some (matches_selectRecv hC hs hh)
    next => exact .some ⟨rfl, hs⟩
    next => exact .none
  | cloneSender h =>
    simp only [Endpoints.step, Party.step, hs.sendHandles]
    split
    next => exact .some ⟨rfl, hs.cloneSender rfl⟩
    next => exact .some ⟨rfl, hs.cloneSender rfl⟩
    next => exact .none
  | cloneReceiver h =>
    simp only [Endpoints.step, Party.step, hs.recvHandles]
    split
    next => exact .some ⟨rfl, hs.cloneReceiver rfl⟩
    next => exact .some ⟨rfl, hs.cloneReceiver rfl⟩
    next => exact .none
  | closeSender h =>
    simp only [Endpoints.step, Party.step, hs.sendHandles]
    split
    next hh => exact .some ⟨rfl, hs.leaveSender hC hh nofun⟩
    next => exact .some ⟨rfl, hs⟩
    next => exact .none
  | closeReceiver h =>
    simp only [Endpoints.step, Party.step, hs.recvHandles]
    split
    next hh => exact .some ⟨rfl, hC.close _ _ hs.channel, hs.sendHandles, rfl, nofun⟩
    next => exact .some ⟨rfl, hs⟩
    next => exact .none
  | terminate h =>
    simp only [Endpoints.step, Party.step, hs.recvHandles]
    split
    next hh => exact .some ⟨rfl, hs.leaveReceiver hC hh nofun⟩
    next => exact .some ⟨rfl, hs⟩
    next => exact .none
  | dropSender h =>
    simp only [Endpoints.step, Party.step, hs.sendHandles]
    split
    next hh => exact .some ⟨rfl, hs.leaveSender hC hh nofun⟩
    next hh => exact .some ⟨rfl, hs.dropSender hh⟩
    next => exact .none
  | dropReceiver h =>
    simp only [Endpoints.step, Party.step, hs.recvHandles]
    split
    next hh => exact .some ⟨rfl, hs.leaveReceiver hC hh nofun⟩
    next hh => exact .some ⟨rfl, hs.dropReceiver hh⟩
    next => exact .none

/-- Every implementation answers any program as the queue does. -/
theorem run_matches (hC : Implements C R) (hs : Shows R p a) (ops : List (Op T)) :
    Option.Rel (fun x y => x.1 = y.1 ∧ Shows R x.2 y.2) (p.run C ops) (a.run ops) := by
  induction ops generalizing p a with
  | nil => exact .some ⟨rfl, hs⟩
  | cons op ops ih =>
    have hstep := step_matches hC hs op
    unfold Endpoints.run Party.run
    cases hp : p.step C op <;> cases ha : a.step op <;> rw [hp, ha] at hstep
    case none.none => exact .none
    case none.some => cases hstep
    case some.none => cases hstep
    case some.some x y =>
      obtain ⟨q, answer⟩ := x
      obtain ⟨b, answer'⟩ := y
      obtain ⟨rfl, hq⟩ : answer = answer' ∧ Shows R q b := by
        cases hstep with
        | some h => exact h
      have hrun := ih hq
      dsimp only
      cases hq' : q.run C ops <;> cases hb : b.run ops <;> rw [hq', hb] at hrun
      case none.none => exact .none
      case none.some => cases hrun
      case some.none => cases hrun
      case some.some x y =>
        cases hrun with
        | some h => exact .some ⟨congrArg (answer :: ·) h.1, h.2⟩

theorem start_shows {s : σ} {bound : ℕ} (hr : R s ⟨false, bound, []⟩) :
    Shows R (Endpoints.start s) (Party.start (T := T) bound) :=
  ⟨hr, rfl, rfl, fun _ => ⟨rfl, rfl⟩⟩

/-- What a program can tell about a channel: its answers, and which handles have seen the end. -/
def Endpoints.observe (C : Channel T σ) (p : Endpoints σ) (ops : List (Op T)) :
    Option (List (Answer T) × List (Option Bool) × List (Option Bool)) :=
  (p.run C ops).map fun (answers, q) => (answers, q.isClosed, q.isDrained)

/-- Two implementations of one queue cannot be told apart. -/
theorem observe_congr {τ : Type*} {D : Channel T τ} {Q : τ → Queue T → Prop} {q : Endpoints τ}
    (hC : Implements C R) (hD : Implements D Q) (hp : Shows R p a) (hq : Shows Q q a)
    (ops : List (Op T)) : p.observe C ops = q.observe D ops := by
  have hrun := run_matches hC hp ops
  have hrun' := run_matches hD hq ops
  unfold Endpoints.observe
  cases hb : a.run ops <;> rw [hb] at hrun hrun'
  case none =>
    cases hpo : p.run C ops <;> cases hqo : q.run D ops <;> rw [hpo] at hrun <;> rw [hqo] at hrun'
    case none.none => rfl
    case none.some => cases hrun'
    case some.none => cases hrun
    case some.some => cases hrun
  case some y =>
    cases hpo : p.run C ops <;> cases hqo : q.run D ops <;> rw [hpo] at hrun <;> rw [hqo] at hrun'
    case none.none => cases hrun
    case none.some => cases hrun
    case some.none => cases hrun'
    case some.some x z =>
      cases hrun with
      | some hx =>
        cases hrun' with
        | some hz =>
          simp only [Option.map_some, Endpoints.isClosed, Endpoints.isDrained, hx.1, hz.1,
            hx.2.sendHandles, hz.2.sendHandles, hx.2.recvHandles, hz.2.recvHandles]

end ChannelHandles
