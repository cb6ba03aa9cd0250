import Stuck.SerialChannelQueues

/-! A serial channel is closed by `close` alone, and stays closed. -/
namespace SerialChannel

open TransitionSystem OneShot SharedTypes

variable {T : Type*} {c d : Config T} {i : ℕ}

theorem wakeQueue_closed (c : Config T) (side : Side) (queue : List Waker) :
    (c.wakeQueue side queue).closed = c.closed := by
  induction queue with
  | nil => exact setQueue_closed c side []
  | cons waker rest ih =>
    have hwake : ((c.setQueue side rest).wake waker).1.closed = c.closed := by
      rw [wake_state, setQueue_closed]
    unfold Config.wakeQueue
    dsimp only
    split
    · exact hwake
    · exact ih

theorem wakeSender_closed (c : Config T) : c.wakeSender.closed = c.closed := by
  rw [wakeSender_eq, wakeQueue_closed]

theorem wakeReceiver_closed (c : Config T) : c.wakeReceiver.closed = c.closed := by
  rw [wakeReceiver_eq, wakeQueue_closed]

theorem wakeAll_closed (c : Config T) (wakers : List Waker) :
    (c.wakeAll wakers).closed = c.closed := by
  induction wakers generalizing c with
  | nil => rfl
  | cons waker rest ih => exact (ih (c.wake waker).1).trans (by rw [wake_state])

theorem close_closed (c : Config T) : c.close.closed = true := by
  unfold Config.close
  dsimp only
  rw [wakeAll_closed]
  exact wakeAll_closed _ _

theorem send_closed (c : Config T) (i : ℕ) (trying : Bool) (value : T) :
    (c.send i trying value).closed = c.closed := by
  unfold Config.send
  split
  · rfl
  · split
    · exact wakeReceiver_closed _
    · split <;> rfl

theorem recv_closed (c : Config T) (i : ℕ) (trying : Bool) :
    (c.recv i trying).closed = c.closed := by
  unfold Config.recv
  split
  · exact wakeSender_closed _
  · split
    · rfl
    · split <;> rfl

theorem consumeSendPermit_closed (c : Config T) (i : ℕ) (value : T) :
    (c.consumeSendPermit i value).closed = c.closed := by
  have hsend := send_closed c i true value
  unfold Config.consumeSendPermit
  dsimp only
  split <;> exact hsend

theorem consumeRecvPermit_closed (c : Config T) (i : ℕ) :
    (c.consumeRecvPermit i).closed = c.closed := by
  have hrecv := recv_closed c i true
  unfold Config.consumeRecvPermit
  dsimp only
  split <;> exact hrecv

theorem resume_closed (h : c.resume i = some d) : d.closed = c.closed := by
  unfold Config.resume at h
  split at h
  · cases h
    exact send_closed ..
  · cases h
    exact recv_closed ..
  · cases h
    rfl
  · cases h
    rfl
  · next slice identifier counted cell _ =>
    have hunwatched := (unwatch_all_queues slice identifier counted c).1.closed
    dsimp only at h
    split at h
    · cases h
    · cases h
      exact hunwatched
    · obtain ⟨side, _, rfl⟩ := Option.map_eq_some_iff.mp h
      cases side with
      | send => exact hunwatched
      | recv => exact (consumeRecvPermit_closed ..).trans hunwatched
    · cases h
      exact hunwatched
  · cases h

theorem closed_step {e : Event T} (h : c.step e = some d) (he : e ≠ .close) :
    d.closed = c.closed := by
  cases e with
  | send trying value =>
    cases h
    exact send_closed ..
  | recv trying =>
    cases h
    exact recv_closed ..
  | resume i => exact resume_closed h
  | interrupt i =>
    obtain ⟨call, _, rfl⟩ := Option.map_eq_some_iff.mp h
    rfl
  | trySelect slice index =>
    simp only [Config.step] at h
    split at h
    · split at h <;> cases h
      rfl
    · split at h <;> cases h
      exact consumeRecvPermit_closed ..
    · cases h
  | select slice identifier start broken skipped =>
    simp only [Config.step, Config.select] at h
    split at h
    · cases h
    · cases h
      exact (watch_all_queues slice c.created identifier _ c).1.closed
  | elsewhere i =>
    simp only [Config.step] at h
    split at h <;> cases h
    rfl
  | consumeSend i value =>
    simp only [Config.step] at h
    split at h <;> cases h
    exact consumeSendPermit_closed ..
  | forfeit i =>
    simp only [Config.step] at h
    split at h <;> cases h
    rfl
  | close => exact absurd rfl he

end SerialChannel
