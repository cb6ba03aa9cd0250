import Stuck.ParallelChannelMarks
import Stuck.ParallelChannelWakeups

/-! Who is told that a parallel channel is closed: `Permit::Closed` reaches a `select!` only when
the channel is closed, and only `close` closes it. -/
namespace ParallelChannel

open TransitionSystem OneShot SharedTypes WaitQueue

variable {T : Type*} {c d m : Config T}

theorem Effect.closed {role : Role} (he : Effect c role d) (hr : role ≠ .closes) :
    d.closed = c.closed := by
  cases he with
  | still hl _ | sendGranted _ _ hl _ | recvGranted _ hl _ | senderQueued _ _ hl _
  | receiverQueued _ _ hl _ | stored _ _ hl _ | taken _ _ _ _ hl _ | exhausted _ _ _ _ hl _ _
  | drained _ _ _ hl _ => exact congrArg Levels.closed hl
  | pushed _ _ _ hl hw | delivered _ _ _ hl hw => exact hw.closed.trans (congrArg Levels.closed hl)
  | popped _ _ hl hw | refilled _ _ _ _ _ hl hw =>
    exact hw.closed.trans (congrArg Levels.closed hl)
  | closing _ _ _ => exact absurd rfl hr

/-- The call has been told that the channel is closed by way of a permit. -/
def Call.sealed : Call T → Bool
  | .waiting _ _ (.fired (.selected _ .closed)) | .permitted _ _ .closed => true
  | _ => false

theorem sealed_mark : Mark (Call.sealed (T := T)) where
  watched op watched watched' cell := by
    cases cell with
    | fired o => rcases o with _ | _ | _ | ⟨_, _ | _⟩ | _ <;> rfl
    | _ => rfl
  cancelled _ _ := rfl
  fired op watched o h := by
    rcases o with _ | _ | _ | ⟨_, _ | _⟩ | _
    case selected.closed => cases h
    all_goals rfl
  sent _ := rfl
  received _ := rfl

theorem ConsumesRecv.discreet {i : ℕ} {op : Op T} (hs : ConsumesRecv c i op d)
    (hw : WellFormed c) (hi : Detached c i) : Spares Call.sealed c d ∨ c.closed = true := by
  cases hs with
  | underflow => exact Or.inl ((Spares.ends rfl).trans (.of_eq rfl))
  | drained =>
    exact Or.inl ((Spares.of_eq (d := { c with recvPermits := c.recvPermits - 1 }) rfl).trans
      (Spares.ends rfl))
  | kept => exact Or.inl sealed_mark.takeReserved
  | refilled =>
    exact Or.inl (sealed_mark.takeReserved.trans (sealed_mark.wakeSender (hw.takeReserved hi _ _)))
  | exhausted _ _ hc _ => exact Or.inr hc

theorem ConsumesSend.discreet {i : ℕ} {op : Op T} {value : T} (hs : ConsumesSend c i op value d)
    (hw : WellFormed c) (hi : Detached c i) : Spares Call.sealed c d ∨ c.closed = true := by
  cases hs with
  | noPermit => exact Or.inl ((Spares.ends rfl).trans (.of_eq rfl))
  | noSlot =>
    exact Or.inl ((Spares.of_eq (d := { c with sendPermits := c.sendPermits - 1 }) rfl).trans
      ((Spares.ends rfl).trans (.of_eq rfl)))
  | delivered => exact Or.inl (sealed_mark.fillReserved.trans (sealed_mark.wakeReceiver (hw.fillReserved hi value)))
  | stored _ hc => exact Or.inr hc

theorem WatchesSend.discreet {s : Selector} {available : Bool}
    (hs : WatchesSend c s (d, available)) : Spares Call.sealed c d ∨ c.closed = true := by
  cases hs with
  | closed hc _ => exact Or.inr hc
  | granted =>
    exact Or.inl ((Spares.of_eq (d := { c with sendPermits := c.sendPermits + 1 }) rfl).trans
      (sealed_mark.fire rfl))
  | late | queued => exact Or.inl (.of_eq rfl)

theorem WatchesRecv.discreet {s : Selector} {available : Bool}
    (hs : WatchesRecv c s (d, available)) : Spares Call.sealed c d ∨ c.closed = true := by
  cases hs with
  | closed hc _ _ _ => exact Or.inr hc
  | granted =>
    exact Or.inl ((Spares.of_eq (d := { c with recvPermits := c.recvPermits + 1 }) rfl).trans
      (sealed_mark.fire rfl))
  | late | queued => exact Or.inl (.of_eq rfl)

/-- The channel is closed where a call is told so by a permit. -/
theorem Move.discreet {e : Event T} (hm : Move c e d) (hw : WellFormed c) :
    Spares Call.sealed c d ∨ c.closed = true ∨ e = .close := by
  have hor : Spares Call.sealed c d ∨ c.closed = true → Spares Call.sealed c d ∨ c.closed = true ∨ e = .close :=
    fun h => h.imp_right Or.inl
  cases hm with
  | sendRefused | selectStarted | recvRefused => exact Or.inl (.begin rfl)
  | sendPanicked | recvPanicked => exact Or.inl ((Spares.begin rfl).trans (.of_eq rfl))
  | sendNow => exact Or.inl (sealed_mark.sendNow hw _)
  | sendTask | sendThread =>
    exact Or.inl ((Spares.of_eq (d := c.enqueueSender _) rfl).trans (.begin rfl))
  | recvNow => exact Or.inl (sealed_mark.takeFree hw _ _)
  | recvOverflowed =>
    exact Or.inl ((sealed_mark.takeFree hw _ _).trans
      ((Spares.ends rfl).trans (.of_eq rfl)))
  | recvTask | recvThread =>
    exact Or.inl ((Spares.of_eq (d := c.enqueueReceiver _) rfl).trans (.begin rfl))
  | sendReturned | recvReturned | waitPanicked | recvClosed | returnedElsewhere | cancelled
  | sendDetached | recvDetached => exact Or.inl (.ends rfl)
  | recvResumed hc _ hs => exact hor (hs.discreet hw (hw.detached_of_woken hc))
  | @selectReturned _ _ _ _ _ permit hc =>
    refine Or.inl (.finish ?_)
    rw [hc]
    cases permit <;> exact id
  | @sendSelected _ _ _ _ permit _ _ he =>
    rcases selectSendPermit_cases c.toState with ⟨hc, h'⟩ | ⟨_, _, h'⟩ | ⟨_, _, h'⟩ <;>
      rw [h'] at he <;> cases he
    · exact Or.inr (Or.inl hc)
    · exact Or.inl ((Spares.of_eq (d := c.setState _) rfl).trans (.begin rfl))
  | recvSelected hi he =>
    rcases selectRecvPermit_cases c.toState with ⟨_, h'⟩ | ⟨hc, _, _, h'⟩ | ⟨_, _, h'⟩ <;>
      rw [h'] at he <;> cases he
    · exact Or.inl ((Spares.of_eq (d := c.setState _) rfl).trans (.begin rfl))
    · exact Or.inr (Or.inl hc)
  | sendWatched _ _ _ hs hk => exact hor (hs.discreet.imp_left fun h => h.trans (sealed_mark.checks hk))
  | recvWatched _ _ _ hs hk => exact hor (hs.discreet.imp_left fun h => h.trans (sealed_mark.checks hk))
  | firedElsewhere hc => exact Or.inl (sealed_mark.fire rfl)
  | sendUnwatched hc =>
    refine Or.inl ((sealed_mark.unwatchSendPermit _).trans (.finish ?_))
    rw [(hw.unwatchSendPermit_calls (by simp [hc, Call.receives]) _).trans hc,
      sealed_mark.watched]
    exact id
  | recvUnwatched hc =>
    refine Or.inl ((sealed_mark.unwatchRecvPermit _).trans (.finish ?_))
    rw [(hw.unwatchRecvPermit_calls (by simp [hc, Call.receives]) _).trans hc,
      sealed_mark.watched]
    exact id
  | sendConsumed hc _ _ hs => exact hor (hs.discreet hw (hw.detached_of_permitted hc))
  | recvConsumed hc _ _ hs => exact hor (hs.discreet hw (hw.detached_of_permitted hc))
  | closed => exact Or.inr (Or.inr rfl)

/-- Only a `close` closes the channel, and nothing opens it again. -/
theorem closed_step {capacity : Capacity} (h : Reachable (system T capacity) c) {e : Event T}
    (hs : c.step e = some d) (he : e ≠ .close) : d.closed = c.closed := by
  refine ((reachable_invariant h).effect (move_of_step hs)).closed fun hr => ?_
  cases e with
  | close => exact he rfl
  | resume i =>
    simp only [Config.role] at hr
    split at hr
    · split at hr <;> cases hr
    · cases hr
  | consumeSend i value | consumeRecv i =>
    simp only [Config.role] at hr
    split at hr <;> cases hr
  | _ => cases hr

theorem close_closed (c : Config T) : c.close.closed = true := by
  unfold Config.close
  dsimp only
  split
  · rw [closeReceivers_frame, closeSenders_frame]
  · rw [closeSenders_frame]

theorem close_step {e : Event T} (hs : c.step e = some d) (he : e = .close) : d.closed = true := by
  subst he
  simp only [Config.step] at hs
  split at hs
  · cases hs
  · cases hs
    exact close_closed c

theorem sealed_closed {capacity : Capacity} (h : Reachable (system T capacity) c) {i : ℕ}
    (hi : (c.calls i).sealed = true) : c.closed = true := by
  induction h with
  | init => cases hi
  | @step s d e hr hs ih =>
    have hs : s.step e = some d := hs
    by_cases he : e = .close
    · exact close_step hs he
    · rw [closed_step hr hs he]
      rcases (move_of_step hs).discreet (reachable_invariant hr).wellFormed with hq | hc | hc
      · exact ih (hq i hi)
      · exact hc
      · exact absurd hc he

end ParallelChannel
