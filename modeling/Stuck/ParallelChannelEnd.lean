import Stuck.ParallelChannelMarks
import Stuck.ParallelChannelOrder

/-! The end of the stream of a parallel channel: in which states a receiver can see it, and
that nothing is received or accepted from then on. -/
namespace ParallelChannel

open TransitionSystem OneShot SharedTypes WaitQueue

variable {T : Type*} {c d m : Config T}

/-- Closed, with an empty deque and no reserved send in flight. -/
structure State.Ended (s : State T) : Prop where
  closed : s.closed = true
  drained : s.deque = []
  settled : s.sendPermits = 0

/-- The call has observed the end, or a waker has put the end into its cell. -/
def Call.seesEnd : Call T → Bool
  | .received (.error .closed)
  | .waiting (.recv _) _ (.fired (.permit .closed))
  | .waiting (.recv _) _ (.fired (.received none)) => true
  | .waiting (.select _ slice _) _ (.fired (.selected index .closed))
  | .permitted (.select _ slice _) index .closed => slice[index]? == some (some .recv)
  | _ => false

theorem Call.seesEnd_closed {caller : Caller} {slice : Slice} {identifier index : ℕ} {side : Side}
    (h : slice[index]? = some (some side)) :
    (Call.permitted (.select caller slice identifier) index .closed : Call T).seesEnd =
      (side == .recv) := by
  change (slice[index]? == some (some .recv)) = _
  rw [h]
  rfl

theorem State.ended_of_not_isRecvable {s : State T} (hc : s.closed = true)
    (hr : s.isRecvable = false) : s.Ended := by
  have hl : s.deque.length = 0 ∧ s.sendPermits = 0 := by
    simpa [State.isRecvable, State.recvableLen] using hr
  exact ⟨hc, List.length_eq_zero_iff.mp hl.1, hl.2⟩

/-- The receive permits are backed by values, until the closed channel has no send in flight
and its permittees contend for the values left. -/
def Levels.Backed (l : Levels) : Prop :=
  l.recvPermits ≤ l.length ∨ (l.closed = true ∧ l.sendPermits = 0)

theorem WakesSender.backed (hw : WakesSender c d) (hn : c.nextSender.isSome → c.closed = false)
    (h : c.levels.Backed) (hr : c.closed = false → c.recvPermits ≤ c.deque.length) :
    d.levels.Backed := by
  cases hw with
  | idle _ _ _ hl => rw [hl]; exact h
  | pushed w hs _ _ _ hl =>
    have := hr (hn (by simp [hs]))
    rw [hl]
    exact Or.inl (by simp only [Config.levels]; omega)
  | granted s hs _ hl =>
    rw [hl]
    exact Or.inl (hr (hn (by simp [hs])))

theorem WakesReceiver.backed (hw : WakesReceiver c d)
    (hr : c.recvPermits < c.deque.length) : d.levels.Backed := by
  cases hw with
  | idle _ _ _ hl | granted _ _ _ _ hl | handed _ _ _ _ hl =>
    rw [hl]
    exact Or.inl (by simp only [Config.levels]; omega)

theorem WellFormed.nextSender_open (h : WellFormed c) (hn : c.nextSender.isSome = true) :
    c.closed = false := by
  cases hc : c.closed with
  | false => rfl
  | true => simp [Config.nextSender, h.closed_senders hc, takeFirst] at hn

theorem Effect.backed {role : Role} (he : Effect c role d) (h : Invariant c)
    (hb : c.levels.Backed) : d.levels.Backed := by
  have hr := h.reserved
  have hopen := h.wellFormed.nextSender_open
  cases he with
  | still hl | senderQueued _ _ hl | receiverQueued _ _ hl => rw [hl]; exact hb
  | sendGranted ho _ hl => rw [hl]; exact Or.inl (hr ho)
  | recvGranted hg hl =>
    rw [hl]
    rcases hg with hg | ⟨hc, hs, _⟩
    · exact Or.inl hg
    · exact Or.inr ⟨hc, hs⟩
  | pushed ho _ _ hl hw | delivered ho _ _ hl hw =>
    have := hr ho
    simp only [Config.levels, Levels.mk.injEq] at hl
    exact hw.backed (by omega)
  | stored _ hp hl =>
    rw [hl]
    rcases hb with hb | ⟨_, hs⟩
    · exact Or.inl (Nat.le_succ_of_le hb)
    · simp only [Config.levels] at hs
      omega
  | popped hlt hq hl hw =>
    have hl' := hl
    simp only [Config.levels, Levels.mk.injEq] at hl'
    refine hw.backed ?_ ?_ (by omega)
    · rw [hq.sender, hl'.1]; exact hopen
    · rw [hl]; exact Or.inl (by simp only [Config.levels]; omega)
  | refilled hp hlen ho _ hq hl hw =>
    have := hr ho
    have hl' := hl
    simp only [Config.levels, Levels.mk.injEq] at hl'
    refine hw.backed ?_ ?_ (by omega)
    · rw [hq.sender, hl'.1]; exact hopen
    · rw [hl]; exact Or.inl (by simp only; omega)
  | taken hp hlen _ _ hl =>
    rw [hl]
    rcases hb with hb | hb
    · simp only [Config.levels] at hb
      exact Or.inl (by simp only; omega)
    · exact Or.inr hb
  | exhausted hp hc hlen hd hl =>
    simp only [State.recvableLen] at hlen
    rw [hl]
    exact Or.inr ⟨hc, by simp only [Config.levels]; omega⟩
  | drained hp hc hd hl =>
    rw [hl]
    rcases hb with hb | hb
    · simp only [Config.levels, hd, List.length_nil] at hb
      omega
    · exact Or.inr hb
  | closing hl =>
    rw [hl]
    rcases hb with hb | ⟨_, hs⟩
    · exact Or.inl hb
    · exact Or.inr ⟨rfl, hs⟩

theorem reachable_backed {capacity : Capacity} (h : Reachable (system T capacity) c) :
    c.levels.Backed :=
  Reachable.invariant_over (B := Invariant) (I := fun c => c.levels.Backed)
    (fun _ => reachable_invariant) (Or.inl (by simp [system, initial, Config.levels]))
    (fun _ _ _ hi hb hs => (hi.effect (move_of_step hs)).backed hi hb) h

/-- No call that had not seen the end sees it. -/
def Quiet (c d : Config T) : Prop :=
  ∀ i, (d.calls i).seesEnd = true → (c.calls i).seesEnd = true

theorem Quiet.of_eq (h : d.calls = c.calls) : Quiet c d := Spares.of_eq h

theorem Quiet.trans (h : Quiet c m) (h' : Quiet m d) : Quiet c d := Spares.trans h h'

theorem Quiet.finish {i : ℕ} {k : Call T}
    (h : k.seesEnd = true → (c.calls i).seesEnd = true) : Quiet c (c.finish i k) :=
  Spares.finish h

theorem Quiet.ends {i : ℕ} {k : Call T} (h : k.seesEnd = false) : Quiet c (c.finish i k) :=
  Spares.ends h

theorem Quiet.begin {k : Call T} (h : k.seesEnd = false) : Quiet c (c.begin k) := Spares.begin h

theorem seesEnd_mark : Mark (Call.seesEnd (T := T)) where
  watched op watched watched' cell := by
    cases cell with
    | fired o => cases op <;> rcases o with _ | (_ | _) | (_ | _) | ⟨_, _ | _⟩ | _ <;> rfl
    | _ => cases op <;> rfl
  cancelled op _ := by cases op <;> rfl
  fired op watched o h := by
    rcases o with _ | (_ | _) | (_ | _) | ⟨_, _ | _⟩ | _ <;> cases op <;> first | rfl | cases h
  sent _ := rfl
  received _ := rfl

/-- The outcome does not tell the call of the end. -/
def Outcome.silent (call : Call T) (o : Outcome T) : Prop :=
  (call.fire o).seesEnd = true → call.seesEnd = true

theorem Outcome.silent_of_false {call : Call T} {o : Outcome T} (h : (call.fire o).seesEnd = false) :
    o.silent call := fun hk => absurd (h.symm.trans hk) Bool.false_ne_true

theorem Quiet.fire {i : ℕ} {o : Outcome T} (h : o.silent (c.calls i)) : Quiet c (c.fire i o) :=
  .finish h

theorem Outcome.silent_sent (result : Except (SendError T) Unit) (call : Call T) :
    (Outcome.sent result).silent call := by
  cases call with
  | waiting op watched cell =>
    cases cell with
    | pending => cases op <;> exact silent_of_false rfl
    | _ => exact id
  | _ => exact id

/-- The end of the sending side is none of the receiving side. -/
theorem Call.silent_selected {call : Call T} {s : Selector}
    (hs : call.selects .send s = true) (permit : Permit) :
    (Outcome.selected s.index permit : Outcome T).silent call := by
  cases call with
  | waiting op watched cell =>
    cases op with
    | select caller slice identifier =>
      simp only [selects, Bool.and_eq_true, beq_iff_eq] at hs
      have hpermit : (permitted (.select caller slice identifier) s.index .closed : Call T).seesEnd =
          false := seesEnd_closed hs.2
      cases cell with
      | pending => cases permit <;> exact Outcome.silent_of_false (by first | rfl | exact hpermit)
      | _ => exact id
    | _ => cases hs
  | _ => exact id

theorem quiet_fireAll {wakes : List (ℕ × Outcome T)}
    (h : ∀ wake ∈ wakes, wake.2.silent (c.calls wake.1)) : Quiet c (c.fireAll wakes) := by
  intro i hi
  rcases fireAll_calls c wakes i with ⟨he, _⟩ | ⟨wake, hm, rfl, he⟩
  · rwa [he] at hi
  · rw [he] at hi
    exact h wake hm hi

theorem WellFormed.quiet_closeSenders (h : WellFormed c) (closed : Bool) :
    Quiet c { c with closed := closed }.closeSenders := by
  rw [closeSenders_eq]
  refine (Quiet.of_eq (d := { c with closed := closed, senders := [] }) rfl).trans
    (quiet_fireAll ?_)
  intro wake hm
  obtain ⟨w, hw, rfl⟩ := List.mem_map.mp hm
  have hv := h.senders_valid w hw
  cases w with
  | task i value | thread i value => exact Outcome.silent_sent _ _
  | selector s => exact Call.silent_selected hv .closed

/-- A call sees the end after the step only where it did before, or the stream has ended. -/
def Reveals (c d : Config T) : Prop := Quiet c d ∨ d.Ended

theorem ConsumesRecv.reveals {i : ℕ} {op : Op T} (hs : ConsumesRecv c i op d) (hw : WellFormed c)
    (hi : Detached c i) (hb : c.levels.Backed) : Reveals c d := by
  cases hs with
  | underflow => exact Or.inl ((Quiet.ends rfl).trans (.of_eq rfl))
  | drained hp hd =>
    right
    rcases hb with hb | ⟨hc, hs⟩
    · simp only [Config.levels, hd, List.length_nil] at hb
      omega
    · exact ⟨hc, hd, hs⟩
  | kept => exact Or.inl seesEnd_mark.takeReserved
  | refilled =>
    exact Or.inl (Quiet.trans seesEnd_mark.takeReserved
      (seesEnd_mark.wakeSender (hw.takeReserved hi _ _)))
  | exhausted _ _ hc hr =>
    right
    obtain ⟨hc, hd, hs⟩ := State.ended_of_not_isRecvable
      (s := (c.takeReserved i _ _).toState) hc hr
    rw [closeReceivers_frame]
    exact ⟨hc, hd, hs⟩

theorem ConsumesSend.quiet {i : ℕ} {op : Op T} {value : T} (hs : ConsumesSend c i op value d)
    (hw : WellFormed c) (hi : Detached c i) : Quiet c d := by
  cases hs with
  | noPermit => exact (Quiet.ends rfl).trans (.of_eq rfl)
  | noSlot =>
    exact (Quiet.of_eq (d := { c with sendPermits := c.sendPermits - 1 }) rfl).trans
      ((Quiet.ends rfl).trans (.of_eq rfl))
  | delivered =>
    exact Quiet.trans seesEnd_mark.fillReserved (seesEnd_mark.wakeReceiver (hw.fillReserved hi value))
  | stored => exact seesEnd_mark.fillReserved

theorem WatchesSend.quiet {s : Selector} {available : Bool}
    (hs : WatchesSend c s (d, available)) (hb : (c.calls s.waker).selects .send s = true) :
    Quiet c d := by
  cases hs with
  | closed => exact .fire (Call.silent_selected hb .closed)
  | granted =>
    exact (Quiet.of_eq (d := { c with sendPermits := c.sendPermits + 1 }) rfl).trans
      (seesEnd_mark.fire rfl)
  | late | queued => exact .of_eq rfl

theorem WatchesRecv.reveals {s : Selector} {available : Bool}
    (hs : WatchesRecv c s (d, available)) : Reveals c d := by
  cases hs with
  | granted =>
    exact Or.inl ((Quiet.of_eq (d := { c with recvPermits := c.recvPermits + 1 }) rfl).trans
      (seesEnd_mark.fire rfl))
  | closed hc hs hd => exact Or.inr ⟨hc, hd, hs⟩
  | late | queued => exact Or.inl (.of_eq rfl)

theorem WellFormed.close_reveals (h : WellFormed c) : Reveals c c.close := by
  unfold Config.close
  dsimp only
  split
  next hr =>
    right
    rw [closeReceivers_frame]
    have hc : ({ c with closed := true } : Config T).closeSenders.closed = true := by
      rw [closeSenders_frame]
    obtain ⟨hc, hd, hs⟩ := State.ended_of_not_isRecvable hc (by simpa using hr)
    exact ⟨hc, hd, hs⟩
  next => exact Or.inl (h.quiet_closeSenders true)

theorem Move.reveals {e : Event T} (hm : Move c e d) (hw : WellFormed c)
    (hb : c.levels.Backed) : Reveals c d := by
  cases hm with
  | sendRefused | selectStarted => exact Or.inl (.begin rfl)
  | sendPanicked | recvPanicked => exact Or.inl ((Quiet.begin rfl).trans (.of_eq rfl))
  | sendNow => exact Or.inl (seesEnd_mark.sendNow hw _)
  | sendTask | sendThread =>
    exact Or.inl ((Quiet.of_eq (d := c.enqueueSender _) rfl).trans (.begin rfl))
  | @recvRefused _ _ error he =>
    cases error with
    | empty => exact Or.inl (.begin rfl)
    | closed =>
      obtain ⟨hc, hr⟩ := he rfl
      obtain ⟨hc, hd, hs⟩ := State.ended_of_not_isRecvable hc hr
      exact Or.inr ⟨hc, hd, hs⟩
  | recvNow => exact Or.inl (seesEnd_mark.takeFree hw _ _)
  | recvOverflowed =>
    exact Or.inl (Quiet.trans (seesEnd_mark.takeFree hw _ _)
      ((Quiet.ends rfl).trans (.of_eq rfl)))
  | recvTask | recvThread =>
    exact Or.inl ((Quiet.of_eq (d := c.enqueueReceiver _) rfl).trans (.begin rfl))
  | sendReturned | recvReturned | waitPanicked | returnedElsewhere =>
    exact Or.inl (.ends rfl)
  | recvClosed hc ho =>
    refine Or.inl (.finish fun _ => ?_)
    rw [hc]
    rcases ho with rfl | rfl <;> rfl
  | recvResumed hc _ hs => exact hs.reveals hw (hw.detached_of_woken hc) hb
  | @selectReturned _ _ _ _ _ permit hc =>
    refine Or.inl (.finish ?_)
    rw [hc]
    cases permit <;> exact id
  | @cancelled _ op => exact Or.inl (.ends (by cases op <;> rfl))
  | sendSelected hi he =>
    rcases selectSendPermit_cases c.toState with ⟨_, h'⟩ | ⟨_, _, h'⟩ | ⟨_, _, h'⟩ <;>
      rw [h'] at he <;> cases he
    · exact Or.inl ((Quiet.begin (Call.seesEnd_closed hi)).trans (.of_eq rfl))
    · exact Or.inl ((Quiet.of_eq (d := c.setState _) rfl).trans (.begin rfl))
  | recvSelected hi he =>
    rcases selectRecvPermit_cases c.toState with ⟨_, h'⟩ | ⟨hc, hs, hd, h'⟩ | ⟨_, _, h'⟩ <;>
      rw [h'] at he <;> cases he
    · exact Or.inl ((Quiet.of_eq (d := c.setState _) rfl).trans (.begin rfl))
    · exact Or.inr ⟨hc, hd, hs⟩
  | sendWatched hc hn hi hs hk =>
    exact Or.inl ((hs.quiet (by simp [hc, Call.selects, hi])).trans (seesEnd_mark.checks hk))
  | recvWatched hc hn hi hs hk =>
    rcases hs.reveals with hq | he
    · exact Or.inl (hq.trans (seesEnd_mark.checks hk))
    · cases hk with
      | counted => exact Or.inr he
      | broken => exact Or.inr he
  | firedElsewhere hc =>
    exact Or.inl (seesEnd_mark.fire rfl)
  | sendUnwatched hc =>
    refine Or.inl (Quiet.trans (seesEnd_mark.unwatchSendPermit _) (.finish ?_))
    rw [(hw.unwatchSendPermit_calls (by simp [hc, Call.receives]) _).trans hc]
    rw [seesEnd_mark.watched]
    exact id
  | recvUnwatched hc =>
    refine Or.inl (Quiet.trans (seesEnd_mark.unwatchRecvPermit _) (.finish ?_))
    rw [(hw.unwatchRecvPermit_calls (by simp [hc, Call.receives]) _).trans hc]
    rw [seesEnd_mark.watched]
    exact id
  | sendDetached => exact Or.inl (.ends rfl)
  | recvDetached hc hi => exact Or.inl (.finish fun _ => by rw [hc]; exact Call.seesEnd_closed hi)
  | sendConsumed hc _ _ hs => exact Or.inl (hs.quiet hw (hw.detached_of_permitted hc))
  | recvConsumed hc _ _ hs => exact hs.reveals hw (hw.detached_of_permitted hc) hb
  | closed => exact hw.close_reveals

/-- What a receiver or a sender of the channel can tell from its stream. -/
structure Stream (T : Type*) where
  closed : Bool
  deque : List T
  sendPermits : ℕ
  accepted : List (ℕ × T)
  handed : List (ℕ × T)

def Config.stream (c : Config T) : Stream T :=
  ⟨c.closed, c.deque, c.sendPermits, c.accepted, c.handed⟩

theorem removeReceiver_stream (position : ℕ) : (c.removeReceiver position).stream = c.stream := by
  unfold Config.removeReceiver
  split
  next w _ => cases w <;> rfl
  next => rfl

theorem State.Ended.selectRecvPermit {s s' : State T} {permit : Permit} (h : s.Ended)
    (he : s.selectRecvPermit = (some permit, s')) : s' = s := by
  have hd := h.drained
  rcases selectRecvPermit_cases s with ⟨hl, h'⟩ | ⟨_, _, _, h'⟩ | ⟨_, _, h'⟩ <;>
    rw [h'] at he <;> cases he
  · simp [hd] at hl
  · rfl

theorem State.Ended.selectSendPermit {s s' : State T} {permit : Permit} (h : s.Ended)
    (he : s.selectSendPermit = (some permit, s')) : s' = s := by
  have hc := h.closed
  rcases selectSendPermit_cases s with ⟨_, h'⟩ | ⟨ho, _, h'⟩ | ⟨_, _, h'⟩ <;>
    rw [h'] at he <;> cases he
  · rfl
  · simp [hc] at ho

theorem close_ended (h : c.Ended) : c.close.stream = c.stream := by
  have hc := h.closed
  unfold Config.close
  dsimp only
  split
  · rw [closeReceivers_frame, closeSenders_frame]
    simp [Config.stream, hc]
  · rw [closeSenders_frame]
    simp [Config.stream, hc]

theorem Checks.stream {i index : ℕ} {available ready : Bool}
    (hk : Checks c i index available ready d) : d.stream = c.stream := by
  cases hk <;> rfl

/-- After the end no event moves a value or reserves a slot. -/
theorem Move.ended {e : Event T} (hm : Move c e d) (h : c.Ended) : d.stream = c.stream := by
  have hc : c.closed ≠ false := by simp [h.closed]
  have hd := h.drained
  have hs := h.settled
  have hr : c.isRecvable ≠ true := by simp [State.isRecvable, State.recvableLen, hd, hs]
  cases hm with
  | sendRefused | sendPanicked | recvRefused | recvPanicked | selectStarted | sendReturned
  | recvClosed | recvReturned | waitPanicked | selectReturned | returnedElsewhere | cancelled
  | firedElsewhere | sendDetached | recvDetached => rfl
  | sendNow ho | sendTask ho | sendThread ho => exact absurd ho hc
  | recvNow hcons | recvOverflowed hcons => simp [hd] at hcons
  | recvTask _ hl | recvThread _ hl => exact absurd (hl h.closed) hr
  | recvResumed _ _ hk | recvConsumed _ _ _ hk =>
    cases hk with
    | underflow | drained => rfl
    | kept _ hcons | refilled _ hcons | exhausted _ hcons => simp [hd] at hcons
  | sendSelected _ he => rw [h.selectSendPermit he]; rfl
  | recvSelected _ he => rw [h.selectRecvPermit he]; rfl
  | sendWatched _ _ _ hw hk =>
    rw [hk.stream]
    cases hw with
    | closed | late => rfl
    | granted ho | queued ho => exact absurd ho hc
  | recvWatched _ _ _ hw hk =>
    rw [hk.stream]
    cases hw with
    | closed | late => rfl
    | granted hg => simp [hd] at hg
    | queued _ hp =>
      have := hp h.closed
      omega
  | sendUnwatched =>
    refine Eq.trans (b := (c.unwatchSendPermit _).stream) rfl ?_
    unfold Config.unwatchSendPermit
    split
    · exact removeReceiver_stream _
    · rfl
  | recvUnwatched =>
    refine Eq.trans (b := (c.unwatchRecvPermit _).stream) rfl ?_
    unfold Config.unwatchRecvPermit
    split
    · exact removeReceiver_stream _
    · rfl
  | sendConsumed _ _ _ hk =>
    cases hk with
    | noPermit => rfl
    | noSlot hp | delivered hp | stored hp => omega
  | closed => exact close_ended h

theorem State.Ended.of_stream (h : c.Ended) (he : d.stream = c.stream) : d.Ended := by
  simp only [Config.stream, Stream.mk.injEq] at he
  obtain ⟨hc, hd, hs, _⟩ := he
  exact ⟨hc.trans h.closed, hd.trans h.drained, hs.trans h.settled⟩

variable {capacity : Capacity}

theorem run_ended (h : c.Ended) {es : List (Event T)}
    (hr : (system T capacity).runFrom c es = some d) : d.stream = c.stream := by
  induction es using List.reverseRecOn generalizing d with
  | nil => cases hr; rfl
  | append_singleton es e ih =>
    obtain ⟨m, hm, hs⟩ := run_snoc hr
    have he := ih hm
    exact ((move_of_step hs).ended (h.of_stream he)).trans he

/-- Whoever has seen the end has seen it rightly. -/
def EndSeen (c : Config T) : Prop := ∀ i, (c.calls i).seesEnd = true → c.Ended

theorem EndSeen.step (h : EndSeen c) {e : Event T} (hm : Move c e d) (hw : WellFormed c)
    (hb : c.levels.Backed) : EndSeen d := by
  intro i hi
  rcases hm.reveals hw hb with hq | he
  · have hc := h i (hq i hi)
    exact hc.of_stream (hm.ended hc)
  · exact he

theorem reachable_endSeen (h : Reachable (system T capacity) c) : EndSeen c :=
  Reachable.invariant_over (B := fun c => WellFormed c ∧ c.levels.Backed) (I := EndSeen)
    (fun _ hr => ⟨(reachable_invariant hr).wellFormed, reachable_backed hr⟩)
    (fun _ hi => absurd hi Bool.false_ne_true)
    (fun _ _ _ hb he hs => he.step (move_of_step hs) hb.1 hb.2) h

/-- A receive observes the end only when the channel is closed, its deque empty and no send
reserved. From then on no value is handed to a receive and no send is accepted: a call that
still returns a value, or the success of its send, has had it before. -/
theorem end_is_final (h : Reachable (system T capacity) c) :
    (∀ i, c.calls i = .received (.error .closed) → c.Ended) ∧
    (∀ i caller slice identifier index,
      c.calls i = .permitted (.select caller slice identifier) index .closed →
        slice[index]? = some (some .recv) → c.Ended) ∧
    (c.Ended → ∀ es d, (system T capacity).runFrom c es = some d →
      d.Ended ∧ d.handed = c.handed ∧ d.accepted = c.accepted ∧
      (∀ i value, d.calls i = .received (.ok value) → c.handedOf i = [value]) ∧
      ∀ i value, d.calls i = .sent value (.ok ()) → c.acceptedOf i = [value]) := by
  have hseen := reachable_endSeen h
  refine ⟨fun i hi => hseen i (by rw [hi]; rfl), ?_, ?_⟩
  · intro i caller slice identifier index hi hslice
    exact hseen i (by rw [hi]; exact Call.seesEnd_closed hslice)
  intro hend es d hr
  have he := run_ended hend hr
  have hcons := reachable_conserved (h.run hr)
  have hlog := he
  simp only [Config.stream, Stream.mk.injEq] at hlog
  obtain ⟨_, _, _, ha, hh⟩ := hlog
  refine ⟨hend.of_stream he, hh, ha, ?_, ?_⟩
  · intro i value hi
    have := hcons.taken i
    simpa [hi, Call.Takes, Config.handedOf, hh] using this
  · intro i value hi
    have := hcons.sent i
    simpa [hi, Call.Contributes, Config.acceptedOf, ha] using this

/-- A thread blocked in `recv` is handed a value, the channel is closed, another receiver is
told of the end, and only then the thread returns with its value. -/
def lateThreadTrace : List (Event ℕ) :=
  [.recv .thread false, .send .thread true 5, .close, .recv .thread true]

theorem handed_thread_outlives_end : ∃ c d : Config ℕ,
    (system ℕ ⟨1, by decide⟩).runFrom (initial ⟨1, by decide⟩) lateThreadTrace = some c ∧
      c.calls 2 = .received (.error .closed) ∧ c.calls 0 ≠ .received (.ok 5) ∧
      (system ℕ ⟨1, by decide⟩).runFrom c [.resume 0] = some d ∧
      d.calls 0 = .received (.ok 5) := by
  refine ⟨_, _, rfl, rfl, ?_, rfl, rfl⟩
  intro h
  cases h

theorem late_thread_end_is_final : ∃ c d : Config ℕ,
    Reachable (system ℕ ⟨1, by decide⟩) c ∧ c.Ended ∧
      (system ℕ ⟨1, by decide⟩).runFrom c [.resume 0] = some d ∧ c.handedOf 0 = [5] := by
  have hr := run_reachable (M := system ℕ ⟨1, by decide⟩) lateThreadTrace rfl
  obtain ⟨hseen, _, hfinal⟩ := end_is_final hr
  have hend := hseen 2 rfl
  obtain ⟨_, _, _, hvalue, _⟩ := hfinal hend [.resume 0] _ rfl
  exact ⟨_, _, hr, hend, rfl, hvalue 0 5 rfl⟩

end ParallelChannel
