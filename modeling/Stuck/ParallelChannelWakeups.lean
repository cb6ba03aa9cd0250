import Stuck.ParallelChannelLevels

/-! Whether a live waiter of a parallel channel can be left behind: a receiver beside a free
value, a sender beside a free slot, a receiver on a closed channel that nobody will drain. -/
namespace ParallelChannel

open TransitionSystem OneShot SharedTypes WaitQueue

variable {T : Type*} {c d m : Config T}

/-- A waiter that is neither cancelled nor woken is queued in `receivers`. -/
def Config.ReceiverQueued (c : Config T) : Prop := ∃ w ∈ c.receivers, w.live c.calls = true

def Config.SenderQueued (c : Config T) : Prop := ∃ w ∈ c.senders, w.live c.calls = true

/-- Every buffered value is reserved by a woken receiver while a receiver waits. -/
def ReceiversServed (c : Config T) : Prop :=
  c.closed = false → c.ReceiverQueued → c.deque.length ≤ c.recvPermits

/-- `consume_recv_permit` frees a slot of a full channel and `wake_sender` fills it with the
value of a blocked task or thread, while a receiver is queued: nothing wakes that receiver. -/
def RefillsUnnoticed (c : Config T) (e : Event T) : Prop :=
  c.role e = .consumes .recv ∧ c.closed = false ∧ c.isFull = true ∧ c.ReceiverQueued ∧
    ∃ w, c.nextSender = some w ∧ w.direct.isSome = true

/-- A sender waits only while the channel is open and full. -/
def SendersServed (c : Config T) : Prop :=
  c.SenderQueued → c.closed = false ∧ c.deque.length + c.sendPermits = c.bound

/-- `consume_send_permit` has its value handed to a blocked thread, so its slot is free again,
while a sender is queued: nothing wakes that sender. -/
def HandsOverUnnoticed (c : Config T) (e : Event T) : Prop :=
  c.role e = .consumes .send ∧ c.closed = false ∧ c.SenderQueued ∧
    ∃ i, c.nextReceiver = some (.thread i)

theorem receiverQueued_iff : c.ReceiverQueued ↔ c.nextReceiver.isSome = true :=
  nextReceiver_isSome.symm

theorem senderQueued_iff : c.SenderQueued ↔ c.nextSender.isSome = true :=
  nextSender_isSome.symm

theorem WakesReceiver.served (hw : WakesReceiver m d)
    (hm : m.nextReceiver.isSome = true → m.deque.length ≤ m.recvPermits + 1) :
    d.nextReceiver.isSome = true → d.deque.length ≤ d.recvPermits := by
  intro hd
  cases hw with
  | idle _ hn => simp [hn] at hd
  | granted _ hn _ _ hl | handed _ hn _ _ hl =>
    have := hm (by simp [hn])
    simp only [Config.levels, Levels.mk.injEq] at hl
    omega

theorem WakesSender.calm (hw : WakesSender c d) : Calm c d := by
  cases hw with
  | idle _ hd hr => exact ⟨by simp [hd], by rw [hr]; exact id⟩
  | pushed _ _ _ hq | granted _ _ hq => exact hq

theorem WakesSender.closed (hw : WakesSender c d) : d.closed = c.closed := by
  cases hw with
  | idle _ _ _ hl | pushed _ _ _ _ _ hl | granted _ _ _ hl => exact congrArg Levels.closed hl

theorem WakesReceiver.closed (hw : WakesReceiver c d) : d.closed = c.closed := by
  cases hw with
  | idle _ _ _ hl | granted _ _ _ _ hl | handed _ _ _ _ hl => exact congrArg Levels.closed hl

theorem WakesReceiver.calm (hw : WakesReceiver c d) : Calm c d := by
  cases hw with
  | idle _ hd hs => exact ⟨by rw [hs]; exact id, by simp [hd]⟩
  | granted _ _ _ hq | handed _ _ hq => exact hq

theorem receiversServed_step (h : Invariant c) (hs : ReceiversServed c) {e : Event T}
    (he : Effect c (c.role e) d) : ReceiversServed d ↔ ¬ RefillsUnnoticed c e := by
  have hb := h.bounded
  unfold ReceiversServed at hs ⊢
  unfold RefillsUnnoticed
  rw [receiverQueued_iff] at hs ⊢
  rw [receiverQueued_iff]
  -- every effect but the refill keeps the receivers served
  generalize c.role e = role at he ⊢
  cases he with
  | still hl hq | sendGranted _ _ hl hq | recvGranted _ hl hq =>
    simp only [Config.levels, Levels.mk.injEq] at hl
    refine iff_of_true (fun ho hd => ?_) (by simp)
    have := hs (hl.1 ▸ ho) (hq.receiver hd)
    omega
  | senderQueued _ _ hl hq =>
    simp only [Config.levels, Levels.mk.injEq] at hl
    refine iff_of_true (fun ho hd => ?_) (by simp)
    have := hs (hl.1 ▸ ho) (hq hd)
    omega
  | receiverQueued hn _ hl =>
    simp only [Config.levels, Levels.mk.injEq] at hl
    simp only [State.isEmpty, decide_eq_true_eq] at hn
    exact iff_of_true (fun _ _ => by omega) (by simp)
  | pushed ho _ hq hl hw | delivered ho _ hq hl hw =>
    simp only [Config.levels, Levels.mk.injEq] at hl
    refine iff_of_true (fun _ => hw.served fun hm => ?_) (by simp)
    rw [hq.receiver] at hm
    have := hs ho hm
    omega
  | stored hc _ hl | closing hl | exhausted _ hc _ _ hl | drained _ hc _ hl =>
    simp only [Config.levels, Levels.mk.injEq] at hl
    refine iff_of_true (fun ho => ?_) (by simp [*])
    simp_all
  | popped hlt hq hl hw =>
    simp only [Config.levels, Levels.mk.injEq] at hl
    have hclosed : d.closed = c.closed := hw.closed.trans hl.1
    refine iff_of_true (fun ho hd => ?_) (by simp)
    have := hs (hclosed ▸ ho) (hq.receiver ▸ hw.calm.receiver hd)
    omega
  | taken hp hlen _ hf hl hq =>
    simp only [Config.levels, Levels.mk.injEq] at hl
    refine iff_of_true (fun ho hd => ?_) (by simp +contextual [hf])
    have := hs (hl.1 ▸ ho) (hq.receiver hd)
    omega
  | refilled hp hlen ho hf hq hl hw =>
    simp only [Config.levels, Levels.mk.injEq] at hl
    have hr := hb.reserved ho
    simp only [Config.levels] at hr
    cases hw with
    | idle hn _ hrm hd =>
      simp only [Config.levels, Levels.mk.injEq] at hd
      refine iff_of_true (fun _ hd' => ?_) ?_
      · have := hs ho (by rwa [hrm, hq.receiver] at hd')
        omega
      · rintro ⟨_, _, _, _, w, hw, _⟩
        rw [hq.sender, hw] at hn
        cases hn
    | granted s hn hqm hd =>
      simp only [Config.levels, Levels.mk.injEq] at hd
      refine iff_of_true (fun _ hd' => ?_) ?_
      · have := hs ho (hq.receiver ▸ hqm.receiver hd')
        omega
      · rintro ⟨_, _, _, _, w, hw, hdirect⟩
        rw [hq.sender, hw] at hn
        cases hn
        cases hdirect
    | pushed w hn hdirect hqm hrm hd =>
      simp only [Config.levels, Levels.mk.injEq] at hd
      have hrecv : d.nextReceiver = c.nextReceiver := hrm.trans hq.receiver
      rw [hrecv, hd.1, hl.1]
      constructor
      · rintro hserved ⟨_, _, _, hr', _⟩
        have := hserved ho hr'
        omega
      · intro hn' _ hr'
        exact absurd ⟨rfl, ho, hf, hr', w, hq.sender ▸ hn, hdirect⟩ hn'

/-- A slot that is freed while a sender waits is filled or promised again. -/
theorem WakesSender.served (hw : WakesSender m d) (hm : m.nextSender.isSome = true →
      m.closed = false ∧ m.deque.length + m.sendPermits + 1 = m.bound) :
    d.nextSender.isSome = true → d.closed = false ∧ d.deque.length + d.sendPermits = d.bound := by
  intro hd
  cases hw with
  | idle _ hn => simp [hn] at hd
  | pushed _ hn _ _ _ hl | granted _ hn _ hl =>
    have := hm (by simp [hn])
    simp only [Config.levels, Levels.mk.injEq] at hl
    exact ⟨hl.1.trans this.1, by omega⟩

theorem sendersServed_step (h : Invariant c) (hs : SendersServed c) {e : Event T}
    (he : Effect c (c.role e) d) : SendersServed d ↔ ¬ HandsOverUnnoticed c e := by
  unfold SendersServed at hs ⊢
  unfold HandsOverUnnoticed
  rw [senderQueued_iff] at hs ⊢
  rw [senderQueued_iff]
  have hclosed : c.closed = true → c.nextSender.isSome = false := by
    intro hc
    simp [Config.nextSender, h.wellFormed.closed_senders hc, takeFirst]
  -- every effect but the hand-over keeps the channel full while a sender waits
  generalize c.role e = role at he ⊢
  cases he with
  | still hl hq | recvGranted _ hl hq =>
    simp only [Config.levels, Levels.mk.injEq] at hl
    refine iff_of_true (fun hd => ?_) (by simp)
    have := hs (hq.sender hd)
    exact ⟨hl.1.trans this.1, by omega⟩
  | receiverQueued _ _ hl hq =>
    simp only [Config.levels, Levels.mk.injEq] at hl
    refine iff_of_true (fun hd => ?_) (by simp)
    have := hs (hq hd)
    exact ⟨hl.1.trans this.1, by omega⟩
  | senderQueued ho hf hl =>
    simp only [Config.levels, Levels.mk.injEq] at hl
    rw [isFull_iff] at hf
    exact iff_of_true (fun _ => ⟨hl.1.trans ho, by omega⟩) (by simp)
  | sendGranted _ hf hl hq =>
    refine iff_of_true (fun hd => ?_) (by simp)
    have hfull := (isFull_iff _).mpr (hs (hq.sender hd)).2
    rw [hf] at hfull
    cases hfull
  | pushed _ hf hq _ hw =>
    refine iff_of_true (fun hd => ?_) (by simp)
    have hfull := (isFull_iff _).mpr (hs (hq.sender ▸ hw.calm.sender hd)).2
    rw [hf] at hfull
    cases hfull
  | delivered ho hp hq hl hw =>
    simp only [Config.levels, Levels.mk.injEq] at hl
    cases hw with
    | idle hn _ hsm hd =>
      simp only [Config.levels, Levels.mk.injEq] at hd
      refine iff_of_true (fun hd' => ?_) ?_
      · have := hs (by rwa [hsm, hq.sender] at hd')
        exact ⟨by rw [hd.1, hl.1, ho], by omega⟩
      · rintro ⟨_, _, _, i, hi⟩
        rw [hq.receiver, hi] at hn
        cases hn
    | granted w hn hw' hqm hd =>
      simp only [Config.levels, Levels.mk.injEq] at hd
      refine iff_of_true (fun hd' => ?_) ?_
      · have := hs (hq.sender ▸ hqm.sender hd')
        exact ⟨by rw [hd.1, hl.1, ho], by omega⟩
      · rintro ⟨_, _, _, i, hi⟩
        rw [hq.receiver, hi] at hn
        exact hw' i (Option.some.inj hn).symm
    | handed i hn hqm hsm hd =>
      simp only [Config.levels, Levels.mk.injEq] at hd
      rw [hsm, hq.sender]
      constructor
      · rintro hserved ⟨_, _, hc, _⟩
        have := (hserved hc).2
        have := (hs hc).2
        omega
      · intro hn' hc
        exact absurd ⟨rfl, ho, hc, i, hq.receiver ▸ hn⟩ hn'
  | stored hc _ _ hq | drained _ hc _ _ hq =>
    refine iff_of_true (fun hd => ?_) (by simp [hc])
    have hsender := hq.sender hd
    simp [hclosed hc] at hsender
  | exhausted _ hc _ _ _ hq =>
    refine iff_of_true (fun hd => ?_) (by simp)
    simp [hclosed hc, hd] at hq
  | popped hlt hq hl hw | refilled _ hlt _ _ hq hl hw =>
    simp only [Config.levels, Levels.mk.injEq] at hl
    refine iff_of_true (hw.served fun hm => ?_) (by simp)
    have := hs (hq.sender ▸ hm)
    exact ⟨hl.1.trans this.1, by omega⟩
  | taken _ _ _ hf _ hq =>
    refine iff_of_true (fun hd => ?_) (by simp)
    obtain ⟨ho, hfull⟩ := hs (hq.sender hd)
    have hfull := (isFull_iff _).mpr hfull
    rw [hf ho] at hfull
    cases hfull
  | closing _ hd => exact iff_of_true (fun hs' => by simp [hd] at hs') (by simp)

/-- `unwatch_send_permit` removes a receiver that is still waiting. -/
def DislodgesReceiver (c : Config T) : Event T → Prop
  | .unwatch i index => ∃ caller slice identifier watched cell position w,
      c.calls i = .waiting (.select caller slice identifier) watched cell ∧
      slice[index]? = some (some .send) ∧
      c.senders.findIdx? (·.matches identifier) = some position ∧
      c.receivers[position]? = some w ∧ w.live c.calls = true
  | _ => False

/-- The call sleeps in `recv`, or in a `select!` with a receiving branch on this channel. -/
def Call.blocked : Call T → Bool
  | .waiting (.recv _) _ .pending => true
  | .waiting (.select _ slice _) watched .pending =>
    watched.any fun index => slice[index]? == some (some .recv)
  | _ => false

/-- A sleeping receiver has a waiter in the queue. -/
def Enqueued (c : Config T) : Prop :=
  ∀ i, (c.calls i).blocked = true → ∃ w ∈ c.receivers, w.call = i

theorem Call.pending_of_blocked {call : Call T} (h : call.blocked = true) :
    call.pending = true := by
  cases call with
  | waiting op watched cell =>
    cases cell <;> cases op <;> simp_all [blocked, pending, Cell.isPending]
  | _ => cases h

/-- The queued receivers whose calls are still pending afterwards are still queued. -/
def Keeps (c d : Config T) : Prop :=
  ∀ w ∈ c.receivers, (d.calls w.call).pending = true → w ∈ d.receivers

theorem Keeps.of_eq (h : d.receivers = c.receivers) : Keeps c d := fun _ hw _ => h ▸ hw

theorem pending_fire_self (c : Config T) (i : ℕ) (o : Outcome T) :
    ((c.fire i o).calls i).pending = false := by
  simp [Config.fire, Config.finish]

theorem keeps_wakeReceiver (h : WellFormed c) (hd : c.deque ≠ []) : Keeps c c.wakeReceiver := by
  intro w hw hp
  have ha : c.Advances true c.wakeReceiver := h.advances_wakeReceiver
  have hlive : w.live c.calls = true := (ha w.call).pending hp
  obtain ⟨value, deque, hd⟩ := List.exists_cons_of_ne_nil hd
  rcases wakeReceiver_cases h.receivers_valid with ⟨hn, _⟩ | ⟨v, rest, ht, he⟩
  · simp [hn w hw] at hlive
  rw [he] at hp ⊢
  rcases takeFirst_covers ht hw hlive with rfl | hr
  · -- the granted waiter is no longer pending
    cases w with
    | task i => simp [RecvWaiter.call, Config.grantReceiver, pending_fire_self] at hp
    | thread i => simp [RecvWaiter.call, Config.grantReceiver, hd, pending_fire_self] at hp
    | selector s => simp [RecvWaiter.call, Config.grantReceiver, pending_fire_self] at hp
  · cases v <;>
      simpa [Config.grantReceiver, hd, Config.fire, Config.finish, Config.popFront] using hr

theorem keeps_closeReceivers (c : Config T) : Keeps c c.closeReceivers := by
  intro w hw hp
  rw [closeReceivers_eq] at hp
  rcases fireAll_calls { c with receivers := [] } (c.receivers.map RecvWaiter.closing) w.call with
    ⟨_, hn⟩ | ⟨wake, _, _, he⟩
  · exact absurd (RecvWaiter.closing_call w) (hn _ (List.mem_map_of_mem hw))
  · rw [he] at hp
    simp at hp

theorem wakeSender_receivers (h : WellFormed c) : c.wakeSender.receivers = c.receivers := by
  rcases wakeSender_cases h.senders_valid with ⟨_, he⟩ | ⟨w, rest, _, he⟩
  · rw [he]
  · rw [he]
    cases w <;> rfl

/-- A removal keeps every receiver but the one at its position. -/
theorem keeps_removeReceiver {position : ℕ}
    (h : ∀ w, c.receivers[position]? = some w → w.live c.calls = false) :
    Keeps c (c.removeReceiver position) := by
  intro w hw hp
  have ha : c.Advances true (c.removeReceiver position) := advances_removeReceiver position
  have hlive : w.live c.calls = true := (ha w.call).pending hp
  unfold Config.removeReceiver
  split
  next v hv =>
    have hm : w ∈ c.receivers.eraseIdx position := by
      obtain ⟨k, hk⟩ := List.mem_iff_getElem?.mp hw
      refine List.mem_eraseIdx_iff_getElem?.mpr ⟨k, ?_, hk⟩
      rintro rfl
      simp [h w hk] at hlive
    cases v <;> exact hm
  next => exact hw

theorem Keeps.trans (h : Keeps c m) (h' : Keeps m d) (ha : m.Advances true d) : Keeps c d :=
  fun w hw hp => h' w (h w hw ((ha w.call).pending hp)) hp

theorem ConsumesRecv.keeps {i : ℕ} {op : Op T} (hs : ConsumesRecv c i op d) (h : WellFormed c)
    (hi : Detached c i) : Keeps c d := by
  cases hs with
  | underflow | drained | kept => exact .of_eq rfl
  | refilled => exact .of_eq (wakeSender_receivers (h.takeReserved hi _ _))
  | exhausted => exact keeps_closeReceivers (c.takeReserved i _ _)

theorem ConsumesSend.keeps {i : ℕ} {op : Op T} {value : T} (hs : ConsumesSend c i op value d)
    (h : WellFormed c) (hi : Detached c i) : Keeps c d := by
  cases hs with
  | noPermit | noSlot | stored => exact .of_eq rfl
  | delivered =>
    exact keeps_wakeReceiver (h.fillReserved hi value) (by simp [Config.fillReserved, Config.pushBack])

theorem keeps_close (c : Config T) : Keeps c c.close := by
  have hs : Keeps c { c with closed := true }.closeSenders := .of_eq (by rw [closeSenders_frame])
  unfold Config.close
  dsimp only
  split
  · exact hs.trans (keeps_closeReceivers _) advances_closeReceivers
  · exact hs

/-- The first match of a living frame's identifier belongs to that `select!`, which has been
woken, or to one that is over. -/
theorem Invariant.unwatched_dead (h : Invariant c) {i index identifier position : ℕ}
    {caller : Caller} {slice : Slice} {watched : List ℕ} {cell : Cell (Outcome T)} {w : RecvWaiter}
    (hc : c.calls i = .waiting (.select caller slice identifier) watched cell)
    (hp : cell ≠ .pending) (hi : index ∈ watched)
    (hf : c.receivers.findIdx? (·.matches identifier) = some position)
    (hw : c.receivers[position]? = some w) : w.live c.calls = false := by
  obtain ⟨hlt, hmatch, _⟩ := List.findIdx?_eq_some_iff_getElem.mp hf
  obtain ⟨_, rfl⟩ := List.getElem?_eq_some_iff.mp hw
  have hv := h.wellFormed.receivers_valid _ (List.getElem_mem hlt)
  generalize c.receivers[position] = w at hv hmatch
  by_contra hlive
  rw [Bool.not_eq_false] at hlive
  cases w with
  | task | thread => cases hmatch
  | selector s =>
    simp only [RecvWaiter.matches, Selector.identify, beq_iff_eq] at hmatch
    simp only [RecvWaiter.live, RecvWaiter.call, RecvWaiter.Valid] at hlive hv
    -- the selector's call and the unwatching one share the identifier
    have hself : (c.calls i).identifies identifier = true := by
      have : watched ≠ [] := List.ne_nil_of_mem hi
      simp [hc, Call.identifies, this]
    have hother : (c.calls s.waker).identifies identifier = true := by
      cases hs : c.calls s.waker with
      | waiting op watched' cell' =>
        have hpend : cell' = .pending := by simpa [hs, Call.pending] using hlive
        subst hpend
        cases op with
        | select _ _ own =>
          simp only [hs, Call.selects, Bool.and_eq_true, beq_iff_eq] at hv
          simp [Call.identifies, Cell.isCancelled, hv.1, hmatch]
        | _ => simp [hs, Call.selects] at hv
      | _ => simp [hs, Call.pending] at hlive
    have heq := h.distinctFrames _ _ _ hother hself
    rw [heq, hc] at hlive
    simp [Call.pending, hp] at hlive

theorem keeps_step (h : Invariant c) {e : Event T} (hm : Move c e d)
    (hn : ¬ DislodgesReceiver c e) : Keeps c d := by
  have hw := h.wellFormed
  cases hm with
  | sendNow =>
    exact keeps_wakeReceiver (c := (c.begin (.sent _ (.ok ()))).pushBack c.created _)
      ((hw.begin (.sent _ (.ok ()))).of_eq rfl rfl rfl rfl rfl) (by simp [Config.pushBack])
  | recvNow | recvOverflowed =>
    exact .of_eq (wakeSender_receivers (c := (c.begin (.received (.ok _))).popFront c.created _ _)
      ((hw.begin (.received (.ok _))).of_eq rfl rfl rfl rfl rfl))
  | recvTask | recvThread => exact fun w hm _ => List.mem_append_left _ hm
  | sendSelected _ he =>
    rcases selectSendPermit_cases c.toState with ⟨_, h'⟩ | ⟨_, _, h'⟩ | ⟨_, _, h'⟩ <;>
      rw [h'] at he <;> cases he <;> exact .of_eq rfl
  | recvSelected _ he =>
    rcases selectRecvPermit_cases c.toState with ⟨_, h'⟩ | ⟨_, _, _, h'⟩ | ⟨_, _, h'⟩ <;>
      rw [h'] at he <;> cases he <;> exact .of_eq rfl
  | recvResumed hc _ hs => exact hs.keeps hw (hw.detached_of_woken hc)
  | sendWatched hc hn hi hs hk =>
    have hr : d.receivers = c.receivers := by
      cases hk <;> cases hs <;> rfl
    exact .of_eq hr
  | recvWatched hc hn hi hs hk =>
    intro w hm _
    cases hk <;> cases hs <;> first | exact hm | exact List.mem_append_left _ hm
  | @sendUnwatched i index caller slice identifier watched cell hc hi hp hmem =>
    have hd := (hw.unwatchSendPermit_calls (by simp [hc, Call.receives]) identifier).trans hc
    refine Keeps.trans (m := c.unwatchSendPermit identifier) ?_ (.of_eq rfl) (advances_unwatch hd hp)
    unfold Config.unwatchSendPermit
    split
    next position hf =>
      refine keeps_removeReceiver fun w hr => ?_
      by_contra hlive
      rw [Bool.not_eq_false] at hlive
      exact hn ⟨_, _, _, _, _, _, w, hc, hi, hf, hr, hlive⟩
    next => exact .of_eq rfl
  | @recvUnwatched i index caller slice identifier watched cell hc hi hp hmem =>
    have hd := (hw.unwatchRecvPermit_calls (by simp [hc, Call.receives]) identifier).trans hc
    refine Keeps.trans (m := c.unwatchRecvPermit identifier) ?_ (.of_eq rfl) (advances_unwatch hd hp)
    unfold Config.unwatchRecvPermit
    split
    next position hf => exact keeps_removeReceiver fun w => h.unwatched_dead hc hp hmem hf
    next => exact .of_eq rfl
  | sendConsumed hc _ _ hs => exact hs.keeps hw (hw.detached_of_permitted hc)
  | recvConsumed hc _ _ hs => exact hs.keeps hw (hw.detached_of_permitted hc)
  | closed => exact keeps_close c
  | _ => exact .of_eq rfl

/-- A `recv` that is pending after its first step has put its waiter into the queue. -/
theorem WellFormed.receiving (h : WellFormed c) {caller : Caller} {trying : Bool}
    (hm : Move c (.recv caller trying) d) (hp : (d.calls c.created).pending = true) :
    ∃ w ∈ d.receivers, w.call = c.created := by
  have hnew : ∀ {value : T} {rest : List T},
      ((c.takeFree value rest).calls c.created).pending = false := by
    intro value rest
    have ha : Call.Advances true _ _ := h.begin_advances_takeFree value rest c.created
    refine Bool.eq_false_iff.mpr fun ht => ?_
    simpa [Config.begin, Call.pending] using ha.pending ht
  cases hm with
  | recvRefused | recvPanicked =>
    simp [Config.begin, Config.poison, Call.pending] at hp
  | recvNow => simp [hnew] at hp
  | recvOverflowed => simp [Config.finish, Config.poison, Call.pending] at hp
  | recvTask => exact ⟨.task c.created, List.mem_append_right _ (by simp), rfl⟩
  | recvThread => exact ⟨.thread c.created, List.mem_append_right _ (by simp), rfl⟩

theorem Call.pending_watch (call : Call T) (index : ℕ) :
    (call.watch index).pending = call.pending := by
  cases call <;> rfl

/-- A watch of a sending branch does not make its `select!` wait for a value. -/
theorem Call.blocked_watch {caller : Caller} {slice : Slice} {identifier index : ℕ}
    {watched : List ℕ} {cell : Cell (Outcome T)} (hi : slice[index]? = some (some .send)) :
    ((Call.waiting (.select caller slice identifier) watched cell).watch index).blocked =
      (Call.waiting (.select caller slice identifier) watched cell).blocked := by
  cases cell with
  | pending => simp [watch, blocked, hi]
  | _ => rfl

theorem enqueued_step (h : Invariant c) (hq : Enqueued c) {e : Event T} (hm : Move c e d)
    (hn : ¬ DislodgesReceiver c e) : Enqueued d := by
  have hw := h.wellFormed
  have hkeep := keeps_step h hm hn
  intro i hb
  have hp := Call.pending_of_blocked hb
  -- a call that slept before this step is still served
  have hold : d.calls i = c.calls i → ∃ w ∈ d.receivers, w.call = i := by
    intro he
    obtain ⟨w, hw, hi⟩ := hq i (he ▸ hb)
    exact ⟨w, hkeep w hw (hi.symm ▸ hp), hi⟩
  cases hwatch : e.isWatch with
  | false =>
    rcases hw.advances hm with ha | ⟨call, hs, ha⟩
    · exact hold ((ha i).kept hwatch hp)
    have hkept := (ha i).kept hwatch hp
    by_cases hi : i = c.created
    · subst hi
      simp only [Config.begin, Function.update_self] at hkept
      rw [hkept] at hb
      cases hs with
      | receiving => exact hw.receiving hm hp
      | _ => cases hb
    · simp only [Config.begin, Function.update_of_ne hi] at hkept
      exact hold hkept
  | true =>
    cases hm with
    | @sendWatched j index caller slice identifier watched cell m _ _ _ hc hlive hi hs hk =>
      have ha : c.Advances false m := hs.advances
      cases hk with
      | broken => exact hold ((ha i).kept rfl hp)
      | counted =>
        by_cases hij : i = j
        · subst hij
          obtain ⟨cell', hm', _⟩ := hs.waiting hc hlive
          have hbm : (m.calls i).blocked = true := by
            rw [hm']
            rw [← Call.blocked_watch hi]
            simpa [Config.finish, hm'] using hb
          have hbc : (c.calls i).blocked = true :=
            (ha i).kept rfl (Call.pending_of_blocked hbm) ▸ hbm
          obtain ⟨w, hw, hwi⟩ := hq i hbc
          exact ⟨w, hkeep w hw (hwi.symm ▸ hp), hwi⟩
        · simp only [Config.finish, Function.update_of_ne hij] at hp hold ⊢
          exact hold ((ha i).kept rfl hp)
    | @recvWatched j index caller slice identifier watched cell m _ _ _ hc hlive hi hs hk =>
      have ha : c.Advances false m := hs.advances
      cases hk with
      | broken => exact hold ((ha i).kept rfl hp)
      | counted =>
        by_cases hij : i = j
        · subst hij
          simp only [Config.finish, Function.update_self, Call.pending_watch] at hp
          cases hs with
          | queued => exact ⟨_, List.mem_append_right _ (List.mem_singleton_self _), rfl⟩
          | closed | granted => simp [pending_fire_self] at hp
          | late hn => simp [hn] at hp
        · simp only [Config.finish, Function.update_of_ne hij] at hp hold ⊢
          exact hold ((ha i).kept rfl hp)
    | _ => cases hwatch

/-- On a closed channel a waiting receiver has a value to come: each buffered value is
reserved, and there is one, or an outstanding send permit. -/
def ClosedReceiversServed (c : Config T) : Prop :=
  c.closed = true → c.ReceiverQueued → c.isRecvable = true ∧ c.deque.length ≤ c.recvPermits

/-- The events that leave a receiver of a closed channel to nobody: `consume_send_permit` stores
a value and wakes none of the receivers queued, or `close` finds one beside a free value. -/
def StrandsClosed (c : Config T) (e : Event T) : Prop :=
  c.ReceiverQueued ∧
    ((c.role e = .consumes .send ∧ c.closed = true) ∨
      (c.role e = .closes ∧ c.closed = false ∧ c.recvPermits < c.deque.length))

theorem closedReceiversServed_step (hs : ClosedReceiversServed c)
    {e : Event T} (he : Effect c (c.role e) d) (hn : ¬ StrandsClosed c e) :
    ClosedReceiversServed d := by
  unfold ClosedReceiversServed at hs ⊢
  unfold StrandsClosed at hn
  rw [receiverQueued_iff] at hs hn ⊢
  rw [isRecvable_iff] at hs ⊢
  generalize c.role e = role at he hn
  intro hc hd
  cases he with
  | still hl hq | recvGranted _ hl hq | sendGranted _ _ hl hq =>
    simp only [Config.levels, Levels.mk.injEq] at hl
    have := hs (hl.1 ▸ hc) (hq.receiver hd)
    omega
  | senderQueued _ _ hl hq =>
    simp only [Config.levels, Levels.mk.injEq] at hl
    have := hs (hl.1 ▸ hc) (hq hd)
    omega
  | receiverQueued hempty hr hl =>
    simp only [Config.levels, Levels.mk.injEq] at hl
    simp only [State.isEmpty, decide_eq_true_eq] at hempty
    have := (isRecvable_iff _).mp (hr (hl.1 ▸ hc))
    omega
  | pushed ho _ _ hl hw | delivered ho _ _ hl hw =>
    simp only [Config.levels, Levels.mk.injEq] at hl
    rw [hw.closed, hl.1, ho] at hc
    cases hc
  | stored ho _ _ hq => exact absurd ⟨hq.receiver hd, Or.inl ⟨rfl, ho⟩⟩ hn
  | popped hlt hq hl hw =>
    simp only [Config.levels, Levels.mk.injEq] at hl
    rw [hw.closed, hl.1] at hc
    have := hs hc (hq.receiver ▸ hw.calm.receiver hd)
    omega
  | taken hp hlen hr _ hl hq =>
    simp only [Config.levels, Levels.mk.injEq] at hl
    have hcc : c.closed = true := hl.1 ▸ hc
    have := hs hcc (hq.receiver hd)
    have := hr hcc
    simp only [State.recvableLen] at this
    omega
  | refilled _ _ ho _ _ hl hw =>
    simp only [Config.levels, Levels.mk.injEq] at hl
    rw [hw.closed, hl.1, ho] at hc
    cases hc
  | exhausted _ _ _ _ _ _ hr => simp [hr] at hd
  | drained hp _ hempty hl hq =>
    simp only [Config.levels, Levels.mk.injEq] at hl
    have := hs (hl.1 ▸ hc) (hq.receiver hd)
    have hlen : c.deque.length = 0 := by simp [hempty]
    omega
  | closing hl _ hq =>
    simp only [Config.levels, Levels.mk.injEq] at hl
    obtain ⟨hqc, hr⟩ := hq hd
    rw [isRecvable_iff] at hr
    cases hcc : c.closed with
    | true =>
      have := hs hcc hqc
      omega
    | false =>
      have : ¬ c.recvPermits < c.deque.length := fun hlt => hn ⟨hqc, Or.inr ⟨rfl, hcc, hlt⟩⟩
      omega

theorem Enqueued.queued (h : Enqueued c) {i : ℕ} (hb : (c.calls i).blocked = true) :
    c.ReceiverQueued := by
  obtain ⟨w, hw, rfl⟩ := h i hb
  exact ⟨w, hw, Call.pending_of_blocked hb⟩

variable {capacity : Capacity}

theorem receiversServed_run (ρ : Execution (system T capacity)) :
    (∀ s, ρ.Visits s → ReceiversServed s) ↔ ∀ s e, ρ.Takes s e → ¬ RefillsUnnoticed s e :=
  ρ.exact (B := Invariant) (fun _ => reachable_invariant)
    (by simp [ReceiversServed, system, Config.ReceiverQueued, initial])
    fun _ _ _ h hs hst => receiversServed_step h hs (h.effect (move_of_step hst))

theorem enqueued_run (ρ : Execution (system T capacity))
    (hn : ∀ s e, ρ.Takes s e → ¬ DislodgesReceiver s e) : ∀ s, ρ.Visits s → Enqueued s :=
  ρ.guarded (B := Invariant) (fun _ => reachable_invariant)
    (by simp [Enqueued, system, initial, Call.blocked])
    (fun _ _ _ h hq hn hst => enqueued_step h hq (move_of_step hst) hn) hn

theorem closedReceiversServed_run (ρ : Execution (system T capacity))
    (hn : ∀ s e, ρ.Takes s e → ¬ StrandsClosed s e) : ∀ s, ρ.Visits s → ClosedReceiversServed s :=
  ρ.guarded (B := Invariant) (fun _ => reachable_invariant)
    (by simp [ClosedReceiversServed, system, initial])
    (fun _ _ _ h hs hn hst => closedReceiversServed_step hs (h.effect (move_of_step hst)) hn) hn

/-- While the channel is open a receiver waits only beside reserved values, exactly as long as
no consumed receive permit refills the slot unnoticed. -/
theorem open_receivers_served (ρ : Execution (system T capacity)) :
    ((∀ s, ρ.Visits s → ReceiversServed s) ↔ ∀ s e, ρ.Takes s e → ¬ RefillsUnnoticed s e) ∧
      ((∀ s e, ρ.Takes s e → ¬ RefillsUnnoticed s e ∧ ¬ DislodgesReceiver s e) →
        ∀ s, ρ.Visits s → s.closed = false → s.sendPermits = 0 → s.recvPermits = 0 →
          (∃ i, (s.calls i).blocked = true) → s.deque = []) := by
  refine ⟨receiversServed_run ρ, ?_⟩
  intro hn s hv ho _ hr ⟨i, hb⟩
  have hserved := (receiversServed_run ρ).mpr (fun s e he => (hn s e he).1) s hv
  have hqueued := (enqueued_run ρ (fun s e he => (hn s e he).2) s hv).queued hb
  have := hserved ho hqueued
  exact List.eq_nil_of_length_eq_zero (by omega)

/-- Two receivers wait, the value of the first send wakes one of them and stays in the deque
while a second sender blocks: the woken receiver takes it and only `wake_sender` runs. -/
def refillTrace : List (Event ℕ) :=
  [.recv (.task .running) false, .recv (.task .running) false, .send (.task .running) false 1,
    .send (.task .running) false 2, .resume 0]

theorem receiver_left_beside_value :
    ¬ ∀ c : Config ℕ, Reachable (system ℕ ⟨1, by decide⟩) c → ReceiversServed c := by
  intro h
  have hc := h _ (run_reachable refillTrace rfl) rfl ⟨.task 1, List.mem_singleton_self _, rfl⟩
  exact absurd hc (by decide)

/-- A sender waits only while the channel is open and full, exactly as long as no consumed send
permit has its value handed to a blocked thread. -/
theorem senders_served (ρ : Execution (system T capacity)) :
    (∀ s, ρ.Visits s → SendersServed s) ↔ ∀ s e, ρ.Takes s e → ¬ HandsOverUnnoticed s e :=
  ρ.exact (B := Invariant) (fun _ => reachable_invariant)
    (by simp [SendersServed, system, Config.SenderQueued, initial])
    fun _ _ _ h hs hst => sendersServed_step h hs (h.effect (move_of_step hst))

/-- The only slot is promised to a `select!`, a thread waits for a value and a task for a slot:
the value of the `select!` goes to the thread, and the slot is free. -/
def handOverTrace : List (Event ℕ) :=
  [.trySelect (.task .running) [some .send] 0 0, .recv .thread false,
    .send (.task .running) false 2, .consumeSend 0 1]

theorem sender_left_beside_slot :
    ¬ ∀ c : Config ℕ, Reachable (system ℕ ⟨1, by decide⟩) c → SendersServed c := by
  intro h
  have hc := h _ (run_reachable handOverTrace rfl) ⟨.task 2 2, List.mem_singleton_self _, rfl⟩
  exact absurd hc.2 (by decide)

/-- A receiver waits on a closed channel only while a permit is out, and none sleeps once all
permits are consumed. -/
theorem closed_receivers_served (ρ : Execution (system T capacity))
    (hn : ∀ s e, ρ.Takes s e → ¬ StrandsClosed s e) :
    ∀ s, ρ.Visits s → s.closed = true →
      (s.ReceiverQueued → 0 < s.sendPermits ∨ 0 < s.recvPermits) ∧
      ((∀ s e, ρ.Takes s e → ¬ DislodgesReceiver s e) → s.sendPermits = 0 → s.recvPermits = 0 →
        ∀ i, (s.calls i).blocked = false) := by
  intro s hv hc
  have hserved : s.ReceiverQueued → 0 < s.sendPermits ∨ 0 < s.recvPermits := by
    intro hq
    obtain ⟨hr, hl⟩ := closedReceiversServed_run ρ hn s hv hc hq
    rw [isRecvable_iff] at hr
    omega
  refine ⟨hserved, fun hd hs hr i => ?_⟩
  by_contra hb
  rw [Bool.not_eq_false] at hb
  have := hserved ((enqueued_run ρ hd s hv).queued hb)
  omega

/-- A permitted `select!` sends into a closed channel while a receiver waits for that value. -/
def storeTrace : List (Event ℕ) :=
  [.trySelect (.task .running) [some .send] 0 0, .recv (.task .running) false, .close,
    .consumeSend 0 1]

theorem receiver_left_after_close : ¬ ∀ c : Config ℕ, Reachable (system ℕ ⟨1, by decide⟩) c →
    c.closed = true → c.ReceiverQueued → 0 < c.sendPermits ∨ 0 < c.recvPermits := by
  intro h
  have hc := h _ (run_reachable storeTrace rfl) rfl ⟨.task 1, List.mem_singleton_self _, rfl⟩
  exact absurd hc (by decide)

/-- A `select!` has the permit for the only value, and a receiver waits behind it, when the channel
closes; the permit is consumed afterwards. -/
def closeExecution : Execution (system ℕ ⟨1, Nat.one_pos⟩) :=
  ⟨[.send (.task .running) false 5, .trySelect (.task .running) [some .recv] 0 0,
    .recv (.task .running) false, .close, .consumeRecv 1], rfl⟩

theorem closeExecution_safe (s : Config ℕ) (e : Event ℕ) (h : closeExecution.Takes s e) :
    ¬ StrandsClosed s e := by
  refine closeExecution.takes_of_allSteps (P := fun s e => ¬ StrandsClosed s e) ?_ s e h
  refine ⟨?_, fun s₁ h₁ => ⟨?_, fun s₂ h₂ => ⟨?_, fun s₃ h₃ => ⟨?_, fun s₄ h₄ => ⟨?_, fun s₅ h₅ =>
    trivial⟩⟩⟩⟩⟩
  · rintro ⟨⟨w, hw, _⟩, _⟩
    cases hw
  · cases h₁
    rintro ⟨⟨w, hw, _⟩, _⟩
    cases hw
  · cases h₁
    cases h₂
    rintro ⟨⟨w, hw, _⟩, _⟩
    cases hw
  · cases h₁
    cases h₂
    cases h₃
    -- the value is reserved when the channel closes
    rintro ⟨_, ⟨hr, _⟩ | ⟨_, _, hl⟩⟩
    · cases hr
    · exact absurd hl (by decide)
  · cases h₁
    cases h₂
    cases h₃
    cases h₄
    rintro ⟨_, ⟨hr, _⟩ | ⟨hr, _⟩⟩ <;> cases hr

theorem closeExecution_keeps (s : Config ℕ) (e : Event ℕ) (h : closeExecution.Takes s e) :
    ¬ DislodgesReceiver s e := by
  obtain ⟨es, hp, _⟩ := h
  intro hd
  cases e with
  | unwatch i index =>
    have hmem : Event.unwatch i index ∈ closeExecution.events :=
      hp.subset (List.mem_append_right es (List.mem_singleton_self _))
    exact absurd hmem (by simp [closeExecution])
  | _ => exact hd

/-- The receiver waits while the permit is out, and nobody sleeps once it is consumed. -/
theorem closed_receivers_served_of_close :
    (∃ s, closeExecution.Visits s ∧ s.closed = true ∧ s.ReceiverQueued ∧
      (0 < s.sendPermits ∨ 0 < s.recvPermits)) ∧
    ∃ s, closeExecution.Visits s ∧ s.closed = true ∧ s.sendPermits = 0 ∧ s.recvPermits = 0 ∧
      ∀ i, (s.calls i).blocked = false := by
  have hserved := closed_receivers_served closeExecution closeExecution_safe
  have hclosed : closeExecution.Visits _ :=
    ⟨[.send (.task .running) false 5, .trySelect (.task .running) [some .recv] 0 0,
      .recv (.task .running) false, .close], ⟨[.consumeRecv 1], rfl⟩, rfl⟩
  have hfinal : closeExecution.Visits _ := ⟨_, List.prefix_refl _, rfl⟩
  refine ⟨⟨_, hclosed, rfl, ?queued, (hserved _ hclosed rfl).1 ?queued⟩,
    _, hfinal, rfl, rfl, rfl, (hserved _ hfinal rfl).2 closeExecution_keeps rfl rfl⟩
  exact ⟨.task 2, List.mem_singleton_self _, rfl⟩

end ParallelChannel
