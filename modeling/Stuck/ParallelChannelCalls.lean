import Stuck.ParallelChannelMoves
import Mathlib.Data.List.Nodup
import Mathlib.Data.List.Perm.Basic

/-! The calls of a parallel channel over a step: no call goes back to an earlier stage, at
most one starts, and the queued waiters keep standing for the calls they were queued for. -/
namespace ParallelChannel

open TransitionSystem OneShot SharedTypes WaitQueue

variable {T : Type*} {c d m : Config T} {watching : Bool}

/-- The call has returned or panicked, or a `select!` has its permit. -/
def Call.isDone : Call T → Bool
  | .unused | .waiting .. => false
  | _ => true

/-- A later stage of a call: it neither becomes pending again nor leaves its branches, and
while it is pending only a watch changes it. -/
structure Call.Advances (watching : Bool) (a b : Call T) : Prop where
  unused : a = .unused ↔ b = .unused
  sends : b.sends = true → a.sends = true
  receives : b.receives = true → a.receives = true
  pending : b.pending = true → a.pending = true
  kept : watching = false → b.pending = true → b = a
  identifies : ∀ identifier, b.identifies identifier = true → a.identifies identifier = true
  selects : ∀ side s, a.selects side s = true → b.selects side s = true

theorem Call.Advances.refl (a : Call T) : Call.Advances watching a a :=
  ⟨.rfl, id, id, id, fun _ _ => rfl, fun _ => id, fun _ _ => id⟩

theorem Call.Advances.trans {a b e : Call T} (h : Call.Advances watching a b)
    (h' : Call.Advances watching b e) : Call.Advances watching a e :=
  ⟨h.unused.trans h'.unused, h.sends ∘ h'.sends, h.receives ∘ h'.receives, h.pending ∘ h'.pending,
    fun hw hp => (h'.kept hw hp).trans (h.kept hw (h'.pending hp)), fun i => h.identifies i ∘ h'.identifies i,
    fun side s => h'.selects side s ∘ h.selects side s⟩

theorem Call.advances_done {a b : Call T} (hu : a ≠ .unused) (h : b.isDone = true) :
    Call.Advances watching a b := by
  cases b with
  | unused | waiting => cases h
  | permitted | elsewhere | sent | received | panicked =>
    exact ⟨by simp [hu], by simp [Call.sends], by simp [Call.receives], by simp [pending],
      by simp [pending], by simp [identifies], by simp [selects]⟩

theorem Call.advances_fire (a : Call T) (o : Outcome T) :
    Call.Advances watching a (a.fire o) where
  unused := by cases a <;> simp [fire]
  sends := by simp
  receives := by simp
  pending := by simp
  kept := by simp
  identifies identifier h := by
    cases a with
    | waiting op watched cell =>
      cases op <;> cases cell <;> simp_all [fire, identifies, Cell.fire, Cell.isCancelled]
    | _ => exact h
  selects side s h := by simpa using h

theorem Call.advances_cancel (a : Call T) : Call.Advances watching a a.cancel := by
  cases a with
  | waiting op watched cell =>
    refine ⟨by simp [cancel], ?_, ?_, ?_, ?_, ?_, ?_⟩
    · cases op <;> simp [cancel, Call.sends]
    · cases op <;> simp [cancel, Call.receives]
    · cases cell <;> simp [cancel, pending, Cell.cancel, Cell.isPending]
    · cases cell <;> simp [cancel, pending, Cell.cancel, Cell.isPending]
    · intro identifier
      cases op <;> cases cell <;>
        simp +contextual [cancel, identifies, Cell.cancel, Cell.isCancelled]
    · intro side s
      cases op <;> simp [cancel, selects]
  | _ => exact .refl _

theorem Call.advances_watch (a : Call T) (index : ℕ)
    (h : ∀ op watched, a ≠ .waiting op watched .cancelled) :
    Call.Advances true a (a.watch index) := by
  cases a with
  | waiting op watched cell =>
    have hc : cell.isCancelled = false := by
      cases cell with
      | cancelled => exact absurd rfl (h op watched)
      | _ => rfl
    refine ⟨by simp [watch], ?_, ?_, id, by simp, ?_, ?_⟩
    · cases op <;> simp [watch, Call.sends]
    · cases op <;> simp [watch, Call.receives]
    · intro identifier
      cases op <;> simp [watch, identifies, hc]
    · intro side s
      cases op <;> simp [watch, selects]
  | _ => exact .refl _

theorem Call.advances_unwatch (op : Op T) (watched : List ℕ) {cell : Cell (Outcome T)}
    (hp : cell ≠ .pending) (index : ℕ) : Call.Advances watching (.waiting op watched cell)
      (.waiting op (watched.erase index) cell) := by
  refine ⟨by simp, ?_, ?_, id, by simp [pending, hp], ?_, ?_⟩
  · cases op <;> simp [Call.sends]
  · cases op <;> simp [Call.receives]
  · intro identifier
    cases op with
    | select caller slice own =>
      simp only [identifies, Bool.and_eq_true, Bool.not_eq_true', Bool.and_eq_false_iff]
      rintro ⟨hi, hw⟩
      refine ⟨hi, hw.imp_right fun he => ?_⟩
      cases watched with
      | nil => simp at he
      | cons => rfl
    | _ => simp [identifies]
  · intro side s
    cases op <;> simp [selects]

/-- Every call of `c` is in `d` at the same or a later stage, and no call is new. -/
def Config.Advances (watching : Bool) (c d : Config T) : Prop :=
  ∀ i, (c.calls i).Advances watching (d.calls i)

theorem Config.Advances.refl (c : Config T) : c.Advances watching c := fun _ => .refl _

theorem Config.Advances.of_eq (h : d.calls = c.calls) : c.Advances watching d := fun i => by
  rw [h]; exact .refl _

theorem Config.Advances.trans (h : c.Advances watching m) (h' : m.Advances watching d) :
    c.Advances watching d := fun i => (h i).trans (h' i)

theorem Config.Advances.weaken (h : c.Advances watching d) : c.Advances true d := fun i =>
  ⟨(h i).unused, (h i).sends, (h i).receives, (h i).pending, (fun hw => by cases hw),
    (h i).identifies, (h i).selects⟩

theorem advances_finish {i : ℕ} {call : Call T} (h : (c.calls i).Advances watching call) :
    c.Advances watching (c.finish i call) := by
  intro j
  by_cases hj : j = i
  · subst hj; simpa [Config.finish] using h
  · simp only [Config.finish, Function.update_of_ne hj]; exact .refl _

theorem advances_fire (i : ℕ) (o : Outcome T) : c.Advances watching (c.fire i o) :=
  advances_finish (Call.advances_fire _ o)

theorem advances_grantSender (w : Waiter T) : c.Advances watching (c.grantSender w) := by
  cases w with
  | task i value | thread i value => exact advances_fire i _
  | selector s => exact advances_fire s.waker _

theorem advances_grantReceiver (w : RecvWaiter) : c.Advances watching (c.grantReceiver w) := by
  cases w with
  | task i => exact advances_fire i _
  | thread i =>
    simp only [Config.grantReceiver]
    cases c.deque with
    | nil => exact .of_eq rfl
    | cons value rest => exact advances_fire i _
  | selector s => exact advances_fire s.waker _

theorem WellFormed.advances_wakeSender (h : WellFormed c) : c.Advances watching c.wakeSender := by
  rcases wakeSender_cases h.senders_valid with ⟨_, he⟩ | ⟨w, rest, _, he⟩
  · rw [he]; exact .of_eq rfl
  · rw [he]
    exact (Config.Advances.of_eq (d := { c with senders := rest }) rfl).trans
      (advances_grantSender w)

theorem WellFormed.advances_wakeReceiver (h : WellFormed c) : c.Advances watching c.wakeReceiver := by
  rcases wakeReceiver_cases h.receivers_valid with ⟨_, he⟩ | ⟨w, rest, _, he⟩
  · rw [he]; exact .of_eq rfl
  · rw [he]
    exact (Config.Advances.of_eq (d := { c with receivers := rest }) rfl).trans
      (advances_grantReceiver w)

theorem advances_fireAll (wakes : List (ℕ × Outcome T)) : c.Advances watching (c.fireAll wakes) := by
  induction wakes generalizing c with
  | nil => exact .refl c
  | cons wake rest ih => exact (advances_fire wake.1 wake.2).trans ih

theorem advances_closeSenders : c.Advances watching c.closeSenders := by
  rw [closeSenders_eq]
  exact (Config.Advances.of_eq (d := { c with senders := [] }) rfl).trans (advances_fireAll _)

theorem advances_closeReceivers : c.Advances watching c.closeReceivers := by
  rw [closeReceivers_eq]
  exact (Config.Advances.of_eq (d := { c with receivers := [] }) rfl).trans (advances_fireAll _)

theorem advances_removeReceiver (position : ℕ) : c.Advances watching (c.removeReceiver position) := by
  unfold Config.removeReceiver
  split
  next waiter _ =>
    cases waiter with
    | task i => exact advances_finish (Call.advances_cancel _)
    | _ => exact .of_eq rfl
  next => exact .refl c

theorem advances_unwatchSendPermit (identifier : ℕ) :
    c.Advances watching (c.unwatchSendPermit identifier) := by
  unfold Config.unwatchSendPermit
  split
  · exact advances_removeReceiver _
  · exact .refl c

theorem advances_unwatchRecvPermit (identifier : ℕ) :
    c.Advances watching (c.unwatchRecvPermit identifier) := by
  unfold Config.unwatchRecvPermit
  split
  · exact advances_removeReceiver _
  · exact .refl c

/-- No waiter is queued for the wait of this call. -/
structure Detached (c : Config T) (i : ℕ) : Prop where
  used : c.calls i ≠ .unused
  sender : ∀ w ∈ c.senders, w.direct ≠ some i
  receiver : ∀ w ∈ c.receivers, w.direct ≠ some i

theorem WellFormed.detached_of_woken (h : WellFormed c) {i : ℕ} {op : Op T} {watched : List ℕ}
    {o : Outcome T} (hc : c.calls i = .waiting op watched (.fired o)) : Detached c i where
  used := by simp [hc]
  sender := h.no_sender_of_woken hc
  receiver := h.no_receiver_of_woken hc

theorem WellFormed.detached_of_permitted (h : WellFormed c) {i index : ℕ} {op : Op T}
    {permit : Permit} (hc : c.calls i = .permitted op index permit) : Detached c i where
  used := by simp [hc]
  sender := h.no_sender (by simp [hc, Call.sends])
  receiver := h.no_receiver (by simp [hc, Call.receives])

theorem WellFormed.detached_of_select (h : WellFormed c) {i identifier : ℕ} {caller : Caller}
    {slice : Slice} {watched : List ℕ} {cell : Cell (Outcome T)}
    (hc : c.calls i = .waiting (.select caller slice identifier) watched cell) :
    Detached c i where
  used := by simp [hc]
  sender := h.no_sender (by simp [hc, Call.sends])
  receiver := h.no_receiver (by simp [hc, Call.receives])

theorem WellFormed.advance (h : WellFormed c) {i : ℕ} {k : Call T} (hi : Detached c i)
    (ha : (c.calls i).Advances true k) : WellFormed (c.finish i k) :=
  h.settle hi.used hi.sender hi.receiver ha.selects

theorem WellFormed.done (h : WellFormed c) {i : ℕ} {k : Call T} (hi : Detached c i)
    (hd : k.isDone = true) : WellFormed (c.finish i k) :=
  h.advance hi (Call.advances_done hi.used hd)

theorem WellFormed.cancelled (h : WellFormed c) {i : ℕ} {op : Op T} {watched : List ℕ}
    (hc : c.calls i = .waiting op watched .pending) (hs : ∀ value, op ≠ .send .thread value)
    (hr : op ≠ .recv .thread) : WellFormed (c.finish i (.waiting op watched .cancelled)) := by
  apply h.finish (by simp [hc])
  · intro w hw hi
    have hv := h.senders_valid w hw
    cases w with
    | task j value =>
      obtain ⟨status, watched', cell, hj, _⟩ := hv
      obtain rfl : j = i := hi
      simp only [hc, Call.waiting.injEq] at hj
      obtain ⟨rfl, rfl, _⟩ := hj
      exact ⟨status, watched, .cancelled, by simp, Or.inr rfl⟩
    | thread j value =>
      obtain ⟨watched', hj⟩ := hv
      obtain rfl : j = i := hi
      simp only [hc, Call.waiting.injEq] at hj
      exact absurd hj.1 (hs value)
    | selector s =>
      obtain rfl : s.waker = i := hi
      simp only [Waiter.Valid, Function.update_self, hc] at hv ⊢
      cases op <;> simp_all [Call.selects]
  · intro w hw hi
    have hv := h.receivers_valid w hw
    cases w with
    | task j =>
      obtain ⟨status, watched', cell, hj, _⟩ := hv
      obtain rfl : j = i := hi
      simp only [hc, Call.waiting.injEq] at hj
      obtain ⟨rfl, rfl, _⟩ := hj
      exact ⟨status, watched, .cancelled, by simp, Or.inr rfl⟩
    | thread j =>
      obtain ⟨watched', hj⟩ := hv
      obtain rfl : j = i := hi
      simp only [hc, Call.waiting.injEq] at hj
      exact absurd hj.1 hr
    | selector s =>
      obtain rfl : s.waker = i := hi
      simp only [RecvWaiter.Valid, Function.update_self, hc] at hv ⊢
      cases op <;> simp_all [Call.selects]

/-- The new call and the waiter queued for it, in one step. -/
theorem WellFormed.enqueueSender (h : WellFormed c) {w : Waiter T} {call : Call T}
    (ho : c.closed = false) (hw : w.call = c.created)
    (hv : w.Valid (Function.update c.calls c.created call)) :
    WellFormed ((c.enqueueSender w).begin call) where
  fresh := (h.begin call).fresh
  senders_valid v hm := by
    rcases List.mem_append.mp hm with hm | hm
    · exact (h.begin call).senders_valid v hm
    · rw [List.mem_singleton.mp hm]; exact hv
  receivers_valid := (h.begin call).receivers_valid
  senders_nodup := by
    have hone : ([w].filterMap Waiter.direct).Nodup := by
      cases w <;> simp [Waiter.direct, List.filterMap_cons]
    simp only [Config.begin, Config.enqueueSender, List.filterMap_append]
    apply h.senders_nodup.append hone
    intro i hi hi'
    obtain ⟨v, hm, hd⟩ := List.mem_filterMap.mp hi
    obtain ⟨_, hm', hd'⟩ := List.mem_filterMap.mp hi'
    rw [List.mem_singleton.mp hm'] at hd'
    have hi : i = c.created := by
      cases w <;> simp_all [Waiter.direct, Waiter.call]
    obtain ⟨_, _, _, _, hc, _⟩ := (h.senders_valid v hm).direct hd
    rw [hi, h.fresh _ (Nat.le_refl _)] at hc
    cases hc
  receivers_nodup := h.receivers_nodup
  closed_senders hc := by
    simp only [Config.begin, Config.enqueueSender] at hc
    simp [ho] at hc

theorem WellFormed.enqueueReceiver (h : WellFormed c) {w : RecvWaiter} {call : Call T}
    (hw : w.call = c.created) (hv : w.Valid (Function.update c.calls c.created call)) :
    WellFormed ((c.enqueueReceiver w).begin call) where
  fresh := (h.begin call).fresh
  senders_valid := (h.begin call).senders_valid
  receivers_valid v hm := by
    rcases List.mem_append.mp hm with hm | hm
    · exact (h.begin call).receivers_valid v hm
    · rw [List.mem_singleton.mp hm]; exact hv
  senders_nodup := h.senders_nodup
  receivers_nodup := by
    have hone : ([w].filterMap RecvWaiter.direct).Nodup := by
      cases w <;> simp [RecvWaiter.direct, List.filterMap_cons]
    simp only [Config.begin, Config.enqueueReceiver, List.filterMap_append]
    apply h.receivers_nodup.append hone
    intro i hi hi'
    obtain ⟨v, hm, hd⟩ := List.mem_filterMap.mp hi
    obtain ⟨_, hm', hd'⟩ := List.mem_filterMap.mp hi'
    rw [List.mem_singleton.mp hm'] at hd'
    have hi : i = c.created := by
      cases w <;> simp_all [RecvWaiter.direct, RecvWaiter.call]
    obtain ⟨_, _, _, hc, _⟩ := (h.receivers_valid v hm).direct hd
    rw [hi, h.fresh _ (Nat.le_refl _)] at hc
    cases hc
  closed_senders := h.closed_senders

theorem WellFormed.enqueueSendSelector (h : WellFormed c) {s : Selector}
    (ho : c.closed = false) (hv : (c.calls s.waker).selects .send s = true) :
    WellFormed (c.enqueueSender (.selector s)) where
  fresh := h.fresh
  senders_valid v hm := by
    rcases List.mem_append.mp hm with hm | hm
    · exact h.senders_valid v hm
    · rw [List.mem_singleton.mp hm]; exact hv
  receivers_valid := h.receivers_valid
  senders_nodup := by
    simpa [Config.enqueueSender, Waiter.direct, List.filterMap_cons] using h.senders_nodup
  receivers_nodup := h.receivers_nodup
  closed_senders hc := by
    simp only [Config.enqueueSender] at hc
    simp [ho] at hc

theorem WellFormed.enqueueRecvSelector (h : WellFormed c) {s : Selector}
    (hv : (c.calls s.waker).selects .recv s = true) :
    WellFormed (c.enqueueReceiver (.selector s)) where
  fresh := h.fresh
  senders_valid := h.senders_valid
  receivers_valid v hm := by
    rcases List.mem_append.mp hm with hm | hm
    · exact h.receivers_valid v hm
    · rw [List.mem_singleton.mp hm]; exact hv
  senders_nodup := h.senders_nodup
  receivers_nodup := by
    simpa [Config.enqueueReceiver, RecvWaiter.direct, List.filterMap_cons] using h.receivers_nodup
  closed_senders := h.closed_senders

theorem WellFormed.removeReceiver (h : WellFormed c) (position : ℕ) :
    WellFormed (c.removeReceiver position) := by
  unfold Config.removeReceiver
  split
  next w hw =>
    have hm : w ∈ c.receivers := List.mem_of_getElem? hw
    have hrest := h.dropReceivers (c.receivers.eraseIdx_sublist position)
    cases w with
    | task i =>
      have hv := h.receivers_valid _ hm
      apply hrest.settle hv.used (hrest.no_sender hv.not_sends)
      · -- the queue holds one waiter for a blocked call, and it has just left
        intro v hv' hd
        have hp : c.receivers.Perm (.task i :: c.receivers.eraseIdx position) := by
          obtain ⟨hlt, he⟩ := List.getElem?_eq_some_iff.mp hw
          rw [← he]
          exact (List.getElem_cons_eraseIdx_perm hlt).symm
        have hn := (hp.filterMap RecvWaiter.direct).nodup_iff.mp h.receivers_nodup
        simp only [List.filterMap_cons, RecvWaiter.direct, List.nodup_cons] at hn
        exact hn.1 (List.mem_filterMap.mpr ⟨v, hv', hd⟩)
      · have ha : Call.Advances true (c.calls i) (c.calls i).cancel := Call.advances_cancel _
        exact ha.selects
    | thread | selector => exact hrest
  next => exact h

theorem WellFormed.unwatchSendPermit (h : WellFormed c) (identifier : ℕ) :
    WellFormed (c.unwatchSendPermit identifier) := by
  unfold Config.unwatchSendPermit
  split
  · exact h.removeReceiver _
  · exact h

theorem WellFormed.unwatchRecvPermit (h : WellFormed c) (identifier : ℕ) :
    WellFormed (c.unwatchRecvPermit identifier) := by
  unfold Config.unwatchRecvPermit
  split
  · exact h.removeReceiver _
  · exact h

theorem WellFormed.takeReserved (h : WellFormed c) {i : ℕ} (hi : Detached c i) (value : T)
    (rest : List T) : WellFormed (c.takeReserved i value rest) :=
  (h.done hi (k := .received (.ok value)) rfl).of_eq rfl rfl rfl rfl rfl

theorem WellFormed.fillReserved (h : WellFormed c) {i : ℕ} (hi : Detached c i) (value : T) :
    WellFormed (c.fillReserved i value) :=
  (h.done hi (k := .sent value (.ok ())) rfl).of_eq rfl rfl rfl rfl rfl

theorem WellFormed.takeFree (h : WellFormed c) (value : T) (rest : List T) :
    WellFormed (c.takeFree value rest) :=
  WellFormed.wakeSender ((h.begin (.received (.ok value))).of_eq rfl rfl rfl rfl rfl)

theorem advances_takeReserved {i : ℕ} (hu : c.calls i ≠ .unused) (value : T) (rest : List T) :
    c.Advances watching (c.takeReserved i value rest) :=
  advances_finish (c := c) (Call.advances_done hu (b := .received (.ok value)) rfl)

theorem advances_fillReserved {i : ℕ} (hu : c.calls i ≠ .unused) (value : T) :
    c.Advances watching (c.fillReserved i value) :=
  advances_finish (c := c) (Call.advances_done hu (b := .sent value (.ok ())) rfl)

theorem WellFormed.begin_advances_takeFree (h : WellFormed c) (value : T) (rest : List T) :
    (c.begin (.received (.ok value))).Advances watching (c.takeFree value rest) :=
  WellFormed.advances_wakeSender
    (c := (c.begin (.received (.ok value))).popFront c.created value rest)
    ((h.begin (.received (.ok value))).of_eq rfl rfl rfl rfl rfl)

theorem WellFormed.detached_takeFree (h : WellFormed c) (value : T) (rest : List T) :
    Detached (c.takeFree value rest) c.created := by
  have hc : (c.begin (.received (.ok value))).calls c.created = .received (.ok value) :=
    Function.update_self _ _ _
  have ha : Call.Advances true _ _ := h.begin_advances_takeFree value rest c.created
  rw [hc] at ha
  have hw := h.takeFree value rest
  refine ⟨by simp [← ha.unused], hw.no_sender ?_, hw.no_receiver ?_⟩
  · exact Bool.eq_false_iff.mpr fun hs => by simpa [Call.sends] using ha.sends hs
  · exact Bool.eq_false_iff.mpr fun hr => by simpa [Call.receives] using ha.receives hr

theorem ConsumesRecv.wellFormed {i : ℕ} {op : Op T} (hs : ConsumesRecv c i op d)
    (h : WellFormed c) (hi : Detached c i) : WellFormed d := by
  cases hs with
  | underflow => exact (h.done hi (k := .panicked op) rfl).of_eq rfl rfl rfl rfl rfl
  | drained => exact (h.done hi (k := .received (.error .closed)) rfl).of_eq rfl rfl rfl rfl rfl
  | kept => exact h.takeReserved hi _ _
  | refilled => exact (h.takeReserved hi _ _).wakeSender
  | exhausted => exact (h.takeReserved hi _ _).closeReceivers

theorem ConsumesRecv.advances {i : ℕ} {op : Op T} (hs : ConsumesRecv c i op d)
    (h : WellFormed c) (hi : Detached c i) : c.Advances watching d := by
  cases hs with
  | underflow => exact advances_finish (Call.advances_done hi.used rfl)
  | drained => exact advances_finish (c := c) (Call.advances_done hi.used rfl)
  | kept => exact advances_takeReserved hi.used _ _
  | refilled => exact (advances_takeReserved hi.used _ _).trans (h.takeReserved hi _ _).advances_wakeSender
  | exhausted => exact (advances_takeReserved hi.used _ _).trans advances_closeReceivers

theorem ConsumesSend.wellFormed {i : ℕ} {op : Op T} {value : T}
    (hs : ConsumesSend c i op value d) (h : WellFormed c) (hi : Detached c i) : WellFormed d := by
  cases hs with
  | noPermit | noSlot => exact (h.done hi (k := .panicked op) rfl).of_eq rfl rfl rfl rfl rfl
  | delivered => exact (h.fillReserved hi value).wakeReceiver
  | stored => exact h.fillReserved hi value

theorem ConsumesSend.advances {i : ℕ} {op : Op T} {value : T}
    (hs : ConsumesSend c i op value d) (h : WellFormed c) (hi : Detached c i) : c.Advances watching d := by
  cases hs with
  | noPermit => exact advances_finish (Call.advances_done hi.used rfl)
  | noSlot => exact advances_finish (c := c) (Call.advances_done hi.used rfl)
  | delivered =>
    exact (advances_fillReserved hi.used value).trans (h.fillReserved hi value).advances_wakeReceiver
  | stored => exact advances_fillReserved hi.used value

theorem WatchesSend.wellFormed {s : Selector} {available : Bool}
    (hw : WatchesSend c s (d, available)) (h : WellFormed c) (hi : Detached c s.waker)
    (hb : (c.calls s.waker).selects .send s = true) : WellFormed d := by
  cases hw with
  | closed => exact h.advance hi (Call.advances_fire _ _)
  | granted => exact (h.advance hi (Call.advances_fire _ _)).of_eq rfl rfl rfl rfl rfl
  | late => exact h
  | queued ho => exact h.enqueueSendSelector ho hb

theorem WatchesSend.advances {s : Selector} {available : Bool}
    (hw : WatchesSend c s (d, available)) : c.Advances watching d := by
  cases hw with
  | closed => exact advances_fire s.waker _
  | granted => exact advances_fire (c := c) s.waker _
  | late => exact .refl c
  | queued => exact .of_eq rfl

theorem WatchesRecv.wellFormed {s : Selector} {available : Bool}
    (hw : WatchesRecv c s (d, available)) (h : WellFormed c) (hi : Detached c s.waker)
    (hb : (c.calls s.waker).selects .recv s = true) : WellFormed d := by
  cases hw with
  | closed => exact h.advance hi (Call.advances_fire _ _)
  | granted => exact (h.advance hi (Call.advances_fire _ _)).of_eq rfl rfl rfl rfl rfl
  | late => exact h
  | queued => exact h.enqueueRecvSelector hb

theorem WatchesRecv.advances {s : Selector} {available : Bool}
    (hw : WatchesRecv c s (d, available)) : c.Advances watching d := by
  cases hw with
  | closed => exact advances_fire s.waker _
  | granted => exact advances_fire (c := c) s.waker _
  | late => exact .refl c
  | queued => exact .of_eq rfl

theorem fire_waiting {i : ℕ} {op : Op T} {watched : List ℕ} {cell : Cell (Outcome T)}
    (hc : c.calls i = .waiting op watched cell) (hn : cell ≠ .cancelled) (o : Outcome T) :
    ∃ cell', (c.fire i o).calls i = .waiting op watched cell' ∧ cell' ≠ .cancelled := by
  refine ⟨cell.fire o, by simp [Config.fire, Config.finish, hc, Call.fire], ?_⟩
  cases cell <;> simp_all [Cell.fire]

theorem WatchesSend.waiting {s : Selector} {available : Bool} {op : Op T} {watched : List ℕ}
    {cell : Cell (Outcome T)} (hw : WatchesSend c s (d, available))
    (hc : c.calls s.waker = .waiting op watched cell) (hn : cell ≠ .cancelled) :
    ∃ cell', d.calls s.waker = .waiting op watched cell' ∧ cell' ≠ .cancelled := by
  cases hw with
  | closed => exact fire_waiting hc hn _
  | granted => exact fire_waiting (c := { c with sendPermits := c.sendPermits + 1 }) hc hn _
  | late | queued => exact ⟨cell, hc, hn⟩

theorem WatchesRecv.waiting {s : Selector} {available : Bool} {op : Op T} {watched : List ℕ}
    {cell : Cell (Outcome T)} (hw : WatchesRecv c s (d, available))
    (hc : c.calls s.waker = .waiting op watched cell) (hn : cell ≠ .cancelled) :
    ∃ cell', d.calls s.waker = .waiting op watched cell' ∧ cell' ≠ .cancelled := by
  cases hw with
  | closed => exact fire_waiting hc hn _
  | granted => exact fire_waiting (c := { c with recvPermits := c.recvPermits + 1 }) hc hn _
  | late | queued => exact ⟨cell, hc, hn⟩

theorem Checks.wellFormed {i index identifier : ℕ} {available ready : Bool} {caller : Caller}
    {slice : Slice} {watched : List ℕ} {cell : Cell (Outcome T)}
    (hk : Checks c i index available ready d) (h : WellFormed c)
    (hc : c.calls i = .waiting (.select caller slice identifier) watched cell)
    (hn : cell ≠ .cancelled) : WellFormed d := by
  cases hk with
  | counted =>
    exact h.advance (h.detached_of_select hc)
      (Call.advances_watch _ index (by simp [hc, hn]))
  | broken => exact h

theorem Checks.advances {i index : ℕ} {available ready : Bool} {op : Op T} {watched : List ℕ}
    {cell : Cell (Outcome T)} (hk : Checks c i index available ready d)
    (hc : c.calls i = .waiting op watched cell) (hn : cell ≠ .cancelled) : c.Advances true d := by
  cases hk with
  | counted => exact advances_finish (Call.advances_watch _ index (by simp [hc, hn]))
  | broken => exact .refl c

/-- A removed receiver may lose its session, a `select!` never does. -/
theorem WellFormed.removeReceiver_calls (h : WellFormed c) {i : ℕ}
    (hr : (c.calls i).receives = false) (position : ℕ) :
    (c.removeReceiver position).calls i = c.calls i := by
  unfold Config.removeReceiver
  split
  next w hw =>
    cases w with
    | task j =>
      obtain ⟨_, _, _, hj, _⟩ := h.receivers_valid _ (List.mem_of_getElem? hw)
      have hi : i ≠ j := by
        rintro rfl
        simp [hj, Call.receives] at hr
      exact Function.update_of_ne hi _ _
    | _ => rfl
  next => rfl

theorem WellFormed.unwatchSendPermit_calls (h : WellFormed c) {i : ℕ}
    (hr : (c.calls i).receives = false) (identifier : ℕ) :
    (c.unwatchSendPermit identifier).calls i = c.calls i := by
  unfold Config.unwatchSendPermit
  split
  · exact h.removeReceiver_calls hr _
  · rfl

theorem WellFormed.unwatchRecvPermit_calls (h : WellFormed c) {i : ℕ}
    (hr : (c.calls i).receives = false) (identifier : ℕ) :
    (c.unwatchRecvPermit identifier).calls i = c.calls i := by
  unfold Config.unwatchRecvPermit
  split
  · exact h.removeReceiver_calls hr _
  · rfl

theorem WellFormed.unwatch (h : WellFormed c) {i index identifier : ℕ} {caller : Caller}
    {slice : Slice} {watched : List ℕ} {cell : Cell (Outcome T)}
    (hc : c.calls i = .waiting (.select caller slice identifier) watched cell)
    (hp : cell ≠ .pending) :
    WellFormed (c.finish i (.waiting (.select caller slice identifier) (watched.erase index) cell)) :=
  h.advance (h.detached_of_select hc)
    (by rw [hc]; exact Call.advances_unwatch _ _ hp _)

theorem advances_unwatch {i index : ℕ} {op : Op T} {watched : List ℕ} {cell : Cell (Outcome T)}
    (hc : c.calls i = .waiting op watched cell) (hp : cell ≠ .pending) :
    c.Advances watching (c.finish i (.waiting op (watched.erase index) cell)) :=
  advances_finish (by rw [hc]; exact Call.advances_unwatch _ _ hp _)

theorem WellFormed.close (h : WellFormed c) : WellFormed c.close := by
  unfold Config.close
  dsimp only
  split
  · exact (h.closeSenders true).closeReceivers
  · exact h.closeSenders true

theorem advances_close : c.Advances watching c.close := by
  have hs : c.Advances watching { c with closed := true }.closeSenders :=
    (Config.Advances.of_eq (d := { c with closed := true }) rfl).trans advances_closeSenders
  unfold Config.close
  dsimp only
  split
  · exact hs.trans advances_closeReceivers
  · exact hs

theorem WellFormed.step (h : WellFormed c) {e : Event T} (hm : Move c e d) : WellFormed d := by
  cases hm with
  | sendRefused | recvRefused => exact h.begin _
  | sendPanicked | recvPanicked => exact (h.begin _).of_eq rfl rfl rfl rfl rfl
  | sendNow =>
    exact WellFormed.wakeReceiver ((h.begin (.sent _ (.ok ()))).of_eq rfl rfl rfl rfl rfl)
  | @sendTask status trying value ho =>
    exact h.enqueueSender ho rfl ⟨status, [], .pending, by simp, Or.inl rfl⟩
  | sendThread ho => exact h.enqueueSender ho rfl ⟨[], by simp⟩
  | recvNow => exact h.takeFree _ _
  | recvOverflowed =>
    exact ((h.takeFree _ _).done (h.detached_takeFree _ _) (k := .panicked _) rfl).of_eq
      rfl rfl rfl rfl rfl
  | @recvTask status =>
    exact h.enqueueReceiver rfl ⟨status, [], .pending, by simp, Or.inl rfl⟩
  | recvThread => exact h.enqueueReceiver rfl ⟨[], by simp⟩
  | sendReturned hc | recvClosed hc | recvReturned hc | waitPanicked hc | selectReturned hc
  | returnedElsewhere hc =>
    exact h.done (h.detached_of_woken hc) rfl
  | recvResumed hc _ hs => exact hs.wellFormed h (h.detached_of_woken hc)
  | cancelled hc hs hr => exact h.cancelled hc hs hr
  | sendSelected hi he =>
    rcases selectSendPermit_cases c.toState with ⟨_, h'⟩ | ⟨_, _, h'⟩ | ⟨_, _, h'⟩ <;>
      rw [h'] at he <;> cases he
    · exact h.begin _
    · exact (h.begin _).of_eq rfl rfl rfl rfl rfl
  | recvSelected hi he =>
    rcases selectRecvPermit_cases c.toState with ⟨_, h'⟩ | ⟨_, _, _, h'⟩ | ⟨_, _, h'⟩ <;>
      rw [h'] at he <;> cases he
    · exact (h.begin _).of_eq rfl rfl rfl rfl rfl
    · exact h.begin _
  | selectStarted => exact h.begin _
  | sendWatched hc hn hi hw hk =>
    obtain ⟨cell, hd, hn'⟩ := hw.waiting hc hn
    exact hk.wellFormed (hw.wellFormed h (h.detached_of_select hc)
      (by simp [hc, Call.selects, hi])) hd hn'
  | recvWatched hc hn hi hw hk =>
    obtain ⟨cell, hd, hn'⟩ := hw.waiting hc hn
    exact hk.wellFormed (hw.wellFormed h (h.detached_of_select hc)
      (by simp [hc, Call.selects, hi])) hd hn'
  | firedElsewhere hc => exact h.advance (h.detached_of_select hc) (Call.advances_fire _ _)
  | sendUnwatched hc _ hp =>
    exact (h.unwatchSendPermit _).unwatch
      ((h.unwatchSendPermit_calls (by simp [hc, Call.receives]) _).trans hc) hp
  | recvUnwatched hc _ hp =>
    exact (h.unwatchRecvPermit _).unwatch
      ((h.unwatchRecvPermit_calls (by simp [hc, Call.receives]) _).trans hc) hp
  | sendDetached hc | recvDetached hc => exact h.done (h.detached_of_permitted hc) rfl
  | sendConsumed hc _ _ hs => exact hs.wellFormed h (h.detached_of_permitted hc)
  | recvConsumed hc _ _ hs => exact hs.wellFormed h (h.detached_of_permitted hc)
  | closed => exact h.close

def Event.isWatch : Event T → Bool
  | .watch .. => true
  | _ => false

/-- The calls an event can start. -/
inductive Starts (c : Config T) : Event T → Call T → Prop where
  | sent {caller trying value result} : Starts c (.send caller trying value) (.sent value result)
  | sendPanicked {caller trying value} :
      Starts c (.send caller trying value) (.panicked (.send caller value))
  | sending {caller trying value} :
      Starts c (.send caller trying value) (.waiting (.send caller value) [] .pending)
  | received {caller trying result} : Starts c (.recv caller trying) (.received result)
  | recvPanicked {caller trying} : Starts c (.recv caller trying) (.panicked (.recv caller))
  | receiving {caller trying} :
      Starts c (.recv caller trying) (.waiting (.recv caller) [] .pending)
  | permitted {caller slice identifier index permit} :
      Starts c (.trySelect caller slice identifier index)
        (.permitted (.select caller slice identifier) index permit)
  | selecting {caller slice identifier} :
      (∀ j < c.created, (c.calls j).identifies identifier = false) →
      Starts c (.select caller slice identifier)
        (.waiting (.select caller slice identifier) [] .pending)

theorem WellFormed.advances (h : WellFormed c) {e : Event T} (hm : Move c e d) :
    c.Advances e.isWatch d ∨ ∃ call, Starts c e call ∧ (c.begin call).Advances e.isWatch d := by
  cases hm with
  | sendRefused => exact Or.inr ⟨_, .sent, .refl _⟩
  | sendPanicked => exact Or.inr ⟨_, .sendPanicked, .of_eq rfl⟩
  | sendNow =>
    exact Or.inr ⟨_, .sent, WellFormed.advances_wakeReceiver
      (c := (c.begin (.sent _ (.ok ()))).pushBack c.created _)
      ((h.begin (.sent _ (.ok ()))).of_eq rfl rfl rfl rfl rfl)⟩
  | sendTask | sendThread => exact Or.inr ⟨_, .sending, .of_eq rfl⟩
  | recvRefused => exact Or.inr ⟨_, .received, .refl _⟩
  | recvPanicked => exact Or.inr ⟨_, .recvPanicked, .of_eq rfl⟩
  | recvNow => exact Or.inr ⟨_, .received, h.begin_advances_takeFree _ _⟩
  | @recvOverflowed caller trying value rest =>
    have hi := h.detached_takeFree value rest
    exact Or.inr ⟨_, .received, (h.begin_advances_takeFree _ _).trans
      (advances_finish (Call.advances_done hi.used rfl))⟩
  | recvTask | recvThread => exact Or.inr ⟨_, .receiving, .of_eq rfl⟩
  | sendReturned hc | recvClosed hc | recvReturned hc | waitPanicked hc | selectReturned hc
  | returnedElsewhere hc | sendDetached hc | recvDetached hc =>
    exact Or.inl (advances_finish (Call.advances_done (by simp [hc]) rfl))
  | recvResumed hc _ hs => exact Or.inl (hs.advances h (h.detached_of_woken hc))
  | cancelled hc =>
    refine Or.inl (advances_finish ?_)
    rw [hc]
    exact Call.advances_cancel (.waiting _ _ .pending)
  | sendSelected hi he =>
    rcases selectSendPermit_cases c.toState with ⟨_, h'⟩ | ⟨_, _, h'⟩ | ⟨_, _, h'⟩ <;>
      rw [h'] at he <;> cases he
    all_goals exact Or.inr ⟨_, .permitted, .of_eq rfl⟩
  | recvSelected hi he =>
    rcases selectRecvPermit_cases c.toState with ⟨_, h'⟩ | ⟨_, _, _, h'⟩ | ⟨_, _, h'⟩ <;>
      rw [h'] at he <;> cases he
    all_goals exact Or.inr ⟨_, .permitted, .of_eq rfl⟩
  | selectStarted hf => exact Or.inr ⟨_, .selecting hf, .refl _⟩
  | sendWatched hc hn hi hw hk =>
    obtain ⟨cell, hd, hn'⟩ := hw.waiting hc hn
    exact Or.inl (hw.advances.trans (hk.advances hd hn'))
  | recvWatched hc hn hi hw hk =>
    obtain ⟨cell, hd, hn'⟩ := hw.waiting hc hn
    exact Or.inl (hw.advances.trans (hk.advances hd hn'))
  | firedElsewhere => exact Or.inl (advances_fire _ _)
  | sendUnwatched hc _ hp =>
    exact Or.inl ((advances_unwatchSendPermit _).trans
      (advances_unwatch ((h.unwatchSendPermit_calls (by simp [hc, Call.receives]) _).trans hc) hp))
  | recvUnwatched hc _ hp =>
    exact Or.inl ((advances_unwatchRecvPermit _).trans
      (advances_unwatch ((h.unwatchRecvPermit_calls (by simp [hc, Call.receives]) _).trans hc) hp))
  | sendConsumed hc _ _ hs => exact Or.inl (hs.advances h (h.detached_of_permitted hc))
  | recvConsumed hc _ _ hs => exact Or.inl (hs.advances h (h.detached_of_permitted hc))
  | closed => exact Or.inl advances_close

/-- No two living frames of `Select::select` have the same identifier. -/
def DistinctFrames (c : Config T) : Prop :=
  ∀ i j identifier, (c.calls i).identifies identifier = true →
    (c.calls j).identifies identifier = true → i = j

theorem DistinctFrames.advance (h : DistinctFrames c) (ha : c.Advances watching d) : DistinctFrames d :=
  fun i j identifier hi hj =>
    h i j identifier ((ha i).identifies _ hi) ((ha j).identifies _ hj)

theorem DistinctFrames.step (h : DistinctFrames c) (hw : WellFormed c) {e : Event T}
    (hm : Move c e d) : DistinctFrames d := by
  rcases hw.advances hm with ha | ⟨call, hs, ha⟩
  · exact h.advance ha
  refine DistinctFrames.advance (c := c.begin call) ?_ ha
  -- a call that starts identifies nothing, or what no living frame identifies
  have hnew : ∀ identifier, call.identifies identifier = true →
      ∀ j, (c.calls j).identifies identifier = false := by
    intro identifier hi j
    by_cases hj : j < c.created
    · cases hs with
      | @selecting caller slice own hf =>
        have ho : own = identifier := by simpa [Call.identifies, Cell.isCancelled] using hi
        exact ho ▸ hf j hj
      | _ => simp [Call.identifies] at hi
    · rw [hw.fresh j (by omega)]; rfl
  intro i j identifier hi hj
  simp only [Config.begin] at hi hj
  by_cases hic : i = c.created <;> by_cases hjc : j = c.created
  · omega
  · subst hic
    rw [Function.update_self] at hi
    rw [Function.update_of_ne hjc, hnew identifier hi j] at hj
    cases hj
  · subst hjc
    rw [Function.update_self] at hj
    rw [Function.update_of_ne hic, hnew identifier hj i] at hi
    cases hi
  · rw [Function.update_of_ne hic] at hi
    rw [Function.update_of_ne hjc] at hj
    exact h i j identifier hi hj

end ParallelChannel
