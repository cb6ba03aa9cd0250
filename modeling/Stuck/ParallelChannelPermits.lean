import Stuck.ParallelChannelCalls
import Stuck.Census

/-! The permit counters of a parallel channel count the calls that hold a permit. -/
namespace ParallelChannel

open TransitionSystem OneShot SharedTypes WaitQueue Census

variable {T : Type*} {c d m : Config T}

/-- The call has an unconsumed `Permit::Consume` of this side. -/
def Call.holds (side : Side) : Call T → Bool
  | .waiting (.recv _) _ (.fired (.permit .consume)) => side == .recv
  | .waiting (.select _ slice _) _ (.fired (.selected index .consume))
  | .permitted (.select _ slice _) index .consume => slice[index]? == some (some side)
  | _ => false

def Config.held (c : Config T) (side : Side) : ℕ :=
  Nat.count (fun i => (c.calls i).holds side = true) c.created

def State.permits (s : State T) : Side → ℕ
  | .send => s.sendPermits
  | .recv => s.recvPermits

/-- The permit counters count the permits that calls hold. Once the mutex is poisoned the
holders panic and the counters stay behind. -/
def Accounted (c : Config T) : Prop :=
  c.poisoned = false → ∀ side, c.permits side = c.held side

theorem held_begin (c : Config T) (call : Call T) (side : Side) :
    (c.begin call).held side = c.held side + if call.holds side = true then 1 else 0 :=
  count_update_succ (p := fun call : Call T => call.holds side = true) c.calls c.created call

theorem held_finish {i : ℕ} (hi : i < c.created) (call : Call T) (side : Side) :
    (c.finish i call).held side + (if (c.calls i).holds side = true then 1 else 0) =
      c.held side + if call.holds side = true then 1 else 0 :=
  count_update (p := fun call : Call T => call.holds side = true) c.calls hi call

theorem held_finish_same {i : ℕ} {call : Call T} {side : Side}
    (h : call.holds side = (c.calls i).holds side) :
    (c.finish i call).held side = c.held side :=
  count_update_same (p := fun call : Call T => call.holds side = true) c.calls (by rw [h])

theorem Accounted.of_eq (h : Accounted c) (hc : d.calls = c.calls) (hn : d.created = c.created)
    (hs : d.sendPermits = c.sendPermits) (hr : d.recvPermits = c.recvPermits)
    (hp : d.poisoned = false → c.poisoned = false) : Accounted d := by
  intro hd side
  have := h (hp hd) side
  cases side <;> simpa [State.permits, Config.held, hc, hn, hs, hr] using this

theorem Accounted.begin (h : Accounted c) {k : Call T}
    (hn : ∀ side, k.holds side = false) : Accounted (c.begin k) := by
  intro hp side
  rw [held_begin, hn side]
  exact h hp side

theorem Accounted.finish (h : Accounted c) {i : ℕ} {call : Call T}
    (hs : ∀ side, call.holds side = (c.calls i).holds side) : Accounted (c.finish i call) := by
  intro hp side
  rw [held_finish_same (hs side)]
  exact h hp side

/-- The outcome grants a `Permit::Consume`. -/
def Outcome.grants : Outcome T → Bool
  | .permit .consume | .selected _ .consume => true
  | _ => false

theorem Call.holds_fire (call : Call T) {o : Outcome T} (h : o.grants = false) (side : Side) :
    (call.fire o).holds side = call.holds side := by
  cases call with
  | waiting op watched cell =>
    cases cell with
    | pending =>
      cases op <;> cases o <;> simp [Call.fire, Cell.fire, Call.holds]
      all_goals
        rename_i permit
        cases permit <;> simp_all [Outcome.grants]
    | _ => rfl
  | _ => rfl

/-- A pending call gets a permit, and the counter of its side counts it. -/
theorem Accounted.grant (h : Accounted c) {i : ℕ} {o : Outcome T} {p : Side}
    (hi : i < c.created) (hn : ∀ s, (c.calls i).holds s = false)
    (hg : ∀ s, ((c.calls i).fire o).holds s = (s == p)) (hcalls : m.calls = c.calls)
    (hcreated : m.created = c.created) (hpoisoned : m.poisoned = c.poisoned)
    (hpermits : ∀ s, m.permits s = c.permits s + if s = p then 1 else 0) :
    Accounted (m.fire i o) := by
  intro hp s
  have hb : (m.fire i o).held s = (c.fire i o).held s := by
    unfold Config.held
    rw [show (m.fire i o).created = (c.fire i o).created from hcreated]
    exact count_congr fun j _ => by simp [Config.fire, Config.finish, hcalls]
  have hf := held_finish hi ((c.calls i).fire o) s
  rw [hn s, hg s] at hf
  have hc := h (hpoisoned ▸ hp) s
  change m.permits s = _
  rw [hb, hpermits s, hc]
  simpa [Config.fire] using hf.symm

theorem Call.holds_of_pending {call : Call T} (h : call.pending = true) (side : Side) :
    call.holds side = false := by
  cases call with
  | waiting op watched cell => cases cell <;> cases op <;> simp_all [pending, Cell.isPending, holds]
  | _ => cases h

theorem Call.holds_fire_selected {call : Call T} (hp : call.pending = true) {side : Side}
    {s : Selector} (hs : call.selects side s = true) (other : Side) :
    (call.fire (.selected s.index .consume)).holds other = (other == side) := by
  cases call with
  | waiting op watched cell =>
    cases op with
    | select caller slice identifier =>
      have hp : cell = .pending := by simpa [pending] using hp
      subst hp
      simp only [selects, Bool.and_eq_true, beq_iff_eq] at hs
      simp only [fire, Cell.fire, holds, hs.2]
      cases other <;> cases side <;> rfl
    | _ => cases hs
  | _ => cases hp

theorem Accounted.grantSender (h : Accounted c) (hw : WellFormed c) {w : Waiter T}
    (hv : w.Valid c.calls) (hl : w.live c.calls = true) : Accounted (c.grantSender w) := by
  have hi := hw.lt_created hv.used
  cases w with
  | task i value | thread i value =>
    exact (h.finish (i := i) (Call.holds_fire _ rfl)).of_eq rfl rfl rfl rfl id
  | selector s =>
    refine h.grant hi (Call.holds_of_pending hl) (Call.holds_fire_selected hl hv)
      (m := { c with sendPermits := c.sendPermits + 1 }) rfl rfl rfl ?_
    intro side
    cases side <;> rfl

theorem Accounted.grantReceiver (h : Accounted c) (hw : WellFormed c) {w : RecvWaiter}
    (hv : w.Valid c.calls) (hl : w.live c.calls = true) : Accounted (c.grantReceiver w) := by
  have hi := hw.lt_created hv.used
  cases w with
  | task i =>
    refine h.grant hi (Call.holds_of_pending hl) (o := .permit .consume) (p := .recv) ?_
      (m := { c with recvPermits := c.recvPermits + 1 }) rfl rfl rfl ?_
    · intro side
      obtain ⟨status, watched, cell, hc, _⟩ := hv
      simp only [RecvWaiter.live, RecvWaiter.call, hc, Call.pending, Cell.isPending_iff] at hl
      simp [hc, hl, Call.fire, Cell.fire, Call.holds]
    · intro side
      cases side <;> rfl
  | thread i =>
    simp only [Config.grantReceiver]
    cases c.deque with
    | nil => exact h.of_eq rfl rfl rfl rfl (by simp [Config.poison])
    | cons value rest => exact (h.finish (i := i) (Call.holds_fire _ rfl)).of_eq rfl rfl rfl rfl id
  | selector s =>
    refine h.grant hi (Call.holds_of_pending hl) (Call.holds_fire_selected hl hv)
      (m := { c with recvPermits := c.recvPermits + 1 }) rfl rfl rfl ?_
    intro side
    cases side <;> rfl

theorem Accounted.wakeSender (h : Accounted c) (hw : WellFormed c) : Accounted c.wakeSender := by
  rcases wakeSender_cases hw.senders_valid with ⟨_, he⟩ | ⟨w, rest, ht, he⟩
  · rw [he]; exact h.of_eq rfl rfl rfl rfl id
  · rw [he]
    exact Accounted.grantSender (c := { c with senders := rest }) (h.of_eq rfl rfl rfl rfl id)
      (hw.dropSenders ((List.sublist_cons_self w rest).trans (takeFirst_sublist ht)))
      (hw.senders_valid w (takeFirst_mem ht)) (takeFirst_eq_some ht).1

theorem Accounted.wakeReceiver (h : Accounted c) (hw : WellFormed c) :
    Accounted c.wakeReceiver := by
  rcases wakeReceiver_cases hw.receivers_valid with ⟨_, he⟩ | ⟨w, rest, ht, he⟩
  · rw [he]; exact h.of_eq rfl rfl rfl rfl id
  · rw [he]
    exact Accounted.grantReceiver (c := { c with receivers := rest }) (h.of_eq rfl rfl rfl rfl id)
      (hw.dropReceivers ((List.sublist_cons_self w rest).trans (takeFirst_sublist ht)))
      (hw.receivers_valid w (takeFirst_mem ht)) (takeFirst_eq_some ht).1

theorem Accounted.fireAll (h : Accounted c) {wakes : List (ℕ × Outcome T)}
    (hn : ∀ wake ∈ wakes, wake.2.grants = false) : Accounted (c.fireAll wakes) := by
  induction wakes generalizing c with
  | nil => exact h
  | cons wake rest ih =>
    exact ih (h.finish (i := wake.1) (Call.holds_fire _ (hn wake (by simp))))
      fun v hv => hn v (by simp [hv])

theorem Accounted.closeSenders (h : Accounted c) : Accounted c.closeSenders := by
  rw [closeSenders_eq]
  apply Accounted.fireAll (c := { c with senders := [] }) (h.of_eq rfl rfl rfl rfl id)
  intro wake hw
  obtain ⟨w, _, rfl⟩ := List.mem_map.mp hw
  cases w <;> rfl

theorem Accounted.closeReceivers (h : Accounted c) : Accounted c.closeReceivers := by
  rw [closeReceivers_eq]
  apply Accounted.fireAll (c := { c with receivers := [] }) (h.of_eq rfl rfl rfl rfl id)
  intro wake hw
  obtain ⟨w, _, rfl⟩ := List.mem_map.mp hw
  cases w <;> rfl

theorem Accounted.close (h : Accounted c) : Accounted c.close := by
  have hs : Accounted { c with closed := true }.closeSenders :=
    Accounted.closeSenders (c := { c with closed := true }) (h.of_eq rfl rfl rfl rfl id)
  unfold Config.close
  dsimp only
  split
  · exact hs.closeReceivers
  · exact hs

theorem Call.holds_cancel (call : Call T) (side : Side) :
    call.cancel.holds side = call.holds side := by
  cases call with
  | waiting op watched cell => cases cell <;> cases op <;> rfl
  | _ => rfl

theorem Call.holds_watched (op : Op T) (watched watched' : List ℕ) (cell : Cell (Outcome T))
    (side : Side) :
    (Call.waiting op watched cell).holds side = (Call.waiting op watched' cell).holds side := by
  cases cell with
  | fired o => cases op <;> rcases o with _ | (_ | _) | _ | ⟨_, _ | _⟩ | _ <;> rfl
  | _ => cases op <;> rfl

theorem Accounted.removeReceiver (h : Accounted c) (position : ℕ) :
    Accounted (c.removeReceiver position) := by
  unfold Config.removeReceiver
  split
  next w _ =>
    cases w with
    | task i => exact (h.finish (i := i) (Call.holds_cancel _)).of_eq rfl rfl rfl rfl id
    | thread | selector => exact h.of_eq rfl rfl rfl rfl id
  next => exact h

theorem Accounted.unwatchSendPermit (h : Accounted c) (identifier : ℕ) :
    Accounted (c.unwatchSendPermit identifier) := by
  unfold Config.unwatchSendPermit
  split
  · exact h.removeReceiver _
  · exact h

theorem Accounted.unwatchRecvPermit (h : Accounted c) (identifier : ℕ) :
    Accounted (c.unwatchRecvPermit identifier) := by
  unfold Config.unwatchRecvPermit
  split
  · exact h.removeReceiver _
  · exact h

theorem Accounted.poison (c : Config T) : Accounted c.poison := fun hp => by cases hp

/-- A holder consumes its permit, and the counter of its side goes down. -/
theorem Accounted.consume (h : Accounted c) {i : ℕ} {k : Call T} {p : Side}
    (hi : i < c.created) (hh : ∀ s, (c.calls i).holds s = (s == p))
    (hn : ∀ s, k.holds s = false) (hcalls : m.calls = c.calls)
    (hcreated : m.created = c.created) (hpoisoned : m.poisoned = c.poisoned)
    (hpermits : ∀ s, m.permits s + (if s = p then 1 else 0) = c.permits s) :
    Accounted (m.finish i k) := by
  intro hp s
  have hb : (m.finish i k).held s = (c.finish i k).held s := by
    unfold Config.held
    rw [show (m.finish i k).created = (c.finish i k).created from hcreated]
    exact count_congr fun j _ => by simp [Config.finish, hcalls]
  have hf := held_finish hi k s
  rw [hn s, hh s] at hf
  have hc := h (hpoisoned ▸ hp) s
  have hs := hpermits s
  change m.permits s = _
  rw [hb]
  simp only [beq_iff_eq, Bool.false_eq_true, if_false] at hf
  omega

theorem Accounted.takeReserved (h : Accounted c) {i : ℕ} (hi : i < c.created)
    (hh : ∀ s, (c.calls i).holds s = (s == .recv)) (hp : 0 < c.recvPermits) (value : T)
    (rest : List T) : Accounted (c.takeReserved i value rest) := by
  refine Accounted.of_eq (h.consume (k := .received (.ok value)) hi hh (fun _ => rfl)
    (m := { c with recvPermits := c.recvPermits - 1 }) rfl rfl rfl ?_) rfl rfl rfl rfl id
  intro s
  cases s <;> simp [State.permits]
  omega

theorem Accounted.fillReserved (h : Accounted c) {i : ℕ} (hi : i < c.created)
    (hh : ∀ s, (c.calls i).holds s = (s == .send)) (hp : 0 < c.sendPermits) (value : T) :
    Accounted (c.fillReserved i value) := by
  refine Accounted.of_eq (h.consume (k := .sent value (.ok ())) hi hh (fun _ => rfl)
    (m := { c with sendPermits := c.sendPermits - 1 }) rfl rfl rfl ?_) rfl rfl rfl rfl id
  intro s
  cases s <;> simp [State.permits]
  omega

theorem ConsumesRecv.accounted {i : ℕ} {op : Op T} (hs : ConsumesRecv c i op d)
    (h : Accounted c) (hw : WellFormed c) (hi : Detached c i)
    (hh : ∀ s, (c.calls i).holds s = (s == .recv)) : Accounted d := by
  have hc := hw.lt_created hi.used
  cases hs with
  | underflow => exact .poison _
  | drained hp hd =>
    refine h.consume (k := .received (.error .closed)) hc hh (fun _ => rfl)
      (m := { c with recvPermits := c.recvPermits - 1 }) rfl rfl rfl ?_
    intro s
    cases s <;> simp [State.permits]
    omega
  | kept hp => exact h.takeReserved hc hh hp _ _
  | refilled hp => exact (h.takeReserved hc hh hp _ _).wakeSender (hw.takeReserved hi _ _)
  | exhausted hp => exact (h.takeReserved hc hh hp _ _).closeReceivers

theorem ConsumesSend.accounted {i : ℕ} {op : Op T} {value : T}
    (hs : ConsumesSend c i op value d) (h : Accounted c) (hw : WellFormed c) (hi : Detached c i)
    (hh : ∀ s, (c.calls i).holds s = (s == .send)) : Accounted d := by
  have hc := hw.lt_created hi.used
  cases hs with
  | noPermit | noSlot => exact .poison _
  | delivered hp => exact (h.fillReserved hc hh hp value).wakeReceiver (hw.fillReserved hi value)
  | stored hp => exact h.fillReserved hc hh hp value

theorem WatchesSend.accounted {s : Selector} {available : Bool}
    (hs : WatchesSend c s (d, available)) (h : Accounted c) (hw : WellFormed c)
    (hi : Detached c s.waker) (hb : (c.calls s.waker).selects .send s = true) : Accounted d := by
  cases hs with
  | closed => exact h.finish (Call.holds_fire _ rfl)
  | granted _ _ hp =>
    refine h.grant (hw.lt_created hi.used) (Call.holds_of_pending hp)
      (Call.holds_fire_selected hp hb) (m := { c with sendPermits := c.sendPermits + 1 })
      rfl rfl rfl ?_
    intro side
    cases side <;> rfl
  | late => exact h
  | queued => exact h.of_eq rfl rfl rfl rfl id

theorem WatchesRecv.accounted {s : Selector} {available : Bool}
    (hs : WatchesRecv c s (d, available)) (h : Accounted c) (hw : WellFormed c)
    (hi : Detached c s.waker) (hb : (c.calls s.waker).selects .recv s = true) : Accounted d := by
  cases hs with
  | closed => exact h.finish (Call.holds_fire _ rfl)
  | granted _ hp =>
    refine h.grant (hw.lt_created hi.used) (Call.holds_of_pending hp)
      (Call.holds_fire_selected hp hb) (m := { c with recvPermits := c.recvPermits + 1 })
      rfl rfl rfl ?_
    intro side
    cases side <;> rfl
  | late => exact h
  | queued => exact h.of_eq rfl rfl rfl rfl id

theorem Checks.accounted {i index : ℕ} {available ready : Bool} {op : Op T} {watched : List ℕ}
    {cell : Cell (Outcome T)} (hk : Checks c i index available ready d) (h : Accounted c)
    (hc : c.calls i = .waiting op watched cell) : Accounted d := by
  cases hk with
  | counted =>
    refine h.finish fun side => ?_
    rw [hc]
    exact Call.holds_watched op _ watched cell side
  | broken => exact h

theorem Accounted.permitted (h : Accounted c) {op : Op T} {index : ℕ} {p : Side}
    (hh : ∀ s, (Call.permitted op index .consume).holds s = (s == p))
    (hcalls : m.calls = c.calls) (hcreated : m.created = c.created)
    (hpoisoned : m.poisoned = c.poisoned)
    (hpermits : ∀ s, m.permits s = c.permits s + if s = p then 1 else 0) :
    Accounted (m.begin (.permitted op index .consume)) := by
  intro hp s
  have hm : m.held s = c.held s := by
    unfold Config.held
    rw [hcalls, hcreated]
  change m.permits s = _
  rw [held_begin, hh s, hm, hpermits s, h (hpoisoned ▸ hp) s]
  simp

theorem Accounted.step (h : Accounted c) (hw : WellFormed c) {e : Event T} (hm : Move c e d) :
    Accounted d := by
  cases hm with
  | sendRefused | recvRefused | selectStarted => exact h.begin fun _ => rfl
  | sendPanicked | recvPanicked | recvOverflowed => exact .poison _
  | sendNow =>
    exact Accounted.wakeReceiver
      ((h.begin (k := .sent _ (.ok ())) fun _ => rfl).of_eq rfl rfl rfl rfl id)
      ((hw.begin (.sent _ (.ok ()))).of_eq rfl rfl rfl rfl rfl)
  | sendTask | sendThread | recvTask | recvThread =>
    exact (h.of_eq (d := { c with }) rfl rfl rfl rfl id).begin fun _ => rfl
  | recvNow =>
    exact Accounted.wakeSender
      ((h.begin (k := .received (.ok _)) fun _ => rfl).of_eq rfl rfl rfl rfl id)
      ((hw.begin (.received (.ok _))).of_eq rfl rfl rfl rfl rfl)
  | sendReturned hc => exact h.finish fun side => by rw [hc]; rfl
  | recvClosed hc ho =>
    refine h.finish fun side => ?_
    rw [hc]
    rcases ho with rfl | rfl <;> rfl
  | recvReturned hc | returnedElsewhere hc => exact h.finish fun side => by rw [hc]; rfl
  | waitPanicked hc hp =>
    intro hd
    simp [Config.finish, hp] at hd
  | recvResumed hc _ hs =>
    exact hs.accounted h hw (hw.detached_of_woken hc) fun s => by rw [hc]; rfl
  | selectReturned hc =>
    refine h.finish fun side => ?_
    rw [hc]
    rename_i permit
    cases permit <;> rfl
  | cancelled hc =>
    refine h.finish fun side => ?_
    rw [hc]
    exact Call.holds_cancel (.waiting _ _ .pending) side
  | sendSelected hi he =>
    rcases selectSendPermit_cases c.toState with ⟨_, h'⟩ | ⟨_, _, h'⟩ | ⟨_, _, h'⟩ <;>
      rw [h'] at he <;> cases he
    · exact h.begin fun _ => rfl
    · refine h.permitted (p := .send) (fun s => ?_) rfl rfl rfl fun s => ?_
      · simp only [Call.holds, hi]
        cases s <;> rfl
      · cases s <;> rfl
  | recvSelected hi he =>
    rcases selectRecvPermit_cases c.toState with ⟨_, h'⟩ | ⟨_, _, _, h'⟩ | ⟨_, _, h'⟩ <;>
      rw [h'] at he <;> cases he
    · refine h.permitted (p := .recv) (fun s => ?_) rfl rfl rfl fun s => ?_
      · simp only [Call.holds, hi]
        cases s <;> rfl
      · cases s <;> rfl
    · exact h.begin fun _ => rfl
  | sendWatched hc hn hi hs hk =>
    obtain ⟨cell, hd, _⟩ := hs.waiting hc hn
    exact hk.accounted (hs.accounted h hw (hw.detached_of_select hc)
      (by simp [hc, Call.selects, hi])) hd
  | recvWatched hc hn hi hs hk =>
    obtain ⟨cell, hd, _⟩ := hs.waiting hc hn
    exact hk.accounted (hs.accounted h hw (hw.detached_of_select hc)
      (by simp [hc, Call.selects, hi])) hd
  | firedElsewhere => exact h.finish (Call.holds_fire _ rfl)
  | sendUnwatched hc =>
    refine (h.unwatchSendPermit _).finish fun side => ?_
    rw [(hw.unwatchSendPermit_calls (by simp [hc, Call.receives]) _).trans hc]
    exact Call.holds_watched _ _ _ _ side
  | recvUnwatched hc =>
    refine (h.unwatchRecvPermit _).finish fun side => ?_
    rw [(hw.unwatchRecvPermit_calls (by simp [hc, Call.receives]) _).trans hc]
    exact Call.holds_watched _ _ _ _ side
  | sendDetached hc | recvDetached hc =>
    refine h.finish fun side => ?_
    rw [hc]
    rfl
  | sendConsumed hc hi _ hs =>
    refine hs.accounted h hw (hw.detached_of_permitted hc) fun s => ?_
    simp only [hc, Call.holds, hi]
    cases s <;> rfl
  | recvConsumed hc hi _ hs =>
    refine hs.accounted h hw (hw.detached_of_permitted hc) fun s => ?_
    simp only [hc, Call.holds, hi]
    cases s <;> rfl
  | closed => exact h.close

end ParallelChannel
