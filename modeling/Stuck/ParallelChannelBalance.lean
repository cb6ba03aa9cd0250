import Stuck.ParallelChannelLevels
import Mathlib.Logic.Relation

/-! The permit balance of a parallel channel in every reachable configuration, poisoned ones
included, and that nothing but the panic of an aborting coroutine poisons its mutex. -/
namespace ParallelChannel

open TransitionSystem OneShot SharedTypes WaitQueue Census

variable {T : Type*} {c d m : Config T} {poisoned : Bool}

/-- A waker puts a permit into the session of a receiving task, a value into a thread's cell. -/
def Outcome.Fits : Op T → Outcome T → Prop
  | .recv (.task _), .permit _ | .recv .thread, .received _ => True
  | .recv _, _ => False
  | _, _ => True

/-- The single steps that a call takes. -/
inductive Call.Step (poisoned : Bool) : Call T → Call T → Prop
  | begun {op} : op ≠ .recv (.task .aborting) →
      Call.Step poisoned .unused (.waiting op [] .pending)
  | fired {op watched o} : o.Fits op →
      Call.Step poisoned (.waiting op watched .pending) (.waiting op watched (.fired o))
  | cancelled {op watched} :
      Call.Step poisoned (.waiting op watched .pending) (.waiting op watched .cancelled)
  | rewatched {op watched watched' cell} :
      Call.Step poisoned (.waiting op watched cell) (.waiting op watched' cell)
  | granted {op index permit} : Call.Step poisoned .unused (.permitted op index permit)
  | returned {caller slice identifier watched index permit} : Call.Step poisoned
      (.waiting (.select caller slice identifier) watched (.fired (.selected index permit)))
      (.permitted (.select caller slice identifier) index permit)
  | returnedElsewhere {caller slice identifier watched} : Call.Step poisoned
      (.waiting (.select caller slice identifier) watched (.fired .elsewhere)) .elsewhere
  | sent {a value result} : Call.Step poisoned a (.sent value result)
  | received {a result} : Call.Step poisoned a (.received result)
  | panicked {a op} : poisoned = true → Call.Step poisoned a (.panicked op)

/-- Every call takes some steps, and the mutex stays as it is. -/
structure Evolves (c d : Config T) : Prop where
  poisoned : d.poisoned = c.poisoned
  calls : ∀ i, Relation.ReflTransGen (Call.Step c.poisoned) (c.calls i) (d.calls i)

theorem Evolves.of_eq (hp : d.poisoned = c.poisoned) (hc : d.calls = c.calls) : Evolves c d :=
  ⟨hp, fun i => by rw [hc]⟩

theorem Evolves.trans (h : Evolves c m) (h' : Evolves m d) : Evolves c d :=
  ⟨h'.poisoned.trans h.poisoned, fun i => (h.calls i).trans (h.poisoned ▸ h'.calls i)⟩

theorem Evolves.finish {i : ℕ} {k : Call T}
    (h : Relation.ReflTransGen (Call.Step c.poisoned) (c.calls i) k) : Evolves c (c.finish i k) := by
  refine ⟨rfl, fun j => ?_⟩
  by_cases hj : j = i
  · subst hj
    simpa [Config.finish] using h
  · simpa only [Config.finish, Function.update_of_ne hj] using .refl

theorem WellFormed.evolves_begin (h : WellFormed c) {k : Call T}
    (hk : Call.Step c.poisoned .unused k) : Evolves c (c.begin k) := by
  have hf : Evolves c (c.finish c.created k) :=
    .finish (.single (by rw [h.fresh _ (Nat.le_refl _)]; exact hk))
  exact hf.trans (.of_eq rfl rfl)

/-- The outcome is one that a waker of the call may put into its cell. -/
def Outcome.Suits (call : Call T) (o : Outcome T) : Prop :=
  ∀ op watched, call = .waiting op watched .pending → o.Fits op

theorem Evolves.fire {i : ℕ} {o : Outcome T} (h : o.Suits (c.calls i)) : Evolves c (c.fire i o) := by
  refine .finish ?_
  cases hc : c.calls i with
  | waiting op watched cell =>
    cases cell with
    | pending => exact .single (.fired (h op watched hc))
    | _ => exact .refl
  | _ => exact .refl

theorem Waiter.Valid.suits {calls : ℕ → Call T} {w : Waiter T} (h : w.Valid calls)
    (o : Outcome T) : o.Suits (calls w.call) := by
  intro op watched hc
  have hr := h.not_receives
  rw [hc] at hr
  cases op with
  | recv => cases hr
  | _ => trivial

theorem Call.suits_of_selects {call : Call T} {side : Side} {s : Selector}
    (h : call.selects side s = true) (o : Outcome T) : o.Suits call := by
  rintro op watched rfl
  cases op with
  | select => trivial
  | _ => cases h

theorem RecvWaiter.Valid.suits_permit {calls : ℕ → Call T} {i : ℕ}
    (h : (RecvWaiter.task i).Valid calls) (permit : Permit) :
    (Outcome.permit permit).Suits (calls i) := by
  obtain ⟨status, watched, cell, hc, _⟩ := h
  rintro op watched' hop
  rw [hc] at hop
  cases hop
  trivial

theorem RecvWaiter.Valid.suits_received {calls : ℕ → Call T} {i : ℕ}
    (h : (RecvWaiter.thread i).Valid calls) (value : Option T) :
    (Outcome.received value).Suits (calls i) := by
  obtain ⟨watched, hc⟩ := h
  rintro op watched' hop
  rw [hc] at hop
  cases hop
  trivial

theorem evolves_grantSender {w : Waiter T} (hv : w.Valid c.calls) : Evolves c (c.grantSender w) := by
  cases w with
  | task i value | thread i value =>
    exact (Evolves.fire (i := i) (hv.suits (.sent (.ok ())))).trans (.of_eq rfl rfl)
  | selector s =>
    exact (Evolves.of_eq (c := c) (d := { c with sendPermits := c.sendPermits + 1 }) rfl rfl).trans
      (.fire (hv.suits _))

theorem evolves_grantReceiver {w : RecvWaiter} (hv : w.Valid c.calls) (hd : c.deque ≠ []) :
    Evolves c (c.grantReceiver w) := by
  cases w with
  | task i =>
    exact (Evolves.of_eq (c := c) (d := { c with recvPermits := c.recvPermits + 1 }) rfl rfl).trans
      (.fire (i := i) (hv.suits_permit .consume))
  | thread i =>
    obtain ⟨value, rest, hd⟩ := List.exists_cons_of_ne_nil hd
    simp only [Config.grantReceiver, hd]
    exact (Evolves.of_eq (c := c) (d := c.popFront i value rest) rfl rfl).trans
      (.fire (i := i) (hv.suits_received (some value)))
  | selector s =>
    exact (Evolves.of_eq (c := c) (d := { c with recvPermits := c.recvPermits + 1 }) rfl rfl).trans
      (.fire (Call.suits_of_selects hv _))

theorem WellFormed.evolves_wakeSender (h : WellFormed c) : Evolves c c.wakeSender := by
  rcases wakeSender_cases h.senders_valid with ⟨_, he⟩ | ⟨w, rest, ht, he⟩
  · rw [he]; exact .of_eq rfl rfl
  · rw [he]
    exact (Evolves.of_eq (c := c) (d := { c with senders := rest }) rfl rfl).trans
      (evolves_grantSender (h.senders_valid w (takeFirst_mem ht)))

theorem WellFormed.evolves_wakeReceiver (h : WellFormed c) (hd : c.deque ≠ []) :
    Evolves c c.wakeReceiver := by
  rcases wakeReceiver_cases h.receivers_valid with ⟨_, he⟩ | ⟨w, rest, ht, he⟩
  · rw [he]; exact .of_eq rfl rfl
  · rw [he]
    exact (Evolves.of_eq (c := c) (d := { c with receivers := rest }) rfl rfl).trans
      (evolves_grantReceiver (c := { c with receivers := rest })
        (h.receivers_valid w (takeFirst_mem ht)) hd)

theorem evolves_fireAll {wakes : List (ℕ × Outcome T)}
    (h : ∀ wake ∈ wakes, wake.2.Suits (c.calls wake.1)) : Evolves c (c.fireAll wakes) := by
  refine ⟨by rw [fireAll_eq], fun i => ?_⟩
  rcases fireAll_calls c wakes i with ⟨he, _⟩ | ⟨wake, hm, rfl, he⟩
  · rw [he]
  · rw [he]
    have hf := (Evolves.fire (h wake hm)).calls wake.1
    simpa [Config.fire, Config.finish] using hf

theorem WellFormed.evolves_closeSenders (h : WellFormed c) (closed : Bool) :
    Evolves c { c with closed := closed }.closeSenders := by
  rw [closeSenders_eq]
  refine (Evolves.of_eq (c := c) (d := { c with closed := closed, senders := [] }) rfl rfl).trans
    (evolves_fireAll ?_)
  intro wake hm
  obtain ⟨w, hw, rfl⟩ := List.mem_map.mp hm
  rw [Waiter.closing_call]
  exact (h.senders_valid w hw).suits _

theorem WellFormed.evolves_closeReceivers (h : WellFormed c) : Evolves c c.closeReceivers := by
  rw [closeReceivers_eq]
  refine (Evolves.of_eq (c := c) (d := { c with receivers := [] }) rfl rfl).trans (evolves_fireAll ?_)
  intro wake hm
  obtain ⟨w, hw, rfl⟩ := List.mem_map.mp hm
  have hv := h.receivers_valid w hw
  cases w with
  | task i => exact hv.suits_permit .closed
  | thread i => exact hv.suits_received none
  | selector s => exact Call.suits_of_selects hv _

theorem WellFormed.evolves_close (h : WellFormed c) : Evolves c c.close := by
  unfold Config.close
  dsimp only
  split
  · exact (h.evolves_closeSenders true).trans (h.closeSenders true).evolves_closeReceivers
  · exact h.evolves_closeSenders true

theorem evolves_removeReceiver (position : ℕ) : Evolves c (c.removeReceiver position) := by
  unfold Config.removeReceiver
  split
  next w _ =>
    cases w with
    | task i =>
      refine (Evolves.of_eq (c := c) (d := { c with receivers := c.receivers.eraseIdx position }) rfl
        rfl).trans (.finish (i := i) ?_)
      dsimp only
      cases c.calls i with
      | waiting op watched cell =>
        cases cell with
        | pending => exact .single .cancelled
        | _ => exact .refl
      | _ => exact .refl
    | thread | selector => exact .of_eq rfl rfl
  next => exact .of_eq rfl rfl

theorem evolves_unwatchSendPermit (identifier : ℕ) :
    Evolves c (c.unwatchSendPermit identifier) := by
  unfold Config.unwatchSendPermit
  split
  · exact evolves_removeReceiver _
  · exact .of_eq rfl rfl

theorem evolves_unwatchRecvPermit (identifier : ℕ) :
    Evolves c (c.unwatchRecvPermit identifier) := by
  unfold Config.unwatchRecvPermit
  split
  · exact evolves_removeReceiver _
  · exact .of_eq rfl rfl

theorem evolves_takeReserved (i : ℕ) (value : T) (rest : List T) :
    Evolves c (c.takeReserved i value rest) :=
  (Evolves.of_eq (c := c) (d := { c with recvPermits := c.recvPermits - 1 }) rfl rfl).trans
    ((Evolves.finish (i := i) (.single .received)).trans (.of_eq rfl rfl))

theorem evolves_fillReserved (i : ℕ) (value : T) : Evolves c (c.fillReserved i value) :=
  (Evolves.of_eq (c := c) (d := { c with sendPermits := c.sendPermits - 1 }) rfl rfl).trans
    ((Evolves.finish (i := i) (.single .sent)).trans (.of_eq rfl rfl))

/-- A holder always finds its permit counted. -/
theorem ConsumesRecv.evolves {i : ℕ} {op : Op T} (hs : ConsumesRecv c i op d) (hw : WellFormed c)
    (hi : Detached c i) (hpos : 0 < c.recvPermits) : Evolves c d := by
  cases hs with
  | underflow h0 => omega
  | drained =>
    exact (Evolves.of_eq (c := c) (d := { c with recvPermits := c.recvPermits - 1 }) rfl rfl).trans
      (.finish (.single .received))
  | kept => exact evolves_takeReserved i _ _
  | refilled =>
    exact (evolves_takeReserved i _ _).trans (hw.takeReserved hi _ _).evolves_wakeSender
  | exhausted =>
    exact (evolves_takeReserved i _ _).trans (hw.takeReserved hi _ _).evolves_closeReceivers

/-- A holder always finds its permit counted and its slot free. -/
theorem ConsumesSend.evolves {i : ℕ} {op : Op T} {value : T} (hs : ConsumesSend c i op value d)
    (hw : WellFormed c) (hi : Detached c i) (hpos : 0 < c.sendPermits)
    (hcap : c.recvableLen ≤ c.bound) : Evolves c d := by
  cases hs with
  | noPermit h0 => omega
  | noSlot _ hf =>
    simp only [State.isFull, State.recvableLen, beq_iff_eq] at hf hcap
    omega
  | delivered =>
    refine (evolves_fillReserved i value).trans
      ((hw.fillReserved hi value).evolves_wakeReceiver ?_)
    simp [Config.fillReserved, Config.finish, Config.pushBack]
  | stored => exact evolves_fillReserved i value

theorem WatchesSend.evolves {s : Selector} {available : Bool}
    (hs : WatchesSend c s (d, available)) (hb : (c.calls s.waker).selects .send s = true) :
    Evolves c d := by
  cases hs with
  | closed => exact .fire (Call.suits_of_selects hb _)
  | granted =>
    exact (Evolves.of_eq (c := c) (d := { c with sendPermits := c.sendPermits + 1 }) rfl rfl).trans
      (.fire (Call.suits_of_selects hb _))
  | late | queued => exact .of_eq rfl rfl

theorem WatchesRecv.evolves {s : Selector} {available : Bool}
    (hs : WatchesRecv c s (d, available)) (hb : (c.calls s.waker).selects .recv s = true) :
    Evolves c d := by
  cases hs with
  | granted =>
    exact (Evolves.of_eq (c := c) (d := { c with recvPermits := c.recvPermits + 1 }) rfl rfl).trans
      (.fire (Call.suits_of_selects hb _))
  | closed => exact .fire (Call.suits_of_selects hb _)
  | late | queued => exact .of_eq rfl rfl

theorem Checks.evolves {i index : ℕ} {available ready : Bool}
    (hk : Checks c i index available ready d) : Evolves c d := by
  cases hk with
  | counted =>
    refine .finish ?_
    cases c.calls i with
    | waiting => exact .single .rewatched
    | _ => exact .refl
  | broken => exact .of_eq rfl rfl

/-- `task::session()` has panicked for an aborting coroutine, under the guard. -/
inductive Aborts (c : Config T) : Event T → Config T → Prop
  | send {trying value} : Aborts c (.send (.task .aborting) trying value)
      (c.begin (.panicked (.send (.task .aborting) value))).poison
  | recv {trying} : Aborts c (.recv (.task .aborting) trying)
      (c.begin (.panicked (.recv (.task .aborting)))).poison

theorem Invariant.holds_permits (h : Invariant c) {i : ℕ} {side : Side} (hp : c.poisoned = false)
    (hh : (c.calls i).holds side = true) (hu : c.calls i ≠ .unused) : 0 < c.permits side :=
  h.accounted.positive hp (h.wellFormed.lt_created hu) hh

theorem WellFormed.evolves_sendNow (h : WellFormed c) (value : T) :
    Evolves c ((c.begin (.sent value (.ok ()))).pushBack c.created value).wakeReceiver := by
  let m := (c.begin (.sent value (.ok ()))).pushBack c.created value
  have hpush : Evolves c m := (h.evolves_begin .sent).trans (.of_eq rfl rfl)
  have hm : WellFormed m := (h.begin (.sent value (.ok ()))).of_eq rfl rfl rfl rfl rfl
  exact hpush.trans (hm.evolves_wakeReceiver (by simp [m, Config.begin, Config.pushBack]))

theorem WellFormed.evolves_takeFree (h : WellFormed c) (value : T) (rest : List T) :
    Evolves c (c.takeFree value rest) := by
  let m := (c.begin (.received (.ok value))).popFront c.created value rest
  have hpop : Evolves c m := (h.evolves_begin .received).trans (.of_eq rfl rfl)
  have hm : WellFormed m := (h.begin (.received (.ok value))).of_eq rfl rfl rfl rfl rfl
  exact hpop.trans hm.evolves_wakeSender

theorem Invariant.evolves (h : Invariant c) {e : Event T} (hm : Move c e d) :
    Evolves c d ∨ Aborts c e d := by
  have hw := h.wellFormed
  cases hm with
  | sendRefused => exact Or.inl (hw.evolves_begin .sent)
  | recvRefused => exact Or.inl (hw.evolves_begin .received)
  | sendPanicked ha => subst ha; exact Or.inr .send
  | recvPanicked ha => subst ha; exact Or.inr .recv
  | sendNow => exact Or.inl (hw.evolves_sendNow _)
  | sendTask | sendThread =>
    exact Or.inl ((hw.evolves_begin (.begun (by simp))).trans (.of_eq rfl rfl))
  | recvNow => exact Or.inl (hw.evolves_takeFree _ _)
  | recvOverflowed hd hl hb => exact absurd (takeFree_levels h hd hl).2 (by omega)
  | recvTask _ _ ha =>
    exact Or.inl ((hw.evolves_begin (.begun (by simpa using ha))).trans (.of_eq rfl rfl))
  | recvThread => exact Or.inl ((hw.evolves_begin (.begun (by simp))).trans (.of_eq rfl rfl))
  | sendReturned | sendDetached => exact Or.inl (.finish (.single .sent))
  | recvClosed | recvReturned | recvDetached => exact Or.inl (.finish (.single .received))
  | selectReturned hc => exact Or.inl (.finish (by rw [hc]; exact .single .returned))
  | returnedElsewhere hc =>
    exact Or.inl (.finish (by rw [hc]; exact .single .returnedElsewhere))
  | waitPanicked _ hp => exact Or.inl (.finish (.single (.panicked hp)))
  | @recvResumed i _ _ _ hc hp hs =>
    have hi := hw.detached_of_woken hc
    have hh : (c.calls i).holds .recv = true := by rw [hc]; rfl
    exact Or.inl (hs.evolves hw hi (h.holds_permits hp hh hi.used))
  | cancelled hc => exact Or.inl (.finish (by rw [hc]; exact .single .cancelled))
  | sendSelected | recvSelected =>
    exact Or.inl ((hw.evolves_begin .granted).trans (.of_eq rfl rfl))
  | selectStarted => exact Or.inl (hw.evolves_begin (.begun (by simp)))
  | sendWatched hc _ hi hs hk =>
    exact Or.inl ((hs.evolves (by simp [hc, Call.selects, hi])).trans hk.evolves)
  | recvWatched hc _ hi hs hk =>
    exact Or.inl ((hs.evolves (by simp [hc, Call.selects, hi])).trans hk.evolves)
  | firedElsewhere hc =>
    refine Or.inl (.fire ?_)
    rintro op watched hop
    rw [hc] at hop
    cases hop
    trivial
  | sendUnwatched hc =>
    refine Or.inl ((evolves_unwatchSendPermit _).trans (.finish ?_))
    rw [(hw.unwatchSendPermit_calls (by simp [hc, Call.receives]) _).trans hc]
    exact .single .rewatched
  | recvUnwatched hc =>
    refine Or.inl ((evolves_unwatchRecvPermit _).trans (.finish ?_))
    rw [(hw.unwatchRecvPermit_calls (by simp [hc, Call.receives]) _).trans hc]
    exact .single .rewatched
  | @sendConsumed i _ _ _ _ _ _ hc hslice hp hs =>
    have hi := hw.detached_of_permitted hc
    have hh : (c.calls i).holds .send = true := by simp [hc, Call.holds, hslice]
    exact Or.inl (hs.evolves hw hi (h.holds_permits hp hh hi.used) h.capacity)
  | @recvConsumed i _ _ _ _ _ hc hslice hp hs =>
    have hi := hw.detached_of_permitted hc
    have hh : (c.calls i).holds .recv = true := by simp [hc, Call.holds, hslice]
    exact Or.inl (hs.evolves hw hi (h.holds_permits hp hh hi.used))
  | closed => exact Or.inl hw.evolves_close

/-- A waiting receiver is not aborting, and is woken with what it can take. -/
def Call.Fit (call : Call T) : Prop :=
  ∀ caller watched cell, call = .waiting (.recv caller) watched cell →
    caller ≠ .task .aborting ∧ ∀ o, cell = .fired o → o.Fits (.recv caller)

theorem Call.Step.fit {a b : Call T} (hs : Call.Step poisoned a b) (h : a.Fit) : b.Fit := by
  cases hs with
  | begun hn =>
    rintro caller watched cell ⟨⟩
    exact ⟨fun ha => hn (by rw [ha]), by simp⟩
  | fired ho =>
    rintro caller watched cell ⟨⟩
    refine ⟨(h _ _ _ rfl).1, ?_⟩
    rintro o ⟨⟩
    exact ho
  | cancelled =>
    rintro caller watched cell ⟨⟩
    exact ⟨(h _ _ _ rfl).1, by simp⟩
  | rewatched =>
    rintro caller watched cell ⟨⟩
    exact h _ _ _ rfl
  | granted | returned | returnedElsewhere | sent | received | panicked =>
    rintro caller watched cell hc
    cases hc

theorem Call.Fit.steps {a b : Call T} (h : a.Fit)
    (hs : Relation.ReflTransGen (Call.Step poisoned) a b) : b.Fit := by
  induction hs with
  | refl => exact h
  | tail _ hs ih => exact hs.fit ih

/-- The call was granted a permit and panicked before consuming it: a woken receiver that found
the mutex poisoned. -/
def Call.lost : Call T → Bool
  | .panicked (.recv (.task status)) => status != .aborting
  | _ => false

theorem Call.Step.lost {a b : Call T} (hs : Call.Step false a b) (h : a.lost = false) :
    b.lost = false := by
  cases hs with
  | panicked hp => cases hp
  | _ => rfl

theorem Call.kept_steps {a b : Call T} (h : a.lost = false)
    (hs : Relation.ReflTransGen (Call.Step false) a b) : b.lost = false := by
  induction hs with
  | refl => exact h
  | tail _ hs ih => exact hs.lost ih

/-- The calls are fit, and no permit is lost before the mutex is poisoned. -/
structure Sound (c : Config T) : Prop where
  fit : ∀ i, (c.calls i).Fit
  kept : c.poisoned = false → ∀ i, (c.calls i).lost = false

theorem initial_sound (capacity : Capacity) : Sound (initial (T := T) capacity) where
  fit _ := by
    rintro caller watched cell hc
    cases hc
  kept _ _ := rfl

theorem Sound.evolves (h : Sound c) (he : Evolves c d) : Sound d where
  fit i := (h.fit i).steps (he.calls i)
  kept hp i := by
    have hp : c.poisoned = false := he.poisoned ▸ hp
    exact Call.kept_steps (h.kept hp i) (hp ▸ he.calls i)

theorem Sound.aborts (h : Sound c) {e : Event T} (ha : Aborts c e d) : Sound d where
  fit i := by
    cases ha with
    | send | recv =>
      by_cases hi : i = c.created
      · subst hi
        rintro caller watched cell hc
        simp [Config.begin, Config.poison] at hc
      · simpa [Config.begin, Config.poison, hi] using h.fit i
  kept hp := by cases ha <;> cases hp

theorem reachable_sound {capacity : Capacity} (h : Reachable (system T capacity) c) : Sound c :=
  Reachable.invariant_over (B := Invariant) (I := Sound) (fun _ => reachable_invariant)
    (initial_sound capacity)
    (fun _ _ _ hi hc hs => (hi.evolves (move_of_step hs)).elim hc.evolves hc.aborts) h

/-- The call was granted a `Permit::Consume` of this side that it has not consumed. -/
def Call.reserves (side : Side) (call : Call T) : Bool :=
  call.holds side || (side == .recv && call.lost)

def Config.reserved (c : Config T) (side : Side) : ℕ :=
  Nat.count (fun i => (c.calls i).reserves side = true) c.created

/-- The permit counters count the granted permits that are not consumed. -/
def Balanced (c : Config T) : Prop := ∀ side, c.permits side = c.reserved side

theorem reserved_begin {k : Call T} {side : Side} (hk : k.reserves side = false) :
    (c.begin k).reserved side = c.reserved side := by
  have h := count_update_succ (p := fun call : Call T => call.reserves side = true)
    c.calls c.created k
  rw [hk] at h
  exact h

theorem Balanced.finish (h : Balanced c) {i : ℕ} {k : Call T}
    (hk : ∀ side, k.reserves side = (c.calls i).reserves side) : Balanced (c.finish i k) := by
  intro side
  have he : (c.finish i k).reserved side = c.reserved side :=
    count_update_same (p := fun call : Call T => call.reserves side = true) c.calls
      (by rw [hk side])
  exact (h side).trans he.symm

/-- Without lost permits the balance is the account of the holders. -/
theorem Sound.reserved_eq (h : Sound c) (hp : c.poisoned = false) (side : Side) :
    c.reserved side = c.held side := by
  unfold Config.reserved Config.held
  congr
  funext i
  simp [Call.reserves, h.kept hp i]

theorem Accounted.balanced (h : Accounted c) (hs : Sound c) (hp : c.poisoned = false) :
    Balanced c := fun side => (h hp side).trans (hs.reserved_eq hp side).symm

/-- A poisoned channel answers nobody: waits end, and no counter moves. -/
theorem Balanced.poisoned_step (h : Balanced c) (hs : Sound c) (hp : c.poisoned = true)
    {e : Event T} (he : c.step e = some d) : Balanced d := by
  cases e with
  | send | recv | trySelect | watch | unwatch | close => simp [Config.step, hp] at he
  | resume i =>
    simp only [Config.step, Config.resume, hp] at he
    split at he
    next hc =>
      split at he <;> cases he <;> refine h.finish fun side => ?_ <;> rw [hc] <;>
        cases side <;> rfl
    next hc => cases he; exact h.finish fun side => by rw [hc]; cases side <;> rfl
    next caller watched hc =>
      cases he
      -- the permit of a woken receiver is lost in its panic
      obtain ⟨ha, hfit⟩ := hs.fit i caller watched _ hc
      refine h.finish fun side => ?_
      rw [hc]
      cases caller with
      | thread => exact (hfit _ rfl).elim
      | task status => cases side <;> cases status <;> first | rfl | exact absurd rfl ha
    next caller watched value hc =>
      cases he
      obtain ⟨ha, hfit⟩ := hs.fit i caller watched _ hc
      refine h.finish fun side => ?_
      rw [hc]
      cases caller with
      | thread => cases side <;> rfl
      | task status => exact (hfit _ rfl).elim
    next permit hc =>
      cases he
      refine h.finish fun side => ?_
      rw [hc]
      cases permit <;> rfl
    next hc => cases he; exact h.finish fun side => by rw [hc]; cases side <;> rfl
    next => cases he
  | cancel i =>
    simp only [Config.step, Config.cancel] at he
    split at he
    next => cases he
    next => cases he
    next op watched _ _ hc =>
      cases he
      refine h.finish fun side => ?_
      rw [hc]
      cases op <;> cases side <;> rfl
    next => cases he
  | select caller slice identifier =>
    simp only [Config.step] at he
    split at he
    next => cases he
    next =>
      split at he
      next => cases he
      next =>
        cases he
        intro side
        rw [reserved_begin (by cases side <;> rfl)]
        exact h side
  | elsewhere i =>
    simp only [Config.step] at he
    split at he
    next hc =>
      cases he
      refine h.finish fun side => ?_
      rw [hc]
      cases side <;> rfl
    next => cases he
  | consumeSend i value =>
    simp only [Config.step, Config.consumeSend, hp] at he
    split at he
    next hc =>
      split at he
      next => cases he
      next =>
        split at he
        next =>
          cases he
          refine h.finish fun side => ?_
          rw [hc]
          cases side <;> rfl
        next => cases he
    next => cases he
  | consumeRecv i =>
    simp only [Config.step, Config.consumeRecv, hp] at he
    split at he
    next hc =>
      split at he
      next => cases he
      next =>
        split at he
        next =>
          cases he
          refine h.finish fun side => ?_
          rw [hc]
          cases side <;> rfl
        next => cases he
    next => cases he

theorem Balanced.aborts (h : Balanced c) {e : Event T} (ha : Aborts c e d) : Balanced d := by
  intro side
  cases ha with
  | @send _ value =>
    exact (h side).trans (reserved_begin (k := .panicked (.send (.task .aborting) value))
      (by cases side <;> rfl)).symm
  | recv =>
    exact (h side).trans (reserved_begin (k := .panicked (.recv (.task .aborting)))
      (by cases side <;> rfl)).symm

theorem Balanced.step (h : Balanced c) (hi : Invariant c) (hs : Sound c) {e : Event T}
    (he : c.step e = some d) : Balanced d := by
  cases hp : c.poisoned with
  | true => exact h.poisoned_step hs hp he
  | false =>
    rcases hi.evolves (move_of_step he) with hv | ha
    · have hd := step_preserves_invariant hi he
      exact hd.accounted.balanced (hs.evolves hv) (hv.poisoned.trans hp)
    · exact h.aborts ha

theorem reachable_balanced {capacity : Capacity} (h : Reachable (system T capacity) c) :
    Balanced c :=
  Reachable.invariant_over (B := fun c => Invariant c ∧ Sound c) (I := Balanced)
    (fun _ hr => ⟨reachable_invariant hr, reachable_sound hr⟩)
    (fun side => by cases side <;> rfl)
    (fun _ _ _ hb hc hs => hc.step hb.1 hb.2 hs) h

/-- No assertion, subtraction or `unwrap` of the channel fails: all of them would poison the
mutex, and only the session of an aborting coroutine does. -/
theorem Invariant.poisons (h : Invariant c) {e : Event T} (he : c.step e = some d)
    (hc : c.poisoned = false) (hd : d.poisoned = true) : Aborts c e d := by
  rcases h.evolves (move_of_step he) with hv | ha
  · rw [hv.poisoned, hc] at hd
    cases hd
  · exact ha

end ParallelChannel
