import Stuck.ParallelChannelCalls

/-! Marks on the calls of a parallel channel that only a closed channel can put there, and the
operations that put none. -/
namespace ParallelChannel

open TransitionSystem OneShot SharedTypes WaitQueue

variable {T : Type*} {c d m : Config T} {p : Call T → Bool}

/-- The outcome tells its call that the channel is closed. -/
def Outcome.closes : Outcome T → Bool
  | .permit .closed | .received none | .selected _ .closed => true
  | _ => false

/-- A waiting call gets the mark by such an outcome only, a value leaves it without. -/
structure Mark (p : Call T → Bool) : Prop where
  watched : ∀ op watched watched' cell, p (.waiting op watched cell) = p (.waiting op watched' cell)
  cancelled : ∀ op watched, p (.waiting op watched .cancelled) = false
  fired : ∀ op watched o, o.closes = false → p (.waiting op watched (.fired o)) = false
  sent : ∀ value, p (.sent value (.ok ())) = false
  received : ∀ value, p (.received (.ok value)) = false

/-- No call gets the mark. -/
def Spares (p : Call T → Bool) (c d : Config T) : Prop :=
  ∀ i, p (d.calls i) = true → p (c.calls i) = true

theorem Spares.of_eq (h : d.calls = c.calls) : Spares p c d := fun i hi => by rwa [h] at hi

theorem Spares.trans (h : Spares p c m) (h' : Spares p m d) : Spares p c d := fun i => h i ∘ h' i

theorem Spares.finish {i : ℕ} {k : Call T} (h : p k = true → p (c.calls i) = true) :
    Spares p c (c.finish i k) := by
  intro j hj
  by_cases hij : j = i
  · subst hij
    exact h (by simpa [Config.finish] using hj)
  · simpa [Config.finish, Function.update_of_ne hij] using hj

theorem Spares.ends {i : ℕ} {k : Call T} (h : p k = false) : Spares p c (c.finish i k) :=
  .finish fun hk => absurd (h.symm.trans hk) Bool.false_ne_true

theorem Spares.begin {k : Call T} (h : p k = false) : Spares p c (c.begin k) := by
  have hq : Spares p c (c.finish c.created k) := .ends h
  exact hq.trans (.of_eq rfl)

theorem Mark.fire (hp : Mark p) {i : ℕ} {o : Outcome T} (h : o.closes = false) :
    Spares p c (c.fire i o) := by
  refine .finish fun hs => ?_
  cases hc : c.calls i with
  | waiting op watched cell =>
    rw [hc] at hs
    cases cell with
    | pending => exact absurd ((hp.fired op watched o h).symm.trans hs) Bool.false_ne_true
    | _ => exact hs
  | _ =>
    rw [hc] at hs
    exact hs

theorem Mark.grantSender (hp : Mark p) (w : Waiter T) : Spares p c (c.grantSender w) := by
  cases w with
  | task i value | thread i value =>
    exact (hp.fire (i := i) (o := .sent (.ok ())) rfl).trans (.of_eq rfl)
  | selector s =>
    exact (Spares.of_eq (d := { c with sendPermits := c.sendPermits + 1 }) rfl).trans (hp.fire rfl)

theorem Mark.grantReceiver (hp : Mark p) (w : RecvWaiter) : Spares p c (c.grantReceiver w) := by
  cases w with
  | task i =>
    exact (Spares.of_eq (d := { c with recvPermits := c.recvPermits + 1 }) rfl).trans
      (hp.fire (i := i) rfl)
  | thread i =>
    simp only [Config.grantReceiver]
    cases c.deque with
    | nil => exact .of_eq rfl
    | cons value rest =>
      exact (Spares.of_eq (d := c.popFront i value rest) rfl).trans (hp.fire (i := i) rfl)
  | selector s =>
    exact (Spares.of_eq (d := { c with recvPermits := c.recvPermits + 1 }) rfl).trans (hp.fire rfl)

theorem Mark.wakeSender (hp : Mark p) (h : WellFormed c) : Spares p c c.wakeSender := by
  rcases wakeSender_cases h.senders_valid with ⟨_, he⟩ | ⟨w, rest, _, he⟩
  · rw [he]
    exact .of_eq rfl
  · rw [he]
    exact (Spares.of_eq (d := { c with senders := rest }) rfl).trans (hp.grantSender w)

theorem Mark.wakeReceiver (hp : Mark p) (h : WellFormed c) : Spares p c c.wakeReceiver := by
  rcases wakeReceiver_cases h.receivers_valid with ⟨_, he⟩ | ⟨w, rest, _, he⟩
  · rw [he]
    exact .of_eq rfl
  · rw [he]
    exact (Spares.of_eq (d := { c with receivers := rest }) rfl).trans (hp.grantReceiver w)

theorem Mark.removeReceiver (hp : Mark p) (position : ℕ) :
    Spares p c (c.removeReceiver position) := by
  unfold Config.removeReceiver
  split
  next w _ =>
    cases w with
    | task i =>
      refine Spares.finish (c := { c with receivers := _ }) (i := i) fun hs => ?_
      dsimp only at hs ⊢
      cases hc : c.calls i with
      | waiting op watched cell =>
        rw [hc] at hs
        cases cell with
        | pending => exact absurd ((hp.cancelled op watched).symm.trans hs) Bool.false_ne_true
        | _ => exact hs
      | _ =>
        rw [hc] at hs
        exact hs
    | thread | selector => exact .of_eq rfl
  next => exact .of_eq rfl

theorem Mark.unwatchSendPermit (hp : Mark p) (identifier : ℕ) :
    Spares p c (c.unwatchSendPermit identifier) := by
  unfold Config.unwatchSendPermit
  split
  · exact hp.removeReceiver _
  · exact .of_eq rfl

theorem Mark.unwatchRecvPermit (hp : Mark p) (identifier : ℕ) :
    Spares p c (c.unwatchRecvPermit identifier) := by
  unfold Config.unwatchRecvPermit
  split
  · exact hp.removeReceiver _
  · exact .of_eq rfl

theorem Mark.takeReserved (hp : Mark p) {i : ℕ} {value : T} {rest : List T} :
    Spares p c (c.takeReserved i value rest) :=
  (Spares.of_eq (d := { c with recvPermits := c.recvPermits - 1 }) rfl).trans
    ((Spares.ends (i := i) (hp.received value)).trans (.of_eq rfl))

theorem Mark.fillReserved (hp : Mark p) {i : ℕ} {value : T} :
    Spares p c (c.fillReserved i value) :=
  (Spares.of_eq (d := { c with sendPermits := c.sendPermits - 1 }) rfl).trans
    ((Spares.ends (i := i) (hp.sent value)).trans (.of_eq rfl))

theorem Mark.takeFree (hp : Mark p) (h : WellFormed c) (value : T) (rest : List T) :
    Spares p c (c.takeFree value rest) := by
  let m := (c.begin (.received (.ok value))).popFront c.created value rest
  have hpop : Spares p c m := (Spares.begin (hp.received value)).trans (.of_eq rfl)
  have hm : WellFormed m := (h.begin (.received (.ok value))).of_eq rfl rfl rfl rfl rfl
  exact hpop.trans (hp.wakeSender hm)

theorem Mark.sendNow (hp : Mark p) (h : WellFormed c) (value : T) :
    Spares p c ((c.begin (.sent value (.ok ()))).pushBack c.created value).wakeReceiver := by
  let m := (c.begin (.sent value (.ok ()))).pushBack c.created value
  have hpush : Spares p c m := (Spares.begin (hp.sent value)).trans (.of_eq rfl)
  have hm : WellFormed m := (h.begin (.sent value (.ok ()))).of_eq rfl rfl rfl rfl rfl
  exact hpush.trans (hp.wakeReceiver hm)

theorem Mark.checks (hp : Mark p) {i index : ℕ} {available ready : Bool}
    (hk : Checks c i index available ready d) : Spares p c d := by
  cases hk with
  | counted =>
    refine .finish ?_
    cases c.calls i with
    | waiting op watched cell =>
      rw [Call.watch, hp.watched op (watched ++ [index]) watched cell]
      exact id
    | _ => exact id
  | broken => exact .of_eq rfl

end ParallelChannel
