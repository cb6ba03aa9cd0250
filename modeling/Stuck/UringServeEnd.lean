import Stuck.Settling
import Stuck.UringServe

/-! The thread of the io_uring poller misses no completion, and once it is told to stop it ends
after it has answered everything that it was sent. -/
namespace Uring

open TransitionSystem EdgeTrigger

variable {s t : Service} {u v : State}

/-- What the pool serves never gets to the channel of the ring. -/
theorem pooled_channel {e : Event} (hs : system.step u e = some v) (hp : e.pooled = true) :
    v.channel = u.channel := by
  change u.step e = some v at hs
  cases e with
  | send request =>
    have ht : request.operation.opCode = .truncate := of_decide_eq_true hp
    obtain ⟨_, ⟨⟩⟩ := Option.ite_none_right_eq_some.mp hs
    unfold State.send
    rw [if_pos ht]
  | cancel opcode target waker =>
    have ht : opcode = .truncate := of_decide_eq_true hp
    obtain ⟨_, ⟨⟩⟩ := Option.ite_none_right_eq_some.mp hs
    unfold State.cancel
    rw [if_pos ht]
  | receive | tryRecv | flush | complete | consume => cases hp

theorem Moves.call_frame {e : Event} (hm : Moves u e v) (he : e.isCall = true) :
    v.control = u.control ∧ v.completions = u.completions ∧ v.requests = u.requests ∧
      v.received = u.received := by
  cases hm with
  | pooled | sent | ignored | cancelled => exact ⟨rfl, rfl, rfl, rfl⟩
  | received | triedRecv | flushed | completed | consumed => cases he

theorem Moves.complete_frame {i : ℕ} {result : ℤ} (hm : Moves u (.complete i result) v) :
    v.control = u.control ∧ v.channel = u.channel ∧ v.requests = u.requests := by
  cases hm with
  | completed => exact ⟨rfl, rfl, rfl⟩

theorem Inv.flush_frame (h : Inv u) (hm : Moves u .flush v) :
    (∃ max, u.control = .receiving max) ∧ v.control = .submitted ∧ v.channel = u.channel := by
  cases hm with
  | @flushed max batch =>
    refine ⟨⟨max, batch⟩, ?_⟩
    unfold State.flush
    rw [if_pos]
    · exact ⟨rfl, rfl⟩
    · rw [h.batched.submission]
      exact (h.batched.room max batch).2

theorem Inv.consume_frame (h : Inv u) (hm : Moves u .consume v) :
    v.control = .idle ∧ v.channel = u.channel ∧ v.completions = [] := by
  cases hm with
  | consumed rests =>
    rw [(h.consume rests).2.frame]
    exact ⟨rfl, rfl, rfl⟩

/-- What the thread relies on when it waits in `select!`. -/
structure Serving (s : Service) : Prop where
  inv : Inv s.uring
  outside : s.stage = .outside → s.uring.control ≠ .submitted
  inside : s.stage ≠ .outside → ∀ max, s.uring.control ≠ .receiving max
  told : s.stage = .outside → s.uring.completions ≠ [] →
    0 < s.posted ∨ (s.eventfd = true ∧ s.readable.Live)
  drained : s.drained = true → s.closed = true ∧ s.uring.channel = []
  heard : s.heard = true → s.closed = true
  ended : s.ended = true → s.finished = true ∧ s.stage = .outside ∧ s.uring.control = .idle

theorem new_serving : Serving .new where
  inv := new_inv
  outside _ := by decide
  inside h := absurd rfl h
  told _ h := absurd rfl h
  drained h := by cases h
  heard h := by cases h
  ended h := by cases h

/-- The table is empty, so nobody else has the request. -/
theorem Inv.idle_ring (h : Inv u) (he : u.isEmpty = true) : u.inFlight = [] ∧ u.completions = [] := by
  have hp := h.inStep.empty_iff.mp (List.isEmpty_iff.mp he)
  simp only [State.places, List.append_eq_nil_iff, List.map_eq_nil_iff] at hp
  exact ⟨hp.1.2, hp.2⟩

theorem Serving.called (h : Serving s) {event : Event} (hc : event.isCall = true)
    (ha : s.closed = false ∨ event.pooled = true) (hs : system.step s.uring event = some u) :
    Serving { s with uring := u } := by
  obtain ⟨hcontrol, hcompletions, hrequests, _⟩ := (step_moves hs).call_frame hc
  have hempty : u.isEmpty = s.uring.isEmpty := by rw [State.isEmpty, hrequests, State.isEmpty]
  constructor
  · exact h.inv.step (step_moves hs)
  · rw [hcontrol]
    exact h.outside
  · rw [hcontrol]
    exact h.inside
  · rw [hcompletions]
    exact h.told
  · intro hd
    obtain ⟨hclosed, hchannel⟩ := h.drained hd
    refine ⟨hclosed, ?_⟩
    rcases ha with hopen | hp
    · rw [hclosed] at hopen
      cases hopen
    · exact (pooled_channel hs hp).trans hchannel
  · exact h.heard
  · rw [hcontrol, Service.finished, hempty]
    exact h.ended

/-- The kernel completes a request, for which the thread has still to look at the ring. -/
theorem Serving.completed (h : Serving s) {i : ℕ} {result : ℤ} {posted : ℕ}
    (hs : system.step s.uring (.complete i result) = some u)
    (hp : s.stage = .outside → 0 < posted) : Serving { s with uring := u, posted } := by
  obtain ⟨hcontrol, hchannel, hrequests⟩ := (step_moves hs).complete_frame
  have hempty : u.isEmpty = s.uring.isEmpty := by rw [State.isEmpty, hrequests, State.isEmpty]
  constructor
  · exact h.inv.step (step_moves hs)
  · rw [hcontrol]
    exact h.outside
  · rw [hcontrol]
    exact h.inside
  · intro ho _
    exact .inl (hp ho)
  · rw [hchannel]
    exact h.drained
  · exact h.heard
  · rw [hcontrol, Service.finished, hempty]
    exact h.ended

theorem Serving.taking (h : Serving s) {event : Event} (ht : event.takes = true)
    (hopen : s.drained = false) (hstage : s.stage = .outside) (hended : s.ended = false)
    (hs : system.step s.uring event = some u) : Serving { s with uring := u } := by
  obtain ⟨r, rest, hc, _, hp⟩ := h.inv.taking (step_moves hs) ht
  have hb := hp.beside
  constructor
  · exact h.inv.step (step_moves hs)
  · intro _
    rw [hb.control]
    exact Control.noConfusion
  · intro hne
    exact absurd hstage hne
  · rw [hb.completions]
    exact h.told
  · intro hd
    cases hopen.symm.trans hd
  · exact h.heard
  · intro he
    cases hended.symm.trans he

theorem Serving.flushed (h : Serving s) (hs : system.step s.uring .flush = some u) :
    Serving { s with uring := u, stage := .consuming } := by
  obtain ⟨⟨max, hbatch⟩, hcontrol, hchannel⟩ := h.inv.flush_frame (step_moves hs)
  constructor
  · exact h.inv.step (step_moves hs)
  · intro ho
    cases ho
  · intro _ max
    rw [hcontrol]
    exact Control.noConfusion
  · intro ho
    cases ho
  · rw [hchannel]
    exact h.drained
  · exact h.heard
  · intro he
    cases hbatch.symm.trans (h.ended he).2.2

theorem Serving.consumed (h : Serving s) (hstage : s.stage = .collecting)
    (hs : system.step s.uring .consume = some u) :
    Serving { s with uring := u, stage := .outside } := by
  obtain ⟨hcontrol, hchannel, hcompletions⟩ := h.inv.consume_frame (step_moves hs)
  constructor
  · exact h.inv.step (step_moves hs)
  · intro _
    rw [hcontrol]
    exact Control.noConfusion
  · intro hne
    exact absurd rfl hne
  · intro _ hne
    exact absurd hcompletions hne
  · rw [hchannel]
    exact h.drained
  · exact h.heard
  · intro he
    cases hstage.symm.trans (h.ended he).2.1

theorem Serving.relined (h : Serving s) {posted : ℕ} {eventfd : Bool} {readable : Line}
    (hl : 0 < s.posted ∨ (s.eventfd = true ∧ s.readable.Live) →
      0 < posted ∨ (eventfd = true ∧ readable.Live)) :
    Serving { s with posted, eventfd, readable } where
  inv := h.inv
  outside := h.outside
  inside := h.inside
  told ho hc := hl (h.told ho hc)
  drained := h.drained
  heard := h.heard
  ended := h.ended

theorem tryRecv_batch {u v : State} (hs : system.step u .tryRecv = some v) :
    ∃ max, u.control = .receiving max := by
  cases step_moves hs with
  | @triedRecv r rest max batch => exact ⟨max, batch⟩

theorem Serving.step (h : Serving s) {e : ServeEvent} (hs : Serves s e t) : Serving t := by
  cases hs with
  | called call accepted fires => exact h.called call accepted fires
  | completed fires => exact h.completed fires fun _ => Nat.succ_pos _
  | inlined consuming submitted fires =>
    refine h.completed fires fun ho => ?_
    cases consuming.symm.trans ho
  | spurious => exact h.relined (Or.imp_right fun hl => ⟨hl.1, Line.live_raise _⟩)
  | signalled posted => exact h.relined fun _ => .inr ⟨rfl, Line.live_raise _⟩
  | @collected readable edge told =>
    refine h.relined (Or.imp_right fun hl => ⟨hl.1, Line.live_collect ?_⟩)
    rw [told hl.1]
    decide
  | delivered transit =>
    exact h.relined (Or.imp_right fun hl => ⟨hl.1, Line.live_deliver (by decide)⟩)
  | received selecting open' fires =>
    exact h.taking rfl open' selecting.1.2.1 selecting.1.1 fires
  | triedRecv open' fires =>
    obtain ⟨max, hbatch⟩ := tryRecv_batch fires
    have hstage : s.stage = .outside := by
      by_contra hne
      exact h.inside hne max hbatch
    have hended : s.ended = false := by
      refine Bool.eq_false_iff.mpr fun he => ?_
      cases hbatch.symm.trans (h.ended he).2.2
    exact h.taking rfl open' hstage hended fires
  | flushed fires => exact h.flushed fires
  | consumed collecting fires => exact h.consumed collecting fires
  | left => exact { h with drained := fun hd => ⟨rfl, (h.drained hd).2⟩, heard := fun _ => rfl }
  | stopped => exact { h with }
  | drained own open' empty closed =>
    refine { h with drained := fun _ => ⟨closed, empty⟩, ended := fun he => ?_ }
    have hd := (Bool.and_eq_true_iff.mp (h.ended he).1).2
    cases open'.symm.trans hd
  | heard selecting unheard stopping =>
    have hclosed : (s.closed || !s.drained) = true := by
      cases hd : s.drained with
      | false => exact Bool.or_true _
      | true => rw [(h.drained hd).1, Bool.true_or]
    exact { h with drained := fun hd => ⟨hclosed, (h.drained hd).2⟩, heard := fun _ => hclosed }
  | taken selecting signals =>
    refine { h with
      outside := fun ho => by cases ho
      inside := fun _ max => ?_
      told := fun ho => by cases ho
      ended := fun he => ?_ }
    · rw [selecting.1.2.2]
      exact Control.noConfusion
    · cases selecting.1.1.symm.trans he
  | read consuming =>
    refine { h with
      outside := fun ho => by cases ho
      inside := fun _ => h.inside (by rw [consuming]; exact Stage.noConfusion)
      told := fun ho => by cases ho
      ended := fun he => ?_ }
    cases consuming.symm.trans (h.ended he).2.1
  | ended top finished => exact { h with ended := fun _ => ⟨finished, top.2⟩ }

theorem reachable_serving (h : Reachable service s) : Serving s :=
  h.invariant new_serving fun _ _ _ hi hs => hi.step (service_serves hs)

def Stage.weight : Stage → ℕ
  | .outside => 0
  | .consuming => 2
  | .collecting => 1

/-- How many steps of the thread, the kernel and the poller are left, at most. -/
def Service.load (s : Service) : ℕ :=
  11 * s.uring.load + 10 * s.posted + 3 * s.readable.rank + s.stage.weight +
    (!s.heard).toNat + (!s.drained).toNat + (!s.ended).toNat

/-- A step of the ring that is none of the callers', unless it finds nothing. -/
theorem Inv.step_load (h : Inv u) {e : Event} (he : e.isCall = false)
    (hs : system.step u e = some v) : v.load ≤ u.load ∧ (e ≠ .consume → v.load < u.load) := by
  rcases (h.eases (step_moves hs) he).2 with hlt | ⟨rfl, rfl, _⟩
  · exact ⟨Nat.le_of_lt hlt, fun _ => hlt⟩
  · exact ⟨Nat.le_refl _, fun hne => absurd rfl hne⟩

theorem Serving.lowers (h : Serving s) {e : ServeEvent} (he : e.foreign = false)
    (hs : Serves s e t) : t.load < s.load := by
  cases hs with
  | called | left | stopped | spurious => cases he
  | completed fires =>
    have hlt := (h.inv.step_load rfl fires).2 (by simp)
    simp only [Service.load]
    omega
  | inlined consuming submitted fires =>
    have hlt := (h.inv.step_load rfl fires).2 (by simp)
    simp only [Service.load]
    omega
  | signalled posted =>
    have hle := s.readable.rank_raise
    simp only [Service.load]
    omega
  | @collected readable edge told =>
    have hlt := Line.rank_collect edge (Bool.toNat_le readable)
    simp only [Service.load]
    omega
  | delivered transit =>
    have hlt := Line.rank_deliver readableBound transit
    simp only [Service.load]
    omega
  | received selecting open' fires =>
    have hlt := (h.inv.step_load rfl fires).2 (by simp)
    simp only [Service.load]
    omega
  | triedRecv open' fires =>
    have hlt := (h.inv.step_load rfl fires).2 (by simp)
    simp only [Service.load]
    omega
  | drained own open' empty closed =>
    simp only [Service.load, open', Bool.not_false, Bool.not_true, Bool.toNat_true,
      Bool.toNat_false]
    omega
  | heard selecting unheard stopping =>
    simp only [Service.load, unheard, Bool.not_false, Bool.not_true, Bool.toNat_true,
      Bool.toNat_false]
    omega
  | taken selecting signals =>
    have hlt := Line.rank_take signals
    simp only [Service.load, selecting.1.2.1, Stage.weight]
    omega
  | flushed fires =>
    have hlt := (h.inv.step_load rfl fires).2 (by simp)
    have hw : Stage.consuming.weight ≤ s.stage.weight + 2 := Nat.le_add_left _ _
    simp only [Service.load]
    omega
  | read consuming =>
    simp only [Service.load, consuming, Stage.weight]
    omega
  | consumed collecting fires =>
    have hle := (h.inv.step_load rfl fires).1
    simp only [Service.load, collecting, Stage.weight]
    omega
  | ended top finished =>
    simp only [Service.load, top.1, Bool.not_false, Bool.not_true, Bool.toNat_true,
      Bool.toNat_false]
    omega

def ServeEvent.Own (e : ServeEvent) : Prop := e.foreign = false

theorem service_descends : Descends service ServeEvent.Own Serving Service.load where
  keeps _ _ _ h hs := h.step (service_serves hs)
  lowers _ _ _ h he hs := h.lowers he (service_serves hs)

/-- Every request that was sent has been answered exactly once. -/
def State.Answered (u : State) : Prop := ∀ q ∈ u.sent, u.wokenIds.count q.result.id = 1

theorem Inv.answered (h : Inv u) (hc : u.channel = []) (he : u.isEmpty = true) : u.Answered := by
  intro q hq
  rw [State.sent, hc, List.append_nil] at hq
  exact List.count_eq_one_of_mem h.ledger.once (h.isEmpty_iff.mp he q hq)

theorem Serving.answered (h : Serving s) (he : s.ended = true) : s.uring.Answered := by
  obtain ⟨hempty, hdrained⟩ := Bool.and_eq_true_iff.mp (h.ended he).1
  exact h.inv.answered (h.drained hdrained).2 hempty

theorem flush_fires {max : ℕ} (hc : u.control = .receiving max) :
    system.step u .flush = some u.flush := by
  simp only [system, State.step, hc]

theorem consume_fires (hc : ∀ max, u.control ≠ .receiving max) :
    system.step u .consume = some u.consume := by
  cases hcontrol : u.control with
  | receiving max => exact absurd hcontrol (hc max)
  | idle | submitted => simp only [system, State.step, hcontrol]

theorem Serving.rests_atTop (h : Serving s) (hr : service.Rests ServeEvent.Own s)
    (he : s.ended = false) : s.AtTop := by
  have hstage : s.stage = .outside := by
    cases hs : s.stage with
    | outside => rfl
    | consuming =>
      have hn := hr .read rfl
      simp [service, Service.step, hs] at hn
    | collecting =>
      have hn := hr .consume rfl
      have hf := consume_fires (h.inside (by rw [hs]; exact Stage.noConfusion))
      simp only [service, Service.step, hs, Service.lift] at hn
      change Option.map _ (system.step s.uring .consume) = none at hn
      rw [hf] at hn
      cases hn
  refine ⟨he, hstage, ?_⟩
  cases hc : s.uring.control with
  | idle => rfl
  | submitted => exact absurd hc (h.outside hstage)
  | receiving max =>
    have hn := hr .flush rfl
    simp only [service, Service.step, Service.lift] at hn
    change Option.map _ (system.step s.uring .flush) = none at hn
    rw [flush_fires hc] at hn
    cases hn

/-- The thread waits only when no request is left on its way. -/
theorem Serving.rests_empty (h : Serving s) (hr : service.Rests ServeEvent.Own s)
    (he : s.ended = false) : s.uring.isEmpty = true ∧ s.Selecting := by
  have htop := h.rests_atTop hr he
  have hselecting : s.Selecting := by
    refine ⟨htop, Bool.eq_false_iff.mpr fun hf => ?_⟩
    have hn := hr .finish rfl
    simp [service, Service.step, htop, hf] at hn
  have hflying : s.uring.inFlight = [] := by
    cases hf : s.uring.inFlight with
    | nil => rfl
    | cons entry others =>
      have hn := hr (.complete 0 0 false) rfl
      simp [service, Service.step, State.step, hf] at hn
  have hcompletions : s.uring.completions = [] := by
    by_contra hne
    rcases h.told htop.2.1 hne with hp | ⟨_, hedge | htransit | hsignals⟩
    · have hn := hr .signal rfl
      simp [service, Service.step, hp] at hn
    · have hn := hr (.collect true) rfl
      simp [service, Service.step, hedge] at hn
    · have hn := hr .deliver rfl
      simp [service, Service.step, htransit] at hn
    · have hn := hr .take rfl
      simp [service, Service.step, hselecting, hsignals] at hn
  have hentries : s.uring.entries = [] := by
    refine h.inv.batched.flushed fun max hm => ?_
    cases htop.2.2.symm.trans hm
  have hplaces : s.uring.places = [] := by
    simp [State.places, hentries, h.inv.batched.submission, hflying, hcompletions]
  exact ⟨List.isEmpty_iff.mpr (h.inv.inStep.empty_iff.mpr hplaces), hselecting⟩

/-- ... and when nothing is left in the channel, which is still open. -/
theorem Serving.rests_waiting (h : Serving s) (hr : service.Rests ServeEvent.Own s)
    (he : s.ended = false) : s.uring.Answered ∧ s.stopping = false ∧ s.closed = false := by
  obtain ⟨hempty, hselecting⟩ := h.rests_empty hr he
  have hopen : s.drained = false := by
    refine Bool.eq_false_iff.mpr fun hd => ?_
    have hf := hselecting.2
    rw [Service.finished, hempty, hd] at hf
    cases hf
  have hn := hr .receive rfl
  simp only [service, Service.step, if_pos hselecting, Service.recv, hopen] at hn
  have hchannel : s.uring.channel = [] := by
    by_contra hne
    obtain ⟨r, rest, hc⟩ := List.exists_cons_of_ne_nil hne
    simp [Service.lift, State.step, hselecting.1.2.2, hc] at hn
  have hclosed : s.closed = false := by
    simpa [hchannel] using hn
  refine ⟨h.inv.answered hchannel hempty, Bool.eq_false_iff.mpr fun hs => ?_, hclosed⟩
  have hheard : s.heard = false := by
    refine Bool.eq_false_iff.mpr fun hh => ?_
    cases hclosed.symm.trans (h.heard hh)
  have hn := hr .hear rfl
  simp [service, Service.step, hselecting, hheard, hs] at hn

/-- However the thread, the kernel and the poller take turns, they come to rest within `load` steps;
then every request that was sent has been answered once, and the thread has ended if it was told to
stop or has no callers left. -/
theorem serve_settles (h : Reachable service s) :
    service.Settles ServeEvent.Own s.load
      (fun t => t.uring.Answered ∧ (t.stopping = true ∨ t.closed = true → t.ended = true)) s := by
  refine service_descends.settles (fun t ht hr => ?_) (reachable_serving h)
  cases he : t.ended with
  | true => exact ⟨ht.answered he, fun _ => rfl⟩
  | false =>
    obtain ⟨hanswered, hstopping, hclosed⟩ := ht.rests_waiting hr he
    refine ⟨hanswered, fun hs => ?_⟩
    rw [hstopping, hclosed] at hs
    exact hs.elim id id

/-- The kernel has yet to complete a request when the runtime stops. -/
def stoppedRun : Execution service where
  events := [.call (.send ⟨⟨1, 0⟩, .fsync 3 true⟩), .receive, .flush, .read, .consume, .stop]
  fires := by decide +kernel

theorem serve_stopped : stoppedRun.final.load = 25 ∧
    ∃ es t, (∀ e ∈ es, e.Own) ∧ service.runFrom stoppedRun.final es = some t ∧
      t.uring.Answered := by
  refine ⟨by decide +kernel, ?_⟩
  obtain ⟨es, t, ho, hr, _, hanswered, _⟩ := (serve_settles stoppedRun.final_reachable).rests
  exact ⟨es, t, ho, hr, hanswered⟩

/-- Once the thread has ended nobody sends it a request. -/
theorem Serving.stays (h : Serving s) (he : s.ended = true) {e : ServeEvent} (hs : Serves s e t) :
    t.uring.sent = s.uring.sent ∧ t.ended = true := by
  obtain ⟨hfinished, hstage, hcontrol⟩ := h.ended he
  obtain ⟨hempty, hdrained⟩ := Bool.and_eq_true_iff.mp hfinished
  cases hs with
  | called call accepted fires =>
    have hp : _ = true := accepted.resolve_left fun hopen => by
      cases hopen.symm.trans (h.drained hdrained).1
    have hreceived := ((step_moves fires).call_frame call).2.2.2
    refine ⟨?_, he⟩
    rw [State.sent, hreceived, pooled_channel fires hp, State.sent]
  | left | stopped | spurious | signalled | collected | delivered => exact ⟨rfl, he⟩
  | completed fires =>
    cases step_moves fires with
    | completed flying =>
      rw [(h.inv.idle_ring hempty).1] at flying
      cases flying
  | inlined consuming => cases consuming.symm.trans hstage
  | received selecting => cases selecting.1.1.symm.trans he
  | triedRecv open' => cases open'.symm.trans hdrained
  | drained own open' => cases open'.symm.trans hdrained
  | heard selecting => cases selecting.1.1.symm.trans he
  | taken selecting => cases selecting.1.1.symm.trans he
  | flushed fires =>
    obtain ⟨⟨max, hbatch⟩, _⟩ := h.inv.flush_frame (step_moves fires)
    cases hbatch.symm.trans hcontrol
  | read consuming => cases consuming.symm.trans hstage
  | consumed collecting => cases collecting.symm.trans hstage
  | ended top => cases top.1.symm.trans he

/-- In every state the thread has not crashed, and a completion that it has not seen keeps it awake
or has a signal on the way to it; and once it has ended, no request is left and none can come. -/
theorem serve_safe (h : Reachable service s) :
    s.uring.crash = none ∧
    (s.stage = .outside → s.uring.completions ≠ [] → 0 < s.posted ∨ s.readable.Live) ∧
    (s.ended = true → s.uring.Answered ∧ s.uring.inFlight = [] ∧ s.uring.completions = [] ∧
      ∀ es t, service.runFrom s es = some t → t.uring.sent = s.uring.sent ∧ t.ended = true) := by
  have hi := reachable_serving h
  refine ⟨hi.inv.sound, fun ho hc => (hi.told ho hc).imp_right And.right, fun he => ?_⟩
  have hring := hi.inv.idle_ring (Bool.and_eq_true_iff.mp (hi.ended he).1).1
  refine ⟨hi.answered he, hring.1, hring.2, fun es t hr => ?_⟩
  have hfinal : Serving t ∧ t.uring.sent = s.uring.sent ∧ t.ended = true :=
    run_invariant (I := fun u => Serving u ∧ u.uring.sent = s.uring.sent ∧ u.ended = true)
      (fun u e v hu hs => by
        have hm := service_serves hs
        obtain ⟨hsent, hended⟩ := hu.1.stays hu.2.2 hm
        exact ⟨hu.1.step hm, hsent.trans hu.2.1, hended⟩) ⟨hi, rfl, he⟩ hr
  exact hfinal.2

/-- The request is completed after the thread has left the channel. -/
def endedRun : Execution service where
  events := stoppedRun.events ++ [.hear, .receive, .complete 0 0 false, .signal, .collect true,
    .deliver, .take, .read, .consume, .finish]
  fires := by decide +kernel

theorem serve_ended : endedRun.final.ended = true ∧ endedRun.final.uring.Answered := by
  have he : endedRun.final.ended = true := by decide +kernel
  exact ⟨he, ((serve_safe endedRun.final_reachable).2.2 he).1⟩

end Uring
