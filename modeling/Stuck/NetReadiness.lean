import Stuck.EdgeTrigger
import Stuck.NetEvents

/-! The loops of `accept`, `read`, `write` and `TcpStream::new` (src/net/tcp.rs) over the registry.
The kernel knows whether an operation on a socket would block and reports edges to epoll; a call
tries its operation, and waits for a signal when it would block. -/
namespace Net

open TransitionSystem

/-- A socket in the kernel: which operations would not block, and whether epoll has an edge of it. -/
structure Source where
  readable : Bool
  writable : Bool
  edge : Bool
  deriving DecidableEq, Repr

def Source.ready (s : Source) : Direction → Bool
  | .readable => s.readable
  | .writable => s.writable

def Source.setReady (s : Source) (ready : Bool) : Direction → Source
  | .readable => { s with readable := ready }
  | .writable => { s with writable := ready }

/-- The directions for which the socket is registered. -/
def Socket.hears (s : Socket) : Direction → Bool
  | .readable => true
  | .writable =>
    match s.call with
    | .bind => false
    | .connect | .accept => true

/-- An edge of the kernel reaches epoll. -/
def Socket.reached (s : Socket) (d : Direction) : Bool := s.stage.watched && s.hears d

/-- A call of `accept`, `read` or `write`: before the next try, or in `recv` after `WouldBlock`. -/
inductive Phase where
  | idle | trying | waiting
  deriving DecidableEq, Repr

structure Network where
  registry : Registry
  source : ℕ → Source
  phase : ℕ → Direction → Phase

namespace Network

def setSource (n : Network) (id : ℕ) (source : Source) : Network :=
  { n with source := Function.update n.source id source }

def setPhase (n : Network) (id : ℕ) (d : Direction) (phase : Phase) : Network :=
  { n with phase := Function.update n.phase id (Function.update (n.phase id) d phase) }

/-- The event tells of each operation on a socket of the token that would not block. -/
def tells (n : Network) (ev : Readiness) : Bool :=
  (List.range n.registry.sockets.length).all fun id =>
    n.registry.sockets[id]?.all fun s =>
      !(s.stage.watched && s.token == ev.token) ||
        [Direction.readable, .writable].all fun d =>
          !(s.hears d && (n.source id).ready d) || ev.wakes d

/-- epoll reports the edge of the socket with the batch. -/
def reported (n : Network) (batch : List Readiness) (id : ℕ) : Bool :=
  n.registry.sockets[id]?.any fun s =>
    s.stage.watched && batch.any fun ev => s.token == ev.token

end Network

/-- The directions in which a part is used. -/
def Part.uses : Part → Direction → Bool
  | .whole, _ | .reader, .readable | .writer, .writable => true
  | _, _ => false

/-- A call borrows its socket, or its half, until it returns. -/
def Network.permits (n : Network) : Event → Bool
  | .poll batch => batch.all n.tells
  | .act id (.receive d) | .act id (.poison d) => n.phase id d == .waiting
  | .act id .intoSplit => [Direction.readable, .writable].all fun d => n.phase id d == .idle
  | .act id (.drop part) =>
    [Direction.readable, .writable].all fun d => !part.uses d || n.phase id d == .idle
  | _ => true

/-- epoll finds the operations that would not block when the socket is added. -/
def Network.added (n : Network) (id : ℕ) : Bool :=
  n.registry.sockets[id]?.any fun s =>
    [Direction.readable, .writable].any fun d => s.hears d && (n.source id).ready d

/-- What a step of the registry means to the kernel and to the calls. -/
def Network.follow (n : Network) : Event → Network
  | .poll batch =>
    { n with source := fun id =>
        if n.reported batch id then { n.source id with edge := false } else n.source id }
  | .act id (.register true) => n.setSource id { n.source id with edge := n.added id }
  | .act id (.receive d) => n.setPhase id d .trying
  | .act id (.poison d) => n.setPhase id d .idle
  | _ => n

/-- `attempt` is one `accept`, `read` or `write` of the loop, and `left` whether another one would
not block after it. `exhaust` is somebody else's use of the socket, and `quit` the interruption of
the `recv`. -/
inductive IoEvent where
  | net (e : Event)
  | arrive (id : ℕ) (d : Direction)
  | exhaust (id : ℕ) (d : Direction)
  | start (id : ℕ) (d : Direction)
  | attempt (id : ℕ) (d : Direction) (left : Bool)
  | quit (id : ℕ) (d : Direction)
  deriving DecidableEq, Repr

def Network.step (n : Network) : IoEvent → Option Network
  | .net e =>
    if n.permits e = true then
      (Net.step n.registry e).map fun r => { n.follow e with registry := r }
    else none
  | .arrive id d =>
    let source := (n.source id).setReady true d
    some (n.setSource id
      { source with edge := source.edge || n.registry.sockets[id]?.any fun s => s.reached d })
  | .exhaust id d => some (n.setSource id ((n.source id).setReady false d))
  | .start id d =>
    match n.registry.sockets[id]? with
    | some s =>
      if s.stage.receives d = true ∧ n.phase id d = .idle then some (n.setPhase id d .trying)
      else none
    | none => none
  | .attempt id d left =>
    if n.phase id d = .trying then
      if (n.source id).ready d = true then
        some ((n.setSource id ((n.source id).setReady left d)).setPhase id d .idle)
      else some (n.setPhase id d .waiting)
    else none
  | .quit id d => if n.phase id d = .waiting then some (n.setPhase id d .idle) else none

def ioSystem : System Network IoEvent where
  init := ⟨Net.system.init, fun _ => ⟨false, false, false⟩, fun _ _ => .idle⟩
  step := Network.step

variable {r t : Registry} {id : ℕ} {s s' : Socket} {d : Direction}

/-- The stages of a listener, or of a call for one. -/
def Stage.listens : Stage → Bool
  | .inserted | .refused | .listener | .deregistered | .dropped | .failed | .abandoned => true
  | _ => false

/-- Whoever waits in a direction is registered for it. -/
structure Socket.Fits (s : Socket) : Prop where
  token : s.token < WAKER_TOKEN
  listens : s.call = .bind → s.stage.listens = true
  connects : s.call ≠ .bind → s.stage ≠ .listener
  fresh : s.stage = .inserted → ∀ d, s.inbox d = ⟨0, false⟩

theorem Socket.Fits.receives_reached (h : s.Fits) (hr : s.stage.receives d = true) :
    s.reached d = true := by
  have hc := h.listens
  unfold Socket.reached Socket.hears
  rcases hcall : s.call <;> rcases hs : s.stage <;> cases d <;>
    simp_all [Stage.receives, Stage.watched, Stage.live, Stage.listens]

theorem Socket.Fits.connecting_reached (h : s.Fits)
    (hr : s.stage = .waiting ∨ s.stage = .blocked) : s.reached .writable = true := by
  have hc := h.listens
  unfold Socket.reached Socket.hears
  rcases hr with hr | hr <;> rcases hcall : s.call <;>
    simp_all [Stage.watched, Stage.listens]

@[simp] theorem setInbox_self (s : Socket) (inbox : Inbox) (d : Direction) :
    (s.setInbox inbox d).inbox d = inbox := by cases d <;> rfl

theorem setInbox_other (s : Socket) (inbox : Inbox) {d e : Direction} (h : e ≠ d) :
    (s.setInbox inbox d).inbox e = s.inbox e := by
  cases d <;> cases e <;> first | rfl | exact absurd rfl h

theorem setInbox_inbox (s : Socket) (d : Direction) : s.setInbox (s.inbox d) d = s := by
  cases d <;> rfl

@[simp] theorem setInbox_hears (s : Socket) (inbox : Inbox) (d e : Direction) :
    (s.setInbox inbox d).hears e = s.hears e := by
  cases d <;> cases e <;> rfl

@[simp] theorem setInbox_reached (s : Socket) (inbox : Inbox) (d e : Direction) :
    (s.setInbox inbox d).reached e = s.reached e := by
  simp [Socket.reached]

/-- A `recv` may come next in this direction. -/
def Socket.waits (s : Socket) (phase : Phase) (d : Direction) : Bool :=
  phase = .waiting || (d = .writable && (s.stage = .waiting || s.stage = .blocked))

/-- The events that will send a signal in this direction. -/
def Socket.transit (s : Socket) (pending : List Readiness) (d : Direction) : ℕ :=
  pending.countP fun ev => s.token == ev.token && ev.wakes d

/-- The socket as the source and the consumer of an edge-triggered line, one for each direction. -/
def Socket.look (s : Socket) (source : Source) (phase : Phase) (pending : List Readiness)
    (d : Direction) : EdgeTrigger.State :=
  if (s.inbox d).poisoned then .halted
  else if s.reached d then
    .on ⟨source.ready d, s.waits phase d, source.edge, s.transit pending d, (s.inbox d).signals⟩
  else .off (source.ready d)

def Poller.dead : Poller → Bool
  | .ended => true
  | _ => false

def Network.view (n : Network) (id : ℕ) (d : Direction) : EdgeTrigger.State :=
  if n.registry.poller.dead then .halted
  else
    match n.registry.sockets[id]? with
    | none => .off ((n.source id).ready d)
    | some s => s.look (n.source id) (n.phase id d) n.registry.poller.pending d

/-- At most one step of the line. -/
def Follows (s t : EdgeTrigger.State) : Prop :=
  t = s ∨ ∃ f, EdgeTrigger.step 2 s f = some t

theorem follows_halted (s : EdgeTrigger.State) : Follows s .halted := by
  refine .inr ⟨.halt, ?_⟩
  cases s <;> rfl

variable {source : Source} {phase : Phase} {pending : List Readiness}

theorem look_congr (hi : s'.inbox d = s.inbox d) (hr : s'.reached d = s.reached d)
    (hw : s'.waits phase d = s.waits phase d) (ht : s'.token = s.token) :
    s'.look source phase pending d = s.look source phase pending d := by
  unfold Socket.look Socket.transit
  rw [hi, hr, hw, ht]

/-- The socket leaves epoll. -/
theorem look_unwatch (hi : s'.inbox d = s.inbox d) (hr : s'.reached d = false) :
    Follows (s.look source phase pending d) (s'.look source phase pending d) := by
  unfold Socket.look
  rw [hi, hr]
  by_cases hp : (s.inbox d).poisoned = true
  · simp only [hp, if_true]
    exact .inl rfl
  · by_cases hs : s.reached d = true
    · simp only [hp, hs, if_true, Bool.false_eq_true, if_false]
      exact .inr ⟨.unwatch, rfl⟩
    · simp only [hp, hs, Bool.false_eq_true, if_false]
      exact .inl rfl

/-- A `recv` that finds a signal. -/
theorem look_take {phase' : Phase} (hr : s.recv d = some s') (hw : s.waits phase d = true)
    (hreach : s.reached d = true) {stage : Stage} (hstage : stage.watched = true)
    (hw' : { s' with stage := stage }.waits phase' d = false) :
    Follows (s.look source phase pending d)
      ({ s' with stage := stage }.look source phase' pending d) := by
  unfold Socket.recv at hr
  obtain ⟨hg, ⟨⟩⟩ := Option.ite_none_left_eq_some.mp hr
  obtain ⟨hsig, hp⟩ : 0 < (s.inbox d).signals ∧ (s.inbox d).poisoned = false := by
    simpa [not_or, Nat.pos_iff_ne_zero] using hg
  have hinbox : { s.setInbox { s.inbox d with signals := (s.inbox d).signals - 1 } d with
      stage := stage }.inbox d = { s.inbox d with signals := (s.inbox d).signals - 1 } := by
    cases d <;> rfl
  have hreach' : { s.setInbox { s.inbox d with signals := (s.inbox d).signals - 1 } d with
      stage := stage }.reached d = true := by
    have hh : s.hears d = true := by
      simp only [Socket.reached, Bool.and_eq_true] at hreach
      exact hreach.2
    have : { s.setInbox { s.inbox d with signals := (s.inbox d).signals - 1 } d with
      stage := stage }.hears d = s.hears d := by cases d <;> rfl
    simp only [Socket.reached, hstage, this, hh, Bool.and_self]
  refine .inr ⟨.take, ?_⟩
  unfold Socket.look
  rw [hinbox, hreach', hw', hreach]
  simp only [hp, Bool.false_eq_true, if_false, if_true, hw, EdgeTrigger.step, true_and, hsig,
    Socket.transit, EdgeTrigger.Line.take]
  cases d <;> rfl

/-- The stage after an action, and the action's own stages. -/
theorem act_stage {a : Action} (ha : s.act a = some s') : s'.stage ≠ .inserted ∧
    (s'.stage = .listener → s.call = .bind ∨ s.stage = .listener) ∧
    (s.call = .bind → s.stage.listens = true → s'.stage.listens = true) := by
  cases a with
  | register ok =>
    obtain ⟨hs, ⟨⟩⟩ := Option.ite_none_right_eq_some.mp ha
    cases ok <;> by_cases hc : s.call = .bind <;> simp [hc, Stage.listens]
  | block | interrupted =>
    obtain ⟨hs, ⟨⟩⟩ := Option.ite_none_right_eq_some.mp ha
    simp_all [Stage.listens]
  | writable =>
    obtain ⟨hs, hm⟩ := Option.ite_none_right_eq_some.mp ha
    obtain ⟨s₀, hr, ⟨⟩⟩ := Option.map_eq_some_iff.mp hm
    obtain ⟨inbox, rfl⟩ := recv_cases hr
    rcases hs with hs | hs <;> by_cases hc : s.call = .connect <;>
      simp [hs, hc, Stage.listens]
  | takeError failed =>
    obtain ⟨hs, ⟨⟩⟩ := Option.ite_none_right_eq_some.mp ha
    cases failed <;> simp [hs, Stage.listens]
  | receive d =>
    obtain ⟨hs, hr⟩ := Option.ite_none_right_eq_some.mp ha
    obtain ⟨inbox, rfl⟩ := recv_cases hr
    have hne : s.stage ≠ .inserted := by
      intro h
      rw [h] at hs
      cases d <;> cases hs
    simp_all
  | poison d =>
    obtain ⟨⟨hs, _⟩, ⟨⟩⟩ := Option.ite_none_right_eq_some.mp ha
    have hne : s.stage ≠ .inserted := by
      intro h
      rw [h] at hs
      cases d <;> cases hs
    simp_all
  | intoSplit =>
    obtain ⟨hs, ⟨⟩⟩ := Option.ite_none_right_eq_some.mp ha
    simp [hs, Stage.listens]
  | drop part =>
    obtain ⟨stage, hd, rfl⟩ := Option.map_eq_some_iff.mp ha
    rcases hs : s.stage <;> rw [hs] at hd <;> cases part <;> cases hd <;> simp [Stage.listens]

theorem act_fits {a : Action} (h : s.Fits) (ha : s.act a = some s') : s'.Fits := by
  obtain ⟨hk, -, -⟩ := act_cases ha
  obtain ⟨hi, hl, hb⟩ := act_stage ha
  refine ⟨?_, ?_, ?_, fun hs => absurd hs hi⟩
  · rw [hk.token]
    exact h.token
  · rw [hk.call]
    exact fun hc => hb hc (h.listens hc)
  · rw [hk.call]
    intro hc hs
    rcases hl hs with hcall | hstage
    · exact hc hcall
    · exact h.connects hc hstage

/-- The phase of a direction after an action of the socket. -/
def Phase.after (phase : Phase) (d : Direction) : Action → Phase
  | .receive e => if e = d then .trying else phase
  | .poison e => if e = d then .idle else phase
  | _ => phase

/-- The guards of an action in the phase of one direction. -/
structure Permitted (phase : Phase) (d : Direction) (a : Action) : Prop where
  receive : a = .receive d → phase = .waiting
  split : a = .intoSplit → phase = .idle
  drop : ∀ part, a = .drop part → part.uses d = true → phase = .idle

/-- A socket is added to epoll. -/
theorem look_watch (hf : s.Fits) (hs : s.stage = .inserted)
    (hn : s.transit pending d = 0) {edge : Bool} (hs' : s'.inbox d = s.inbox d)
    (ht : s'.token = s.token) (hedge : s'.hears d = true → source.ready d = true → edge = true) :
    Follows (s.look source phase pending d)
      (s'.look { source with edge := edge } phase pending d) := by
  have hready : ({ source with edge := edge } : Source).ready d = source.ready d := by
    cases d <;> rfl
  have hn' : s'.transit pending d = 0 := by
    unfold Socket.transit at hn ⊢
    rw [ht]
    exact hn
  have hfresh := hf.fresh hs d
  have hoff : s.reached d = false := by simp [Socket.reached, hs, Stage.watched, Stage.live]
  unfold Socket.look
  rw [hs', hready, hoff, hfresh, hn']
  simp only [Bool.false_eq_true, if_false]
  by_cases hr : s'.reached d = true
  · simp only [hr, if_true]
    refine .inr ⟨.watch (s'.waits phase d) edge, ?_⟩
    have hh : s'.hears d = true := by
      simp only [Socket.reached, Bool.and_eq_true] at hr
      exact hr.2
    have hg : ¬ (source.ready d = true ∧ edge = false) := by
      rintro ⟨h1, h2⟩
      rw [hedge hh h1] at h2
      cases h2
    simp only [EdgeTrigger.step, hg, if_false]
    rfl
  · simp only [hr, Bool.false_eq_true, if_false]
    exact .inl rfl

theorem waits_idle (h : s.stage ≠ .waiting ∧ s.stage ≠ .blocked) (d : Direction) :
    s.waits .idle d = false := by
  simp [Socket.waits, h.1, h.2]

theorem waits_trying (h : s.stage ≠ .waiting ∧ s.stage ≠ .blocked) (d : Direction) :
    s.waits .trying d = false := by
  simp [Socket.waits, h.1, h.2]

theorem receives_stage {stage : Stage} (h : stage.receives d = true) :
    stage.watched = true ∧ stage ≠ .waiting ∧ stage ≠ .blocked := by
  cases stage <;> cases d <;> simp_all [Stage.receives, Stage.watched, Stage.live]

theorem drop_stage {stage stage' : Stage} {part : Part} (h : stage.drop part = some stage') :
    (stage' = .deregistered ∨ stage'.watched = true) ∧ stage.watched = true ∧
      stage ≠ .waiting ∧ stage ≠ .blocked ∧ stage' ≠ .waiting ∧ stage' ≠ .blocked := by
  cases stage <;> cases part <;> cases h <;> simp [Stage.watched, Stage.live]

/-- What an action of the socket is to the line, but for its addition to epoll. -/
theorem act_look {a : Action} (hf : s.Fits)
    (hphase : phase ≠ .idle → s.stage.receives d = true) (hpm : Permitted phase d a)
    (ha : s.act a = some s') (hne : a ≠ .register true) :
    Follows (s.look source phase pending d) (s'.look source (phase.after d a) pending d) := by
  cases a with
  | register ok =>
    obtain ⟨hs, ⟨⟩⟩ := Option.ite_none_right_eq_some.mp ha
    cases ok with
    | true => exact absurd rfl hne
    | false =>
      refine look_unwatch (by cases d <;> rfl) ?_
      simp [Socket.reached, Stage.watched, Stage.live]
  | block =>
    obtain ⟨⟨hs, _⟩, ⟨⟩⟩ := Option.ite_none_right_eq_some.mp ha
    refine .inl (look_congr (by cases d <;> rfl) ?_ ?_ rfl)
    · cases d <;> simp [Socket.reached, Socket.hears, Stage.watched, hs]
    · simp [Socket.waits, hs, Phase.after]
  | writable =>
    obtain ⟨hs, hm⟩ := Option.ite_none_right_eq_some.mp ha
    obtain ⟨s₀, hr, ⟨⟩⟩ := Option.map_eq_some_iff.mp hm
    have hidle : phase = .idle := by
      by_contra h
      have := receives_stage (hphase h)
      rcases hs with hs | hs
      · exact this.2.1 hs
      · exact this.2.2 hs
    have hstage : (if s₀.call = .connect then Stage.connected else .stream).watched = true := by
      split <;> rfl
    have hnew : (if s₀.call = .connect then Stage.connected else .stream) ≠ .waiting ∧
        (if s₀.call = .connect then Stage.connected else .stream) ≠ .blocked := by
      split <;> simp
    subst hidle
    cases d with
    | writable =>
      refine look_take hr ?_ (hf.connecting_reached hs) hstage (waits_idle hnew _)
      rcases hs with hs | hs <;> simp [Socket.waits, hs]
    | readable =>
      obtain ⟨inbox, rfl⟩ := recv_cases hr
      have hold : s.stage.watched = true := by
        rcases hs with hs | hs <;> rw [hs] <;> rfl
      refine .inl (look_congr (s := s) rfl ?_ ?_ rfl)
      · simp only [Socket.reached, hstage, hold, Bool.true_and]
        rfl
      · simp [Socket.waits, Phase.after]
  | interrupted =>
    obtain ⟨hs, ⟨⟩⟩ := Option.ite_none_right_eq_some.mp ha
    refine look_unwatch (by cases d <;> rfl) ?_
    simp [Socket.reached, Stage.watched, Stage.live]
  | takeError failed =>
    obtain ⟨hs, ⟨⟩⟩ := Option.ite_none_right_eq_some.mp ha
    cases failed with
    | true =>
      refine look_unwatch (by cases d <;> rfl) ?_
      simp [Socket.reached, Stage.watched, Stage.live]
    | false =>
      refine .inl (look_congr (by cases d <;> rfl) ?_ ?_ rfl)
      · cases d <;> simp [Socket.reached, Socket.hears, Stage.watched, Stage.live, hs]
      · simp [Socket.waits, hs, Phase.after]
  | receive e =>
    obtain ⟨hs, hr⟩ := Option.ite_none_right_eq_some.mp ha
    obtain ⟨hw, hst⟩ := receives_stage hs
    by_cases he : e = d
    · subst he
      have hphase := hpm.receive rfl
      have hstage : s'.stage = s.stage := by
        obtain ⟨inbox, rfl⟩ := recv_cases hr
        simp
      have hself : { s' with stage := s.stage } = s' := by rw [← hstage]
      have hwaits : s.waits phase e = true := by simp [Socket.waits, hphase]
      have hafter : { s' with stage := s.stage }.waits .trying e = false := by
        rw [hself]
        exact waits_trying (by rw [hstage]; exact hst) e
      have : Follows (s.look source phase pending e)
          ({ s' with stage := s.stage }.look source .trying pending e) :=
        look_take hr hwaits (hf.receives_reached hs) hw hafter
      rw [hself] at this
      simpa [Phase.after] using this
    · obtain ⟨inbox, rfl⟩ := recv_cases hr
      refine .inl ?_
      rw [show phase.after d (.receive e) = phase by simp [Phase.after, he]]
      exact look_congr (setInbox_other s inbox (Ne.symm he)) (by simp) (by simp [Socket.waits])
        (by simp)
  | poison e =>
    obtain ⟨⟨hs, _⟩, ⟨⟩⟩ := Option.ite_none_right_eq_some.mp ha
    by_cases he : e = d
    · subst he
      have : (s.setInbox { s.inbox e with poisoned := true } e).look source
          (phase.after e (.poison e)) pending e = .halted := by
        simp [Socket.look]
      rw [this]
      exact follows_halted _
    · refine .inl ?_
      rw [show phase.after d (.poison e) = phase by simp [Phase.after, he]]
      exact look_congr (setInbox_other s _ (Ne.symm he)) (by simp) (by simp [Socket.waits])
        (by simp)
  | intoSplit =>
    obtain ⟨hs, ⟨⟩⟩ := Option.ite_none_right_eq_some.mp ha
    refine .inl (look_congr (by cases d <;> rfl) ?_ ?_ rfl)
    · cases d <;> simp [Socket.reached, Socket.hears, Stage.watched, Stage.live, hs]
    · simp [Socket.waits, hs, Phase.after]
  | drop part =>
    obtain ⟨stage, hd, rfl⟩ := Option.map_eq_some_iff.mp ha
    obtain ⟨hstage, hw, h1, h2, h3, h4⟩ := drop_stage hd
    rcases hstage with rfl | hstage
    · refine look_unwatch (by cases d <;> rfl) ?_
      simp [Socket.reached, Stage.watched, Stage.live]
    · refine .inl (look_congr (by cases d <;> rfl) ?_ ?_ rfl)
      · cases d <;> simp [Socket.reached, Socket.hears, hstage, hw]
      · simp [Socket.waits, h1, h2, h3, h4, Phase.after]

/-- What one event in `wake_events` does to a socket. -/
structure Woken (s s' : Socket) (ev : Readiness) : Prop where
  stage : s'.stage = s.stage
  call : s'.call = s.call
  token : s'.token = s.token
  inbox : ∀ d, s'.inbox d = s.inbox d ∨ (s.inbox d).trySend = some (s'.inbox d)
  heard : ∀ d, s.reached d = true →
    (if s.token = ev.token ∧ ev.wakes d = true then (s.inbox d).trySend
      else some (s.inbox d)) = some (s'.inbox d)

theorem check_clean {ev : Readiness} (hs : r.sockets[id]? = some s)
    (hp : (r.check ev id d).poisoned = false) : ∃ inbox,
      (if ev.wakes d = true then (s.inbox d).trySend else some (s.inbox d)) = some inbox ∧
      (r.check ev id d).sockets = r.sockets.set id (s.setInbox inbox d) := by
  unfold Registry.check at hp ⊢
  by_cases hw : ev.wakes d = true
  · have hr : r.poisoned = false := by
      by_contra hr
      rw [if_pos (.inr (by simpa using hr))] at hp
      exact hr hp
    have hg : ¬ (ev.wakes d = false ∨ r.poisoned = true) := by simp [hw, hr]
    rw [if_neg hg] at hp
    rw [if_pos hw, if_neg hg]
    simp only [hs] at hp ⊢
    rcases hi : (s.inbox d).trySend with _ | inbox
    · simp [hi] at hp
    · exact ⟨inbox, rfl, rfl⟩
  · have hg : ev.wakes d = false ∨ r.poisoned = true := .inl (by simpa using hw)
    rw [if_neg hw, if_pos hg]
    obtain ⟨hlt, rfl⟩ := List.getElem?_eq_some_iff.mp hs
    refine ⟨r.sockets[id].inbox d, rfl, ?_⟩
    rw [setInbox_inbox]
    exact (List.set_getElem_self hlt).symm

theorem check_poisoned {ev : Readiness} (hp : (r.check ev id d).poisoned = false) :
    r.poisoned = false := by
  by_contra h
  unfold Registry.check at hp
  rw [if_pos (.inr (by simpa using h))] at hp
  exact h hp

theorem Registered.unheard (h : Registered r) {ev : Readiness} (hs : r.sockets[id]? = some s)
    {entry : Entry} (he : r.entries ev.token = some entry) (hid : entry.socket ≠ id)
    (hr : s.reached d = true) : s.token ≠ ev.token := by
  intro ht
  have hheld := (watched_held (by simp only [Socket.reached, Bool.and_eq_true] at hr; exact hr.1)).1
  have := h.held id s hs hheld
  rw [ht, he] at this
  cases this
  exact hid (entry_socket s id)

theorem reached_held (h : s.reached d = true) : s.stage.held = true := by
  simp only [Socket.reached, Bool.and_eq_true] at h
  exact (watched_held h.1).1

theorem Woken.refl {ev : Readiness} (h : ∀ d, s.reached d = true → s.token ≠ ev.token) :
    Woken s s ev := by
  refine ⟨rfl, rfl, rfl, fun _ => .inl rfl, fun d hr => ?_⟩
  rw [if_neg (fun hc => h d hr hc.1)]

theorem wakeEvent_woken (h : Registered r) {ev : Readiness} (hs : r.sockets[id]? = some s)
    (hp : (r.wakeEvent ev).poisoned = false) :
    ∃ s', (r.wakeEvent ev).sockets[id]? = some s' ∧ Woken s s' ev := by
  have hlt : id < r.sockets.length := (List.getElem?_eq_some_iff.mp hs).1
  have hmine : ∀ {entry}, r.entries ev.token = some entry → entry.socket = id →
      s.token = ev.token ∧ (s.stage.held = true → entry = s.entry id) := by
    intro entry he hid
    obtain ⟨s₁, hs₁, ht⟩ := h.entry _ entry he
    rw [hid, hs] at hs₁
    cases hs₁
    refine ⟨ht, fun hheld => ?_⟩
    have := h.held id s hs hheld
    rw [ht, he] at this
    exact Option.some.inj this
  unfold Registry.wakeEvent at hp ⊢
  rcases he : r.entries ev.token with _ | ⟨id'⟩ | ⟨id'⟩
  · refine ⟨s, hs, .refl fun d hr ht => ?_⟩
    have := h.held id s hs (reached_held hr)
    rw [ht, he] at this
    cases this
  · rw [he] at hp
    dsimp only at hp ⊢
    by_cases hid : id' = id
    · subst hid
      obtain ⟨inbox, hin, hsock⟩ := check_clean hs hp
      obtain ⟨ht, hown⟩ := hmine he rfl
      refine ⟨s.setInbox inbox .readable, ?_, by simp, by simp, by simp, ?_, ?_⟩
      · rw [hsock]
        exact List.getElem?_set_self hlt
      · intro d
        cases d with
        | readable =>
          rw [setInbox_self]
          by_cases hw : ev.wakes .readable = true
          · rw [if_pos hw] at hin
            exact .inr hin
          · rw [if_neg hw] at hin
            exact .inl (Option.some.inj hin).symm
        | writable => exact .inl (setInbox_other s inbox (by simp))
      · intro d hr
        cases d with
        | readable => simpa [ht] using hin
        | writable =>
          have hentry := hown (reached_held hr)
          simp only [Socket.reached, Socket.hears, Bool.and_eq_true] at hr
          unfold Socket.entry at hentry
          rcases hc : s.call <;> rw [hc] at hr hentry
          · exact (Bool.false_ne_true hr.2).elim
          · cases hentry
          · cases hentry
    · refine ⟨s, ?_, .refl fun d hr => h.unheard hs he hid hr⟩
      rw [(check_signals r ev id' .readable).others id (Ne.symm hid)]
      exact hs
  · rw [he] at hp
    dsimp only at hp ⊢
    by_cases hid : id' = id
    · subst hid
      obtain ⟨ht, -⟩ := hmine he rfl
      obtain ⟨inbox, hin, hsock⟩ := check_clean hs (check_poisoned hp)
      have hs₁ : (r.check ev id' .readable).sockets[id']? =
          some (s.setInbox inbox .readable) := by
        rw [hsock]
        exact List.getElem?_set_self hlt
      obtain ⟨inbox', hin', hsock'⟩ := check_clean hs₁ hp
      rw [setInbox_other s inbox (show Direction.writable ≠ .readable by simp)] at hin'
      have hstep : ∀ {d inbox}, (if ev.wakes d = true then (s.inbox d).trySend
          else some (s.inbox d)) = some inbox → inbox = s.inbox d ∨
            (s.inbox d).trySend = some inbox := by
        intro d inbox hin
        by_cases hw : ev.wakes d = true
        · rw [if_pos hw] at hin
          exact .inr hin
        · rw [if_neg hw] at hin
          exact .inl (Option.some.inj hin).symm
      refine ⟨(s.setInbox inbox .readable).setInbox inbox' .writable, ?_, by simp, by simp,
        by simp, ?_, ?_⟩
      · rw [hsock']
        refine List.getElem?_set_self ?_
        rw [hsock, List.length_set]
        exact hlt
      · intro d
        cases d with
        | readable => exact hstep hin
        | writable => exact hstep hin'
      · intro d _
        simp only [ht, true_and]
        cases d with
        | readable => exact hin
        | writable => exact hin'
    · refine ⟨s, ?_, .refl fun d hr => h.unheard hs he hid hr⟩
      rw [(check_signals _ ev id' .writable).others id (Ne.symm hid),
        (check_signals r ev id' .readable).others id (Ne.symm hid)]
      exact hs

/-- A socket that epoll never reported gets no signal. -/
theorem wakeEvent_fresh {ev : Readiness} (hst : r.Stands ev.token)
    (hs : r.sockets[id]? = some s) (he : s.stage.enrolled = false) :
    (r.wakeEvent ev).sockets[id]? = some s := by
  rcases wakeEvent_cases r ev with ⟨_, hw⟩ | ⟨entry, hentry, hsig⟩
  · rw [hw]
    exact hs
  · rw [hsig.others id ?_]
    · exact hs
    · rintro rfl
      obtain ⟨entry', s', hentry', hs', henr⟩ := hst
      rw [hentry] at hentry'
      cases hentry'
      rw [hs] at hs'
      cases hs'
      rw [he] at henr
      cases henr

/-- What a step of the registry does to one socket, as long as the poller lives. -/
inductive SocketMove (r : Registry) (e : Event) (t : Registry) (id : ℕ) (s : Socket) :
    Socket → Prop where
  | same : (∀ a, e ≠ .act id a) → SocketMove r e t id s s
  | acted (a : Action) (s' : Socket) : e = .act id a → s.act a = some s' →
      SocketMove r e t id s s'
  | woken (ev : Readiness) (rest : List Readiness) (stopped : Bool) (s' : Socket) : e = .wake →
      r.poller = .waking (ev :: rest) stopped → t.poller = .waking rest stopped →
      Woken s s' ev → (s.stage.enrolled = false → s' = s) → SocketMove r e t id s s'
  | left (stage : Stage) : (s.stage = .refused ∨ s.stage = .deregistered) →
      (stage = .abandoned ∨ stage = .failed ∨ stage = .dropped) →
      (∀ a, e ≠ .act id a) → SocketMove r e t id s { s with stage := stage }

theorem goOn_alive {p : Poller} (h : (r.goOn p).poller.dead = false) :
    r.poisoned = false ∧ (r.goOn p).poller = p := by
  unfold Registry.goOn at h ⊢
  dsimp only at h ⊢
  by_cases hp : r.poisoned = true
  · rw [if_pos hp] at h
    cases h
  · exact ⟨by simpa using hp, if_neg hp⟩

theorem set_socket {id' : ℕ} {k : Socket} (k' : Socket) (hk : r.sockets[id']? = some k)
    (hs : r.sockets[id]? = some s) :
    (id' = id ∧ k = s ∧ (r.sockets.set id' k')[id]? = some k') ∨
      (id' ≠ id ∧ (r.sockets.set id' k')[id]? = some s) := by
  by_cases hid : id' = id
  · subst hid
    rw [hk] at hs
    exact .inl ⟨rfl, Option.some.inj hs, List.getElem?_set_self (List.getElem?_eq_some_iff.mp hk).1⟩
  · refine .inr ⟨hid, ?_⟩
    rw [List.getElem?_set_ne hid]
    exact hs

theorem Moves.socket {e : Event} (h : Registered r) (hm : Moves r e t)
    (hd : t.poller.dead = false) (hs : r.sockets[id]? = some s) :
    ∃ s', t.sockets[id]? = some s' ∧ SocketMove r e t id s s' := by
  cases hm with
  | failed | refused => exact ⟨s, hs, .same (by simp)⟩
  | inserted call key => exact ⟨s, insert_old call key hs, .same (by simp)⟩
  | abandoned id' k hk hst =>
    rcases set_socket { k with stage := .abandoned } hk hs with ⟨rfl, rfl, hset⟩ | ⟨_, hset⟩
    · exact ⟨_, hset, .left _ (.inl hst) (by simp) (by simp)⟩
    · exact ⟨s, hset, .same (by simp)⟩
  | unregistered id' k hk hst =>
    have hsock : ((r.remove k.token).setSocket id' { k with stage := .failed }).sockets =
        r.sockets.set id' { k with stage := .failed } := by simp [Registry.setSocket]
    rw [hsock]
    rcases set_socket { k with stage := .failed } hk hs with ⟨rfl, rfl, hset⟩ | ⟨_, hset⟩
    · exact ⟨_, hset, .left _ (.inl hst) (by simp) (by simp)⟩
    · exact ⟨s, hset, .same (by simp)⟩
  | acted id' a k k' hk ha =>
    rcases set_socket k' hk hs with ⟨rfl, rfl, hset⟩ | ⟨hid, hset⟩
    · exact ⟨k', hset, .acted a k' rfl ha⟩
    · exact ⟨s, hset, .same (by simpa using hid)⟩
  | sent id' k hk hst =>
    rcases set_socket { k with stage := .dropped } hk hs with ⟨rfl, rfl, hset⟩ | ⟨_, hset⟩
    · exact ⟨_, hset, .left _ (.inr hst) (by simp) (by simp)⟩
    · exact ⟨s, hset, .same (by simp)⟩
  | pollError | polled | locked | stopped | unlocked => exact ⟨s, hs, .same (by simp)⟩
  | woke ev rest stopped hp hw =>
    obtain ⟨hclean, hpoller⟩ := goOn_alive hd
    obtain ⟨s', hs', hwoken⟩ := wakeEvent_woken h hs hclean
    refine ⟨s', hs', .woken ev rest stopped s' rfl hp hpoller hwoken fun hen => ?_⟩
    have hst := h.pending ev (by rw [hp]; exact List.mem_cons_self) hw
    have := wakeEvent_fresh hst hs hen
    rw [hs'] at this
    exact Option.some.inj this
  | freed token rest stopped => exact ⟨s, by simpa using hs, .same (by simp)⟩

theorem Moves.alive {e : Event} (hm : Moves r e t) (hd : t.poller.dead = false) :
    r.poller.dead = false := by
  cases hm with
  | failed | refused | inserted | abandoned | acted | sent => exact hd
  | unregistered id s => simpa [Registry.setSocket] using hd
  | pollError interrupted hp | polled batch hp | locked batch hp | stopped ev rest stopped hp
  | woke ev rest stopped hp | freed token rest stopped hp | unlocked stopped hp => rw [hp]; rfl

theorem Moves.pending_same {e : Event} (hm : Moves r e t) (hd : t.poller.dead = false)
    (hpoll : ∀ batch, e ≠ .poll batch) (hwake : e ≠ .wake) :
    t.poller.pending = r.poller.pending := by
  cases hm with
  | failed | refused | inserted | abandoned | acted | sent => rfl
  | unregistered id s => simp [Registry.setSocket]
  | pollError interrupted hp =>
    rw [hp]
    cases interrupted <;> rfl
  | polled batch => exact absurd rfl (hpoll batch)
  | locked batch hp =>
    rw [(goOn_alive hd).2, hp]
    rfl
  | stopped | woke => exact absurd rfl hwake
  | freed token rest stopped hp =>
    rw [(goOn_alive hd).2, hp]
  | unlocked stopped hp =>
    rw [hp]
    cases stopped <;> rfl

end Net
