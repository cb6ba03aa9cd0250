import Stuck.NetRegistry

/-! Events of epoll and the entries they reach. A polled batch names sockets by token, so an entry
must stand under its token until the batch is processed. -/
namespace Net

open TransitionSystem

variable {r t u : Registry} {e : Event}

/-- The token belongs to a call or to a holder. -/
def Stage.held (stage : Stage) : Bool := stage.live || stage.calling

/-- epoll may have reported the socket at some time. -/
def Stage.enrolled : Stage → Bool
  | .inserted | .refused | .failed => false
  | _ => true

theorem watched_held {stage : Stage} (h : stage.watched = true) :
    stage.held = true ∧ stage.enrolled = true := by
  cases stage <;> simp_all [Stage.watched, Stage.held, Stage.live, Stage.calling, Stage.enrolled]

/-- From one state of a socket to a later one. -/
structure Kept (s s' : Socket) : Prop where
  token : s'.token = s.token
  call : s'.call = s.call
  held : s'.stage.held = true → s.stage.held = true
  enrolled : s.stage.enrolled = true → s'.stage.enrolled = true
  dropped : s.stage = .dropped → s'.stage = .dropped

theorem Kept.refl (s : Socket) : Kept s s := ⟨rfl, rfl, id, id, id⟩

theorem Kept.entry {s s' : Socket} (h : Kept s s') (id : ℕ) : s'.entry id = s.entry id := by
  unfold Socket.entry
  rw [h.call]

/-- A step out of a held stage. -/
theorem Kept.of_held {s s' : Socket} (ht : s'.token = s.token) (hc : s'.call = s.call)
    (hh : s.stage.held = true) (he : s.stage.enrolled = true → s'.stage.enrolled = true) :
    Kept s s' := by
  refine ⟨ht, hc, fun _ => hh, he, fun hd => ?_⟩
  rw [hd] at hh
  cases hh

theorem kept_refused {s : Socket} (h : s.stage = .refused) (stage : Stage) :
    Kept s { s with stage := stage } := by
  refine .of_held rfl rfl (by rw [h]; rfl) fun he => ?_
  rw [h] at he
  cases he

theorem kept_dropped {s : Socket} (h : s.stage = .deregistered) :
    Kept s { s with stage := .dropped } := .of_held rfl rfl (by rw [h]; rfl) fun _ => rfl

@[simp] theorem setInbox_token (s : Socket) (inbox : Inbox) (d : Direction) :
    (s.setInbox inbox d).token = s.token := by cases d <;> rfl

@[simp] theorem setInbox_call (s : Socket) (inbox : Inbox) (d : Direction) :
    (s.setInbox inbox d).call = s.call := by cases d <;> rfl

@[simp] theorem setInbox_stage (s : Socket) (inbox : Inbox) (d : Direction) :
    (s.setInbox inbox d).stage = s.stage := by cases d <;> rfl

theorem kept_setInbox (s : Socket) (inbox : Inbox) (d : Direction) : Kept s (s.setInbox inbox d) :=
  ⟨by simp, by simp, by simp, by simp, by simp⟩

theorem recv_cases {s s' : Socket} {d : Direction} (h : s.recv d = some s') :
    ∃ inbox, s' = s.setInbox inbox d := by
  unfold Socket.recv at h
  split at h
  · cases h
  · exact ⟨_, (Option.some.inj h).symm⟩

theorem receives_held {stage : Stage} {d : Direction} (h : stage.receives d = true) :
    stage.held = true := by
  cases stage <;> cases d <;> first | rfl | cases h

theorem drop_cases {stage stage' : Stage} {part : Part} (h : stage.drop part = some stage') :
    stage.held = true ∧ stage'.held = true ∧ stage'.enrolled = true := by
  cases stage <;> cases part <;> cases h <;> exact ⟨rfl, rfl, rfl⟩

/-- An action starts at a held token and, but for an interrupted one, ends at it. -/
theorem act_cases {s s' : Socket} {a : Action} (h : s.act a = some s') :
    Kept s s' ∧ s.stage.held = true ∧
      (a = .interrupted ∧ s'.stage = .abandoned ∨ a ≠ .interrupted ∧ s'.stage.held = true) := by
  cases a with
  | register ok =>
    obtain ⟨hs, ⟨⟩⟩ := Option.ite_none_right_eq_some.mp h
    have hh : s.stage.held = true := by rw [hs]; rfl
    refine ⟨.of_held rfl rfl hh fun he => ?_, hh, .inr ⟨by simp, ?_⟩⟩
    · rw [hs] at he
      cases he
    · dsimp only
      split
      · rfl
      · split <;> rfl
  | block =>
    obtain ⟨⟨hs, _⟩, ⟨⟩⟩ := Option.ite_none_right_eq_some.mp h
    have hh : s.stage.held = true := by rw [hs]; rfl
    exact ⟨.of_held rfl rfl hh fun _ => rfl, hh, .inr ⟨by simp, rfl⟩⟩
  | writable =>
    obtain ⟨hs, hm⟩ := Option.ite_none_right_eq_some.mp h
    obtain ⟨s₀, hr, ⟨⟩⟩ := Option.map_eq_some_iff.mp hm
    obtain ⟨inbox, rfl⟩ := recv_cases hr
    have hh : s.stage.held = true := by
      rcases hs with hs | hs <;> rw [hs] <;> rfl
    refine ⟨.of_held (by simp) (by simp) hh fun _ => ?_, hh, .inr ⟨by simp, ?_⟩⟩
    · dsimp only
      split <;> rfl
    · dsimp only
      split <;> rfl
  | interrupted =>
    obtain ⟨hs, ⟨⟩⟩ := Option.ite_none_right_eq_some.mp h
    have hh : s.stage.held = true := by rw [hs]; rfl
    exact ⟨.of_held rfl rfl hh fun _ => rfl, hh, .inl ⟨rfl, rfl⟩⟩
  | takeError failed =>
    obtain ⟨hs, ⟨⟩⟩ := Option.ite_none_right_eq_some.mp h
    have hh : s.stage.held = true := by rw [hs]; rfl
    refine ⟨.of_held rfl rfl hh fun _ => ?_, hh, .inr ⟨by simp, ?_⟩⟩
    · dsimp only
      split <;> rfl
    · dsimp only
      split <;> rfl
  | receive d =>
    obtain ⟨hd, hr⟩ := Option.ite_none_right_eq_some.mp h
    obtain ⟨inbox, rfl⟩ := recv_cases hr
    have hh := receives_held hd
    exact ⟨kept_setInbox s inbox d, hh, .inr ⟨by simp, by simpa using hh⟩⟩
  | poison d =>
    obtain ⟨⟨hd, _⟩, ⟨⟩⟩ := Option.ite_none_right_eq_some.mp h
    have hh := receives_held hd
    exact ⟨kept_setInbox s _ d, hh, .inr ⟨by simp, by simpa using hh⟩⟩
  | intoSplit =>
    obtain ⟨hs, ⟨⟩⟩ := Option.ite_none_right_eq_some.mp h
    have hh : s.stage.held = true := by rw [hs]; rfl
    exact ⟨.of_held rfl rfl hh fun _ => rfl, hh, .inr ⟨by simp, rfl⟩⟩
  | drop part =>
    obtain ⟨stage, hd, rfl⟩ := Option.map_eq_some_iff.mp h
    obtain ⟨hh, hh', he⟩ := drop_cases hd
    exact ⟨.of_held rfl rfl hh fun _ => he, hh, .inr ⟨by simp, hh'⟩⟩

/-- The effect of a `check` for the socket `id` of an event: at most its inboxes change. -/
structure Signals (r t : Registry) (id : ℕ) : Prop where
  entries : t.entries = r.entries
  freeing : t.freeing = r.freeing
  others : ∀ id', id' ≠ id → t.sockets[id']? = r.sockets[id']?
  socket : (t.sockets[id]? = none ∧ r.sockets[id]? = none) ∨
    ∃ s s', r.sockets[id]? = some s ∧ t.sockets[id]? = some s' ∧ Kept s s' ∧ s'.stage = s.stage
  sent : ∃ new, t.sent = r.sent ++ new ∧ ∀ x ∈ new, x.1 = id

theorem Kept.trans {a b c : Socket} (h : Kept a b) (h' : Kept b c) : Kept a c :=
  ⟨h'.token.trans h.token, h'.call.trans h.call, fun k => h.held (h'.held k),
    fun k => h'.enrolled (h.enrolled k), fun k => h'.dropped (h.dropped k)⟩

theorem Signals.refl (r : Registry) (id : ℕ) : Signals r r id := by
  refine ⟨rfl, rfl, fun _ _ => rfl, ?_, [], by simp, by simp⟩
  rcases hs : r.sockets[id]? with _ | s
  · exact .inl ⟨rfl, rfl⟩
  · exact .inr ⟨s, s, rfl, rfl, .refl s, rfl⟩

theorem Signals.trans {id : ℕ} (h : Signals r t id) (h' : Signals t u id) : Signals r u id := by
  obtain ⟨new, hn, hx⟩ := h.sent
  obtain ⟨new', hn', hx'⟩ := h'.sent
  refine ⟨h'.entries.trans h.entries, h'.freeing.trans h.freeing,
    fun id' hne => (h'.others id' hne).trans (h.others id' hne), ?_, new ++ new', ?_, ?_⟩
  · rcases h.socket with ⟨ht, hr⟩ | ⟨s, s', hr, ht, hk, hs⟩
    · rcases h'.socket with ⟨hu, _⟩ | ⟨s, _, ht', _⟩
      · exact .inl ⟨hu, hr⟩
      · rw [ht] at ht'
        cases ht'
    · rcases h'.socket with ⟨_, ht'⟩ | ⟨s₁, s₂, ht', hu, hk', hs'⟩
      · rw [ht] at ht'
        cases ht'
      · rw [ht] at ht'
        cases ht'
        exact .inr ⟨s, s₂, hr, hu, hk.trans hk', hs'.trans hs⟩
  · rw [hn', hn, List.append_assoc]
  · intro x hm
    rcases List.mem_append.mp hm with hm | hm
    · exact hx x hm
    · exact hx' x hm

theorem check_signals (r : Registry) (ev : Readiness) (id : ℕ) (d : Direction) :
    Signals r (r.check ev id d) id := by
  unfold Registry.check
  split
  · exact .refl r id
  · rcases hs : r.sockets[id]? with _ | s
    · exact .refl r id
    · rcases hi : (s.inbox d).trySend with _ | inbox
      · dsimp only
        rw [hi]
        exact ⟨rfl, rfl, fun _ _ => rfl, (Signals.refl r id).socket, [], by simp, by simp⟩
      · dsimp only
        rw [hi]
        have hlt : id < r.sockets.length := (List.getElem?_eq_some_iff.mp hs).1
        refine ⟨rfl, rfl, fun id' hne => ?_, .inr ⟨s, s.setInbox inbox d, hs, ?_,
          kept_setInbox s inbox d, by simp⟩, [(id, d)], rfl, by simp⟩
        · exact List.getElem?_set_ne (Ne.symm hne)
        · exact List.getElem?_set_self hlt

/-- `wake_events` reaches the entry under the token of the event, or nobody. -/
theorem wakeEvent_cases (r : Registry) (ev : Readiness) :
    (r.entries ev.token = none ∧ r.wakeEvent ev = r) ∨
      ∃ entry, r.entries ev.token = some entry ∧ Signals r (r.wakeEvent ev) entry.socket := by
  unfold Registry.wakeEvent
  rcases he : r.entries ev.token with _ | ⟨id⟩ | ⟨id⟩
  · exact .inl ⟨rfl, rfl⟩
  · exact .inr ⟨_, rfl, check_signals r ev id .readable⟩
  · exact .inr ⟨_, rfl, (check_signals r ev id .readable).trans (check_signals _ ev id .writable)⟩

/-- What one step does. -/
inductive Moves (r : Registry) : Event → Registry → Prop where
  | failed (call : Call) : Moves r (.failed call) r
  | refused (call : Call) (key : ℕ) : r.poisoned = true → Moves r (.registerEntry call key) r
  | inserted (call : Call) (key : ℕ) : r.poller.locks = false → r.entries key = none →
      r.poisoned = false → Moves r (.registerEntry call key) (r.insert call key)
  | abandoned (id : ℕ) (s : Socket) : r.sockets[id]? = some s → s.stage = .refused →
      r.poisoned = true →
      Moves r (.unregisterEntry id) (r.setSocket id { s with stage := .abandoned })
  | unregistered (id : ℕ) (s : Socket) : r.sockets[id]? = some s → s.stage = .refused →
      r.poisoned = false →
      Moves r (.unregisterEntry id) ((r.remove s.token).setSocket id { s with stage := .failed })
  | acted (id : ℕ) (a : Action) (s s' : Socket) : r.sockets[id]? = some s → s.act a = some s' →
      Moves r (.act id a) (r.setSocket id s')
  | sent (id : ℕ) (s : Socket) : r.sockets[id]? = some s → s.stage = .deregistered →
      Moves r (.send id)
        { r.setSocket id { s with stage := .dropped } with freeing := r.freeing ++ [s.token] }
  | pollError (interrupted : Bool) : r.poller = .polling → Moves r (.pollError interrupted)
      { r with poller := if interrupted = true then .polling else .ended }
  | polled (batch : List Readiness) : r.poller = .polling → (∀ ev ∈ batch, r.reports ev = true) →
      Moves r (.poll batch) { r with poller := .polled batch }
  | locked (batch : List Readiness) : r.poller = .polled batch →
      Moves r .lock (r.goOn (.waking batch false))
  | stopped (ev : Readiness) (rest : List Readiness) (stopped : Bool) :
      r.poller = .waking (ev :: rest) stopped → ev.token = WAKER_TOKEN →
      Moves r .wake (r.goOn (.waking rest true))
  | woke (ev : Readiness) (rest : List Readiness) (stopped : Bool) :
      r.poller = .waking (ev :: rest) stopped → ev.token ≠ WAKER_TOKEN →
      Moves r .wake ((r.wakeEvent ev).goOn (.waking rest stopped))
  | freed (token : ℕ) (rest : List ℕ) (stopped : Bool) : r.poller = .waking [] stopped →
      r.freeing = token :: rest →
      Moves r .free (({ r with freeing := rest }.remove token).goOn (.waking [] stopped))
  | unlocked (stopped : Bool) : r.poller = .waking [] stopped → r.freeing = [] →
      Moves r .unlock { r with poller := if stopped then .ended else .polling }

theorem step_moves (h : system.step r e = some t) : Moves r e t := by
  change step r e = some t at h
  cases e with
  | failed call =>
    cases h
    exact .failed call
  | registerEntry call key =>
    simp only [step] at h
    split at h
    · cases h
    · rename_i hg
      obtain ⟨hl, _, hv⟩ : r.poller.locks = false ∧ key < WAKER_TOKEN ∧ r.entries key = none := by
        simpa [not_or] using hg
      split at h
      · rename_i hp
        cases h
        exact .refused call key hp
      · rename_i hp
        cases h
        exact .inserted call key hl hv (by simpa using hp)
  | unregisterEntry id =>
    simp only [step] at h
    split at h
    · rename_i s hs
      obtain ⟨⟨hr, _⟩, h⟩ := Option.ite_none_right_eq_some.mp h
      split at h
      · rename_i hp
        cases h
        exact .abandoned id s hs hr hp
      · rename_i hp
        cases h
        exact .unregistered id s hs hr (by simpa using hp)
    · cases h
  | act id a =>
    simp only [step] at h
    split at h
    · rename_i s hs
      obtain ⟨s', ha, rfl⟩ := Option.map_eq_some_iff.mp h
      exact .acted id a s s' hs ha
    · cases h
  | send id =>
    simp only [step] at h
    split at h
    · rename_i s hs
      obtain ⟨hd, ⟨⟩⟩ := Option.ite_none_right_eq_some.mp h
      exact .sent id s hs hd
    · cases h
  | pollError interrupted =>
    obtain ⟨hp, ⟨⟩⟩ := Option.ite_none_right_eq_some.mp h
    exact .pollError interrupted hp
  | poll batch =>
    obtain ⟨⟨hp, hb⟩, ⟨⟩⟩ := Option.ite_none_right_eq_some.mp h
    exact .polled batch hp (List.all_eq_true.mp hb)
  | lock =>
    simp only [step] at h
    split at h
    · rename_i batch hp
      cases h
      exact .locked batch hp
    · cases h
  | wake =>
    simp only [step] at h
    split at h
    · rename_i ev rest stopped hp
      split at h
      · rename_i hw
        cases h
        exact .stopped ev rest stopped hp hw
      · rename_i hw
        cases h
        exact .woke ev rest stopped hp hw
    · cases h
  | free =>
    simp only [step] at h
    split at h
    · rename_i stopped token rest hp hf
      cases h
      exact .freed token rest stopped hp hf
    · cases h
  | unlock =>
    simp only [step] at h
    split at h
    · rename_i stopped hp hf
      cases h
      exact .unlocked stopped hp hf
    · cases h

@[simp] theorem entry_socket (s : Socket) (id : ℕ) : (s.entry id).socket = id := by
  unfold Socket.entry
  split <;> rfl

@[simp] theorem goOn_entries (r : Registry) (p : Poller) : (r.goOn p).entries = r.entries := rfl

@[simp] theorem goOn_freeing (r : Registry) (p : Poller) : (r.goOn p).freeing = r.freeing := rfl

@[simp] theorem goOn_sockets (r : Registry) (p : Poller) : (r.goOn p).sockets = r.sockets := rfl

theorem goOn_pending (r : Registry) (p : Poller) : (r.goOn p).poller.pending <:+ p.pending := by
  unfold Registry.goOn
  dsimp only
  split
  · exact List.nil_suffix
  · exact List.suffix_refl _

@[simp] theorem remove_freeing (r : Registry) (key : ℕ) : (r.remove key).freeing = r.freeing := by
  unfold Registry.remove
  split <;> rfl

@[simp] theorem remove_sockets (r : Registry) (key : ℕ) : (r.remove key).sockets = r.sockets := by
  unfold Registry.remove
  split <;> rfl

@[simp] theorem remove_poller (r : Registry) (key : ℕ) : (r.remove key).poller = r.poller := by
  unfold Registry.remove
  split <;> rfl

@[simp] theorem remove_entries (r : Registry) (key : ℕ) :
    (r.remove key).entries = Function.update r.entries key none := by
  unfold Registry.remove
  split
  · rename_i h
    rw [← h, Function.update_eq_self]
  · rfl

/-- The entry stands, and no failed registration will take it. -/
def Registry.Stands (r : Registry) (token : ℕ) : Prop :=
  ∃ entry, ∃ s : Socket, r.entries token = some entry ∧ r.sockets[entry.socket]? = some s ∧
    s.stage.enrolled = true

/-- Entries and tokens as the code must keep them. An entry may be left without an owner here. -/
structure Registered (r : Registry) : Prop where
  entry : ∀ key entry, r.entries key = some entry →
    ∃ s : Socket, r.sockets[entry.socket]? = some s ∧ s.token = key
  held : ∀ (id : ℕ) (s : Socket), r.sockets[id]? = some s → s.stage.held = true →
    r.entries s.token = some (s.entry id)
  queued : ∀ key ∈ r.freeing, ∃ entry, ∃ s : Socket, r.entries key = some entry ∧
    r.sockets[entry.socket]? = some s ∧ s.stage = .dropped
  queued_once : r.freeing.Nodup
  pending : ∀ ev ∈ r.poller.pending, ev.token ≠ WAKER_TOKEN → r.Stands ev.token

/-- A step that leaves the slab and the queue alone. -/
structure Evolves (r t : Registry) : Prop where
  entries : t.entries = r.entries
  freeing : t.freeing = r.freeing
  pending : t.poller.pending <:+ r.poller.pending
  later : ∀ (id : ℕ) (s : Socket), r.sockets[id]? = some s → ∃ s', t.sockets[id]? = some s' ∧ Kept s s'
  earlier : ∀ (id : ℕ) (s' : Socket), t.sockets[id]? = some s' → ∃ s, r.sockets[id]? = some s ∧ Kept s s'

theorem Registered.evolves (h : Registered r) (he : Evolves r t) : Registered t := by
  refine ⟨?_, ?_, ?_, ?_, ?_⟩
  · intro key entry hk
    rw [he.entries] at hk
    obtain ⟨s, hs, ht⟩ := h.entry key entry hk
    obtain ⟨s', hs', hkept⟩ := he.later _ s hs
    exact ⟨s', hs', hkept.token.trans ht⟩
  · intro id s' hs' hh
    obtain ⟨s, hs, hkept⟩ := he.earlier id s' hs'
    rw [he.entries, hkept.token, hkept.entry]
    exact h.held id s hs (hkept.held hh)
  · intro key hk
    rw [he.freeing] at hk
    obtain ⟨entry, s, hn, hs, hd⟩ := h.queued key hk
    obtain ⟨s', hs', hkept⟩ := he.later _ s hs
    exact ⟨entry, s', by rw [he.entries]; exact hn, hs', hkept.dropped hd⟩
  · rw [he.freeing]
    exact h.queued_once
  · intro ev hev hw
    obtain ⟨entry, s, hn, hs, hd⟩ := h.pending ev (he.pending.subset hev) hw
    obtain ⟨s', hs', hkept⟩ := he.later _ s hs
    exact ⟨entry, s', by rw [he.entries]; exact hn, hs', hkept.enrolled hd⟩

theorem Evolves.of_sockets (he : t.entries = r.entries) (hf : t.freeing = r.freeing)
    (hs : t.sockets = r.sockets) (hp : t.poller.pending <:+ r.poller.pending) : Evolves r t := by
  refine ⟨he, hf, hp, fun id s h => ⟨s, ?_, .refl s⟩, fun id s h => ⟨s, ?_, .refl s⟩⟩
  · rw [hs]
    exact h
  · rw [← hs]
    exact h

/-- One socket moves. -/
theorem Evolves.of_others {id : ℕ} (he : t.entries = r.entries) (hf : t.freeing = r.freeing)
    (hp : t.poller.pending <:+ r.poller.pending)
    (ho : ∀ id', id' ≠ id → t.sockets[id']? = r.sockets[id']?)
    (hs : (t.sockets[id]? = none ∧ r.sockets[id]? = none) ∨
      ∃ s s', r.sockets[id]? = some s ∧ t.sockets[id]? = some s' ∧ Kept s s') : Evolves r t := by
  refine ⟨he, hf, hp, ?_, ?_⟩
  · intro id' a ha
    by_cases hid : id' = id
    · subst hid
      rcases hs with ⟨_, hn⟩ | ⟨s, s', hs, hs', hk⟩
      · rw [hn] at ha
        cases ha
      · rw [hs] at ha
        cases ha
        exact ⟨s', hs', hk⟩
    · exact ⟨a, (ho id' hid).trans ha, .refl a⟩
  · intro id' a ha
    by_cases hid : id' = id
    · subst hid
      rcases hs with ⟨hn, _⟩ | ⟨s, s', hs, hs', hk⟩
      · rw [hn] at ha
        cases ha
      · rw [hs'] at ha
        cases ha
        exact ⟨s, hs, hk⟩
    · exact ⟨a, (ho id' hid).symm.trans ha, .refl a⟩

theorem Evolves.set {id : ℕ} {s s' : Socket} (hs : r.sockets[id]? = some s) (hk : Kept s s') :
    Evolves r (r.setSocket id s') := by
  have hlt : id < r.sockets.length := (List.getElem?_eq_some_iff.mp hs).1
  exact .of_others rfl rfl (List.suffix_refl _)
    (fun id' hne => List.getElem?_set_ne (Ne.symm hne))
    (.inr ⟨s, s', hs, List.getElem?_set_self hlt, hk⟩)

theorem Signals.evolves {id : ℕ} (h : Signals r t id)
    (hp : t.poller.pending <:+ r.poller.pending) : Evolves r t := by
  refine .of_others h.entries h.freeing hp h.others ?_
  rcases h.socket with hn | ⟨s, s', hs, hs', hk, _⟩
  · exact .inl hn
  · exact .inr ⟨s, s', hs, hs', hk⟩

/-- Removing an entry that no call, holder, queued token or pending event refers to. -/
theorem Registered.vacate (h : Registered r) (key : ℕ) (he : t.entries =
    Function.update r.entries key none) (hf : t.freeing = r.freeing) (hs : t.sockets = r.sockets)
    (hp : t.poller.pending <:+ r.poller.pending) (hq : key ∉ r.freeing)
    (hh : ∀ (id : ℕ) s, r.sockets[id]? = some s → s.stage.held = true → s.token ≠ key)
    (hev : ∀ ev ∈ t.poller.pending, ev.token ≠ WAKER_TOKEN → ev.token ≠ key) : Registered t := by
  have hne : ∀ {k : ℕ}, k ≠ key → t.entries k = r.entries k := by
    intro k hk
    rw [he, Function.update_of_ne hk]
  refine ⟨?_, ?_, ?_, ?_, ?_⟩
  · intro k entry hk
    by_cases hkey : k = key
    · rw [he, hkey, Function.update_self] at hk
      cases hk
    · rw [hne hkey] at hk
      rw [hs]
      exact h.entry k entry hk
  · intro id s hsock hheld
    rw [hs] at hsock
    rw [hne (hh id s hsock hheld)]
    exact h.held id s hsock hheld
  · intro k hk
    rw [hf] at hk
    have hkey : k ≠ key := fun heq => hq (heq ▸ hk)
    rw [hne hkey, hs]
    exact h.queued k hk
  · rw [hf]
    exact h.queued_once
  · intro ev hmem hw
    unfold Registry.Stands
    rw [hne (hev ev hmem hw), hs]
    exact h.pending ev (hp.subset hmem) hw

theorem insert_socket {call : Call} {key id : ℕ} {s : Socket}
    (h : (r.insert call key).sockets[id]? = some s) :
    r.sockets[id]? = some s ∨ id = r.sockets.length ∧ s = Socket.new call key := by
  change (r.sockets ++ [Socket.new call key])[id]? = some s at h
  by_cases hlt : id < r.sockets.length
  · rw [List.getElem?_append_left hlt] at h
    exact .inl h
  · rw [List.getElem?_append_right (by omega), List.getElem?_singleton] at h
    obtain ⟨hid, ⟨⟩⟩ := Option.ite_none_right_eq_some.mp h
    exact .inr ⟨by omega, rfl⟩

theorem insert_old (call : Call) (key : ℕ) {id : ℕ} {s : Socket} (h : r.sockets[id]? = some s) :
    (r.insert call key).sockets[id]? = some s := by
  change (r.sockets ++ [Socket.new call key])[id]? = some s
  rw [List.getElem?_append_left (List.getElem?_eq_some_iff.mp h).1]
  exact h

theorem insert_entries_self (r : Registry) (call : Call) (key : ℕ) :
    (r.insert call key).entries key = some ((Socket.new call key).entry r.sockets.length) :=
  Function.update_self ..

theorem insert_entries_of_ne (r : Registry) (call : Call) {key k : ℕ} (h : k ≠ key) :
    (r.insert call key).entries k = r.entries k := Function.update_of_ne h ..

theorem Registered.insert (h : Registered r) (call : Call) {key : ℕ}
    (hv : r.entries key = none) : Registered (r.insert call key) := by
  have hold : ∀ {k entry}, r.entries k = some entry → (r.insert call key).entries k = some entry := by
    intro k entry hk
    have hne : k ≠ key := by
      rintro rfl
      rw [hv] at hk
      cases hk
    exact (insert_entries_of_ne r call hne).trans hk
  refine ⟨?_, ?_, ?_, h.queued_once, ?_⟩
  · intro k entry hk
    by_cases hkey : k = key
    · subst hkey
      rw [insert_entries_self] at hk
      cases hk
      exact ⟨Socket.new call k, by simp [Registry.insert], rfl⟩
    · have hk' := (insert_entries_of_ne r call hkey).symm.trans hk
      obtain ⟨s, hs, ht⟩ := h.entry k entry hk'
      exact ⟨s, insert_old call key hs, ht⟩
  · intro id s hs hh
    rcases insert_socket hs with hs | ⟨rfl, rfl⟩
    · exact hold (h.held id s hs hh)
    · exact insert_entries_self r call key
  · intro k hk
    obtain ⟨entry, s, hn, hs, hd⟩ := h.queued k hk
    exact ⟨entry, s, hold hn, insert_old call key hs, hd⟩
  · intro ev hev hw
    obtain ⟨entry, s, hn, hs, hd⟩ := h.pending ev hev hw
    exact ⟨entry, s, hold hn, insert_old call key hs, hd⟩

/-- A queued token is not held, so the queue gets no token twice. -/
theorem Registered.held_unqueued (h : Registered r) {id : ℕ} {s : Socket}
    (hs : r.sockets[id]? = some s) (hh : s.stage.held = true) : s.token ∉ r.freeing := by
  intro hq
  obtain ⟨entry, s', hn, hs', hd⟩ := h.queued _ hq
  rw [h.held id s hs hh] at hn
  cases hn
  rw [entry_socket, hs] at hs'
  cases hs'
  rw [hd] at hh
  cases hh

theorem Registered.send (h : Registered r) {id : ℕ} {s : Socket} (hs : r.sockets[id]? = some s)
    (hd : s.stage = .deregistered) : Registered
      { r.setSocket id { s with stage := .dropped } with freeing := r.freeing ++ [s.token] } := by
  have hh : s.stage.held = true := by rw [hd]; rfl
  have hset := h.evolves (.set hs (kept_dropped hd))
  have hlt : id < r.sockets.length := (List.getElem?_eq_some_iff.mp hs).1
  refine ⟨hset.entry, hset.held, ?_, ?_, hset.pending⟩
  · intro key hkey
    rcases List.mem_append.mp hkey with hkey | hkey
    · exact hset.queued key hkey
    · cases List.mem_singleton.mp hkey
      refine ⟨s.entry id, { s with stage := .dropped }, h.held id s hs hh, ?_, rfl⟩
      rw [entry_socket]
      exact List.getElem?_set_self hlt
  · refine List.nodup_append.mpr ⟨h.queued_once, List.nodup_singleton _, ?_⟩
    rintro a ha b hb rfl
    cases List.mem_singleton.mp hb
    exact h.held_unqueued hs hh ha

/-- epoll reports a socket that it watches, so its token is held. -/
theorem reports_held (h : Registered r) {ev : Readiness} (hr : r.reports ev = true)
    (hw : ev.token ≠ WAKER_TOKEN) : ∃ entry, ∃ s : Socket, r.entries ev.token = some entry ∧
      r.sockets[entry.socket]? = some s ∧ s.token = ev.token ∧ s.stage.watched = true := by
  obtain ⟨s, hm, hs, ht⟩ : ∃ s ∈ r.sockets, s.stage.watched = true ∧ s.token = ev.token := by
    simpa [Registry.reports, hw] using hr
  obtain ⟨id, hid⟩ := List.mem_iff_getElem?.mp hm
  refine ⟨s.entry id, s, ?_, by rw [entry_socket]; exact hid, ht, hs⟩
  rw [← ht]
  exact h.held id s hid (watched_held hs).1

theorem Registered.poll (h : Registered r) {batch : List Readiness}
    (hb : ∀ ev ∈ batch, r.reports ev = true) : Registered { r with poller := .polled batch } := by
  refine ⟨h.entry, h.held, h.queued, h.queued_once, fun ev hev hw => ?_⟩
  obtain ⟨entry, s, hn, hs, _, hd⟩ := reports_held h (hb ev hev) hw
  exact ⟨entry, s, hn, hs, (watched_held hd).2⟩

/-- A failed registration takes its own entry back. -/
theorem Registered.unregister (h : Registered r) {id : ℕ} {s : Socket}
    (hs : r.sockets[id]? = some s) (hr : s.stage = .refused) :
    Registered ((r.remove s.token).setSocket id { s with stage := .failed }) := by
  have hh : s.stage.held = true := by rw [hr]; rfl
  have hset := h.evolves (.set hs (kept_refused hr .failed))
  have hown := h.held id s hs hh
  refine hset.vacate s.token (by simp [Registry.setSocket])
    (by simp [Registry.setSocket]) (by simp [Registry.setSocket])
    (by simp [Registry.setSocket]) (h.held_unqueued hs hh) ?_ ?_
  · intro id' s' hs' hh' ht
    have hid : id' = id := by
      have := hset.held id' s' hs' hh'
      rw [ht] at this
      have := Option.some.inj (hown.symm.trans this)
      have := congrArg Entry.socket this
      simpa using this.symm
    subst hid
    have hlt : id' < r.sockets.length := (List.getElem?_eq_some_iff.mp hs).1
    have : { s with stage := .failed } = s' :=
      Option.some.inj ((List.getElem?_set_self hlt).symm.trans hs')
    subst this
    cases hh'
  · intro ev hev hw ht
    obtain ⟨entry, s', hn, hs', he⟩ := h.pending ev (by simpa [Registry.setSocket] using hev) hw
    rw [ht, hown] at hn
    cases hn
    rw [entry_socket, hs] at hs'
    cases hs'
    rw [hr] at he
    cases he

theorem Registered.free (h : Registered r) {token : ℕ} {rest : List ℕ} (stopped : Bool)
    (hf : r.freeing = token :: rest) : Registered
      (({ r with freeing := rest }.remove token).goOn (.waking [] stopped)) := by
  have hnd := h.queued_once
  rw [hf, List.nodup_cons] at hnd
  have hpop : Registered { r with freeing := rest } := by
    refine ⟨h.entry, h.held, fun key hk => h.queued key ?_, hnd.2, h.pending⟩
    rw [hf]
    exact List.mem_cons_of_mem _ hk
  have hnone : ((({ r with freeing := rest }.remove token).goOn
      (.waking [] stopped)).poller).pending = [] := List.suffix_nil.mp (goOn_pending _ _)
  refine hpop.vacate token (by simp) (by simp) (by simp) ?_ hnd.1 ?_ ?_
  · rw [hnone]
    exact List.nil_suffix
  · intro id s hs hh ht
    refine h.held_unqueued hs hh ?_
    rw [ht, hf]
    exact List.mem_cons_self
  · intro ev hev
    rw [hnone] at hev
    cases hev

/-- What a step is to the slab, the queue and the pending events. -/
inductive Changes (r : Registry) : Event → Registry → Prop where
  | evolves {e : Event} {t : Registry} : (∀ batch, e ≠ .poll batch) → e ≠ .free → Evolves r t →
      Changes r e t
  | inserted (call : Call) (key : ℕ) : r.entries key = none →
      Changes r (.registerEntry call key) (r.insert call key)
  | unregistered (id : ℕ) (s : Socket) : r.sockets[id]? = some s → s.stage = .refused →
      Changes r (.unregisterEntry id) ((r.remove s.token).setSocket id { s with stage := .failed })
  | sent (id : ℕ) (s : Socket) : r.sockets[id]? = some s → s.stage = .deregistered →
      Changes r (.send id)
        { r.setSocket id { s with stage := .dropped } with freeing := r.freeing ++ [s.token] }
  | polled (batch : List Readiness) : (∀ ev ∈ batch, r.reports ev = true) →
      Changes r (.poll batch) { r with poller := .polled batch }
  | freed (token : ℕ) (rest : List ℕ) (stopped : Bool) : r.poller = .waking [] stopped →
      r.freeing = token :: rest →
      Changes r .free (({ r with freeing := rest }.remove token).goOn (.waking [] stopped))

theorem Moves.changes (hm : Moves r e t) : Changes r e t := by
  cases hm with
  | failed | refused => exact .evolves nofun nofun (.of_sockets rfl rfl rfl (List.suffix_refl _))
  | inserted call key _ hv => exact .inserted call key hv
  | abandoned id s hs hr => exact .evolves nofun nofun (.set hs (kept_refused hr .abandoned))
  | unregistered id s hs hr => exact .unregistered id s hs hr
  | acted id a s s' hs ha => exact .evolves nofun nofun (.set hs (act_cases ha).1)
  | sent id s hs hd => exact .sent id s hs hd
  | pollError interrupted =>
    refine .evolves nofun nofun (.of_sockets rfl rfl rfl ?_)
    cases interrupted <;> exact List.nil_suffix
  | polled batch _ hb => exact .polled batch hb
  | locked batch hp =>
    refine .evolves nofun nofun (.of_sockets rfl rfl rfl ?_)
    rw [hp]
    exact goOn_pending _ _
  | stopped ev rest stopped hp =>
    refine .evolves nofun nofun (.of_sockets rfl rfl rfl ?_)
    rw [hp]
    exact (goOn_pending _ _).trans (List.suffix_cons ev rest)
  | woke ev rest stopped hp =>
    have hsuf : ((r.wakeEvent ev).goOn (.waking rest stopped)).poller.pending <:+
        r.poller.pending := by
      rw [hp]
      exact (goOn_pending _ _).trans (List.suffix_cons ev rest)
    refine .evolves nofun nofun ?_
    rcases wakeEvent_cases r ev with ⟨_, hw⟩ | ⟨entry, _, hw⟩
    · refine .of_sockets ?_ ?_ ?_ hsuf <;> simp [hw]
    · exact Signals.evolves ⟨hw.entries, hw.freeing, hw.others, hw.socket, hw.sent⟩ hsuf
  | freed token rest stopped hp hf => exact .freed token rest stopped hp hf
  | unlocked stopped =>
    refine .evolves nofun nofun (.of_sockets rfl rfl rfl ?_)
    cases stopped <;> exact List.nil_suffix

theorem Registered.moves (h : Registered r) (hm : Moves r e t) : Registered t := by
  cases hm.changes with
  | evolves _ _ he => exact h.evolves he
  | inserted call key hv => exact h.insert call hv
  | unregistered id s hs hr => exact h.unregister hs hr
  | sent id s hs hd => exact h.send hs hd
  | polled batch hb => exact h.poll hb
  | freed token rest stopped _ hf => exact h.free stopped hf

theorem registered_reachable (h : Reachable system r) : Registered r := by
  have hinit : Registered system.init := ⟨nofun, nofun, nofun, List.nodup_nil, nofun⟩
  exact h.invariant hinit fun s e t hs hst => hs.moves (step_moves hst)

theorem step_later (hm : Moves r e t) {id : ℕ} {s : Socket} (hs : r.sockets[id]? = some s) :
    ∃ s', t.sockets[id]? = some s' ∧ Kept s s' := by
  cases hm.changes with
  | evolves _ _ he => exact he.later id s hs
  | inserted call key => exact ⟨s, insert_old call key hs, .refl s⟩
  | unregistered id' s' hs' hr =>
    obtain ⟨a, ha, hka⟩ := (Evolves.set hs' (kept_refused hr .failed)).later id s hs
    exact ⟨a, by simpa [Registry.setSocket] using ha, hka⟩
  | sent id' s' hs' hd => exact (Evolves.set hs' (kept_dropped hd)).later id s hs
  | polled batch => exact ⟨s, hs, .refl s⟩
  | freed token rest stopped => exact ⟨s, by simpa using hs, .refl s⟩

/-- Only the poller takes an entry that epoll may have reported, after the batch at hand. -/
theorem stands_step {token : ℕ} (h : Registered r) (hm : Moves r e t) (hf : e ≠ .free)
    (hs : r.Stands token) : t.Stands token ∧ t.entries token = r.entries token := by
  obtain ⟨entry, s, hn, hsock, he⟩ := hs
  have hkeep : t.entries token = r.entries token →
      t.Stands token ∧ t.entries token = r.entries token := by
    intro ht
    obtain ⟨s', hs', hk⟩ := step_later hm hsock
    exact ⟨⟨entry, s', ht.trans hn, hs', hk.enrolled he⟩, ht⟩
  cases hm.changes with
  | evolves _ _ hev => exact hkeep (by rw [hev.entries])
  | inserted call key hv =>
    have hne : token ≠ key := by
      rintro rfl
      rw [hv] at hn
      cases hn
    exact hkeep (insert_entries_of_ne r call hne)
  | unregistered id s' hs' hr =>
    have hne : token ≠ s'.token := by
      rintro rfl
      rw [h.held id s' hs' (by rw [hr]; rfl)] at hn
      cases hn
      rw [entry_socket, hs'] at hsock
      cases hsock
      rw [hr] at he
      cases he
    refine hkeep ?_
    change (r.remove s'.token).entries token = _
    rw [remove_entries, Function.update_of_ne hne]
  | sent | polled => exact hkeep rfl
  | freed => exact absurd rfl hf

/-- Between two polls the pending events only get fewer, and each keeps the entry under its token. -/
theorem step_pending (h : Registered r) (hm : Moves r e t) (hp : ∀ batch, e ≠ .poll batch) :
    t.poller.pending <:+ r.poller.pending ∧
      ∀ ev ∈ t.poller.pending, ev.token ≠ WAKER_TOKEN → t.entries ev.token = r.entries ev.token := by
  by_cases hf : e = .free
  · subst hf
    cases hm with
    | freed token rest stopped =>
      have hnone := List.suffix_nil.mp
        (goOn_pending ({ r with freeing := rest }.remove token) (.waking [] stopped))
      rw [hnone]
      exact ⟨List.nil_suffix, nofun⟩
  · have hsuf : t.poller.pending <:+ r.poller.pending := by
      cases hm.changes with
      | evolves _ _ he => exact he.pending
      | unregistered id s => simp [Registry.setSocket]
      | inserted | sent => exact List.suffix_refl _
      | polled batch => exact absurd rfl (hp batch)
      | freed => exact absurd rfl hf
    exact ⟨hsuf, fun ev hev hw => (stands_step h hm hf (h.pending ev (hsuf.subset hev) hw)).2⟩

theorem run_pending {es : List Event} (h : Reachable system r)
    (hr : system.runFrom r es = some t) (hp : ∀ batch, .poll batch ∉ es) :
    t.poller.pending <:+ r.poller.pending ∧
      ∀ ev ∈ t.poller.pending, ev.token ≠ WAKER_TOKEN → t.entries ev.token = r.entries ev.token := by
  induction es using List.reverseRecOn generalizing t with
  | nil =>
    cases hr
    exact ⟨List.suffix_refl _, fun _ _ _ => rfl⟩
  | append_singleton es e ih =>
    obtain ⟨u, hu, hs⟩ := run_snoc hr
    obtain ⟨hsuf, hent⟩ := ih hu fun b hb => hp b (List.mem_append_left _ hb)
    have hreg := registered_reachable (h.run hu)
    obtain ⟨hsuf', hent'⟩ := step_pending hreg (step_moves hs) fun b hb =>
      hp b (by rw [hb]; exact List.mem_append_right _ List.mem_cons_self)
    refine ⟨hsuf'.trans hsuf, fun ev hev hw => ?_⟩
    rw [hent' ev hev hw, hent ev (hsuf'.subset hev) hw]

/-- The entry under the token is that of the socket, which epoll watches for it. -/
def Registry.Watches (r : Registry) (token id : ℕ) : Prop :=
  ∃ entry, ∃ s : Socket, r.entries token = some entry ∧ entry.socket = id ∧
    r.sockets[id]? = some s ∧ s.token = token ∧ s.stage.watched = true

/-- What `wake_events` does with the event from `u` to `v` goes to the socket registered under its
token in `r`, or to nobody. -/
structure Delivered (r u v : Registry) (ev : Readiness) : Prop where
  sends : ∃ new, v.sent = u.sent ++ new ∧ ∀ x ∈ new, r.Watches ev.token x.1
  others : ∀ id, ¬ r.Watches ev.token id → v.sockets[id]? = u.sockets[id]?

theorem watches_polled (h : Registered r) {ev : Readiness} {entry : Entry}
    (hr : r.reports ev = true) (hw : ev.token ≠ WAKER_TOKEN)
    (he : r.entries ev.token = some entry) : r.Watches ev.token entry.socket := by
  obtain ⟨entry', s, hn, hs, ht, hd⟩ := reports_held h hr hw
  rw [he] at hn
  cases hn
  exact ⟨entry, s, he, rfl, hs, ht, hd⟩

theorem polled_delivered {batch : List Readiness} {es : List Event} {v : Registry}
    (h : Reachable system r) (hp : system.step r (.poll batch) = some t)
    (hr : system.runFrom t es = some u) (hn : ∀ batch, .poll batch ∉ es)
    (hs : system.step u .wake = some v) :
    ∃ ev ∈ batch, u.poller.pending.head? = some ev ∧ Delivered r u v ev := by
  have ht : Reachable system t := .step (e := .poll batch) h hp
  obtain ⟨hsuf, hent⟩ := run_pending ht hr hn
  obtain ⟨hb, hbatch, hentries⟩ : (∀ ev ∈ batch, r.reports ev = true) ∧
      t.poller.pending = batch ∧ t.entries = r.entries := by
    cases step_moves hp with
    | polled batch _ hb => exact ⟨hb, rfl, rfl⟩
  rw [hbatch] at hsuf
  rw [hentries] at hent
  cases step_moves hs with
  | stopped ev rest stopped hu hw =>
    rw [hu] at hsuf ⊢
    exact ⟨ev, hsuf.subset List.mem_cons_self, rfl, ⟨[], (List.append_nil _).symm, nofun⟩,
      fun _ _ => rfl⟩
  | woke ev rest stopped hu hw =>
    rw [hu] at hsuf hent ⊢
    have hev : ev ∈ batch := hsuf.subset List.mem_cons_self
    refine ⟨ev, hev, rfl, ?_⟩
    rcases wakeEvent_cases u ev with ⟨_, hwake⟩ | ⟨entry, he, hwake⟩
    · rw [hwake]
      exact ⟨⟨[], (List.append_nil _).symm, nofun⟩, fun _ _ => rfl⟩
    · rw [hent ev List.mem_cons_self hw] at he
      have hwatch := watches_polled (registered_reachable h) (hb ev hev) hw he
      refine ⟨?_, fun id hid => hwake.others id ?_⟩
      · obtain ⟨new, hnew, hx⟩ := hwake.sent
        exact ⟨new, hnew, fun x hm => by rw [hx x hm]; exact hwatch⟩
      · rintro rfl
        exact hid hwatch

/-- A batch has been polled, or it was and the poller has died since. -/
def Registry.Busy (r : Registry) : Prop :=
  r.poller ≠ .polling ∧ ∀ stopped, r.poller ≠ .waking [] stopped

/-- From a batch the poller comes to the end of the batch first. -/
theorem busy_step (h : r.Busy) (hm : Moves r e t) :
    (∀ batch, e ≠ .poll batch) ∧ (t.Busy ∨ ∃ stopped, t.poller = .waking [] stopped) := by
  have hgo : ∀ (t : Registry) rest st, (t.goOn (.waking rest st)).Busy ∨
      ∃ stopped, (t.goOn (.waking rest st)).poller = .waking [] stopped := by
    intro t rest st
    unfold Registry.goOn Registry.Busy
    dsimp only
    split
    · exact .inl ⟨nofun, nofun⟩
    · rcases rest with _ | ⟨ev, rest⟩
      · exact .inr ⟨st, rfl⟩
      · exact .inl ⟨nofun, nofun⟩
  cases hm with
  | failed | refused | inserted | abandoned | acted | sent => exact ⟨nofun, .inl h⟩
  | unregistered id s =>
    have hp : ((r.remove s.token).setSocket id { s with stage := .failed }).poller = r.poller :=
      remove_poller r s.token
    refine ⟨nofun, .inl ?_⟩
    unfold Registry.Busy
    rw [hp]
    exact h
  | pollError interrupted hp => exact absurd hp h.1
  | polled batch hp => exact absurd hp h.1
  | locked batch => exact ⟨nofun, hgo r batch false⟩
  | stopped ev rest => exact ⟨nofun, hgo r rest true⟩
  | woke ev rest stopped => exact ⟨nofun, hgo _ rest stopped⟩
  | freed token rest stopped hp => exact absurd hp (h.2 stopped)
  | unlocked stopped hp => exact absurd hp (h.2 stopped)

/-- `wake_events` has processed all events of the batch at hand after some of the steps `es`. -/
def Processed (r : Registry) (es : List Event) : Prop :=
  ∃ ds, ds <+: es ∧ (∀ batch, .poll batch ∉ ds) ∧ ∃ t stopped,
    system.runFrom r ds = some t ∧ t.poller = .waking [] stopped

/-- What the steps before that keep holds until then. -/
theorem busy_run {P : Registry → Prop}
    (hP : ∀ r e t, Reachable system r → r.Busy → system.step r e = some t → P r → P t)
    {es : List Event} (h : Reachable system r) (hb : r.Busy) (hp : P r)
    (hr : system.runFrom r es = some t) :
    Processed r es ∨ (∀ batch, .poll batch ∉ es) ∧ t.Busy ∧ P t := by
  induction es using List.reverseRecOn generalizing t with
  | nil =>
    cases hr
    exact .inr ⟨fun _ => List.not_mem_nil, hb, hp⟩
  | append_singleton es e ih =>
    obtain ⟨u, hu, hs⟩ := run_snoc hr
    rcases ih hu with ⟨ds, hds, hrest⟩ | ⟨hn, hbu, hpu⟩
    · exact .inl ⟨ds, hds.trans (List.prefix_append es [e]), hrest⟩
    · obtain ⟨hne, hbt⟩ := busy_step hbu (step_moves hs)
      have hn' : ∀ batch, .poll batch ∉ es ++ [e] := by
        intro batch hm
        rcases List.mem_append.mp hm with hm | hm
        · exact hn batch hm
        · exact hne batch (List.mem_singleton.mp hm).symm
      rcases hbt with hbt | ⟨stopped, hbt⟩
      · exact .inr ⟨hn', hbt, hP u e t (h.run hu) hbu hs hpu⟩
      · exact .inl ⟨es ++ [e], List.prefix_refl _, hn', t, stopped, hr, hbt⟩

/-- The step takes the socket out of epoll; its token is still to be sent. -/
def Deregisters (r t : Registry) (token : ℕ) : Prop :=
  ∃ (id : ℕ) (s s' : Socket), r.sockets[id]? = some s ∧ s.token = token ∧
    s.stage.watched = true ∧ t.sockets[id]? = some s' ∧ s'.stage = .deregistered

theorem deregisters_stands (ht : Registered t) (hm : Moves r e t) {token : ℕ}
    (hd : Deregisters r t token) : t.Stands token := by
  obtain ⟨id, s, s', hs, rfl, _, hs', hstage⟩ := hd
  obtain ⟨a, ha, hk⟩ := step_later hm hs
  rw [hs'] at ha
  cases ha
  refine ⟨s'.entry id, s', ?_, by rw [entry_socket]; exact hs', by rw [hstage]; rfl⟩
  rw [← hk.token]
  exact ht.held id s' hs' (by rw [hstage]; rfl)

theorem reused_processed {batch : List Readiness} {es fs : List Event} {v w x : Registry}
    {token : ℕ} {call : Call} (h : Reachable system r) (hp : system.step r (.poll batch) = some t)
    (hr : system.runFrom t es = some u) (hs : system.step u e = some v)
    (hd : Deregisters u v token) (hw : system.runFrom v fs = some w)
    (hx : system.step w (.registerEntry call token) = some x) :
    Processed t (es ++ e :: fs) := by
  have ht : Reachable system t := .step h hp
  have hb : t.Busy := by
    cases step_moves hp
    exact ⟨nofun, nofun⟩
  have hv : system.runFrom t (es ++ [e]) = some v := by
    rw [System.runFrom_append, hr]
    simpa using hs
  rcases busy_run (P := fun _ => True) (fun _ _ _ _ _ _ _ => trivial) ht hb trivial hv with
    ⟨ds, hds, hrest⟩ | ⟨hn, hbv, _⟩
  · exact ⟨ds, hds.trans (by simp), hrest⟩
  · have hrv : Reachable system v := ht.run hv
    have hstands := deregisters_stands (registered_reachable hrv) (step_moves hs) hd
    -- as long as the poller is in the batch, it frees no token
    have hkeep : ∀ r e t, Reachable system r → r.Busy → system.step r e = some t →
        r.Stands token → t.Stands token := by
      intro r e t hr hb hst hp
      refine (stands_step (registered_reachable hr) (step_moves hst) ?_ hp).1
      rintro rfl
      cases step_moves hst with
      | freed _ _ stopped hpoller => exact hb.2 stopped hpoller
    rcases busy_run hkeep hrv hbv hstands hw with
      ⟨ds, hds, hnd, y, stopped, hy, hyp⟩ | ⟨_, _, entry, _, hentry, _⟩
    · refine ⟨es ++ [e] ++ ds, ?_, ?_, y, stopped, ?_, hyp⟩
      · simpa using hds
      · intro b hm
        rcases List.mem_append.mp hm with hm | hm
        · exact hn b hm
        · exact hnd b hm
      · rw [System.runFrom_append, hv]
        exact hy
    · have hvacant : w.entries token = none := by
        by_contra hne
        have hsome := Option.isSome_iff_ne_none.mpr hne
        change step w (.registerEntry call token) = some x at hx
        simp [step, hsome] at hx
      rw [hvacant] at hentry
      cases hentry

/-- Of a batch polled in any reachable state, each event that `wake_events` processes reaches the
socket that was registered under its token then, or nobody; and a token that one of the steps after
the polling deregisters is vacant for another socket only after the batch. -/
theorem events_reach_polled_entries {batch : List Readiness} (h : Reachable system r)
    (hp : system.step r (.poll batch) = some t) :
    (∀ es u v, system.runFrom t es = some u → (∀ batch, .poll batch ∉ es) →
      system.step u .wake = some v →
      ∃ ev ∈ batch, u.poller.pending.head? = some ev ∧ Delivered r u v ev) ∧
    ∀ es e fs u v w x call token, system.runFrom t es = some u → system.step u e = some v →
      Deregisters u v token → system.runFrom v fs = some w →
      system.step w (.registerEntry call token) = some x → Processed t (es ++ e :: fs) := by
  constructor
  · intro es u v hr hn hs
    exact polled_delivered h hp hr hn hs
  · intro es e fs u v w x call token hr hs hd hw hx
    exact reused_processed h hp hr hs hd hw hx

/-- A listener under the key 0 has a connection to accept. -/
def acceptable : List Readiness := [⟨0, true, false, false, false, false⟩]

def listening : Registry :=
  (system.runFrom system.init [.registerEntry .bind 0, .act 0 (.register true)]).get
    (by decide +kernel)

theorem listening_reachable : Reachable system listening :=
  run_reachable _ (Option.some_get _).symm

def batched : Registry := (system.step listening (.poll acceptable)).get (by decide +kernel)

/-- The listener is dropped while the batch is pending. -/
def dropping : List Event := [.act 0 (.drop .whole), .send 0, .lock]

def before : Registry := (system.runFrom batched dropping).get (by decide +kernel)

def after : Registry := (system.step before .wake).get (by decide +kernel)

theorem stale_event_delivered :
    after.sent = [(0, .readable)] ∧ Delivered listening before after ⟨0, true, false, false, false,
      false⟩ ∧ Processed batched (dropping ++ [.wake, .free, .unlock]) := by
  have hp : system.step listening (.poll acceptable) = some batched := (Option.some_get _).symm
  have hb : system.runFrom batched dropping = some before := (Option.some_get _).symm
  have hs : system.step before .wake = some after := (Option.some_get _).symm
  obtain ⟨hdelivered, hreused⟩ := events_reach_polled_entries listening_reachable hp
  refine ⟨by decide +kernel, ?_, ?_⟩
  · obtain ⟨ev, hev, _, hd⟩ := hdelivered dropping before after hb (by simp [dropping]) hs
    cases List.mem_singleton.mp hev
    exact hd
  · refine hreused [] (.act 0 (.drop .whole)) [.send 0, .lock, .wake, .free, .unlock] batched _ _ _
      .connect 0 rfl (Option.some_get (by decide +kernel)).symm ?_
      (Option.some_get (by decide +kernel)).symm (Option.some_get (by decide +kernel)).symm
    exact ⟨0, _, _, rfl, rfl, rfl, rfl, rfl⟩

end Net
