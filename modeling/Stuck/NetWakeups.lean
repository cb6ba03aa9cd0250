import Stuck.NetReadiness

/-! No readiness is lost: each direction of a socket is an edge-triggered line to the call that
waits for it, whatever the other sockets, the poller and the kernel do. -/
namespace Net

open TransitionSystem

variable {n m : Network} {id : ℕ} {s s' : Socket} {d : Direction}

/-- Sockets and calls fit together. -/
structure Engaged (n : Network) : Prop where
  registered : Registered n.registry
  fits : ∀ (id : ℕ) s, n.registry.sockets[id]? = some s → s.Fits
  phase : ∀ id d, n.phase id d ≠ .idle →
    ∃ s, n.registry.sockets[id]? = some s ∧ s.stage.receives d = true

theorem Engaged.receives (h : Engaged n) (hs : n.registry.sockets[id]? = some s)
    (hp : n.phase id d ≠ .idle) : s.stage.receives d = true := by
  obtain ⟨s', hs', hr⟩ := h.phase id d hp
  rw [hs] at hs'
  cases hs'
  exact hr

theorem net_step {e : Event} (h : ioSystem.step n (.net e) = some m) :
    n.permits e = true ∧ ∃ t, Net.step n.registry e = some t ∧
      m = { n.follow e with registry := t } := by
  obtain ⟨hp, hm⟩ := Option.ite_none_right_eq_some.mp h
  obtain ⟨t, ht, rfl⟩ := Option.map_eq_some_iff.mp hm
  exact ⟨hp, t, ht, rfl⟩

/-- The phase of a call after a step of the registry. -/
def Phase.next (phase : Phase) (id : ℕ) (d : Direction) : Event → Phase
  | .act id' a => if id' = id then phase.after d a else phase
  | _ => phase

theorem follow_phase (n : Network) (e : Event) (id : ℕ) (d : Direction) :
    (n.follow e).phase id d = (n.phase id d).next id d e := by
  cases e with
  | act id' a =>
    simp only [Phase.next]
    by_cases hid : id' = id
    · subst hid
      simp only [if_true]
      cases a with
      | register ok => cases ok <;> rfl
      | receive e | poison e =>
        by_cases he : e = d
        · subst he
          simp [Network.follow, Network.setPhase, Phase.after]
        · simp [Network.follow, Network.setPhase, Phase.after, he, Function.update_of_ne (Ne.symm he)]
      | _ => rfl
    · rw [if_neg hid]
      cases a with
      | register ok => cases ok <;> rfl
      | receive e | poison e =>
        simp [Network.follow, Network.setPhase, Function.update_of_ne (Ne.symm hid)]
      | _ => rfl
  | _ => rfl

theorem permits_permitted {a : Action} (h : n.permits (.act id a) = true) (d : Direction) :
    Permitted (n.phase id d) d a := by
  refine ⟨?_, ?_, ?_⟩
  · rintro rfl
    simpa [Network.permits] using h
  · rintro rfl
    simp only [Network.permits, List.all_cons, List.all_nil, Bool.and_true, Bool.and_eq_true,
      beq_iff_eq] at h
    cases d
    · exact h.1
    · exact h.2
  · rintro part rfl hu
    simp only [Network.permits, List.all_cons, List.all_nil, Bool.and_true, Bool.and_eq_true,
      Bool.or_eq_true, Bool.not_eq_true', beq_iff_eq] at h
    cases d
    · exact h.1.resolve_left (by simp [hu])
    · exact h.2.resolve_left (by simp [hu])

/-- A call goes on in its stage. -/
theorem act_receives {a : Action} {phase : Phase} (ha : s.act a = some s')
    (hr : s.stage.receives d = true) (hpm : Permitted phase d a) (hp : phase ≠ .idle) :
    s'.stage.receives d = true := by
  cases a with
  | register | block | interrupted | takeError =>
    obtain ⟨hs, _⟩ := Option.ite_none_right_eq_some.mp ha
    simp_all [Stage.receives]
  | writable =>
    obtain ⟨hs, _⟩ := Option.ite_none_right_eq_some.mp ha
    rcases hs with hs | hs <;> simp_all [Stage.receives]
  | receive e =>
    obtain ⟨_, hm⟩ := Option.ite_none_right_eq_some.mp ha
    obtain ⟨inbox, rfl⟩ := recv_cases hm
    simpa using hr
  | poison e =>
    obtain ⟨_, ⟨⟩⟩ := Option.ite_none_right_eq_some.mp ha
    simpa using hr
  | intoSplit => exact absurd (hpm.split rfl) hp
  | drop part =>
    obtain ⟨stage, hd, rfl⟩ := Option.map_eq_some_iff.mp ha
    have hu : part.uses d ≠ true := fun hu => hp (hpm.drop part rfl hu)
    rcases hs : s.stage <;> rw [hs] at hd hr <;> cases part <;> cases hd <;> cases d <;>
      simp_all [Stage.receives, Part.uses]

theorem woken_fits {ev : Readiness} (h : s.Fits) (hw : Woken s s' ev)
    (hi : s.stage.enrolled = false → s' = s) : s'.Fits := by
  refine ⟨?_, ?_, ?_, ?_⟩
  · rw [hw.token]
    exact h.token
  · rw [hw.call, hw.stage]
    exact h.listens
  · rw [hw.call, hw.stage]
    exact h.connects
  · intro hs
    rw [hw.stage] at hs
    rw [hi (by rw [hs]; rfl)]
    exact h.fresh hs

theorem move_fits {r t : Registry} {e : Event} (h : s.Fits) (hm : SocketMove r e t id s s') :
    s'.Fits := by
  cases hm with
  | same => exact h
  | acted a s' _ ha => exact act_fits h ha
  | woken ev rest stopped s' _ _ _ hw hi => exact woken_fits h hw hi
  | left stage hs hst =>
    have hl : stage.listens = true ∧ stage ≠ .listener ∧ stage ≠ .inserted := by
      rcases hst with rfl | rfl | rfl <;> simp [Stage.listens]
    exact ⟨h.token, fun _ => hl.1, fun _ => hl.2.1, fun hi => absurd hi hl.2.2⟩

theorem move_receives {r t : Registry} {e : Event} {phase : Phase} (hr : s.stage.receives d = true)
    (hm : SocketMove r e t id s s') (hp : phase ≠ .idle)
    (hpm : ∀ a, e = .act id a → Permitted phase d a) : s'.stage.receives d = true := by
  cases hm with
  | same => exact hr
  | acted a s' he ha => exact act_receives ha hr (hpm a he) hp
  | woken ev rest stopped s' _ _ _ hw =>
    rw [hw.stage]
    exact hr
  | left stage hs =>
    rcases hs with hs | hs <;> rw [hs] at hr <;> cases d <;> cases hr

/-- A socket of the registry was there before, or its registration is this step. -/
theorem moves_earlier {r t : Registry} {e : Event} (hstep : Net.step r e = some t)
    (hs : t.sockets[id]? = some s') : (∃ s, r.sockets[id]? = some s) ∨
      (∃ call key, e = .registerEntry call key ∧ key < WAKER_TOKEN ∧ s' = Socket.new call key) := by
  have hold : t.sockets.length = r.sockets.length → ∃ s, r.sockets[id]? = some s := by
    intro hl
    have hlt := (List.getElem?_eq_some_iff.mp hs).1
    rw [hl] at hlt
    exact ⟨_, List.getElem?_eq_getElem hlt⟩
  have hm := step_moves hstep
  cases hm with
  | inserted call key =>
    rcases insert_socket hs with hs | ⟨_, rfl⟩
    · exact .inl ⟨s', hs⟩
    · refine .inr ⟨call, key, rfl, ?_, rfl⟩
      by_contra hk
      simp only [Net.step] at hstep
      rw [if_pos (.inr (.inl (Nat.le_of_not_lt hk)))] at hstep
      cases hstep
  | woke ev rest stopped hp hw =>
    rcases wakeEvent_cases r ev with ⟨_, hwake⟩ | ⟨entry, _, hsig⟩
    · left
      rw [hwake] at hs
      exact ⟨s', hs⟩
    · left
      by_cases hid : id = entry.socket
      · subst hid
        rcases hsig.socket with ⟨ht, _⟩ | ⟨s, _, hr, _⟩
        · rw [goOn_sockets, ht] at hs
          cases hs
        · exact ⟨s, hr⟩
      · rw [goOn_sockets, hsig.others id hid] at hs
        exact ⟨s', hs⟩
  | freed token rest stopped =>
    left
    exact ⟨s', by simpa using hs⟩
  | failed | refused | pollError | polled | locked | stopped | unlocked => exact .inl ⟨s', hs⟩
  | abandoned | acted | sent => exact .inl (hold (List.length_set ..))
  | unregistered id k =>
    refine .inl (hold ?_)
    simp [Registry.setSocket]

theorem follow_source {e : Event} (hpoll : ∀ batch, e ≠ .poll batch)
    (hreg : e ≠ .act id (.register true)) : (n.follow e).source id = n.source id := by
  cases e with
  | poll batch => exact absurd rfl (hpoll batch)
  | act id' a =>
    cases a with
    | register ok =>
      cases ok with
      | false => rfl
      | true =>
        have hid : id ≠ id' := fun hid => hreg (by rw [hid])
        exact Function.update_of_ne hid ..
    | _ => rfl
  | _ => rfl

theorem follow_ready (n : Network) (e : Event) (id : ℕ) (d : Direction) :
    ((n.follow e).source id).ready d = (n.source id).ready d := by
  cases e with
  | poll batch =>
    simp only [Network.follow]
    split
    · cases d <;> rfl
    · rfl
  | act id' a =>
    by_cases hreg : Event.act id' a = .act id (.register true)
    · rw [hreg]
      simp only [Network.follow, Network.setSource, Function.update_self]
      cases d <;> rfl
    · rw [follow_source (by simp) hreg]
  | _ => rfl

theorem engaged_net {e : Event} (h : Engaged n) (hs : ioSystem.step n (.net e) = some m)
    (hd : m.registry.poller.dead = false) : Engaged m := by
  obtain ⟨hp, t, ht, rfl⟩ := net_step hs
  have hm := step_moves ht
  refine ⟨h.registered.moves hm, ?_, ?_⟩
  · intro id s' hs'
    rcases moves_earlier ht hs' with ⟨s, hs⟩ | ⟨call, key, rfl, hk, rfl⟩
    · obtain ⟨s₁, hs₁, hmove⟩ := hm.socket h.registered hd hs
      rw [hs₁] at hs'
      cases hs'
      exact move_fits (h.fits id s hs) hmove
    · refine ⟨hk, fun _ => rfl, fun _ => by simp [Socket.new], fun _ d => ?_⟩
      cases d <;> rfl
  · intro id d hphase
    change (n.follow e).phase id d ≠ .idle at hphase
    rw [follow_phase] at hphase
    have hold : n.phase id d ≠ .idle := by
      intro hidle
      rw [hidle] at hphase
      cases e with
      | act id' a =>
        simp only [Phase.next] at hphase
        by_cases hid : id' = id
        · subst hid
          rw [if_pos rfl] at hphase
          have hpm := permits_permitted hp d
          cases a with
          | receive e =>
            by_cases he : e = d
            · subst he
              have := hpm.receive rfl
              rw [hidle] at this
              cases this
            · simp [Phase.after, he] at hphase
          | poison e => simp [Phase.after] at hphase
          | _ => exact hphase rfl
        · rw [if_neg hid] at hphase
          exact hphase rfl
      | _ => exact hphase rfl
    obtain ⟨s, hs, hr⟩ := h.phase id d hold
    obtain ⟨s', hs', hmove⟩ := hm.socket h.registered hd hs
    refine ⟨s', hs', move_receives hr hmove hold ?_⟩
    rintro a rfl
    exact permits_permitted hp d

theorem setPhase_phase (n : Network) (id id' : ℕ) (d d' : Direction) (phase : Phase) :
    (n.setPhase id d phase).phase id' d' =
      if id' = id ∧ d' = d then phase else n.phase id' d' := by
  unfold Network.setPhase
  by_cases hid : id' = id
  · subst hid
    by_cases hd : d' = d
    · subst hd
      simp
    · simp [hd]
  · simp [hid]

theorem Engaged.setPhase (h : Engaged n) (id : ℕ) (d : Direction) {phase : Phase}
    (hr : ∃ s, n.registry.sockets[id]? = some s ∧ s.stage.receives d = true) :
    Engaged (n.setPhase id d phase) := by
  refine ⟨h.registered, h.fits, fun id' d' hp => ?_⟩
  rw [setPhase_phase] at hp
  by_cases hid : id' = id ∧ d' = d
  · obtain ⟨rfl, rfl⟩ := hid
    exact hr
  · rw [if_neg hid] at hp
    exact h.phase id' d' hp

theorem Engaged.setSource (h : Engaged n) (id : ℕ) (source : Source) :
    Engaged (n.setSource id source) := ⟨h.registered, h.fits, h.phase⟩

/-- What the other steps do. -/
inductive IoMoves (n : Network) : IoEvent → Network → Prop where
  | net (e : Event) (m : Network) : ioSystem.step n (.net e) = some m → IoMoves n (.net e) m
  | arrived (id : ℕ) (d : Direction) (edge : Bool) :
      edge = ((n.source id).edge || n.registry.sockets[id]?.any fun s => s.reached d) →
      IoMoves n (.arrive id d) (n.setSource id { (n.source id).setReady true d with edge := edge })
  | exhausted (id : ℕ) (d : Direction) :
      IoMoves n (.exhaust id d) (n.setSource id ((n.source id).setReady false d))
  | started (id : ℕ) (d : Direction) (s : Socket) : n.registry.sockets[id]? = some s →
      s.stage.receives d = true → n.phase id d = .idle →
      IoMoves n (.start id d) (n.setPhase id d .trying)
  | done (id : ℕ) (d : Direction) (left : Bool) : n.phase id d = .trying →
      (n.source id).ready d = true → IoMoves n (.attempt id d left)
        ((n.setSource id ((n.source id).setReady left d)).setPhase id d .idle)
  | wouldBlock (id : ℕ) (d : Direction) (left : Bool) : n.phase id d = .trying →
      (n.source id).ready d = false → IoMoves n (.attempt id d left) (n.setPhase id d .waiting)
  | quitted (id : ℕ) (d : Direction) : n.phase id d = .waiting →
      IoMoves n (.quit id d) (n.setPhase id d .idle)

theorem io_moves {e : IoEvent} (h : ioSystem.step n e = some m) : IoMoves n e m := by
  cases e with
  | net e => exact .net e m h
  | arrive id d =>
    cases h
    refine .arrived id d _ ?_
    cases d <;> rfl
  | exhaust id d =>
    cases h
    exact .exhausted id d
  | start id d =>
    change n.step (.start id d) = some m at h
    simp only [Network.step] at h
    split at h
    · rename_i s hs
      obtain ⟨⟨hr, hp⟩, ⟨⟩⟩ := Option.ite_none_right_eq_some.mp h
      exact .started id d s hs hr hp
    · cases h
  | attempt id d left =>
    obtain ⟨hp, h⟩ := Option.ite_none_right_eq_some.mp h
    split at h
    · rename_i hr
      cases h
      exact .done id d left hp hr
    · rename_i hr
      cases h
      exact .wouldBlock id d left hp (by simpa using hr)
  | quit id d =>
    obtain ⟨hp, ⟨⟩⟩ := Option.ite_none_right_eq_some.mp h
    exact .quitted id d hp

theorem engaged_step {e : IoEvent} (h : n.registry.poller.dead = false → Engaged n)
    (hs : ioSystem.step n e = some m) (hd : m.registry.poller.dead = false) : Engaged m := by
  cases io_moves hs with
  | net e m hs =>
    obtain ⟨_, t, ht, rfl⟩ := net_step hs
    exact engaged_net (h ((step_moves ht).alive hd)) hs hd
  | arrived id d | exhausted id d => exact (h hd).setSource id _
  | started id d s hk hr => exact (h hd).setPhase id d ⟨s, hk, hr⟩
  | done id d left hp =>
    exact ((h hd).setSource id _).setPhase id d ((h hd).phase id d (by rw [hp]; simp))
  | wouldBlock id d left hp | quitted id d hp =>
    exact (h hd).setPhase id d ((h hd).phase id d (by rw [hp]; simp))

theorem engaged_reachable (h : Reachable ioSystem n) (hd : n.registry.poller.dead = false) :
    Engaged n := by
  have hinit : Engaged ioSystem.init := by
    refine ⟨registered_reachable .init, fun id s hs => ?_, fun id d hp => absurd rfl hp⟩
    cases hs
  exact h.invariant (I := fun n => n.registry.poller.dead = false → Engaged n) (fun _ => hinit)
    (fun s e t hi hs hd => engaged_step hi hs hd) hd

theorem view_alive (hd : n.registry.poller.dead = false) (hs : n.registry.sockets[id]? = some s) :
    n.view id d = s.look (n.source id) (n.phase id d) n.registry.poller.pending d := by
  simp only [Network.view, hd, Bool.false_eq_true, if_false, hs]

theorem view_absent (hd : n.registry.poller.dead = false) (hs : n.registry.sockets[id]? = none) :
    n.view id d = .off ((n.source id).ready d) := by
  simp only [Network.view, hd, Bool.false_eq_true, if_false, hs]

/-- epoll reports the edge of a socket, or not yet. -/
theorem look_poll {batch : List Readiness} (hs : n.registry.sockets[id]? = some s)
    (hp : n.permits (.poll batch) = true) (phase : Phase) :
    Follows (s.look (n.source id) phase [] d)
      (s.look ((n.follow (.poll batch)).source id) phase batch d) := by
  have hready := follow_ready n (.poll batch) id d
  unfold Socket.look
  rw [hready]
  by_cases hpoison : (s.inbox d).poisoned = true
  · simp only [hpoison, if_true]
    exact .inl rfl
  by_cases hr : s.reached d = true
  swap
  · simp only [hpoison, hr, Bool.false_eq_true, if_false]
    exact .inl rfl
  obtain ⟨hw, hh⟩ : s.stage.watched = true ∧ s.hears d = true := by
    simpa [Socket.reached] using hr
  have hreported : n.reported batch id = batch.any fun ev => s.token == ev.token := by
    simp [Network.reported, hs, hw]
  simp only [hpoison, hr, Bool.false_eq_true, if_false, if_true, Network.follow, hreported]
  by_cases hb : (batch.any fun ev => s.token == ev.token) = true
  · rw [if_pos hb]
    refine .inr ⟨.collect (s.transit batch d), ?_⟩
    have hg : ¬ ((n.source id).ready d = true ∧ s.transit batch d = 0) := by
      rintro ⟨hrd, hz⟩
      obtain ⟨ev, hev, ht⟩ := List.any_eq_true.mp hb
      have htell := List.all_eq_true.mp hp ev hev
      have hlt := (List.getElem?_eq_some_iff.mp hs).1
      have hid := List.all_eq_true.mp htell id (List.mem_range.mpr hlt)
      rw [hs] at hid
      have hwake : ev.wakes d = true := by
        have ht' : (s.token == ev.token) = true := ht
        simp only [Option.all_some, hw, ht', Bool.and_self, Bool.not_true, Bool.false_or,
          List.all_eq_true] at hid
        have := hid d (by cases d <;> simp)
        simpa [hh, hrd] using this
      have hcount := List.countP_eq_zero.mp hz ev hev
      exact hcount (by simp only [ht, hwake, Bool.and_self])
    simp only [EdgeTrigger.step]
    rw [if_neg hg]
    simp only [EdgeTrigger.Line.collect, Socket.transit, List.countP_nil, Nat.zero_add]
  · rw [if_neg hb]
    left
    have hz : s.transit batch d = 0 := by
      refine List.countP_eq_zero.mpr fun ev hev h => hb (List.any_eq_true.mpr ⟨ev, hev, ?_⟩)
      simp only [Bool.and_eq_true] at h
      exact h.1
    rw [hz]
    rfl

/-- `try_send` is the delivery of a signal. -/
theorem trySend_eq {inbox inbox' : Inbox} (h : inbox.trySend = some inbox') :
    inbox.poisoned = false ∧ inbox'.poisoned = false ∧
      inbox'.signals = if inbox.signals < 2 then inbox.signals + 1 else inbox.signals := by
  unfold Inbox.trySend at h
  obtain ⟨hp, ⟨⟩⟩ := Option.ite_none_left_eq_some.mp h
  simp only [Bool.not_eq_true] at hp
  exact ⟨hp, hp, rfl⟩

/-- `wake_events` takes the next event of the batch. -/
theorem look_wake {ev : Readiness} {rest : List Readiness} (hw : Woken s s' ev)
    (source : Source) (phase : Phase) :
    Follows (s.look source phase (ev :: rest) d) (s'.look source phase rest d) := by
  have hreach : s'.reached d = s.reached d := by
    simp only [Socket.reached, hw.stage]
    cases d <;> simp [Socket.hears, hw.call]
  have hwaits : s'.waits phase d = s.waits phase d := by simp [Socket.waits, hw.stage]
  have hpoison : (s'.inbox d).poisoned = (s.inbox d).poisoned := by
    rcases hw.inbox d with hi | hi
    · rw [hi]
    · obtain ⟨h1, h2, _⟩ := trySend_eq hi
      rw [h1, h2]
  have htransit : s'.transit rest d = s.transit rest d := by simp only [Socket.transit, hw.token]
  unfold Socket.look
  rw [hreach, hwaits, hpoison, htransit]
  by_cases hp : (s.inbox d).poisoned = true
  · simp only [hp, if_true]
    exact .inl rfl
  by_cases hr : s.reached d = true
  swap
  · simp only [hp, hr, Bool.false_eq_true, if_false]
    exact .inl rfl
  simp only [hp, hr, Bool.false_eq_true, if_false, if_true]
  have hheard := hw.heard d hr
  by_cases hev : s.token = ev.token ∧ ev.wakes d = true
  · rw [if_pos hev] at hheard
    have hcount : s.transit (ev :: rest) d = s.transit rest d + 1 :=
      List.countP_cons_of_pos (by simp [hev.1, hev.2])
    refine .inr ⟨.deliver, ?_⟩
    rw [hcount, (trySend_eq hheard).2.2]
    simp only [EdgeTrigger.step, Nat.succ_pos, if_true, EdgeTrigger.Line.deliver,
      Nat.add_sub_cancel]
  · rw [if_neg hev] at hheard
    have hcount : s.transit (ev :: rest) d = s.transit rest d :=
      List.countP_cons_of_neg (by simpa using hev)
    left
    rw [hcount, Option.some.inj hheard]

/-- No event of an earlier holder of the token is pending when a socket gets it. -/
theorem Engaged.unreported (h : Engaged n) (hs : n.registry.sockets[id]? = some s)
    (hi : s.stage = .inserted) (d : Direction) : s.transit n.registry.poller.pending d = 0 := by
  refine List.countP_eq_zero.mpr fun ev hev hc => ?_
  simp only [Bool.and_eq_true, beq_iff_eq] at hc
  have hw : ev.token ≠ WAKER_TOKEN := by
    have := (h.fits id s hs).token
    omega
  obtain ⟨entry, s', he, hs', hen⟩ := h.registered.pending ev hev hw
  have hown := h.registered.held id s hs (by rw [hi]; rfl)
  rw [hc.1, he] at hown
  cases hown
  rw [entry_socket, hs] at hs'
  cases hs'
  rw [hi] at hen
  cases hen

theorem look_register (h : Engaged n) (hs : n.registry.sockets[id]? = some s)
    (ha : s.act (.register true) = some s') :
    Follows (s.look (n.source id) (n.phase id d) n.registry.poller.pending d)
      (s'.look ((n.follow (.act id (.register true))).source id) (n.phase id d)
        n.registry.poller.pending d) := by
  obtain ⟨hstage, ⟨⟩⟩ := Option.ite_none_right_eq_some.mp ha
  have hsource : (n.follow (.act id (.register true))).source id =
      { n.source id with edge := n.added id } := Function.update_self ..
  rw [hsource]
  refine look_watch (h.fits id s hs) hstage (h.unreported hs hstage d) (by cases d <;> rfl) rfl ?_
  intro hh hr
  have hh' : s.hears d = true := by
    cases d <;> exact hh
  simp only [Network.added, hs, Option.any_some, List.any_eq_true]
  exact ⟨d, by cases d <;> simp, by simp [hh', hr]⟩

/-- A step of the registry is at most one step of each line. -/
theorem view_net {e : Event} (h : Engaged n) (hs : ioSystem.step n (.net e) = some m) :
    Follows (n.view id d) (m.view id d) := by
  by_cases hd : m.registry.poller.dead = true
  · simp only [Network.view, hd, if_true]
    exact follows_halted _
  replace hd : m.registry.poller.dead = false := by simpa using hd
  obtain ⟨hp, t, ht, rfl⟩ := net_step hs
  have hm := step_moves ht
  have hn := hm.alive hd
  rcases hsock : n.registry.sockets[id]? with _ | s
  · rw [view_absent hn hsock]
    left
    rcases hsock' : t.sockets[id]? with _ | s'
    · rw [view_absent hd hsock']
      exact congrArg _ (follow_ready n e id d)
    · rw [view_alive hd hsock']
      rcases moves_earlier ht hsock' with ⟨s, hs⟩ | ⟨call, key, _, _, rfl⟩
      · rw [hsock] at hs
        cases hs
      · have hi : ((Socket.new call key).inbox d).poisoned = false := by cases d <;> rfl
        have hr : (Socket.new call key).reached d = false := rfl
        unfold Socket.look
        rw [hi, hr]
        simp only [Bool.false_eq_true, if_false]
        exact congrArg _ (follow_ready n e id d)
  · obtain ⟨s', hs', hmove⟩ := hm.socket h.registered hd hsock
    rw [view_alive hn hsock, view_alive hd hs']
    change Follows _ (s'.look ((n.follow e).source id) ((n.follow e).phase id d)
      t.poller.pending d)
    rw [follow_phase]
    by_cases hpoll : ∃ batch, e = .poll batch
    · obtain ⟨batch, rfl⟩ := hpoll
      cases hm with
      | polled _ hpolling =>
        rw [hsock] at hs'
        cases hs'
        rw [hpolling]
        exact look_poll hsock hp _
    replace hpoll : ∀ batch, e ≠ .poll batch := fun batch he => hpoll ⟨batch, he⟩
    by_cases hwake : e = .wake
    · subst hwake
      rw [follow_source hpoll (by simp)]
      cases hm with
      | stopped ev rest stopped hpo htok =>
        rw [goOn_sockets, hsock] at hs'
        cases hs'
        rw [hpo, (goOn_alive hd).2]
        refine look_wake (.refl fun d _ htoken => ?_) _ _
        have := (h.fits id s hsock).token
        rw [htoken, htok] at this
        exact absurd this (Nat.lt_irrefl _)
      | woke ev rest stopped hpo htok =>
        obtain ⟨hclean, hpoller⟩ := goOn_alive hd
        obtain ⟨s₁, hs₁, hwoken⟩ := wakeEvent_woken h.registered hsock hclean
        rw [goOn_sockets, hs₁] at hs'
        cases hs'
        rw [hpo, hpoller]
        exact look_wake hwoken _ _
    rw [hm.pending_same hd hpoll hwake]
    cases hmove with
    | same hne =>
      rw [follow_source hpoll (hne _)]
      left
      cases e with
      | act id' a =>
        have hid : id' ≠ id := fun hid => hne a (by rw [hid])
        simp only [Phase.next, hid, if_false]
      | _ => rfl
    | woken _ _ _ _ he => exact absurd he hwake
    | left stage hst hst' hne =>
      rw [follow_source hpoll (hne _)]
      have hphase : (n.phase id d).next id d e = n.phase id d := by
        cases e with
        | act id' a =>
          have hid : id' ≠ id := fun hid => hne a (by rw [hid])
          simp only [Phase.next, hid, if_false]
        | _ => rfl
      rw [hphase]
      refine look_unwatch (by cases d <;> rfl) ?_
      rcases hst' with rfl | rfl | rfl <;> simp [Socket.reached, Stage.watched, Stage.live]
    | acted a s' he ha =>
      subst he
      simp only [Phase.next, if_true]
      by_cases hreg : a = .register true
      · subst hreg
        exact look_register h hsock ha
      · have hne : Event.act id a ≠ .act id (.register true) := by simpa using hreg
        rw [follow_source hpoll hne]
        exact act_look (h.fits id s hsock) (h.receives hsock) (permits_permitted hp d) ha hreg

theorem setReady_other (source : Source) (ready : Bool) {d e : Direction} (h : d ≠ e) :
    (source.setReady ready e).ready d = source.ready d := by
  cases d <;> cases e <;> first | rfl | exact absurd rfl h

@[simp] theorem setReady_self (source : Source) (ready : Bool) (d : Direction) :
    (source.setReady ready d).ready d = ready := by cases d <;> rfl

@[simp] theorem setReady_edge (source : Source) (ready : Bool) (d : Direction) :
    (source.setReady ready d).edge = source.edge := by cases d <;> rfl

variable {source source' : Source} {phase phase' : Phase} {pending : List Readiness}

/-- The line of a socket that is in epoll, with its inbox intact. -/
def Socket.line (s : Socket) (source : Source) (phase : Phase) (pending : List Readiness)
    (d : Direction) : EdgeTrigger.Watch :=
  ⟨source.ready d, s.waits phase d, source.edge, s.transit pending d, (s.inbox d).signals⟩

/-- A step that leaves the socket alone is a step of its line, if it is one of the line in epoll
and the source changes outside epoll as it may. -/
theorem look_moves (s : Socket)
    (hon : s.reached d = true → Follows (.on (s.line source phase pending d))
      (.on (s.line source' phase' pending d)))
    (hoff : Follows (.off (source.ready d)) (.off (source'.ready d))) :
    Follows (s.look source phase pending d) (s.look source' phase' pending d) := by
  unfold Socket.look
  by_cases hp : (s.inbox d).poisoned = true
  · simp only [hp, if_true]
    exact .inl rfl
  · by_cases hr : s.reached d = true
    · simp only [hp, hr, Bool.false_eq_true, if_false, if_true]
      exact hon hr
    · simp only [hp, hr, Bool.false_eq_true, if_false]
      exact hoff

theorem off_follows (ready ready' : Bool) : Follows (.off ready) (.off ready') := by
  cases ready'
  · exact .inr ⟨.exhaust, rfl⟩
  · exact .inr ⟨.arrive, rfl⟩

/-- A step of the kernel or of a call, seen on one line. -/
theorem view_moves (hr : m.registry = n.registry)
    (hon : ∀ s, n.registry.sockets[id]? = some s → s.reached d = true →
      Follows (.on (s.line (n.source id) (n.phase id d) n.registry.poller.pending d))
        (.on (s.line (m.source id) (m.phase id d) n.registry.poller.pending d))) :
    Follows (n.view id d) (m.view id d) := by
  by_cases hd : n.registry.poller.dead = true
  · left
    simp only [Network.view, hr, hd, if_true]
  replace hd : n.registry.poller.dead = false := by simpa using hd
  have hd' : m.registry.poller.dead = false := by rw [hr]; exact hd
  rcases hs : n.registry.sockets[id]? with _ | s
  · rw [view_absent hd hs, view_absent hd' (by rw [hr]; exact hs)]
    exact off_follows _ _
  · rw [view_alive hd hs, view_alive hd' (by rw [hr]; exact hs), hr]
    exact look_moves s (hon s hs) (off_follows _ _)

theorem setSource_source (n : Network) (id id' : ℕ) (source : Source) :
    (n.setSource id source).source id' = if id' = id then source else n.source id' := by
  unfold Network.setSource
  by_cases h : id' = id
  · subst h
    simp
  · simp [h]

theorem view_arrived (n : Network) (id' : ℕ) (d' : Direction) {edge : Bool}
    (he : edge = ((n.source id').edge || n.registry.sockets[id']?.any fun s => s.reached d')) :
    Follows (n.view id d)
      ((n.setSource id' { (n.source id').setReady true d' with edge := edge }).view id d) := by
  refine view_moves rfl fun s hs hreach => ?_
  rw [setSource_source]
  by_cases hid : id = id'
  swap
  · rw [if_neg hid]
    exact .inl rfl
  subst hid
  rw [if_pos rfl]
  simp only [hs, Option.any_some] at he
  by_cases hd : d = d'
  · subst hd
    rw [hreach, Bool.or_true] at he
    subst he
    refine .inr ⟨.arrive, ?_⟩
    cases d <;> rfl
  · have hready : ({ (n.source id).setReady true d' with edge := edge } : Source).ready d =
        (n.source id).ready d := by
      rw [← setReady_other (n.source id) true hd]
      cases d <;> rfl
    by_cases hedge : edge = (n.source id).edge
    · subst hedge
      left
      simp only [Socket.line, hready]
      rfl
    · have htrue : edge = true := by
        rw [he] at hedge ⊢
        cases hold : (n.source id).edge <;> simp_all
      subst htrue
      refine .inr ⟨.spurious, ?_⟩
      simp only [EdgeTrigger.step, Socket.line, hready]
      rfl

theorem view_exhausted (n : Network) (id' : ℕ) (d' : Direction) :
    Follows (n.view id d)
      ((n.setSource id' ((n.source id').setReady false d')).view id d) := by
  refine view_moves rfl fun s hs hreach => ?_
  rw [setSource_source]
  by_cases hid : id = id'
  swap
  · rw [if_neg hid]
    exact .inl rfl
  subst hid
  rw [if_pos rfl]
  by_cases hd : d = d'
  · subst hd
    refine .inr ⟨.exhaust, ?_⟩
    simp only [EdgeTrigger.step, Socket.line, setReady_self, setReady_edge]
    rfl
  · left
    simp only [Socket.line, setReady_other _ _ hd, setReady_edge]
    rfl

/-- What a call does to its own line. -/
theorem view_called (n : Network) (id' : ℕ) (d' : Direction) (phase : Phase)
    (hon : ∀ s, n.registry.sockets[id']? = some s → s.reached d' = true →
      Follows (.on (s.line (n.source id') (n.phase id' d') n.registry.poller.pending d'))
        (.on (s.line (n.source id') phase n.registry.poller.pending d'))) :
    Follows (n.view id d) ((n.setPhase id' d' phase).view id d) := by
  refine view_moves rfl fun s hs hreach => ?_
  rw [setPhase_phase]
  by_cases hid : id = id' ∧ d = d'
  · obtain ⟨rfl, rfl⟩ := hid
    rw [if_pos ⟨rfl, rfl⟩]
    exact hon s hs hreach
  · rw [if_neg hid]
    exact .inl rfl

theorem Engaged.waits (h : Engaged n) (hs : n.registry.sockets[id]? = some s)
    (hp : n.phase id d ≠ .idle) (hw : phase ≠ .waiting) : s.waits phase d = false := by
  obtain ⟨_, h1, h2⟩ := receives_stage (h.receives hs hp)
  simp [Socket.waits, hw, h1, h2]

/-- Each line refines an edge-triggered one, whatever the network does. -/
theorem view_step {e : IoEvent} (h : n.registry.poller.dead = false → Engaged n)
    (hs : ioSystem.step n e = some m) : Follows (n.view id d) (m.view id d) := by
  by_cases hd : m.registry.poller.dead = true
  · simp only [Network.view, hd, if_true]
    exact follows_halted _
  replace hd : m.registry.poller.dead = false := by simpa using hd
  cases io_moves hs with
  | net e m hs =>
    obtain ⟨_, t, ht, rfl⟩ := net_step hs
    exact view_net (h ((step_moves ht).alive hd)) hs
  | arrived id' d' edge he => exact view_arrived n id' d' he
  | exhausted id' d' => exact view_exhausted n id' d'
  | started id' d' s hk hr hp =>
    refine view_called n id' d' .trying fun s hs _ => .inl ?_
    rw [hp]
    simp [Socket.line, Socket.waits]
  | done id' d' left hp hr =>
    refine view_moves rfl fun s hs hreach => ?_
    rw [setPhase_phase]
    change Follows _ (.on (s.line ((n.setSource id' _).source id) _ _ d))
    rw [setSource_source]
    by_cases hid : id = id'
    swap
    · rw [if_neg hid, if_neg (fun hc => hid hc.1)]
      exact .inl rfl
    subst hid
    rw [if_pos rfl]
    by_cases hdd : d = d'
    · subst hdd
      rw [if_pos ⟨rfl, rfl⟩]
      have hw : s.waits .idle d = s.waits (n.phase id d) d := by
        simp [Socket.waits, hp]
      cases left with
      | true =>
        left
        simp only [Socket.line, setReady_self, setReady_edge, hr, hw]
      | false =>
        refine .inr ⟨.exhaust, ?_⟩
        simp only [EdgeTrigger.step, Socket.line, setReady_self, setReady_edge, hw]
    · rw [if_neg (fun hc => hdd hc.2)]
      left
      simp only [Socket.line, setReady_other _ _ hdd, setReady_edge]
      rfl
  | wouldBlock id' d' left hp hr =>
    refine view_called n id' d' .waiting fun s hs _ => .inr ⟨.block, ?_⟩
    have hw := (h hd).waits hs (by rw [hp]; simp) (show n.phase id' d' ≠ .waiting by rw [hp]; simp)
    simp only [EdgeTrigger.step, Socket.line, hw, hr, and_self, if_true]
    simp [Socket.waits]
  | quitted id' d' hp =>
    refine view_called n id' d' .idle fun s hs _ => .inr ⟨.quit, ?_⟩
    have hw := (h hd).waits hs (by rw [hp]; simp) (show Phase.idle ≠ .waiting by simp)
    simp only [EdgeTrigger.step, Socket.line, hw]

/-- A call or a connecting `TcpStream::new` waits in a direction of the socket, whose inbox is
intact. -/
structure Network.Waiting (n : Network) (id : ℕ) (d : Direction) (s : Socket) : Prop where
  socket : n.registry.sockets[id]? = some s
  waits : s.waits (n.phase id d) d = true
  intact : (s.inbox d).poisoned = false

/-- A signal is in the inbox, or an event that brings one is in the batch at hand, or epoll has an
edge of the socket to report. -/
def Network.Notified (n : Network) (id : ℕ) (d : Direction) (s : Socket) : Prop :=
  0 < (s.inbox d).signals ∨
    (∃ ev ∈ n.registry.poller.pending, ev.token = s.token ∧ ev.wakes d = true) ∨
    (n.source id).edge = true

theorem Engaged.waiting_reached (h : Engaged n) (hw : n.Waiting id d s) : s.reached d = true := by
  have hf := h.fits id s hw.socket
  have hwaits := hw.waits
  simp only [Socket.waits, Bool.or_eq_true, Bool.and_eq_true, decide_eq_true_eq] at hwaits
  rcases hwaits with hp | ⟨rfl, hst⟩
  · exact hf.receives_reached (h.receives hw.socket (by rw [hp]; simp))
  · exact hf.connecting_reached hst

theorem view_served (h : Reachable ioSystem n) (id : ℕ) (d : Direction) :
    (n.view id d).Served 2 := by
  obtain ⟨es, hes⟩ := h.exists_run
  have hrun : ∃ fs, (EdgeTrigger.system 2).runFrom (ioSystem.init.view id d) fs =
      some (n.view id d) :=
    run_simulated (N := EdgeTrigger.system 2)
      (I := fun n => n.registry.poller.dead = false → Engaged n)
      (fun _ _ _ hi hs hd => engaged_step hi hs hd) (fun _ _ _ hi hs => view_step hi hs)
      (engaged_reachable .init) hes
  obtain ⟨fs, hfs⟩ := hrun
  refine EdgeTrigger.served_run (by decide) ?_ hfs
  cases d <;> trivial

/-- Whoever waits for an operation that would not block is about to be woken: in every state that
some interleaving of sockets, calls, kernel and poller reaches, as long as the poller thread lives. -/
theorem readiness_not_lost (h : Reachable ioSystem n) (hd : n.registry.poller.dead = false)
    (hw : n.Waiting id d s) (hr : (n.source id).ready d = true) : n.Notified id d s := by
  have hreach := (engaged_reachable h hd).waiting_reached hw
  have hserved := view_served h id d
  rw [view_alive hd hw.socket] at hserved
  simp only [Socket.look, hw.intact, hreach, Bool.false_eq_true, if_false, if_true] at hserved
  rcases hserved.live hw.waits hr with hl | hl | hl
  · exact .inr (.inr hl)
  · obtain ⟨ev, hev, hc⟩ := List.countP_pos_iff.mp hl
    simp only [Bool.and_eq_true, beq_iff_eq] at hc
    exact .inr (.inl ⟨ev, hev, hc.1.symm, hc.2⟩)
  · exact .inl hl

/-- A listener under the key 0 waits in `accept` when a connection arrives. -/
def blockedAccept : List IoEvent :=
  [.net (.registerEntry .bind 0), .net (.act 0 (.register true)), .start 0 .readable,
    .attempt 0 .readable false, .arrive 0 .readable]

def accepting : Network :=
  (ioSystem.runFrom ioSystem.init blockedAccept).get (by decide +kernel)

def acceptor : Socket := ⟨.bind, 0, .listener, ⟨0, false⟩, ⟨0, false⟩⟩

theorem accepting_reachable : Reachable ioSystem accepting :=
  run_reachable blockedAccept (Option.some_get _).symm

theorem accepting_waiting : accepting.Waiting 0 .readable acceptor := ⟨rfl, rfl, rfl⟩

theorem acceptor_notified : accepting.Notified 0 .readable acceptor :=
  readiness_not_lost accepting_reachable rfl accepting_waiting rfl

/-- The steps of the poller thread. -/
def IoEvent.ofPoller : IoEvent → Bool
  | .net (.poll _) | .net .lock | .net .wake | .net .free | .net .unlock => true
  | _ => false

/-- The steps until the poller polls again, at most. -/
def Registry.backlog (r : Registry) : ℕ :=
  match r.poller with
  | .polling | .ended => 0
  | .polled batch => batch.length + r.freeing.length + 2
  | .waking rest _ => rest.length + r.freeing.length + 1

theorem poller_waiting {e : Event} (h : Engaged n) (hw : n.Waiting id d s)
    (hs : ioSystem.step n (.net e) = some m) (he : (IoEvent.net e).ofPoller = true)
    (hd : m.registry.poller.dead = false) : ∃ s', m.Waiting id d s' := by
  obtain ⟨_, t, ht, rfl⟩ := net_step hs
  have hact : ∀ id a, e ≠ .act id a := by
    rintro id a rfl
    cases he
  have hphase : (n.follow e).phase id d = n.phase id d := by
    rw [follow_phase]
    cases e with
    | act id' a => exact absurd rfl (hact id' a)
    | _ => rfl
  obtain ⟨s', hs', hmove⟩ := (step_moves ht).socket h.registered hd hw.socket
  have hkept : s'.stage = s.stage ∧ (s'.inbox d).poisoned = false := by
    cases hmove with
    | same => exact ⟨rfl, hw.intact⟩
    | acted a _ he => exact absurd he (hact id a)
    | left stage hst =>
      have hr := h.waiting_reached hw
      simp only [Socket.reached, Bool.and_eq_true] at hr
      rcases hst with hst | hst <;> rw [hst] at hr <;> cases hr.1
    | woken ev rest stopped s' _ _ _ hwoken =>
      refine ⟨hwoken.stage, ?_⟩
      rcases hwoken.inbox d with hi | hi
      · rw [hi]
        exact hw.intact
      · exact (trySend_eq hi).2.1
  refine ⟨s', hs', ?_, hkept.2⟩
  have := hw.waits
  simpa only [hphase, Socket.waits, hkept.1] using this

theorem poller_ready {e : Event} (hs : ioSystem.step n (.net e) = some m) (id : ℕ) (d : Direction) :
    (m.source id).ready d = (n.source id).ready d := by
  obtain ⟨_, t, _, rfl⟩ := net_step hs
  exact follow_ready n e id d

theorem goOn_backlog (r : Registry) (rest : List Readiness) (stopped : Bool) :
    (r.goOn (.waking rest stopped)).poller.dead = true ∨
      (r.goOn (.waking rest stopped)).backlog = rest.length + r.freeing.length + 1 := by
  unfold Registry.goOn Registry.backlog
  by_cases hr : r.poisoned = true
  · left
    simp only [hr, if_true]
    rfl
  · right
    simp only [hr, Bool.false_eq_true, if_false]

@[simp] theorem wakeEvent_freeing (r : Registry) (ev : Readiness) :
    (r.wakeEvent ev).freeing = r.freeing := by
  rcases wakeEvent_cases r ev with ⟨_, hw⟩ | ⟨_, _, hw⟩
  · rw [hw]
  · exact hw.freeing

/-- In the middle of a batch the poller goes on by itself. -/
theorem Registry.goes_on {r : Registry} (hd : r.poller.dead = false) (hp : r.poller ≠ .polling) :
    ∃ e t, (IoEvent.net e).ofPoller = true ∧ (∀ batch, e ≠ .poll batch) ∧
      Net.step r e = some t ∧ (t.poller.dead = true ∨ t.backlog < r.backlog) := by
  have hnext : ∀ (t : Registry) rest stopped,
      rest.length + t.freeing.length + 1 < r.backlog →
      (t.goOn (.waking rest stopped)).poller.dead = true ∨
        (t.goOn (.waking rest stopped)).backlog < r.backlog := by
    intro t rest stopped hlt
    rcases goOn_backlog t rest stopped with hg | hg
    · exact .inl hg
    · exact .inr (by rw [hg]; exact hlt)
  rcases hpo : r.poller with _ | batch | ⟨_ | ⟨ev, rest⟩, stopped⟩ | _
  · exact absurd hpo hp
  · refine ⟨.lock, r.goOn (.waking batch false), rfl, by simp, by simp only [Net.step, hpo],
      hnext r batch false ?_⟩
    simp only [Registry.backlog, hpo]
    omega
  · rcases hfree : r.freeing with _ | ⟨token, more⟩
    · refine ⟨.unlock, { r with poller := if stopped then .ended else .polling }, rfl, by simp,
        by simp only [Net.step, hpo, hfree], ?_⟩
      cases stopped with
      | true => exact .inl rfl
      | false =>
        right
        simp [Registry.backlog, hpo, hfree]
    · refine ⟨.free, ({ r with freeing := more }.remove token).goOn (.waking [] stopped), rfl,
        by simp, by simp only [Net.step, hpo, hfree], hnext _ [] stopped ?_⟩
      simp [Registry.backlog, hpo, hfree]
  · by_cases hwk : ev.token = WAKER_TOKEN
    · refine ⟨.wake, r.goOn (.waking rest true), rfl, by simp,
        by simp only [Net.step, hpo, hwk, if_true], hnext r rest true ?_⟩
      simp [Registry.backlog, hpo]
    · refine ⟨.wake, (r.wakeEvent ev).goOn (.waking rest stopped), rfl, by simp,
        by simp only [Net.step, hpo, hwk, if_false], hnext _ rest stopped ?_⟩
      simp [Registry.backlog, hpo]
  · rw [hpo] at hd
    cases hd

theorem Registry.backlog_pos {r : Registry} (hd : r.poller.dead = false)
    (hp : r.poller ≠ .polling) : 0 < r.backlog := by
  unfold Registry.backlog
  rcases hpo : r.poller with _ | _ | _ | _
  · exact absurd hpo hp
  · exact Nat.succ_pos _
  · exact Nat.succ_pos _
  · rw [hpo] at hd
    cases hd

/-- The poller comes back to `poll`, or it ends. -/
theorem poller_returns (h : Reachable ioSystem n) (hd : n.registry.poller.dead = false)
    (hw : n.Waiting id d s) : ∃ es m, (∀ e ∈ es, e.ofPoller = true) ∧
      ioSystem.runFrom n es = some m ∧ es.length ≤ n.registry.backlog ∧
      (m.registry.poller.dead = true ∨
        m.registry.poller = .polling ∧ (m.source id).ready d = (n.source id).ready d ∧
          ∃ s', m.Waiting id d s') := by
  induction hb : n.registry.backlog using Nat.strongRecOn generalizing n s with
  | _ b ih =>
    by_cases hp : n.registry.poller = .polling
    · exact ⟨[], n, by simp, rfl, Nat.zero_le _, .inr ⟨hp, rfl, s, hw⟩⟩
    obtain ⟨e, t, he, hpoll, ht, hlt⟩ := Registry.goes_on hd hp
    have hperm : n.permits e = true := by
      cases e with
      | poll batch => exact absurd rfl (hpoll batch)
      | lock | wake | free | unlock => rfl
      | _ => cases he
    have hs : ioSystem.step n (.net e) = some { n.follow e with registry := t } := by
      change n.step (.net e) = _
      simp only [Network.step, hperm, if_true, ht, Option.map_some]
    by_cases hdt : t.poller.dead = true
    · refine ⟨[.net e], _, ?_, (System.runFrom_singleton ..).trans hs, ?_, .inl hdt⟩
      · intro f hf
        rw [List.mem_singleton.mp hf]
        exact he
      · rw [← hb]
        exact Registry.backlog_pos hd hp
    · have hlt := hlt.resolve_left hdt
      obtain ⟨s', hw'⟩ := poller_waiting (engaged_reachable h hd) hw hs he (by simpa using hdt)
      obtain ⟨es, m, hes, hrun, hlen, hend⟩ := ih _ (by rw [← hb]; exact hlt) (.step h hs)
        (by simpa using hdt) hw' rfl
      refine ⟨.net e :: es, m, ?_, run_cons.mpr ⟨_, hs, hrun⟩, ?_, ?_⟩
      · intro f hf
        rcases List.mem_cons.mp hf with rfl | hf
        · exact he
        · exact hes f hf
      · rw [List.length_cons]
        have : t.backlog < n.registry.backlog := hlt
        change es.length ≤ t.backlog at hlen
        omega
      · rcases hend with hend | ⟨hpol, hrd, hwm⟩
        · exact .inl hend
        · exact .inr ⟨hpol, hrd.trans (poller_ready hs id d), hwm⟩

/-- What epoll reports of the socket. -/
def Network.report (n : Network) (id : ℕ) (s : Socket) : Readiness :=
  ⟨s.token, (n.source id).readable, (n.source id).writable, false, false, false⟩

theorem report_wakes (n : Network) (id : ℕ) (s : Socket) (d : Direction) :
    (n.report id s).wakes d = (n.source id).ready d := by
  cases d <;> simp [Network.report, Readiness.wakes, Source.ready]

/-- The token names one socket of those that epoll watches. -/
theorem Engaged.token_unique (h : Engaged n) {id' : ℕ} (hs : n.registry.sockets[id]? = some s)
    (hs' : n.registry.sockets[id']? = some s') (hw : s.stage.watched = true)
    (hw' : s'.stage.watched = true) (ht : s'.token = s.token) : id' = id := by
  have h1 := h.registered.held id s hs (watched_held hw).1
  have h2 := h.registered.held id' s' hs' (watched_held hw').1
  rw [ht, h1] at h2
  have := congrArg Entry.socket (Option.some.inj h2)
  simpa using this.symm

theorem poll_permitted (h : Engaged n) (hw : n.Waiting id d s) :
    n.permits (.poll [n.report id s]) = true ∧ n.registry.reports (n.report id s) = true := by
  have hreach := h.waiting_reached hw
  simp only [Socket.reached, Bool.and_eq_true] at hreach
  constructor
  · simp only [Network.permits, List.all_cons, List.all_nil, Bool.and_true, Network.tells,
      List.all_eq_true]
    intro id' _
    rcases hs' : n.registry.sockets[id']? with _ | s'
    · rfl
    · simp only [Option.all_some, Bool.or_eq_true, Bool.not_eq_true', Bool.and_eq_false_iff]
      by_cases hm : s'.stage.watched = true ∧ s'.token = s.token
      · right
        obtain rfl := h.token_unique hw.socket hs' hreach.1 hm.1 hm.2
        simp only [report_wakes]
        cases (n.source id').ready .readable <;> cases (n.source id').ready .writable <;> simp
      · left
        rcases not_and_or.mp hm with hm | hm
        · exact .inl (by simpa using hm)
        · exact .inr (by simpa [Network.report] using hm)
  · simp only [Registry.reports, Bool.or_eq_true, List.any_eq_true, Bool.and_eq_true, beq_iff_eq]
    exact .inr ⟨s, List.mem_of_getElem? hw.socket, hreach.1, rfl⟩

theorem poller_step {e : Event} {t : Registry} (hp : n.permits e = true)
    (ht : Net.step n.registry e = some t) :
    ioSystem.step n (.net e) = some { n.follow e with registry := t } := by
  change n.step (.net e) = _
  simp only [Network.step, hp, if_true, ht, Option.map_some]

/-- From `poll` the poller brings the signal in three steps. -/
theorem poller_delivers (h : Reachable ioSystem n) (hp : n.registry.poller = .polling)
    (hw : n.Waiting id d s) (hr : (n.source id).ready d = true) :
    ∃ es m, (∀ e ∈ es, e.ofPoller = true) ∧ ioSystem.runFrom n es = some m ∧ es.length ≤ 3 ∧
      (m.registry.poller.dead = true ∨ ∃ s', m.Waiting id d s' ∧ 0 < (s'.inbox d).signals) := by
  have hd : n.registry.poller.dead = false := by rw [hp]; rfl
  have hi := engaged_reachable h hd
  obtain ⟨hperm, hreports⟩ := poll_permitted hi hw
  have hreach := hi.waiting_reached hw
  simp only [Socket.reached, Bool.and_eq_true] at hreach
  -- the event is polled, and the edge is gone
  have h1 : ioSystem.step n (.net (.poll [n.report id s])) =
      some { n.follow (.poll [n.report id s]) with
        registry := { n.registry with poller := .polled [n.report id s] } } := by
    refine poller_step hperm ?_
    simp only [Net.step, hp, List.all_cons, List.all_nil, hreports, Bool.and_self, and_self,
      if_true]
  obtain ⟨s₁, hw₁⟩ := poller_waiting hi hw h1 rfl rfl
  have hedge : ((n.follow (.poll [n.report id s])).source id).edge = false := by
    have : n.reported [n.report id s] id = true := by
      simp [Network.reported, hw.socket, hreach.1, Network.report]
    simp only [Network.follow, this, if_true]
  have hr₁ : ((n.follow (.poll [n.report id s])).source id).ready d = true := by
    rw [follow_ready]
    exact hr
  generalize hn₁ : ({ n.follow (.poll [n.report id s]) with
    registry := { n.registry with poller := .polled [n.report id s] } } : Network) = n₁ at h1 hw₁
  have hp₁ : n₁.registry.poller = .polled [n.report id s] := by rw [← hn₁]
  have hsource₁ : n₁.source id = (n.follow (.poll [n.report id s])).source id := by rw [← hn₁]
  have hreach₁ : Reachable ioSystem n₁ := h.step h1
  -- `wake_events` gets the mutex of the slab
  have h2 : ioSystem.step n₁ (.net .lock) =
      some { n₁ with registry := n₁.registry.goOn (.waking [n.report id s] false) } :=
    poller_step rfl (by simp only [Net.step, hp₁])
  by_cases hd₂ : (n₁.registry.goOn (.waking [n.report id s] false)).poller.dead = true
  · refine ⟨[.net (.poll [n.report id s]), .net .lock], _, ?_, run_cons.mpr ⟨_, h1,
      run_cons.mpr ⟨_, h2, rfl⟩⟩, by simp, .inl hd₂⟩
    simp [IoEvent.ofPoller]
  have hd₂' := (Bool.not_eq_true _).mp hd₂
  obtain ⟨s₂, hw₂⟩ := poller_waiting
    (engaged_reachable hreach₁ (by rw [hp₁]; rfl)) hw₁ h2 rfl hd₂'
  have hp₂ := (goOn_alive hd₂').2
  have htok : s.token ≠ WAKER_TOKEN := by
    have := (hi.fits id s hw.socket).token
    omega
  -- and it sends the signals of the event
  have h3 : ∃ t, ioSystem.step
      { n₁ with registry := n₁.registry.goOn (.waking [n.report id s] false) } (.net .wake) =
        some { n₁ with registry := t } ∧ t.poller.pending = [] := by
    refine ⟨((n₁.registry.goOn (.waking [n.report id s] false)).wakeEvent
      (n.report id s)).goOn (.waking [] false), poller_step rfl ?_, ?_⟩
    · simp only [Net.step, hp₂]
      rw [if_neg (show (n.report id s).token ≠ WAKER_TOKEN from htok)]
    · exact List.suffix_nil.mp (goOn_pending _ _)
  obtain ⟨t, h3, hnone⟩ := h3
  refine ⟨[.net (.poll [n.report id s]), .net .lock, .net .wake], { n₁ with registry := t }, ?_,
    run_cons.mpr ⟨_, h1, run_cons.mpr ⟨_, h2, run_cons.mpr ⟨_, h3, rfl⟩⟩⟩, by simp, ?_⟩
  · simp [IoEvent.ofPoller]
  · by_cases hd₃ : t.poller.dead = true
    · exact .inl hd₃
    have hreach₂ := Reachable.step hreach₁ h2
    have hd₃' := (Bool.not_eq_true _).mp hd₃
    obtain ⟨s₃, hw₃⟩ := poller_waiting (engaged_reachable hreach₂ hd₂') hw₂ h3 rfl hd₃'
    right
    refine ⟨s₃, hw₃, ?_⟩
    rcases readiness_not_lost (.step hreach₂ h3) hd₃' hw₃
      (by rw [← hr₁, ← hsource₁]) with hn | ⟨ev, hev, _⟩ | hn
    · exact hn
    · rw [show ({ n₁ with registry := t } : Network).registry.poller.pending = [] from hnone] at hev
      cases hev
    · rw [show ({ n₁ with registry := t } : Network).source id = n₁.source id from rfl, hsource₁,
        hedge] at hn
      cases hn

/-- A call that waits although its operation would not block gets its signal from the poller alone,
within the batch at hand and the next one, unless the poller thread ends. -/
theorem signal_delivered (h : Reachable ioSystem n) (hd : n.registry.poller.dead = false)
    (hw : n.Waiting id d s) (hr : (n.source id).ready d = true) :
    ∃ es m, (∀ e ∈ es, e.ofPoller = true) ∧ es.length ≤ n.registry.backlog + 3 ∧
      ioSystem.runFrom n es = some m ∧
      (m.registry.poller.dead = true ∨ ∃ s', m.Waiting id d s' ∧ 0 < (s'.inbox d).signals) := by
  obtain ⟨es, m, hes, hrun, hlen, hend⟩ := poller_returns h hd hw
  rcases hend with hend | ⟨hp, hrd, s', hw'⟩
  · exact ⟨es, m, hes, Nat.le_add_right_of_le hlen, hrun, .inl hend⟩
  · obtain ⟨fs, u, hfs, hrun', hlen', hend'⟩ := poller_delivers (h.run hrun) hp hw' (hrd.trans hr)
    refine ⟨es ++ fs, u, ?_, ?_, run_trans hrun hrun', hend'⟩
    · intro e he
      rcases List.mem_append.mp he with he | he
      · exact hes e he
      · exact hfs e he
    · rw [List.length_append]
      omega

theorem acceptor_signalled : ∃ es m, (∀ e ∈ es, e.ofPoller = true) ∧ es.length ≤ 3 ∧
    ioSystem.runFrom accepting es = some m ∧ (m.registry.poller.dead = true ∨
      ∃ s, m.Waiting 0 .readable s ∧ 0 < (s.inbox .readable).signals) :=
  signal_delivered accepting_reachable rfl accepting_waiting rfl

end Net
