import Stuck.NetEvents

/-! The tokens of bind, connect, accept, into_split and the drops: which entries of the slab have an
owner, and what a call that unwinds leaves behind. -/
namespace Net

open TransitionSystem

variable {r t : Registry} {e : Event}

/-- A listener, stream or half holds the token, or a call in progress, or it is queued. -/
def Registry.Owned (r : Registry) (key : ℕ) (entry : Entry) : Prop :=
  ∃ s : Socket, r.sockets[entry.socket]? = some s ∧ s.token = key ∧
    (s.stage.live = true ∨ s.stage.calling = true ∨ s.stage = .dropped ∧ key ∈ r.freeing)

structure Conserved (r : Registry) : Prop where
  owned : ∀ key entry, r.entries key = some entry → r.Owned key entry
  live : ∀ (id : ℕ) (s : Socket), r.sockets[id]? = some s → s.stage.live = true →
    r.entries s.token = some (s.entry id)
  calling : ∀ (id : ℕ) (s : Socket), r.sockets[id]? = some s → s.stage.calling = true →
    r.entries s.token = some (s.entry id)
  queued : ∀ key ∈ r.freeing, ∃ entry, ∃ s : Socket, r.entries key = some entry ∧
    r.sockets[entry.socket]? = some s ∧ s.token = key ∧ s.stage = .dropped
  queued_once : r.freeing.Nodup

/-- The coroutine is interrupted while it waits for writability in `TcpStream::new`, or a failed
registration finds the mutex of the slab poisoned. -/
def leaks (r : Registry) : Event → Prop
  | .act _ .interrupted => True
  | .unregisterEntry _ => r.poisoned = true
  | _ => False

theorem held_iff (stage : Stage) :
    stage.held = true ↔ stage.live = true ∨ stage.calling = true := Bool.or_eq_true_iff ..

theorem conserved_iff (h : Registered r) :
    Conserved r ↔ ∀ key entry, r.entries key = some entry → r.Owned key entry := by
  refine ⟨Conserved.owned, fun ho => ⟨ho, ?_, ?_, ?_, h.queued_once⟩⟩
  · intro id s hs hl
    exact h.held id s hs ((held_iff _).mpr (.inl hl))
  · intro id s hs hc
    exact h.held id s hs ((held_iff _).mpr (.inr hc))
  · intro key hk
    obtain ⟨entry, s, hn, hs, hd⟩ := h.queued key hk
    obtain ⟨s', hs', ht⟩ := h.entry key entry hn
    rw [hs] at hs'
    cases hs'
    exact ⟨entry, s, hn, hs, ht, hd⟩

theorem Registry.Owned.held {key id : ℕ} {s : Socket} {entry : Entry} (hid : entry.socket = id)
    (hs : r.sockets[id]? = some s) (ht : s.token = key) (hh : s.stage.held = true) :
    r.Owned key entry := by
  refine ⟨s, by rw [hid]; exact hs, ht, ?_⟩
  rcases (held_iff _).mp hh with h | h
  · exact .inl h
  · exact .inr (.inl h)

/-- The same owner, where the socket keeps token and stage and the queue the token. -/
theorem Registry.Owned.later {key : ℕ} {entry : Entry} (h : r.Owned key entry)
    (hs : ∀ s, r.sockets[entry.socket]? = some s → ∃ s', t.sockets[entry.socket]? = some s' ∧
      s'.token = s.token ∧ s'.stage = s.stage)
    (hf : key ∈ r.freeing → key ∈ t.freeing) : t.Owned key entry := by
  obtain ⟨s, hsock, ht, hstage⟩ := h
  obtain ⟨s', hs', htok, hst⟩ := hs s hsock
  refine ⟨s', hs', htok.trans ht, ?_⟩
  rw [hst]
  rcases hstage with hl | hc | ⟨hd, hq⟩
  · exact .inl hl
  · exact .inr (.inl hc)
  · exact .inr (.inr ⟨hd, hf hq⟩)

theorem Registry.Owned.same {key : ℕ} {entry : Entry} (h : r.Owned key entry)
    (hs : t.sockets[entry.socket]? = r.sockets[entry.socket]?)
    (hf : key ∈ r.freeing → key ∈ t.freeing) : t.Owned key entry :=
  h.later (fun s hsock => ⟨s, hs.trans hsock, rfl, rfl⟩) hf

theorem Registry.Owned.signals {key id : ℕ} {entry : Entry} (h : r.Owned key entry)
    (hw : Signals r t id) : t.Owned key entry := by
  refine h.later (fun s hs => ?_) fun hq => by rwa [hw.freeing]
  by_cases hid : entry.socket = id
  · rcases hw.socket with ⟨_, hn⟩ | ⟨a, a', ha, ha', hkept, hstage⟩
    · rw [← hid, hs] at hn
      cases hn
    · rw [← hid, hs] at ha
      cases ha
      rw [← hid] at ha'
      exact ⟨a', ha', hkept.token, hstage⟩
  · exact ⟨s, (hw.others _ hid).trans hs, rfl, rfl⟩

theorem owned_moves (h : Registered r) (hm : Moves r e t) (hl : ¬ leaks r e)
    (ho : ∀ key entry, r.entries key = some entry → r.Owned key entry) :
    ∀ key entry, t.entries key = some entry → t.Owned key entry := by
  intro key entry hk
  cases hm with
  | failed | refused | pollError | polled | locked | stopped | unlocked => exact ho key entry hk
  | inserted call key' _ hv =>
    by_cases hkey : key = key'
    · subst hkey
      rw [insert_entries_self] at hk
      cases hk
      exact .held (entry_socket _ _) (s := Socket.new call key) (by simp [Registry.insert]) rfl rfl
    · have hk' := (insert_entries_of_ne r call hkey).symm.trans hk
      exact (ho key entry hk').later (fun s hs => ⟨s, insert_old call key' hs, rfl, rfl⟩) id
  | abandoned id s hs hr hp => exact absurd hp hl
  | unregistered id s hs hr =>
    have hkey : key ≠ s.token := by
      rintro rfl
      change (r.remove s.token).entries _ = _ at hk
      rw [remove_entries, Function.update_self] at hk
      cases hk
    have hk' : r.entries key = some entry := by
      change (r.remove s.token).entries _ = _ at hk
      rwa [remove_entries, Function.update_of_ne hkey] at hk
    have hid : entry.socket ≠ id := by
      rintro rfl
      obtain ⟨s', hs', ht⟩ := h.entry key entry hk'
      rw [hs] at hs'
      cases hs'
      exact hkey ht.symm
    refine (ho key entry hk').same ?_ fun hq => ?_
    · change ((r.remove s.token).sockets.set id _)[entry.socket]? = _
      rw [remove_sockets, List.getElem?_set_ne (Ne.symm hid)]
    · change key ∈ (r.remove s.token).freeing
      rwa [remove_freeing]
  | acted id a s s' hs ha =>
    obtain ⟨hkept, _, ⟨rfl, _⟩ | ⟨_, hh⟩⟩ := act_cases ha
    · exact absurd trivial hl
    · by_cases hid : entry.socket = id
      · obtain ⟨a, has, ht⟩ := h.entry key entry hk
        rw [hid, hs] at has
        cases has
        have hlt : id < r.sockets.length := (List.getElem?_eq_some_iff.mp hs).1
        exact .held hid (List.getElem?_set_self hlt) (hkept.token.trans ht) hh
      · exact (ho key entry hk).same (List.getElem?_set_ne (Ne.symm hid)) fun hq => hq
  | sent id s hs hd =>
    by_cases hid : entry.socket = id
    · obtain ⟨a, has, ht⟩ := h.entry key entry hk
      rw [hid, hs] at has
      cases has
      have hlt : id < r.sockets.length := (List.getElem?_eq_some_iff.mp hs).1
      refine ⟨{ s with stage := .dropped }, ?_, ht, .inr (.inr ⟨rfl, ?_⟩)⟩
      · rw [hid]
        exact List.getElem?_set_self hlt
      · rw [← ht]
        exact List.mem_append_right _ List.mem_cons_self
    · exact (ho key entry hk).same (List.getElem?_set_ne (Ne.symm hid))
        fun hq => List.mem_append_left _ hq
  | woke ev rest stopped =>
    rcases wakeEvent_cases r ev with ⟨_, hw⟩ | ⟨entry', _, hw⟩
    · rw [hw] at hk ⊢
      exact ho key entry hk
    · have hk' : r.entries key = some entry := by
        rw [← hw.entries]
        exact hk
      have howned := (ho key entry hk').signals hw
      exact howned
  | freed token rest stopped _ hf =>
    have hkey : key ≠ token := by
      rintro rfl
      rw [goOn_entries, remove_entries, Function.update_self] at hk
      cases hk
    rw [goOn_entries, remove_entries, Function.update_of_ne hkey] at hk
    refine (ho key entry hk).same (by rw [goOn_sockets, remove_sockets]) fun hq => ?_
    rw [hf] at hq
    rw [goOn_freeing, remove_freeing]
    exact (List.mem_cons.mp hq).resolve_left hkey

/-- A call that unwinds with the token leaves its entry to nobody. -/
theorem leak_unowned (h : Registered r) (hm : Moves r e t) (hl : leaks r e) :
    ∃ key entry, t.entries key = some entry ∧ ¬ t.Owned key entry := by
  have hgone : ∀ {id : ℕ} {s s' : Socket}, r.sockets[id]? = some s → s.stage.held = true →
      s'.stage = .abandoned → ∃ key entry, (r.setSocket id s').entries key = some entry ∧
        ¬ (r.setSocket id s').Owned key entry := by
    intro id s s' hs hh hstage
    refine ⟨s.token, s.entry id, h.held id s hs hh, ?_⟩
    rintro ⟨a, ha, _, hown⟩
    have hlt : id < r.sockets.length := (List.getElem?_eq_some_iff.mp hs).1
    have heq : s' = a := by
      rw [entry_socket] at ha
      exact Option.some.inj ((List.getElem?_set_self hlt).symm.trans ha)
    rw [← heq, hstage] at hown
    rcases hown with hl | hc | ⟨hd, _⟩
    · cases hl
    · cases hc
    · cases hd
  cases hm with
  | abandoned id s hs hr => exact hgone hs (by rw [hr]; rfl) rfl
  | unregistered id s hs hr hp =>
    change r.poisoned = true at hl
    rw [hp] at hl
    cases hl
  | acted id a s s' hs ha =>
    obtain ⟨_, hh, ⟨_, hstage⟩ | ⟨hne, _⟩⟩ := act_cases ha
    · exact hgone hs hh hstage
    · cases a <;> first | exact absurd rfl hne | cases hl
  | _ => cases hl

/-- In every state of a run each entry has its owner, and each owner its entry, if and only if no
call unwinds with a token. -/
theorem tokens_conserved (ρ : Execution system) :
    (∀ r, ρ.Visits r → Conserved r) ↔ ∀ r e, ρ.Takes r e → ¬ leaks r e := by
  refine ρ.exact (fun r h => registered_reachable h) ⟨nofun, nofun, nofun, nofun, List.nodup_nil⟩ ?_
  intro r e t hr hc hs
  have hm := step_moves hs
  rw [conserved_iff (hr.moves hm)]
  constructor
  · intro ho hl
    obtain ⟨key, entry, hk, hn⟩ := leak_unowned hr hm hl
    exact hn (ho key entry hk)
  · intro hl
    exact owned_moves hr hm hl hc.owned

/-- A coroutine is interrupted while its `connect` waits for a host that does not answer. -/
def interruptedConnect : Execution system where
  events := [.registerEntry .connect 0, .act 0 (.register true), .act 0 .block,
    .act 0 .interrupted]
  fires := by decide +kernel

theorem interrupted_connect_leaks :
    interruptedConnect.final.entries 0 = some (.stream 0) ∧
      interruptedConnect.final.freeing = [] ∧ ¬ Conserved interruptedConnect.final := by
  refine ⟨by decide +kernel, by decide +kernel, fun h => ?_⟩
  obtain ⟨s, hs, _, hown⟩ := h.owned 0 (.stream 0) (by decide +kernel)
  have hsock : interruptedConnect.final.sockets[0]? =
      some ⟨.connect, 0, .abandoned, ⟨0, false⟩, ⟨0, false⟩⟩ := by decide +kernel
  cases hsock.symm.trans hs
  simp [Stage.live, Stage.calling] at hown

end Net
