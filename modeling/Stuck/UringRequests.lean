import Stuck.UringInvariant

/-! Each request of the io_uring poller is answered once, and a cancel concerns nobody but its
target. -/
namespace Uring

open TransitionSystem PendingTable

variable {s t : State} {r : Request}

def Event.isCall : Event → Bool
  | .send _ | .cancel _ _ _ => true
  | _ => false

def Control.weight : Control → ℕ
  | .idle => 0
  | .receiving _ => 2
  | .submitted => 1

/-- How many steps of the thread and of the kernel are left, at most. -/
def State.load (s : State) : ℕ :=
  8 * s.channel.length + 4 * s.entries.length + 2 * s.inFlight.length + s.completions.length +
    s.control.weight

/-- What a push leaves alone. -/
structure Beside (s : State) (r : Request) (rest : List Request) (t : State) : Prop where
  channel : t.channel = rest
  received : t.received = s.received ++ [r]
  inFlight : t.inFlight = s.inFlight
  completions : t.completions = s.completions
  submitted : t.submitted = s.submitted
  control : t.control = .receiving submissionCapacity
  entries : t.entries.length ≤ s.entries.length + 1

theorem Pushed.beside {rest : List Request} (h : Pushed (s.taken r rest) r t) :
    Beside s r rest t := by
  cases h with
  | late => exact ⟨rfl, rfl, rfl, rfl, rfl, rfl, Nat.le_succ _⟩
  | @cancelled target q i cancel found bound queued =>
    have hlength := (swapRemove_perm bound).length_eq
    rw [List.length_cons] at hlength
    have hle : (swapRemove s.entries i).length ≤ s.entries.length + 1 := by
      have hsame : (s.taken r rest).entries = s.entries := rfl
      rw [hsame] at hlength
      omega
    exact ⟨rfl, rfl, rfl, rfl, rfl, rfl, hle⟩
  | registered made busy =>
    refine ⟨rfl, rfl, rfl, rfl, rfl, rfl, ?_⟩
    rw [List.length_append, List.length_singleton]
    exact Nat.le_refl _

/-- The thread and the kernel always come closer to the end, but for a wakeup without a
completion, which changes nothing. -/
theorem Inv.eases (h : Inv s) {e : Event} (hm : Moves s e t) (he : e.isCall = false) :
    t.sent = s.sent ∧ (t.load < s.load ∨
      t = s ∧ e = .consume ∧ s.control = .idle ∧ s.completions = []) := by
  by_cases ht : e.takes = true
  · obtain ⟨r, rest, hc, hroom, hp⟩ := h.taking hm ht
    have hb := hp.beside
    have hlength : s.channel.length = rest.length + 1 := by rw [hc, List.length_cons]
    have hentries := hb.entries
    refine ⟨?_, Or.inl ?_⟩
    · rw [State.sent, State.sent, hb.received, hb.channel, hc, List.append_assoc,
        List.singleton_append]
    · simp only [State.load, hb.channel, hb.inFlight, hb.completions, hb.control, Control.weight]
      omega
  cases hm with
  | pooled | sent | ignored | cancelled => cases he
  | received | triedRecv => exact absurd rfl ht
  | @flushed max batch =>
    have hroom := (h.batched.room max batch).2
    have hs := h.batched.submission
    have hflush : s.flush.load < s.load := by
      unfold State.flush
      rw [if_pos (by rw [hs]; exact hroom)]
      simp only [State.load, hs, batch, Control.weight, List.nil_append, List.length_append,
        List.length_nil]
      omega
    refine ⟨?_, Or.inl hflush⟩
    unfold State.flush
    rw [if_pos (by rw [hs]; exact hroom)]
    rfl
  | @completed i entry result flying =>
    have hlt := (List.getElem?_eq_some_iff.mp flying).1
    have hlength := List.length_eraseIdx_of_lt hlt
    refine ⟨rfl, Or.inl ?_⟩
    simp only [State.load, hlength, List.length_append, List.length_singleton]
    omega
  | consumed rests =>
    have hframe := (h.consume rests).2.frame
    have hsent : s.consume.sent = s.sent := by
      rw [hframe]
      rfl
    have hload : s.consume.load = s.load - s.completions.length - s.control.weight := by
      rw [hframe]
      simp only [State.load, List.length_nil, Control.weight]
      omega
    refine ⟨hsent, ?_⟩
    by_cases hidle : s.control = .idle ∧ s.completions = []
    · right
      refine ⟨?_, rfl, hidle⟩
      unfold State.consume
      rw [hidle.2, List.foldl_nil, ← hidle.1, ← hidle.2]
    · left
      have hpos : 0 < s.completions.length + s.control.weight := by
        cases hc : s.control with
        | idle =>
          have hne : s.completions ≠ [] := fun h0 => hidle ⟨hc, h0⟩
          have := List.length_pos_iff.mpr hne
          omega
        | receiving max => exact absurd hc (rests max)
        | submitted => simp [Control.weight]
      have hle : s.completions.length + s.control.weight ≤ s.load := by
        unfold State.load
        omega
      omega

theorem Inv.answered_of_empty (h : Inv s) (hp : s.places = []) :
    ∀ q ∈ s.received, q.result.id ∈ s.wokenIds := by
  intro q hq
  refine (h.ledger.answered q hq).resolve_right fun hl => ?_
  have hm := AList.mem_lookup_iff.mp hl
  rw [h.inStep.empty_iff.mpr hp] at hm
  cases hm

/-- Nothing is left to do only when everybody has an answer. -/
theorem Inv.progress (h : Inv s) : (∀ q ∈ s.sent, q.result.id ∈ s.wokenIds) ∨
    ∃ e t, e.isCall = false ∧ system.step s e = some t ∧ t.load < s.load := by
  have hnext : ∀ {e : Event} {t : State}, e.isCall = false → system.step s e = some t →
      ¬ (e = .consume ∧ s.control = .idle ∧ s.completions = []) →
        ∃ e t, e.isCall = false ∧ system.step s e = some t ∧ t.load < s.load := by
    intro e t he hs hn
    exact ⟨e, t, he, hs, (h.eases (step_moves hs) he).2.resolve_right fun hsame => hn hsame.2⟩
  cases hc : s.control with
  | receiving max =>
    right
    have hs : system.step s .flush = some s.flush := by
      simp only [system, State.step, hc]
    exact hnext rfl hs (by simp)
  | submitted =>
    right
    have hs : system.step s .consume = some s.consume := by
      simp only [system, State.step, hc]
    exact hnext rfl hs (by simp [hc])
  | idle =>
    cases hch : s.channel with
    | cons r rest =>
      right
      exact hnext (e := .receive) rfl (by simp only [system, State.step, hc, hch]; rfl) (by simp)
    | nil =>
      cases hfl : s.inFlight with
      | cons entry others =>
        right
        exact hnext (e := .complete 0 0) rfl (by simp only [system, State.step, hfl]; rfl) (by simp)
      | nil =>
        by_cases hco : s.completions = []
        · left
          have hentries : s.entries = [] := by
            refine h.batched.flushed fun max hm => ?_
            rw [hc] at hm
            cases hm
          have hplaces : s.places = [] := by
            simp [State.places, hentries, h.batched.submission, hfl, hco]
          intro q hq
          rw [State.sent, hch, List.append_nil] at hq
          exact h.answered_of_empty hplaces q hq
        · right
          have hs : system.step s .consume = some s.consume := by
            simp only [system, State.step, hc]
          exact hnext rfl hs (by simp [hco])

/-- When the callers rest, the thread and the kernel bring every request to its answer. -/
theorem Inv.drains (h : Inv s) : ∃ es u, (∀ e ∈ es, e.isCall = false) ∧
    system.runFrom s es = some u ∧ u.sent = s.sent ∧
      ∀ q ∈ s.sent, u.wokenIds.count q.result.id = 1 := by
  induction hn : s.load using Nat.strong_induction_on generalizing s with
  | _ n ih =>
    rcases h.progress with hdone | ⟨e, t, he, hs, hlt⟩
    · refine ⟨[], s, by simp, rfl, rfl, fun q hq => ?_⟩
      exact List.count_eq_one_of_mem h.ledger.once (hdone q hq)
    · have hm := step_moves hs
      obtain ⟨es, u, hes, hrun, hsent, hall⟩ := ih t.load (hn ▸ hlt) (h.step hm) rfl
      have hsame := (h.eases hm he).1
      rw [hsame] at hsent hall
      refine ⟨e :: es, u, ?_, ?_, hsent, hall⟩
      · intro f hf
        rcases List.mem_cons.mp hf with rfl | hf
        · exact he
        · exact hes f hf
      · exact run_cons.mpr ⟨t, hs, hrun⟩

/-- The session has its answer, and the kernel has never seen its entry. -/
structure Withdrawn (s : State) (id : ℕ) : Prop where
  answered : id ∈ s.wokenIds
  unseen : ∀ e ∈ s.submitted, e.session ≠ id

theorem Inv.entry_unwoken (h : Inv s) {e : Entry} (he : e ∈ s.places) :
    e.session ∉ s.wokenIds := by
  obtain ⟨q, hl, hq⟩ := h.inStep.lookup he
  rw [(uringEntry_eq_some hq).2]
  exact (h.ledger.kept _ q hl).2.2

theorem wokenIds_mono {waker : Session} {answer : Answer} {id : ℕ} (h : id ∈ s.wokenIds) :
    id ∈ (s.wake waker answer).wokenIds := by
  simp only [State.wokenIds, State.wake, map_fst_concat]
  exact List.mem_append_left _ h

theorem Withdrawn.step {id : ℕ} (hw : Withdrawn s id) (h : Inv s) {e : Event}
    (hm : Moves s e t) : Withdrawn t id := by
  by_cases ht : e.takes = true
  · obtain ⟨r, rest, hc, hroom, hp⟩ := h.taking hm ht
    refine ⟨?_, hp.beside.submitted ▸ hw.unseen⟩
    have hid : id ∈ (s.taken r rest).wokenIds := hw.answered
    cases hp with
    | late => exact wokenIds_mono hid
    | cancelled =>
      simp only [State.wokenIds, map_fst_concat]
      exact List.mem_append_left _ (List.mem_append_left _ hw.answered)
    | registered => exact hid
  cases hm with
  | pooled | sent | ignored | cancelled => exact ⟨hw.answered, hw.unseen⟩
  | received | triedRecv => exact absurd rfl ht
  | completed => exact ⟨hw.answered, hw.unseen⟩
  | @flushed max batch =>
    have hs := h.batched.submission
    unfold State.flush
    rw [if_pos (by rw [hs]; exact (h.batched.room max batch).2)]
    refine ⟨hw.answered, fun e he => ?_⟩
    rcases List.mem_append.mp he with he | he
    · exact hw.unseen e he
    · rw [hs, List.nil_append] at he
      rintro rfl
      exact h.entry_unwoken (by simp [State.places, he]) hw.answered
  | consumed rests =>
    have hcollected := (h.consume rests).2
    constructor
    · rw [State.wokenIds, hcollected.woken, List.map_append]
      exact List.mem_append_left _ hw.answered
    · rw [hcollected.frame]
      exact hw.unseen

theorem Withdrawn.run {id : ℕ} (hw : Withdrawn s id) (h : Inv s) {es : List Event}
    (hr : system.runFrom s es = some t) : Withdrawn t id := by
  have hkept : ∀ s e t, Withdrawn s id ∧ Inv s → system.step s e = some t →
      Withdrawn t id ∧ Inv t := by
    intro s e t hi hs
    exact ⟨hi.1.step hi.2 (step_moves hs), hi.2.step (step_moves hs)⟩
  exact (run_invariant hkept ⟨hw, h⟩ hr).1

theorem Inv.received_eq (h : Inv s) {p q : Request} (hp : p ∈ s.received) (hq : q ∈ s.received)
    (he : p.result.id = q.result.id) : p = q := by
  have hids := h.called.ids
  rw [State.sent, List.map_append] at hids
  exact List.inj_on_of_nodup_map hids.of_append_left hp hq he

/-- The request of an entry, found under the address that the entry carries. -/
theorem Inv.request_of_entry (h : Inv s) {f : Entry} (hf : f ∈ s.places) :
    ∃ p ∈ s.received, s.requests.lookup f.userData = some p ∧ p.result.id = f.session ∧
      p.result.userData = f.userData := by
  obtain ⟨p, hl, hp⟩ := h.inStep.lookup hf
  obtain ⟨hk, hm, _⟩ := h.ledger.kept _ p hl
  exact ⟨p, hm, hl, (uringEntry_eq_some hp).2.symm, hk⟩

/-- The entry of the target is found under the target's address. -/
theorem Inv.entry_of_target (h : Inv s) (hr : Head s r) {target : Session}
    (ht : r.operation = .cancel target) {f : Entry} (hf : f ∈ s.places)
    (hs : f.session = target.id) :
    f.userData = target.userData ∧
      ∃ p, s.requests.lookup target.userData = some p ∧ p.result = target := by
  obtain ⟨p, hp, hl, hid, hk⟩ := h.request_of_entry hf
  obtain ⟨q, hq, hqt⟩ := hr.follows target (target?_eq_some.mpr ht)
  have hsame : p = q := h.received_eq hp hq (by rw [hid, hs, hqt])
  have hresult : p.result = target := by rw [hsame, hqt]
  have hkey : f.userData = target.userData := by rw [← hk, hresult]
  exact ⟨hkey, p, hkey ▸ hl, hresult⟩

/-- What the push of a cancel does to its target and to everybody else. -/
structure Cancelling (s t : State) (target : Session) : Prop where
  unsubmitted : ∀ f ∈ s.entries, f.session = target.id →
    (target.id, .error ecanceled) ∈ t.woken ∧ Withdrawn t target.id
  answers : ∀ q ∈ s.received, q.result ≠ target → ∀ answer,
    (q.result.id, answer) ∈ t.woken ↔ (q.result.id, answer) ∈ s.woken
  entries : ∀ q ∈ s.received, q.result ≠ target → ∀ f : Entry, f.session = q.result.id →
    (f ∈ t.entries ↔ f ∈ s.entries)
  requests : ∀ q ∈ s.received, q.result ≠ target →
    (t.requests.lookup q.result.userData = some q ↔
      s.requests.lookup q.result.userData = some q)

theorem mem_places_of_entries {f : Entry} (hf : f ∈ s.entries) : f ∈ s.places := by
  simp [State.places, hf]

theorem Inv.cancelling_late (h : Inv s) {rest : List Request} (hr : Head s r) {target : Session}
    (ht : r.operation = .cancel target) (gone : s.requests.lookup target.userData = none)
    (answer : Answer) : Cancelling s ((s.taken r rest).wake r.result answer) target where
  unsubmitted f hf hs := by
    obtain ⟨_, p, hl, _⟩ := h.entry_of_target hr ht (mem_places_of_entries hf) hs
    rw [gone] at hl
    cases hl
  answers q hq _ a := by
    have hne := hr.newId q hq
    simp [State.wake, State.taken, hne]
  entries q hq _ f hf := Iff.rfl
  requests q hq _ := Iff.rfl

theorem Inv.cancelling_queued (h : Inv s) {rest : List Request} (hr : Head s r)
    {target : Session} (ht : r.operation = .cancel target) {p : Request} {i : ℕ}
    (found : s.requests.lookup target.userData = some p) (bound : i < s.entries.length)
    (queued : s.entries[i].userData = target.userData) :
    Cancelling s { s.taken r rest with
      woken := s.woken ++ [(r.result.id, .ok 0)] ++ [(p.result.id, .error ecanceled)],
      entries := swapRemove s.entries i, requests := s.requests.erase target.userData } target := by
  obtain ⟨hk, hp, _⟩ := h.ledger.kept _ p found
  have hresult : p.result = target := h.aimed hr.outstanding ht found rfl
  have hother : ∀ q ∈ s.received, q.result ≠ target → q.result.id ≠ p.result.id := by
    intro q hq hne he
    exact hne (h.received_eq hq hp he ▸ hresult)
  have hplace := mem_places_of_entries (List.getElem_mem bound)
  have hremoved : s.entries[i].session = p.result.id := by
    obtain ⟨m, _, hl, hid, _⟩ := h.request_of_entry hplace
    rw [queued, found] at hl
    cases hl
    exact hid.symm
  constructor
  · intro f hf hs
    have hanswer : (target.id, .error ecanceled) ∈
        s.woken ++ [(r.result.id, .ok 0)] ++ [(p.result.id, .error ecanceled)] := by
      simp [hresult]
    refine ⟨hanswer, List.mem_map_of_mem hanswer, fun g hg he => ?_⟩
    exact (h.given g hg).2 f hf (hs.trans he.symm)
  · intro q hq hne a
    have hnew := hr.newId q hq
    have hold := hother q hq hne
    simp [hnew, hold]
  · intro q hq hne f hf
    have hdiff : f ≠ s.entries[i] := by
      rintro rfl
      exact hother q hq hne (hf.symm.trans hremoved)
    rw [(swapRemove_perm bound).mem_iff, List.mem_cons]
    exact ⟨Or.inr, fun hm => hm.resolve_left hdiff⟩
  · intro q hq hne
    by_cases hkey : q.result.userData = target.userData
    · rw [hkey, AList.lookup_erase, found]
      refine ⟨nofun, fun hs => ?_⟩
      cases hs
      exact absurd hresult hne
    · rw [AList.lookup_erase_ne hkey]

theorem Inv.cancelling_registered (h : Inv s) {rest : List Request} (hr : Head s r)
    {target : Session} (ht : r.operation = .cancel target) {entry : Entry}
    (made : r.uringEntry = some entry)
    (busy : ∀ e ∈ s.entries, e.userData ≠ target.userData) :
    Cancelling s { s.taken r rest with
      requests := s.requests.insert r.result.userData r,
      entries := s.entries ++ [entry] } target where
  unsubmitted f hf hs :=
    absurd (h.entry_of_target hr ht (mem_places_of_entries hf) hs).1 (busy f hf)
  answers q hq _ a := Iff.rfl
  entries q hq _ f hf := by
    have hne : f ≠ entry := by
      rintro rfl
      exact hr.newId q hq (hf.symm.trans (uringEntry_eq_some made).2)
    simp [hne]
  requests q hq _ := by
    by_cases hkey : q.result.userData = r.result.userData
    · rw [hkey, AList.lookup_insert, hr.freshAddress]
      refine ⟨fun he => ?_, nofun⟩
      cases he
      exact absurd rfl (hr.newId r hq)
    · rw [AList.lookup_insert_ne hkey]

theorem Inv.cancelling (h : Inv s) {rest : List Request} (hc : s.channel = r :: rest)
    {target : Session} (ht : r.operation = .cancel target) (hp : Pushed (s.taken r rest) r t) :
    Cancelling s t target := by
  have hr := h.head hc
  cases hp with
  | late cancel gone =>
    obtain rfl := Operation.cancel.inj (cancel.symm.trans ht)
    exact h.cancelling_late hr ht gone _
  | cancelled cancel found bound queued =>
    obtain rfl := Operation.cancel.inj (cancel.symm.trans ht)
    exact h.cancelling_queued hr ht found bound queued
  | registered made busy => exact h.cancelling_registered hr ht made (busy target ht)

/-- What holds of the requests in every state. -/
structure Accounted (s : State) : Prop where
  sound : s.crash = none
  once : s.wokenIds.Nodup
  pending : ∀ q ∈ s.sent, q.result.id ∈ s.wokenIds ∨ q ∈ s.channel ∨
    ∃ e ∈ s.places, q.uringEntry = some e
  empty : s.isEmpty = true ↔ ∀ q ∈ s.received, q.result.id ∈ s.wokenIds
  aimed : ∀ c ∈ s.received, ∀ e ∈ s.places, c.uringEntry = some e →
    ∀ target, c.operation = .cancel target → ∀ f ∈ s.places, f.userData = target.userData →
      f.session = target.id

theorem Inv.isEmpty_iff (h : Inv s) :
    s.isEmpty = true ↔ ∀ q ∈ s.received, q.result.id ∈ s.wokenIds := by
  rw [State.isEmpty, List.isEmpty_iff]
  constructor
  · intro he
    exact h.answered_of_empty (h.inStep.empty_iff.mp he)
  · intro hall
    refine List.eq_nil_iff_forall_not_mem.mpr fun ⟨k, q⟩ hm => ?_
    obtain ⟨_, hq, hn⟩ := h.ledger.kept k q (AList.mem_lookup_iff.mpr hm)
    exact hn (hall q hq)

theorem Inv.accounted (h : Inv s) : Accounted s where
  sound := h.sound
  once := h.ledger.once
  pending q hq := by
    rcases List.mem_append.mp hq with hq | hq
    · refine (h.ledger.answered q hq).imp_right fun hl => Or.inr ?_
      obtain ⟨e, he, hentry, _⟩ := h.inStep.place hl
      exact ⟨e, he, hentry⟩
    · exact Or.inr (Or.inl hq)
  empty := h.isEmpty_iff
  aimed c hc e he hentry target ht f hf hk := by
    obtain ⟨p, hp, hl, hid, _⟩ := h.request_of_entry he
    have hsame : p = c := h.received_eq hp hc (hid.trans (uringEntry_eq_some hentry).2)
    have hout : c ∈ s.outstanding := hsame ▸ h.kept_outstanding hl
    obtain ⟨q, _, hlq, hidq, _⟩ := h.request_of_entry hf
    rw [← hidq, h.aimed hout ht hlq hk]

/-- In every reachable state each request has been answered once or has its place on the way to
its answer. Every order of the steps that the thread and the kernel take comes to an end, and all
are answered then. What `consume` finds completed it answers to the session whose entry it is, and
the push of a cancel leaves everybody but its target alone. -/
theorem uring_exactly_once (h : Reachable system s) :
    Accounted s ∧
    (∀ e t, system.step s e = some t → e.isCall = false →
      t.sent = s.sent ∧ (t.load < s.load ∨ t = s)) ∧
    (∃ es u, (∀ e ∈ es, e.isCall = false) ∧ system.runFrom s es = some u ∧ u.sent = s.sent ∧
      ∀ q ∈ s.sent, u.wokenIds.count q.result.id = 1) ∧
    (∀ t, system.step s .consume = some t →
      t.woken = s.woken ++ s.completions.map fun c => (c.entry.session, c.answer)) ∧
    ∀ e t c rest target, system.step s e = some t → e.takes = true → s.channel = c :: rest →
      c.operation = .cancel target → Cancelling s t target ∧
        ((∃ f ∈ s.entries, f.session = target.id) → ∀ es u, system.runFrom t es = some u →
          ∀ f ∈ u.submitted, f.session ≠ target.id) := by
  have hi := reachable_inv h
  refine ⟨hi.accounted, ?_, hi.drains, ?_, ?_⟩
  · intro e t hs he
    obtain ⟨hsent, hload⟩ := hi.eases (step_moves hs) he
    exact ⟨hsent, hload.imp_right And.left⟩
  · intro t hs
    cases step_moves hs with
    | consumed rests => exact (hi.consume rests).2.woken
  · intro e t c rest target hs ht hc hcancel
    obtain ⟨r, rest', hc', _, hp⟩ := hi.taking (step_moves hs) ht
    rw [hc] at hc'
    cases hc'
    have hcancelling := hi.cancelling hc hcancel hp
    refine ⟨hcancelling, ?_⟩
    rintro ⟨f, hf, hid⟩ es u hr
    exact ((hcancelling.unsubmitted f hf hid).2.run (hi.step (step_moves hs)) hr).unseen

/-- A read is in flight when its cancel is pushed, and a write is in the same batch; the cancel of
the write is at the head of the channel, and its address is one that an answered session had. -/
def cancelRun : Execution system where
  events := [.send ⟨⟨1, 0⟩, .fsync 3 true⟩, .receive, .flush, .complete 0 0, .consume,
    .send ⟨⟨2, 1⟩, .read 3 64 16 0⟩, .receive, .flush, .consume,
    .cancel .read ⟨2, 1⟩ ⟨3, 2⟩, .send ⟨⟨4, 3⟩, .write 3 64 16 (-1)⟩, .receive, .tryRecv,
    .cancel .write ⟨4, 3⟩ ⟨1, 4⟩]
  fires := by decide +kernel

theorem cancelled_in_batch : Accounted cancelRun.final ∧
    ∃ t, system.step cancelRun.final .tryRecv = some t ∧ (3, .error ecanceled) ∈ t.woken ∧
      ∀ es u, system.runFrom t es = some u → ∀ f ∈ u.submitted, f.session ≠ 3 := by
  obtain ⟨hall, _, _, _, hcancel⟩ := uring_exactly_once cancelRun.final_reachable
  have hstep : (system.step cancelRun.final .tryRecv).isSome := by decide +kernel
  obtain ⟨t, ht⟩ := Option.isSome_iff_exists.mp hstep
  have hchannel : cancelRun.final.channel = [⟨⟨1, 4⟩, .cancel ⟨4, 3⟩⟩] := by decide +kernel
  have hqueued : ∃ f ∈ cancelRun.final.entries, f.session = 3 := by decide +kernel
  obtain ⟨hc, hnever⟩ := hcancel .tryRecv t _ [] ⟨4, 3⟩ ht rfl hchannel rfl
  obtain ⟨f, hf, hid⟩ := hqueued
  exact ⟨hall, t, ht, (hc.unsubmitted f hf hid).1, hnever ⟨f, hf, hid⟩⟩

end Uring
