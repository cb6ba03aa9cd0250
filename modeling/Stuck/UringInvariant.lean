import Stuck.UringLedger

/-! The invariant of the io_uring poller and its steps. -/
namespace Uring

open TransitionSystem PendingTable

variable {s t : State} {r : Request}

/-- Where the entries of the requests in the table are. -/
def State.places (s : State) : List Entry :=
  s.entries ++ s.submission ++ s.inFlight ++ s.completions.map Completion.entry

/-- The callers have kept to their part. -/
structure Called (s : State) : Prop where
  ids : (s.sent.map fun q => q.result.id).Nodup
  distinct : ∀ p ∈ s.outstanding, ∀ q ∈ s.outstanding,
    p.result.userData = q.result.userData → p = q
  aims : ∀ c ∈ s.outstanding, ∀ target ∈ c.operation.target?, ∀ q ∈ s.outstanding,
    q.result.userData = target.userData → q.result = target
  follows : ∀ front c back, s.channel = front ++ c :: back → ∀ target ∈ c.operation.target?,
    ∃ q ∈ s.received ++ front, q.result = target
  carried : ∀ q ∈ s.channel, q.operation.opCode ≠ .truncate

/-- The thread never holds more than fits into the ring, and nothing between two batches. -/
structure Batched (s : State) : Prop where
  submission : s.submission = []
  room : ∀ max, s.control = .receiving max →
    max = submissionCapacity ∧ s.entries.length ≤ submissionCapacity
  flushed : (∀ max, s.control ≠ .receiving max) → s.entries = []

structure Inv (s : State) : Prop where
  called : Called s
  ledger : Ledger s.received s.woken s.requests
  inStep : InStep Entry.userData Request.uringEntry s.places s.requests
  batched : Batched s
  given : ∀ e ∈ s.submitted,
    (∃ q ∈ s.received, q.result.id = e.session) ∧ ∀ f ∈ s.entries, f.session ≠ e.session
  flying : ∀ e ∈ s.inFlight, e ∈ s.submitted
  sound : s.crash = none

theorem mem_outstanding {q : Request} :
    q ∈ s.outstanding ↔ q ∈ s.sent ∧ q.result.id ∉ s.wokenIds := by
  simp [State.outstanding]

theorem new_inv : Inv .new where
  called := by
    constructor
    · exact List.nodup_nil
    · intro p hp
      cases hp
    · intro c hc
      cases hc
    · intro front c back hc
      have := congrArg List.length hc
      simp [State.new] at this
    · intro q hq
      cases hq
  ledger := by
    constructor
    · exact List.nodup_nil
    · intro id hm
      cases hm
    · intro k q hl
      simp [State.new] at hl
    · intro q hq
      cases hq
  inStep := InStep.empty
  batched := ⟨rfl, (by intro max hm; cases hm), fun _ => rfl⟩
  given e he := by cases he
  flying e he := by cases he
  sound := rfl

/-- Taking requests from the channel and answering them asks nothing of the callers. -/
theorem Called.shrink (h : Called s) {moved : List Request}
    (hc : s.channel = moved ++ t.channel) (hr : t.received = s.received ++ moved)
    (hw : ∀ id ∈ s.wokenIds, id ∈ t.wokenIds) : Called t := by
  have hsent : t.sent = s.sent := by simp [State.sent, hr, hc]
  have hsub : ∀ q ∈ t.outstanding, q ∈ s.outstanding := by
    intro q hq
    obtain ⟨hm, hn⟩ := mem_outstanding.mp hq
    exact mem_outstanding.mpr ⟨hsent ▸ hm, fun hin => hn (hw _ hin)⟩
  constructor
  · rw [hsent]
    exact h.ids
  · intro p hp q hq
    exact h.distinct p (hsub p hp) q (hsub q hq)
  · intro c hm target ht q hq
    exact h.aims c (hsub c hm) target ht q (hsub q hq)
  · intro front c back hsplit target ht
    rw [hr, List.append_assoc]
    exact h.follows (moved ++ front) c back (by rw [hc, hsplit, List.append_assoc]) target ht
  · intro q hq
    exact h.carried q (by rw [hc]; exact List.mem_append_right _ hq)

theorem Called.enqueue (h : Called s) (ha : s.Admits r) (hr : r.operation.opCode ≠ .truncate) :
    Called { s with channel := s.channel ++ [r] } := by
  obtain ⟨hid, hapart, hcancel⟩ := ha
  have hsent : ({ s with channel := s.channel ++ [r] } : State).sent = s.sent ++ [r] := by
    simp [State.sent]
  have hout : ∀ q ∈ ({ s with channel := s.channel ++ [r] } : State).outstanding,
      q ∈ s.outstanding ∨ q = r := by
    intro q hq
    obtain ⟨hm, hn⟩ := mem_outstanding.mp hq
    rw [hsent, List.mem_append, List.mem_singleton] at hm
    exact hm.imp_left fun hm => mem_outstanding.mpr ⟨hm, hn⟩
  constructor
  · rw [hsent, List.map_append]
    refine h.ids.append (List.nodup_singleton _) ?_
    intro id hm hs
    obtain ⟨q, hq, rfl⟩ := List.mem_map.mp hm
    exact hid q hq (by simpa using hs)
  · intro p hp q hq hk
    rcases hout p hp with hold | hnew <;> rcases hout q hq with hold' | hnew'
    · exact h.distinct p hold q hold' hk
    · exact absurd (hnew' ▸ hk) (hapart p hold).1
    · exact absurd (hnew ▸ hk.symm) (hapart q hold').1
    · exact hnew.trans hnew'.symm
  · intro c hm target ht q hq hk
    rcases hout c hm with hold | hnew <;> rcases hout q hq with hold' | hnew'
    · exact h.aims c hold target ht q hold' hk
    · exact absurd (hnew' ▸ hk.symm) ((hapart c hold).2 target ht)
    · exact (hcancel target (hnew ▸ ht)).2.2 q hold' hk
    · exact absurd (hnew' ▸ hk.symm) (hcancel target (hnew ▸ ht)).1
  · intro front c back hsplit target ht
    rcases List.eq_nil_or_concat back with rfl | ⟨init, last, rfl⟩
    · obtain ⟨rfl, hlast⟩ := List.append_inj' hsplit rfl
      cases hlast
      exact (hcancel target ht).2.1
    · rw [List.concat_eq_append, ← List.cons_append, ← List.append_assoc] at hsplit
      exact h.follows front c init (List.append_inj_left' hsplit rfl) target ht
  · intro q hq
    rcases List.mem_append.mp hq with hq | hq
    · exact h.carried q hq
    · rw [List.mem_singleton.mp hq]
      exact hr

/-- The state in which `push` finds the poller. -/
def State.taken (s : State) (r : Request) (rest : List Request) : State :=
  { s with channel := rest, received := s.received ++ [r],
           control := .receiving submissionCapacity }

/-- What is known of the request at the head of the channel. -/
structure Head (s : State) (r : Request) : Prop where
  carried : r.operation.opCode ≠ .truncate
  newId : ∀ q ∈ s.received, q.result.id ≠ r.result.id
  outstanding : r ∈ s.outstanding
  freshAddress : s.requests.lookup r.result.userData = none
  follows : ∀ target ∈ r.operation.target?, ∃ q ∈ s.received, q.result = target

/-- A request of the table is outstanding. -/
theorem Inv.kept_outstanding (h : Inv s) {k : ℕ} {q : Request}
    (hl : s.requests.lookup k = some q) : q ∈ s.outstanding := by
  obtain ⟨_, hq, hn⟩ := h.ledger.kept k q hl
  exact mem_outstanding.mpr ⟨List.mem_append_left _ hq, hn⟩

theorem Inv.head (h : Inv s) {rest : List Request} (hc : s.channel = r :: rest) : Head s r := by
  have hids := h.called.ids
  rw [State.sent, hc, List.map_append, List.nodup_append] at hids
  have hnew : ∀ q ∈ s.received, q.result.id ≠ r.result.id := fun q hq =>
    hids.2.2 _ (List.mem_map_of_mem hq) _ (by simp)
  have hout : r ∈ s.outstanding :=
    mem_outstanding.mpr ⟨by simp [State.sent, hc], h.ledger.new_id hnew⟩
  constructor
  · exact h.called.carried r (by simp [hc])
  · exact hnew
  · exact hout
  · cases hl : s.requests.lookup r.result.userData with
    | none => rfl
    | some q =>
      obtain ⟨hk, hq, _⟩ := h.ledger.kept _ q hl
      have hsame := h.called.distinct q (h.kept_outstanding hl) r hout hk
      exact absurd (hsame ▸ rfl) (hnew q hq)
  · intro target ht
    simpa using h.called.follows [] r rest hc target ht

/-- A request in the table that has the address of a target is the target. -/
theorem Inv.aimed (h : Inv s) {c q : Request} {target : Session} {k : ℕ}
    (hc : c ∈ s.outstanding) (ht : c.operation = .cancel target)
    (hl : s.requests.lookup k = some q) (hk : k = target.userData) : q.result = target := by
  obtain ⟨hq, _, _⟩ := h.ledger.kept k q hl
  exact h.called.aims c hc target (target?_eq_some.mpr ht) q (h.kept_outstanding hl)
    (hq.trans hk)

theorem Inv.taken_called (h : Inv s) {rest : List Request} (hc : s.channel = r :: rest)
    (hchannel : t.channel = rest) (hreceived : t.received = s.received ++ [r])
    (hw : ∀ id ∈ s.wokenIds, id ∈ t.wokenIds) : Called t :=
  h.called.shrink (by simpa [hchannel] using hc) hreceived hw

theorem taken_batched {entries : List Entry} (hs : s.submission = [])
    (hl : entries.length ≤ submissionCapacity) (ht : t.submission = s.submission)
    (he : t.entries = entries) (hc : t.control = .receiving submissionCapacity) : Batched t where
  submission := ht.trans hs
  room max hm := by
    rw [hc] at hm
    cases hm
    exact ⟨rfl, he ▸ hl⟩
  flushed hn := absurd hc (hn _)

theorem Inv.given_taken (h : Inv s) (r : Request) : ∀ e ∈ s.submitted,
    ∃ q ∈ s.received ++ [r], q.result.id = e.session := by
  intro e he
  obtain ⟨q, hq, hs⟩ := (h.given e he).1
  exact ⟨q, List.mem_append_left _ hq, hs⟩

theorem Inv.push_late (h : Inv s) {rest : List Request} (hc : s.channel = r :: rest)
    (hroom : s.entries.length < submissionCapacity) (answer : Answer) :
    Inv ((s.taken r rest).wake r.result answer) where
  called := h.taken_called hc rfl rfl fun id hm => by
    simp only [State.wokenIds, State.wake, map_fst_concat]
    exact List.mem_append_left _ hm
  ledger := h.ledger.answer (h.head hc).newId answer
  inStep := h.inStep
  batched := taken_batched h.batched.submission (Nat.le_of_lt hroom) rfl rfl rfl
  given e he := ⟨h.given_taken r e he, (h.given e he).2⟩
  flying := h.flying
  sound := h.sound

theorem places_remove {i : ℕ} (hi : i < s.entries.length) :
    s.places.Perm (s.entries[i] ::
      (swapRemove s.entries i ++ s.submission ++ s.inFlight ++
        s.completions.map Completion.entry)) :=
  (((swapRemove_perm hi).append_right _).append_right _).append_right _

/-- Neither request ever gets to the kernel: the cancel is not registered, and the entry of its
target goes before the batch is flushed. -/
theorem Inv.push_cancelled (h : Inv s) {rest : List Request} (hc : s.channel = r :: rest)
    (hroom : s.entries.length < submissionCapacity) {target : Session} {q : Request} {i : ℕ}
    (found : s.requests.lookup target.userData = some q) (bound : i < s.entries.length)
    (queued : s.entries[i].userData = target.userData) :
    Inv { s.taken r rest with
      woken := s.woken ++ [(r.result.id, .ok 0)] ++ [(q.result.id, .error ecanceled)],
      entries := swapRemove s.entries i, requests := s.requests.erase target.userData } where
  called := h.taken_called hc rfl rfl fun id hm => by
    simp only [State.wokenIds, map_fst_concat]
    exact List.mem_append_left _ (List.mem_append_left _ hm)
  ledger := by
    have hids := h.called.ids
    rw [State.sent, hc, ← List.singleton_append, ← List.append_assoc, List.map_append] at hids
    exact (h.ledger.answer (h.head hc).newId (.ok 0)).finish hids.of_append_left found _
  inStep := queued ▸ (h.inStep.perm (places_remove bound)).erase
  batched := by
    have hlength := (swapRemove_perm bound).length_eq
    rw [List.length_cons] at hlength
    have hle : (swapRemove s.entries i).length ≤ submissionCapacity := by omega
    exact taken_batched h.batched.submission hle rfl rfl rfl
  given e he := by
    refine ⟨h.given_taken r e he, fun f hf => (h.given e he).2 f ?_⟩
    exact (swapRemove_perm bound).mem_iff.mpr (List.mem_cons_of_mem _ hf)
  flying := h.flying
  sound := h.sound

theorem places_push (s : State) (entry : Entry) :
    (entry :: s.places).Perm (s.entries ++ [entry] ++ s.submission ++ s.inFlight ++
      s.completions.map Completion.entry) :=
  (((List.perm_append_singleton entry s.entries).symm.append_right _).append_right _).append_right _

theorem Inv.push_registered (h : Inv s) {rest : List Request} (hc : s.channel = r :: rest)
    (hroom : s.entries.length < submissionCapacity) {entry : Entry}
    (made : r.uringEntry = some entry) :
    Inv { s.taken r rest with
      requests := s.requests.insert r.result.userData r, entries := s.entries ++ [entry] } where
  called := h.taken_called hc rfl rfl fun id hm => hm
  ledger := h.ledger.enter (h.head hc).newId (h.head hc).freshAddress
  inStep := by
    have hkey := (uringEntry_eq_some made).1
    have hfresh := (h.head hc).freshAddress
    rw [← hkey] at hfresh ⊢
    exact (h.inStep.insert made hfresh).perm (places_push s entry)
  batched := by
    refine taken_batched h.batched.submission ?_ rfl rfl rfl
    rw [List.length_append, List.length_singleton]
    omega
  given e he := by
    refine ⟨h.given_taken r e he, fun f hf => ?_⟩
    obtain ⟨⟨q, hq, hs⟩, hother⟩ := h.given e he
    rcases List.mem_append.mp hf with hf | hf
    · exact hother f hf
    · rw [List.mem_singleton.mp hf, (uringEntry_eq_some made).2, ← hs]
      exact ((h.head hc).newId q hq).symm
  flying := h.flying
  sound := h.sound

theorem Inv.push (h : Inv s) {rest : List Request} (hc : s.channel = r :: rest)
    (hroom : s.entries.length < submissionCapacity) (hp : Pushed (s.taken r rest) r t) : Inv t := by
  cases hp with
  | late cancel gone => exact h.push_late hc hroom _
  | cancelled cancel found bound queued => exact h.push_cancelled hc hroom found bound queued
  | registered made busy => exact h.push_registered hc hroom made

/-- An entry of the table moves from one place to another. -/
theorem Inv.moved (h : Inv s) (hplaces : s.places.Perm t.places) (hb : Batched t)
    (hchannel : t.channel = s.channel) (hreceived : t.received = s.received)
    (hwoken : t.woken = s.woken) (hrequests : t.requests = s.requests)
    (hcrash : t.crash = s.crash)
    (hgiven : ∀ e ∈ t.submitted,
      e ∈ s.submitted ∨ ∃ q ∈ s.received, q.result.id = e.session)
    (hentries : ∀ e ∈ t.submitted, ∀ f ∈ t.entries, f.session ≠ e.session)
    (hflying : ∀ e ∈ t.inFlight, e ∈ t.submitted) : Inv t where
  called := by
    have hc : s.channel = [] ++ t.channel := hchannel.symm
    have hr : t.received = s.received ++ [] := hreceived.trans (List.append_nil _).symm
    refine h.called.shrink hc hr fun id hm => ?_
    rw [State.wokenIds, hwoken]
    exact hm
  ledger := by
    rw [hreceived, hwoken, hrequests]
    exact h.ledger
  inStep := by
    rw [hrequests]
    exact h.inStep.perm hplaces
  batched := hb
  given e he := by
    refine ⟨?_, hentries e he⟩
    rw [hreceived]
    exact (hgiven e he).elim (fun hs => (h.given e hs).1) id
  flying := hflying
  sound := hcrash.trans h.sound

theorem Inv.place_received (h : Inv s) {e : Entry} (he : e ∈ s.places) :
    ∃ q ∈ s.received, q.result.id = e.session := by
  obtain ⟨q, hl, hq⟩ := h.inStep.lookup he
  exact ⟨q, (h.ledger.kept _ q hl).2.1, (uringEntry_eq_some hq).2.symm⟩

theorem Inv.flush (h : Inv s) {max : ℕ} (hc : s.control = .receiving max) : Inv s.flush := by
  have hs := h.batched.submission
  have hroom := (h.batched.room max hc).2
  unfold State.flush
  rw [if_pos (by rw [hs]; exact hroom)]
  dsimp only
  rw [hs, List.nil_append]
  refine h.moved ?_ ⟨rfl, (by intro m hm; cases hm), fun _ => rfl⟩ rfl rfl rfl rfl rfl ?_ ?_ ?_
  · simp only [State.places, hs, List.append_nil, List.nil_append]
    exact List.perm_append_comm.append_right _
  · intro e he
    refine (List.mem_append.mp he).imp_right fun he => h.place_received ?_
    simp [State.places, he]
  · intro e he f hf
    cases hf
  · intro e he
    rcases List.mem_append.mp he with he | he
    · exact List.mem_append_left _ (h.flying e he)
    · exact List.mem_append_right _ he

theorem Inv.complete (h : Inv s) {i : ℕ} {entry : Entry} (hi : s.inFlight[i]? = some entry)
    (result : ℤ) :
    Inv { s with inFlight := s.inFlight.eraseIdx i,
                 completions := s.completions ++ [⟨entry, result⟩] } := by
  obtain ⟨hlt, rfl⟩ := List.getElem?_eq_some_iff.mp hi
  refine h.moved ?_ ⟨h.batched.submission, h.batched.room, h.batched.flushed⟩ rfl rfl rfl rfl rfl
    (fun e he => Or.inl he) (fun e he => (h.given e he).2) ?_
  · simp only [State.places, List.map_append, List.map_cons, List.map_nil]
    rw [List.append_assoc, List.append_assoc (s.entries ++ s.submission)]
    refine List.Perm.append_left _ ?_
    have hget := (List.getElem_cons_eraseIdx_perm hlt).symm
    refine (hget.append_right _).trans ?_
    rw [List.cons_append, ← List.append_assoc]
    exact (List.perm_append_singleton _ _).symm
  · intro e he
    exact h.flying e (List.eraseIdx_subset he)

/-- What `consume` does with the completions it finds: each wakes the session whose entry it is. -/
structure Collected (s : State) (completions : List Completion) (t : State) : Prop where
  woken : t.woken = s.woken ++ completions.map fun c => (c.entry.session, c.answer)
  frame : t = { s with requests := t.requests, woken := t.woken }

theorem Inv.collect {c : Completion} {rest : List Completion}
    (h : Inv { s with completions := c :: rest }) :
    Inv { s.collect c with completions := rest } ∧ Collected s [c] (s.collect c) := by
  have hplace : c.entry ∈ ({ s with completions := c :: rest } : State).places := by
    simp [State.places]
  obtain ⟨q, hl, hq⟩ := h.inStep.lookup hplace
  have hl : s.requests.lookup c.entry.userData = some q := hl
  have hids := h.called.ids
  rw [State.sent, List.map_append] at hids
  have hfinish := h.ledger.finish hids.of_append_left hl c.answer
  have hcollect : s.collect c = { s with
      requests := s.requests.erase c.entry.userData,
      woken := s.woken ++ [(q.result.id, c.answer)] } := by
    unfold State.collect
    rw [hl]
    rfl
  rw [hcollect]
  constructor
  · constructor
    · refine h.called.shrink (s.channel.nil_append).symm (s.received.append_nil).symm ?_
      intro id hm
      simp only [State.wokenIds, map_fst_concat]
      exact List.mem_append_left _ hm
    · exact hfinish
    · refine InStep.erase (h.inStep.perm ?_)
      exact List.perm_middle
    · exact ⟨h.batched.submission, h.batched.room, h.batched.flushed⟩
    · exact h.given
    · exact h.flying
    · exact h.sound
  · refine ⟨?_, rfl⟩
    rw [List.map_singleton, (uringEntry_eq_some hq).2]

theorem Inv.collect_all {completions : List Completion}
    (h : Inv { s with completions := completions }) :
    Inv { completions.foldl State.collect s with completions := [] } ∧
      Collected s completions (completions.foldl State.collect s) := by
  induction completions generalizing s with
  | nil => exact ⟨h, by simp, rfl⟩
  | cons c rest ih =>
    obtain ⟨hi, hc⟩ := h.collect
    obtain ⟨ht, hr⟩ := ih hi
    refine ⟨ht, ?_, ?_⟩
    · rw [List.foldl_cons, hr.woken, hc.woken, List.append_assoc, ← List.map_append,
        List.singleton_append]
    · rw [List.foldl_cons, hr.frame, hc.frame]

theorem Inv.consume (h : Inv s) (hc : ∀ max, s.control ≠ .receiving max) :
    Inv s.consume ∧
      Collected { s with completions := [], control := .idle } s.completions s.consume := by
  have hidle : Inv { s with control := .idle } := by
    refine h.moved (List.Perm.refl _) ⟨h.batched.submission, (by intro m hm; cases hm), ?_⟩
      rfl rfl rfl rfl rfl (fun e he => Or.inl he) (fun e he => (h.given e he).2) h.flying
    intro _
    exact h.batched.flushed hc
  have hall := @Inv.collect_all { s with completions := [], control := .idle } s.completions hidle
  refine ⟨?_, hall.2⟩
  have hframe := hall.2.frame
  have hinv := hall.1
  unfold State.consume
  rw [hframe] at hinv ⊢
  exact hinv

/-- What an event does, and when it can happen. -/
inductive Moves (s : State) : Event → State → Prop where
  | pooled {request : Request} (truncate : request.operation.opCode = .truncate) :
    Moves s (.send request) { s with pool := s.pool ++ [request] }
  | sent {request : Request} (carried : request.operation.opCode ≠ .truncate)
    (admitted : s.Admits request) :
    Moves s (.send request) { s with channel := s.channel ++ [request] }
  | ignored {target waker : Session} : Moves s (.cancel .truncate target waker) s
  | cancelled {opcode : OpCode} {target waker : Session}
    (admitted : s.Admits ⟨waker, .cancel target⟩) :
    Moves s (.cancel opcode target waker)
      { s with channel := s.channel ++ [⟨waker, .cancel target⟩] }
  | received {r : Request} {rest : List Request} (idle : s.control = .idle)
    (head : s.channel = r :: rest) :
    Moves s .receive ({ s with
      channel := rest, received := s.received ++ [r],
      control := .receiving (submissionCapacity - s.submission.length) }.push r)
  | triedRecv {r : Request} {rest : List Request} {max : ℕ} (batch : s.control = .receiving max)
    (head : s.channel = r :: rest) (room : s.entries.length < max) :
    Moves s .tryRecv ({ s with channel := rest, received := s.received ++ [r] }.push r)
  | flushed {max : ℕ} (batch : s.control = .receiving max) : Moves s .flush s.flush
  | completed {i : ℕ} {entry : Entry} {result : ℤ} (flying : s.inFlight[i]? = some entry) :
    Moves s (.complete i result)
      { s with inFlight := s.inFlight.eraseIdx i,
               completions := s.completions ++ [⟨entry, result⟩] }
  | consumed (rests : ∀ max, s.control ≠ .receiving max) : Moves s .consume s.consume

theorem step_moves {e : Event} (hstep : system.step s e = some t) : Moves s e t := by
  change s.step e = some t at hstep
  cases e with
  | send request =>
    simp only [State.step] at hstep
    split at hstep
    case isTrue hg =>
      cases hstep
      unfold State.send
      by_cases ht : request.operation.opCode = .truncate
      · rw [if_pos ht]
        exact .pooled ht
      · rw [if_neg ht]
        exact .sent ht (hg.resolve_left ht)
    · cases hstep
  | cancel opcode target waker =>
    simp only [State.step] at hstep
    split at hstep
    case isTrue hg =>
      cases hstep
      unfold State.cancel
      by_cases ht : opcode = .truncate
      · rw [if_pos ht]
        subst ht
        exact .ignored
      · rw [if_neg ht]
        exact .cancelled (hg.resolve_left ht)
    · cases hstep
  | receive =>
    simp only [State.step] at hstep
    split at hstep
    case h_1 r rest hc hl =>
      cases hstep
      exact .received hc hl
    · cases hstep
  | tryRecv =>
    simp only [State.step] at hstep
    split at hstep
    case h_1 max r rest hc hl =>
      split at hstep
      case isTrue hroom =>
        cases hstep
        exact .triedRecv hc hl hroom
      · cases hstep
    · cases hstep
  | flush =>
    simp only [State.step] at hstep
    split at hstep
    case h_1 max hc =>
      cases hstep
      exact .flushed hc
    · cases hstep
  | complete i result =>
    simp only [State.step] at hstep
    split at hstep
    case h_1 entry hi =>
      cases hstep
      exact .completed hi
    · cases hstep
  | consume =>
    simp only [State.step] at hstep
    split at hstep
    case h_3 => cases hstep
    all_goals
      rename_i hc
      cases hstep
      refine .consumed fun max hm => ?_
      rw [hc] at hm
      cases hm

def Event.takes : Event → Bool
  | .receive | .tryRecv => true
  | _ => false

/-- Both ways to take a request from the channel push it with room for one more entry. -/
theorem Inv.taking (h : Inv s) {e : Event} (hm : Moves s e t) (ht : e.takes = true) :
    ∃ r rest, s.channel = r :: rest ∧ s.entries.length < submissionCapacity ∧
      Pushed (s.taken r rest) r t := by
  cases hm with
  | @received r rest idle head =>
    have hempty : s.entries = [] := by
      refine h.batched.flushed fun max hc => ?_
      rw [idle] at hc
      cases hc
    have hmax : submissionCapacity - s.submission.length = submissionCapacity := by
      rw [h.batched.submission]
      rfl
    refine ⟨r, rest, head, by rw [hempty]; decide, ?_⟩
    rw [hmax]
    exact push_pushed (h.head head).carried
  | @triedRecv r rest max batch head room =>
    have hmax := (h.batched.room max batch).1
    subst hmax
    refine ⟨r, rest, head, room, ?_⟩
    have htaken : ({ s with channel := rest, received := s.received ++ [r] } : State) =
        s.taken r rest := by
      rw [State.taken, ← batch]
    rw [htaken]
    exact push_pushed (h.head head).carried
  | pooled | sent | ignored | cancelled | flushed | completed | consumed => cases ht

theorem Inv.enqueue (h : Inv s) (ha : s.Admits r) (hr : r.operation.opCode ≠ .truncate) :
    Inv { s with channel := s.channel ++ [r] } where
  called := h.called.enqueue ha hr
  ledger := h.ledger
  inStep := h.inStep
  batched := ⟨h.batched.submission, h.batched.room, h.batched.flushed⟩
  given := h.given
  flying := h.flying
  sound := h.sound

theorem Inv.step (h : Inv s) {e : Event} (hm : Moves s e t) : Inv t := by
  by_cases ht : e.takes = true
  · obtain ⟨r, rest, hc, hroom, hp⟩ := h.taking hm ht
    exact h.push hc hroom hp
  cases hm with
  | pooled =>
    refine h.moved (List.Perm.refl _) ⟨h.batched.submission, h.batched.room, h.batched.flushed⟩
      rfl rfl rfl rfl rfl (fun e he => Or.inl he) (fun e he => (h.given e he).2) h.flying
  | sent carried admitted => exact h.enqueue admitted carried
  | ignored => exact h
  | cancelled admitted => exact h.enqueue admitted (by simp [Operation.opCode])
  | received | triedRecv => exact absurd rfl ht
  | flushed batch => exact h.flush batch
  | completed flying => exact h.complete flying _
  | consumed rests => exact (h.consume rests).1

theorem reachable_inv (h : Reachable system s) : Inv s :=
  h.invariant new_inv fun _ _ _ hi hs => hi.step (step_moves hs)

end Uring
