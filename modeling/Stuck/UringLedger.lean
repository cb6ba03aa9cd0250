import Stuck.Uring

/-! What keeps the poller's collections in step: the discipline of the callers, the ledger of
requests and wakes, and the inversions of `push` and of the steps. -/
namespace Uring

open TransitionSystem PendingTable

theorem uringEntry_eq_some {request : Request} {entry : Entry}
    (h : request.uringEntry = some entry) :
    entry.userData = request.result.userData ∧ entry.session = request.result.id := by
  unfold Request.uringEntry at h
  obtain ⟨sqe, _, rfl⟩ := Option.map_eq_some_iff.mp h
  exact ⟨rfl, rfl⟩

theorem uringEntry_isSome {request : Request} (h : request.operation.opCode ≠ .truncate) :
    ∃ entry, request.uringEntry = some entry := by
  unfold Request.uringEntry
  cases ho : request.operation with
  | truncate =>
    rw [ho] at h
    exact absurd rfl h
  | «open» | read | write | fsync | cancel | stat => exact ⟨_, rfl⟩

theorem target?_eq_some {operation : Operation} {target : Session} :
    operation.target? = some target ↔ operation = .cancel target := by
  cases operation <;> simp [Operation.target?]

/-- Every request that was received has been answered once or waits in the table. -/
structure Ledger (received : List Request) (woken : List (ℕ × Answer))
    (requests : AList fun _ : ℕ => Request) : Prop where
  once : (woken.map Prod.fst).Nodup
  known : ∀ id ∈ woken.map Prod.fst, ∃ q ∈ received, q.result.id = id
  kept : ∀ k q, requests.lookup k = some q →
    q.result.userData = k ∧ q ∈ received ∧ q.result.id ∉ woken.map Prod.fst
  answered : ∀ q ∈ received,
    q.result.id ∈ woken.map Prod.fst ∨ requests.lookup q.result.userData = some q

variable {received : List Request} {woken : List (ℕ × Answer)}
  {requests : AList fun _ : ℕ => Request} {r : Request}

theorem Ledger.new_id (h : Ledger received woken requests)
    (hr : ∀ q ∈ received, q.result.id ≠ r.result.id) : r.result.id ∉ woken.map Prod.fst := by
  intro hm
  obtain ⟨q, hq, he⟩ := h.known _ hm
  exact hr q hq he

theorem map_fst_concat (woken : List (ℕ × Answer)) (id : ℕ) (answer : Answer) :
    (woken ++ [(id, answer)]).map Prod.fst = woken.map Prod.fst ++ [id] := by
  rw [List.map_append]
  rfl

theorem Ledger.once_concat (h : Ledger received woken requests) {id : ℕ} (answer : Answer)
    (hid : id ∉ woken.map Prod.fst) : ((woken ++ [(id, answer)]).map Prod.fst).Nodup := by
  rw [map_fst_concat]
  exact h.once.append (List.nodup_singleton id) (by simpa using hid)

/-- A new request is answered at once. -/
theorem Ledger.answer (h : Ledger received woken requests)
    (hr : ∀ q ∈ received, q.result.id ≠ r.result.id) (answer : Answer) :
    Ledger (received ++ [r]) (woken ++ [(r.result.id, answer)]) requests where
  once := h.once_concat answer (h.new_id hr)
  known id hm := by
    rw [map_fst_concat, List.mem_append, List.mem_singleton] at hm
    rcases hm with hm | rfl
    · obtain ⟨q, hq, he⟩ := h.known id hm
      exact ⟨q, by simp [hq], he⟩
    · exact ⟨r, by simp, rfl⟩
  kept k q hl := by
    obtain ⟨hk, hq, hw⟩ := h.kept k q hl
    refine ⟨hk, by simp [hq], ?_⟩
    rw [map_fst_concat, List.mem_append, List.mem_singleton, not_or]
    exact ⟨hw, hr q hq⟩
  answered q hq := by
    rw [map_fst_concat, List.mem_append, List.mem_singleton]
    rcases List.mem_append.mp hq with hq | hq
    · exact (h.answered q hq).imp_left Or.inl
    · rw [List.mem_singleton.mp hq]
      exact Or.inl (Or.inr rfl)

/-- A new request comes into the table. -/
theorem Ledger.enter (h : Ledger received woken requests)
    (hr : ∀ q ∈ received, q.result.id ≠ r.result.id)
    (hfresh : requests.lookup r.result.userData = none) :
    Ledger (received ++ [r]) woken (requests.insert r.result.userData r) where
  once := h.once
  known id hm := by
    obtain ⟨q, hq, he⟩ := h.known id hm
    exact ⟨q, by simp [hq], he⟩
  kept k q hl := by
    by_cases hk : k = r.result.userData
    · subst hk
      rw [AList.lookup_insert] at hl
      cases hl
      exact ⟨rfl, by simp, h.new_id hr⟩
    · rw [AList.lookup_insert_ne hk] at hl
      obtain ⟨hk, hq, hw⟩ := h.kept k q hl
      exact ⟨hk, by simp [hq], hw⟩
  answered q hq := by
    rcases List.mem_append.mp hq with hq | hq
    · refine (h.answered q hq).imp_right fun hl => ?_
      have hne : q.result.userData ≠ r.result.userData := by
        intro hk
        rw [hk, hfresh] at hl
        cases hl
      rw [AList.lookup_insert_ne hne, hl]
    · rw [List.mem_singleton.mp hq]
      exact Or.inr (AList.lookup_insert _)

/-- A request of the table is answered and leaves it. -/
theorem Ledger.finish (h : Ledger received woken requests)
    (hids : (received.map fun q => q.result.id).Nodup) {k : ℕ} {q : Request}
    (hl : requests.lookup k = some q) (answer : Answer) :
    Ledger received (woken ++ [(q.result.id, answer)]) (requests.erase k) := by
  obtain ⟨rfl, hq, hw⟩ := h.kept k q hl
  have hsame : ∀ p ∈ received, p.result.id = q.result.id → p = q := fun p hp he =>
    List.inj_on_of_nodup_map hids hp hq he
  constructor
  · exact h.once_concat answer hw
  · intro id hm
    rw [map_fst_concat, List.mem_append, List.mem_singleton] at hm
    rcases hm with hm | rfl
    · exact h.known id hm
    · exact ⟨q, hq, rfl⟩
  · intro k p hp
    have hne : k ≠ q.result.userData := by
      rintro rfl
      rw [AList.lookup_erase] at hp
      cases hp
    rw [AList.lookup_erase_ne hne] at hp
    obtain ⟨hk, hr, hn⟩ := h.kept k p hp
    refine ⟨hk, hr, ?_⟩
    rw [map_fst_concat, List.mem_append, List.mem_singleton, not_or]
    refine ⟨hn, fun he => hne ?_⟩
    rw [← hk, hsame p hr he]
  · intro p hp
    rw [map_fst_concat, List.mem_append, List.mem_singleton]
    rcases h.answered p hp with hm | hm
    · exact Or.inl (Or.inl hm)
    · by_cases hk : p.result.userData = q.result.userData
      · rw [hk, hl] at hm
        cases hm
        exact Or.inl (Or.inr rfl)
      · exact Or.inr (by rw [AList.lookup_erase_ne hk, hm])

variable {s t : State}

/-- What `push` does with a request that the ring can carry. -/
inductive Pushed (s : State) (r : Request) : State → Prop where
  | late {target : Session} (cancel : r.operation = .cancel target)
    (gone : s.requests.lookup target.userData = none) : Pushed s r (s.wake r.result (.ok 0))
  | cancelled {target : Session} {q : Request} {i : ℕ} (cancel : r.operation = .cancel target)
    (found : s.requests.lookup target.userData = some q) (bound : i < s.entries.length)
    (queued : s.entries[i].userData = target.userData) :
    Pushed s r { s with
      woken := s.woken ++ [(r.result.id, .ok 0)] ++ [(q.result.id, .error ecanceled)],
      entries := swapRemove s.entries i, requests := s.requests.erase target.userData }
  | registered {entry : Entry} (made : r.uringEntry = some entry)
    (busy : ∀ target, r.operation = .cancel target →
      ∀ e ∈ s.entries, e.userData ≠ target.userData) :
    Pushed s r { s with requests := s.requests.insert r.result.userData r,
                        entries := s.entries ++ [entry] }

theorem register_pushed (hr : r.operation.opCode ≠ .truncate)
    (busy : ∀ target, r.operation = .cancel target →
      ∀ e ∈ s.entries, e.userData ≠ target.userData) : Pushed s r (s.register r) := by
  obtain ⟨entry, hentry⟩ := uringEntry_isSome hr
  have hregister : s.register r = { s with requests := s.requests.insert r.result.userData r,
                                           entries := s.entries ++ [entry] } := by
    unfold State.register
    rw [hentry]
  rw [hregister]
  exact .registered hentry busy

theorem push_pushed (hr : r.operation.opCode ≠ .truncate) : Pushed s r (s.push r) := by
  unfold State.push
  cases ho : r.operation with
  | cancel target =>
    dsimp only
    cases hl : s.requests.lookup target.userData with
    | none => exact .late ho hl
    | some q =>
      dsimp only
      cases hf : s.entries.findIdx? fun entry => entry.userData = target.userData with
      | none =>
        refine register_pushed hr fun other hother e he hk => ?_
        rw [ho] at hother
        cases hother
        exact absurd (decide_eq_true hk) (by simpa using List.findIdx?_eq_none_iff.mp hf e he)
      | some i =>
        obtain ⟨hi, hp, _⟩ := List.findIdx?_eq_some_iff_getElem.mp hf
        exact .cancelled ho hl hi (of_decide_eq_true hp)
  | «open» | read | write | fsync | truncate | stat =>
    refine register_pushed hr fun other hother => ?_
    rw [ho] at hother
    cases hother

end Uring
