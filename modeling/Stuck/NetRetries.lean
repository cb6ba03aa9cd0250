import Stuck.NetWakeups
import Mathlib.Order.Basic

/-! The loops of `accept`, `read` and `write` do not spin: each time one goes round again, it has
used up a signal that the poller sent for its direction. -/
namespace Net

open TransitionSystem

variable {n m : Network} {id : ℕ} {s s' : Socket} {d : Direction}

/-- A loop of `accept`, `read` or `write`, or `TcpStream::new`, goes on after its `recv`. -/
def IoEvent.retries (id : ℕ) (d : Direction) : IoEvent → Bool
  | .net (.act id' (.receive d')) => id' = id ∧ d' = d
  | .net (.act id' .writable) => id' = id ∧ d = .writable
  | _ => false

def Registry.signals (r : Registry) (id : ℕ) (d : Direction) : ℕ :=
  r.sockets[id]?.elim 0 fun s => (s.inbox d).signals

theorem signals_set {r : Registry} {id' : ℕ} {k k' : Socket} (hk : r.sockets[id']? = some k)
    (hle : (k'.inbox d).signals ≤ (k.inbox d).signals) :
    (r.setSocket id' k').signals id d ≤ r.signals id d := by
  unfold Registry.signals
  simp only [Registry.setSocket]
  rcases hs : r.sockets[id]? with _ | s
  · have hlen := List.getElem?_eq_none_iff.mp hs
    have hnone : (r.sockets.set id' k')[id]? = none := List.getElem?_eq_none (by simpa using hlen)
    exact Nat.le_of_eq (by rw [hnone])
  · rcases set_socket k' hk hs with ⟨rfl, rfl, hset⟩ | ⟨_, hset⟩
    · rw [hset]
      exact hle
    · exact Nat.le_of_eq (by rw [hset])

theorem act_signals {a : Action} (ha : s.act a = some s') :
    (s'.inbox d).signals + (if a = .receive d ∨ (a = .writable ∧ d = .writable) then 1 else 0) ≤
      (s.inbox d).signals := by
  have hrecv : ∀ {s s' : Socket} {e : Direction}, s.recv e = some s' →
      (s'.inbox d).signals + (if e = d then 1 else 0) ≤ (s.inbox d).signals := by
    intro s s' e hr
    unfold Socket.recv at hr
    obtain ⟨hg, ⟨⟩⟩ := Option.ite_none_left_eq_some.mp hr
    have hpos : (s.inbox e).signals ≠ 0 := fun h0 => hg (.inl h0)
    by_cases he : e = d
    · subst he
      simp only [setInbox_self, if_true]
      omega
    · rw [if_neg he, setInbox_other s _ (Ne.symm he)]
      omega
  cases a with
  | receive e =>
    obtain ⟨_, hr⟩ := Option.ite_none_right_eq_some.mp ha
    simpa using hrecv hr
  | writable =>
    obtain ⟨_, hm⟩ := Option.ite_none_right_eq_some.mp ha
    obtain ⟨s₀, hr, ⟨⟩⟩ := Option.map_eq_some_iff.mp hm
    have hle := hrecv hr
    cases d
    · change (s₀.inbox .readable).signals + _ ≤ _
      simpa using hle
    · change (s₀.inbox .writable).signals + _ ≤ _
      simpa using hle
  | poison e =>
    obtain ⟨_, ⟨⟩⟩ := Option.ite_none_right_eq_some.mp ha
    by_cases he : d = e
    · subst he
      simp
    · simp [setInbox_other s _ he]
  | drop part =>
    obtain ⟨stage, _, rfl⟩ := Option.map_eq_some_iff.mp ha
    cases d <;> simp [Socket.inbox]
  | register | block | interrupted | takeError | intoSplit =>
    obtain ⟨_, ⟨⟩⟩ := Option.ite_none_right_eq_some.mp ha
    cases d <;> simp [Socket.inbox]

/-- A `check` sends at most one signal, in its own direction, and records it. -/
theorem check_sends (r : Registry) (ev : Readiness) (id' : ℕ) (d' : Direction) (id : ℕ)
    (d : Direction) :
    (r.check ev id' d').signals id d + r.sent.count (id, d) ≤
        r.signals id d + (r.check ev id' d').sent.count (id, d) ∧
      (r.check ev id' d').sent.count (id, d) ≤
        r.sent.count (id, d) + if d' = d then 1 else 0 := by
  unfold Registry.check
  by_cases hg : ev.wakes d' = false ∨ r.poisoned = true
  · rw [if_pos hg]
    omega
  rw [if_neg hg]
  rcases hk : r.sockets[id']? with _ | k
  · dsimp only
    omega
  rcases hi : (k.inbox d').trySend with _ | inbox
  · simp only [hi]
    change r.signals id d + _ ≤ r.signals id d + _ ∧ _
    omega
  simp only [hi, List.count_append, List.count_singleton, beq_iff_eq, Prod.mk.injEq]
  have hsig := (trySend_eq hi).2.2
  by_cases hsame : id' = id ∧ d' = d
  · obtain ⟨rfl, rfl⟩ := hsame
    have hset := List.getElem?_set_self (a := k.setInbox inbox d')
      (List.getElem?_eq_some_iff.mp hk).1
    have hnew : (r.setSocket id' (k.setInbox inbox d')).signals id' d' = inbox.signals := by
      simp only [Registry.signals, Registry.setSocket]
      rw [hset, Option.elim_some, setInbox_self]
    have hold : r.signals id' d' = (k.inbox d').signals := by
      simp only [Registry.signals, hk, Option.elim_some]
    change (r.setSocket id' (k.setInbox inbox d')).signals id' d' + _ ≤ _ ∧ _
    rw [hnew, hold, hsig]
    simp only [and_self, if_true]
    refine ⟨?_, by omega⟩
    split <;> omega
  · rw [if_neg hsame]
    refine ⟨?_, by split <;> omega⟩
    change (r.setSocket id' (k.setInbox inbox d')).signals id d + _ ≤ _
    have : (r.setSocket id' (k.setInbox inbox d')).signals id d ≤ r.signals id d := by
      by_cases hid : id' = id
      · subst hid
        have hd : d ≠ d' := fun hd => hsame ⟨rfl, hd.symm⟩
        refine signals_set hk ?_
        exact Nat.le_of_eq (by rw [setInbox_other k inbox hd])
      · simp only [Registry.signals, Registry.setSocket]
        exact Nat.le_of_eq (by rw [List.getElem?_set_ne hid])
    omega

theorem wakeEvent_sends (r : Registry) (ev : Readiness) (id : ℕ) (d : Direction) :
    (r.wakeEvent ev).signals id d + r.sent.count (id, d) ≤
        r.signals id d + (r.wakeEvent ev).sent.count (id, d) ∧
      (r.wakeEvent ev).sent.count (id, d) ≤ r.sent.count (id, d) + 1 := by
  unfold Registry.wakeEvent
  rcases r.entries ev.token with _ | ⟨id'⟩ | ⟨id'⟩
  · dsimp only
    omega
  · have h1 := check_sends r ev id' .readable id d
    dsimp only
    refine ⟨h1.1, Nat.le_trans h1.2 ?_⟩
    split <;> omega
  · have h1 := check_sends r ev id' .readable id d
    have h2 := check_sends (r.check ev id' .readable) ev id' .writable id d
    dsimp only
    refine ⟨by omega, ?_⟩
    cases d <;> simp at h1 h2 <;> omega

/-- One step of the registry, for one direction of a socket. -/
theorem moves_retries {r t : Registry} {e : Event} (hm : Moves r e t) (id : ℕ) (d : Direction) :
    t.signals id d + r.sent.count (id, d) +
        (if (IoEvent.net e).retries id d = true then 1 else 0) ≤
      r.signals id d + t.sent.count (id, d) ∧
    t.sent.count (id, d) ≤ r.sent.count (id, d) + if e = .wake then 1 else 0 := by
  have hframe : ∀ {id' : ℕ} {k : Socket} {stage : Stage}, r.sockets[id']? = some k →
      (r.setSocket id' { k with stage := stage }).signals id d ≤ r.signals id d := by
    intro id' k stage hk
    refine signals_set hk ?_
    cases d <;> exact Nat.le_refl _
  cases hm with
  | failed | refused | pollError | polled | locked | unlocked =>
    simp only [IoEvent.retries, Bool.false_eq_true, if_false, reduceCtorEq]
    exact ⟨Nat.le_refl _, Nat.le_refl _⟩
  | stopped =>
    simp only [IoEvent.retries, Bool.false_eq_true, if_false, if_true]
    exact ⟨Nat.le_refl _, Nat.le_succ _⟩
  | inserted call key =>
    simp only [IoEvent.retries, Bool.false_eq_true, if_false, reduceCtorEq]
    refine ⟨?_, Nat.le_refl _⟩
    change (r.insert call key).signals id d + _ ≤ r.signals id d + r.sent.count (id, d)
    have : (r.insert call key).signals id d ≤ r.signals id d := by
      unfold Registry.signals
      rcases hs : (r.insert call key).sockets[id]? with _ | s
      · exact Nat.zero_le _
      · rcases insert_socket hs with hs | ⟨_, rfl⟩
        · exact Nat.le_of_eq (by rw [hs])
        · cases d <;> exact Nat.zero_le _
    omega
  | abandoned id' k hk | sent id' k hk =>
    simp only [IoEvent.retries, Bool.false_eq_true, if_false, reduceCtorEq]
    exact ⟨Nat.add_le_add_right (hframe hk) _, Nat.le_refl _⟩
  | unregistered id' k hk =>
    simp only [IoEvent.retries, Bool.false_eq_true, if_false, reduceCtorEq]
    have hsent : ((r.remove k.token).setSocket id' { k with stage := .failed }).sent = r.sent := by
      unfold Registry.setSocket Registry.remove
      split <;> rfl
    have hsig : ((r.remove k.token).setSocket id' { k with stage := .failed }).signals id d =
        (r.setSocket id' { k with stage := .failed }).signals id d := by
      simp [Registry.signals, Registry.setSocket]
    rw [hsent, hsig]
    exact ⟨Nat.add_le_add_right (hframe hk) _, Nat.le_refl _⟩
  | acted id' a k k' hk ha =>
    simp only [reduceCtorEq, if_false]
    refine ⟨?_, Nat.le_refl _⟩
    have hact := act_signals (d := d) ha
    by_cases hid : id' = id
    · subst hid
      have hret : (IoEvent.net (.act id' a)).retries id' d =
          decide (a = .receive d ∨ (a = .writable ∧ d = .writable)) := by
        cases a <;> simp [IoEvent.retries]
      have hset := List.getElem?_set_self (a := k') (List.getElem?_eq_some_iff.mp hk).1
      simp only [hret, decide_eq_true_eq, Registry.signals, Registry.setSocket, hset, hk,
        Option.elim_some]
      omega
    · have hret : (IoEvent.net (.act id' a)).retries id d = false := by
        cases a <;> simp [IoEvent.retries, hid]
      simp only [hret, Bool.false_eq_true, if_false, Registry.signals, Registry.setSocket,
        List.getElem?_set_ne hid]
      exact Nat.le_refl _
  | woke ev rest stopped =>
    have hw := wakeEvent_sends r ev id d
    simp only [IoEvent.retries, Bool.false_eq_true, if_false, if_true]
    exact hw
  | freed token rest stopped =>
    simp only [IoEvent.retries, Bool.false_eq_true, if_false, reduceCtorEq]
    have hsent : (({ r with freeing := rest }.remove token).goOn (.waking [] stopped)).sent =
        r.sent := by
      unfold Registry.goOn Registry.remove
      split <;> rfl
    rw [hsent]
    refine ⟨?_, Nat.le_refl _⟩
    simp only [Registry.signals, goOn_sockets, remove_sockets]
    exact Nat.le_refl _

theorem io_retries {e : IoEvent} (hs : ioSystem.step n e = some m) (id : ℕ) (d : Direction) :
    m.registry.signals id d + n.registry.sent.count (id, d) +
        (if e.retries id d = true then 1 else 0) ≤
      n.registry.signals id d + m.registry.sent.count (id, d) ∧
    m.registry.sent.count (id, d) ≤
      n.registry.sent.count (id, d) + if e = .net .wake then 1 else 0 := by
  cases io_moves hs with
  | net e m hs =>
    obtain ⟨_, t, ht, rfl⟩ := net_step hs
    have := moves_retries (step_moves ht) id d
    simpa only [IoEvent.net.injEq] using this
  | _ =>
    simp only [IoEvent.retries, Bool.false_eq_true, if_false, reduceCtorEq]
    exact ⟨Nat.le_refl _, Nat.le_refl _⟩

theorem run_retries {es : List IoEvent} (hr : ioSystem.runFrom ioSystem.init es = some n) (id : ℕ)
    (d : Direction) :
    es.countP (·.retries id d) + n.registry.signals id d ≤ n.registry.sent.count (id, d) ∧
      n.registry.sent.count (id, d) ≤ es.count (.net .wake) := by
  induction es using List.reverseRecOn generalizing n with
  | nil =>
    cases hr
    exact ⟨Nat.le_refl _, Nat.le_refl _⟩
  | append_singleton es e ih =>
    obtain ⟨u, hu, hs⟩ := run_snoc hr
    obtain ⟨h1, h2⟩ := ih hu
    obtain ⟨h3, h4⟩ := io_retries hs id d
    rw [List.countP_append, List.countP_singleton, List.count_append, List.count_singleton]
    simp only [beq_iff_eq]
    split at h3 <;> split at h4 <;> simp_all <;> omega

/-- In every run, a direction of a socket goes round its loop again at most once for each signal that
the poller sent for it, and gets at most one signal for each event that the poller processed. -/
theorem retries_paid (ρ : Execution ioSystem) (id : ℕ) (d : Direction) :
    ρ.events.countP (·.retries id d) + ρ.final.registry.signals id d ≤
        ρ.final.registry.sent.count (id, d) ∧
      ρ.final.registry.sent.count (id, d) ≤ ρ.events.count (.net .wake) :=
  run_retries (Option.some_get ρ.fires).symm id d

end Net
