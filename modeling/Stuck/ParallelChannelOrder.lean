import Stuck.ParallelChannelLevels

/-! Conservation and order: the values popped from the deque of a parallel channel are a prefix
of the values pushed to it, and every call pushes or pops just what its result says. -/
namespace ParallelChannel

open TransitionSystem OneShot SharedTypes WaitQueue

variable {T : Type*} {c d m : Config T}

/-- The values pushed on behalf of a call, in order. -/
def Config.acceptedOf (c : Config T) (i : ℕ) : List T :=
  (c.accepted.filter fun entry => entry.1 == i).map Prod.snd

def Config.handedOf (c : Config T) (i : ℕ) : List T :=
  (c.handed.filter fun entry => entry.1 == i).map Prod.snd

/-- The stage of the call fits the values it has pushed. A panicked call is not accounted for. -/
def Call.Contributes : Call T → List T → Prop
  | .waiting (.send _ value) _ (.fired (.sent (.ok _))), values => values = [value]
  | .waiting (.send _ value) _ (.fired (.sent (.error (.closed returned)))), values =>
    returned = value ∧ values = []
  | .sent value (.ok _), values => values = [value]
  | .sent value (.error error), values => error.value = value ∧ values = []
  | .panicked _, _ => True
  | _, values => values = []

/-- The stage of the call fits the values it has popped. -/
def Call.Takes : Call T → List T → Prop
  | .waiting (.recv _) _ (.fired (.received (some value))), values => values = [value]
  | .received (.ok value), values => values = [value]
  | .panicked _, _ => True
  | _, values => values = []

structure Conserved (c : Config T) : Prop where
  order : c.accepted.map Prod.snd = c.handed.map Prod.snd ++ c.deque
  sent : ∀ i, (c.calls i).Contributes (c.acceptedOf i)
  taken : ∀ i, (c.calls i).Takes (c.handedOf i)

theorem initial_conserved (capacity : Capacity) : Conserved (initial (T := T) capacity) :=
  ⟨rfl, fun _ => rfl, fun _ => rfl⟩

private theorem valuesOf_append (log : List (ℕ × T)) (i j : ℕ) (values : List T) :
    ((log ++ values.map fun v => (i, v)).filter fun entry => entry.1 == j).map Prod.snd =
      (log.filter fun entry => entry.1 == j).map Prod.snd ++ if i = j then values else [] := by
  by_cases hij : i = j
  · subst hij
    simp [List.filter_append, List.filter_map, Function.comp_def]
  · simp [List.filter_append, List.filter_map, Function.comp_def, hij]

/-- One call moves on while values are pushed and popped on its behalf. -/
theorem Conserved.update (h : Conserved c) {i : ℕ} {k : Call T} {p q : List T}
    (hc : d.calls = Function.update c.calls i k)
    (ha : d.accepted = c.accepted ++ p.map fun v => (i, v))
    (hh : d.handed = c.handed ++ q.map fun v => (i, v)) (hd : c.deque ++ p = q ++ d.deque)
    (hs : k.Contributes (c.acceptedOf i ++ p)) (ht : k.Takes (c.handedOf i ++ q)) :
    Conserved d where
  order := by
    rw [ha, hh]
    simp only [List.map_append, List.map_map, Function.comp_def, List.map_id', h.order,
      List.append_assoc]
    rw [hd]
  sent j := by
    have hj := valuesOf_append c.accepted i j p
    rw [Config.acceptedOf, ha, hj, hc]
    by_cases hij : i = j
    · subst hij
      simpa [Config.acceptedOf] using hs
    · rw [Function.update_of_ne (Ne.symm hij)]
      simpa [hij, Config.acceptedOf] using h.sent j
  taken j := by
    have hj := valuesOf_append c.handed i j q
    rw [Config.handedOf, hh, hj, hc]
    by_cases hij : i = j
    · subst hij
      simpa [Config.handedOf] using ht
    · rw [Function.update_of_ne (Ne.symm hij)]
      simpa [hij, Config.handedOf] using h.taken j

theorem Conserved.of_eq (h : Conserved c) (hc : d.calls = c.calls) (ha : d.accepted = c.accepted)
    (hh : d.handed = c.handed) (hd : d.deque = c.deque) : Conserved d where
  order := by rw [ha, hh, hd]; exact h.order
  sent i := by rw [hc, Config.acceptedOf, ha]; exact h.sent i
  taken i := by rw [hc, Config.handedOf, hh]; exact h.taken i

/-- One call moves on and the deque stays. -/
theorem Conserved.move (h : Conserved c) {i : ℕ} {k : Call T}
    (hc : d.calls = Function.update c.calls i k) (ha : d.accepted = c.accepted)
    (hh : d.handed = c.handed) (hd : d.deque = c.deque)
    (hs : ∀ values, (c.calls i).Contributes values → k.Contributes values)
    (ht : ∀ values, (c.calls i).Takes values → k.Takes values) : Conserved d :=
  h.update (i := i) (k := k) (p := []) (q := []) hc (by simp [ha]) (by simp [hh]) (by simp [hd])
    (by simpa using hs _ (h.sent i)) (by simpa using ht _ (h.taken i))

theorem Conserved.accepted_created (h : Conserved c) (hw : WellFormed c) :
    c.acceptedOf c.created = [] := by
  have := h.sent c.created
  rwa [hw.fresh _ (Nat.le_refl _)] at this

theorem Conserved.handed_created (h : Conserved c) (hw : WellFormed c) :
    c.handedOf c.created = [] := by
  have := h.taken c.created
  rwa [hw.fresh _ (Nat.le_refl _)] at this

theorem Conserved.begin (h : Conserved c) (hw : WellFormed c) {k : Call T}
    (hs : k.Contributes []) (ht : k.Takes []) : Conserved (c.begin k) :=
  h.update (i := c.created) (k := k) (p := []) (q := []) rfl (by simp [Config.begin])
    (by simp [Config.begin]) (by simp [Config.begin])
    (by simpa [h.accepted_created hw] using hs) (by simpa [h.handed_created hw] using ht)

/-- A call starts that has moved no value, and the deque stays. -/
theorem Conserved.start (h : Conserved c) (hw : WellFormed c) {k : Call T}
    (hc : d.calls = Function.update c.calls c.created k) (ha : d.accepted = c.accepted)
    (hh : d.handed = c.handed) (hd : d.deque = c.deque)
    (hs : k.Contributes []) (ht : k.Takes []) : Conserved d :=
  (h.begin hw hs ht).of_eq hc ha hh hd

/-- The call is pending, so it has pushed nothing and popped nothing. -/
theorem Call.Contributes.of_pending {call : Call T} (hp : call.pending = true) {values : List T}
    (h : call.Contributes values) : values = [] := by
  cases call with
  | waiting op watched cell =>
    have : cell = .pending := by simpa [pending] using hp
    subst this
    cases op <;> exact h
  | _ => cases hp

theorem Call.Takes.of_pending {call : Call T} (hp : call.pending = true) {values : List T}
    (h : call.Takes values) : values = [] := by
  cases call with
  | waiting op watched cell =>
    have : cell = .pending := by simpa [pending] using hp
    subst this
    cases op <;> exact h
  | _ => cases hp

/-- The outcome tells a sender of `value` what its value has come to, without pushing it. -/
def Outcome.Harmless (call : Call T) (o : Outcome T) : Prop :=
  (∀ values, call.Contributes values → (call.fire o).Contributes values) ∧
    ∀ values, call.Takes values → (call.fire o).Takes values

theorem Call.harmless_select {call : Call T} {side : Side} {s : Selector}
    (hs : call.selects side s = true) (o : Outcome T) : o.Harmless call := by
  cases call with
  | waiting op watched cell =>
    cases op with
    | select =>
      cases cell with
      | pending =>
        cases o with
        | sent result => rcases result with ⟨_⟩ | _ <;> exact ⟨fun _ => id, fun _ => id⟩
        | received value => cases value <;> exact ⟨fun _ => id, fun _ => id⟩
        | _ => exact ⟨fun _ => id, fun _ => id⟩
      | _ => exact ⟨fun _ => id, fun _ => id⟩
    | _ => cases hs
  | _ => exact ⟨fun _ => id, fun _ => id⟩

theorem Conserved.fire (h : Conserved c) {i : ℕ} {o : Outcome T}
    (ho : o.Harmless (c.calls i)) : Conserved (c.fire i o) :=
  h.move (i := i) rfl rfl rfl rfl ho.1 ho.2

theorem Conserved.grantSender (h : Conserved c) {w : Waiter T} (hv : w.Valid c.calls)
    (hl : w.live c.calls = true) : Conserved (c.grantSender w) := by
  have hnone := (h.sent w.call).of_pending hl
  have hnone' := (h.taken w.call).of_pending hl
  cases w with
  | task i value =>
    obtain ⟨status, watched, cell, hc, _⟩ := hv
    simp only [Waiter.live, Waiter.call, hc, Call.pending, Cell.isPending_iff] at hl hnone hnone'
    subst hl
    refine h.update (i := i) (k := .waiting (.send (.task status) value) watched
      (.fired (.sent (.ok ())))) (p := [value]) (q := []) ?_ rfl (by simp [Config.grantSender,
        Config.pushBack, Config.fire, Config.finish]) rfl (by rw [hnone]; rfl) (by rw [hnone']; rfl)
    simp [Config.grantSender, Config.pushBack, Config.fire, Config.finish, hc, Call.fire, Cell.fire]
  | thread i value =>
    obtain ⟨watched, hc⟩ := hv
    simp only [Waiter.call] at hnone hnone'
    refine h.update (i := i) (k := .waiting (.send .thread value) watched
      (.fired (.sent (.ok ())))) (p := [value]) (q := []) ?_ rfl (by simp [Config.grantSender,
        Config.pushBack, Config.fire, Config.finish]) rfl (by rw [hnone]; rfl) (by rw [hnone']; rfl)
    simp [Config.grantSender, Config.pushBack, Config.fire, Config.finish, hc, Call.fire, Cell.fire]
  | selector s => exact (h.fire (Call.harmless_select hv _)).of_eq rfl rfl rfl rfl

theorem Conserved.grantReceiver (h : Conserved c) {w : RecvWaiter} (hv : w.Valid c.calls)
    (hl : w.live c.calls = true) : Conserved (c.grantReceiver w) := by
  have hnone := (h.sent w.call).of_pending hl
  have hnone' := (h.taken w.call).of_pending hl
  cases w with
  | task i =>
    obtain ⟨status, watched, cell, hc, _⟩ := hv
    simp only [RecvWaiter.live, RecvWaiter.call, hc, Call.pending, Cell.isPending_iff] at hl
    subst hl
    refine (h.fire (i := i) (o := .permit .consume) ?_).of_eq rfl rfl rfl rfl
    rw [hc]
    exact ⟨fun _ => id, fun _ => id⟩
  | thread i =>
    obtain ⟨watched, hc⟩ := hv
    simp only [RecvWaiter.call] at hnone hnone'
    simp only [Config.grantReceiver]
    cases hd : c.deque with
    | nil => exact h.of_eq rfl rfl rfl rfl
    | cons value rest =>
      refine h.update (i := i) (k := .waiting (.recv .thread) watched
        (.fired (.received (some value)))) (p := []) (q := [value]) ?_ (by simp [Config.popFront,
          Config.fire, Config.finish]) rfl (by simp [hd, Config.popFront, Config.fire,
          Config.finish]) (by rw [hnone]; rfl) (by rw [hnone']; rfl)
      simp [Config.popFront, Config.fire, Config.finish, hc, Call.fire, Cell.fire]
  | selector s => exact (h.fire (Call.harmless_select hv _)).of_eq rfl rfl rfl rfl

theorem Conserved.wakeSender (h : Conserved c) (hw : WellFormed c) : Conserved c.wakeSender := by
  rcases wakeSender_cases hw.senders_valid with ⟨_, he⟩ | ⟨w, rest, ht, he⟩
  · rw [he]; exact h.of_eq rfl rfl rfl rfl
  · rw [he]
    exact Conserved.grantSender (c := { c with senders := rest }) (h.of_eq rfl rfl rfl rfl)
      (hw.senders_valid w (takeFirst_mem ht)) (takeFirst_eq_some ht).1

theorem Conserved.wakeReceiver (h : Conserved c) (hw : WellFormed c) :
    Conserved c.wakeReceiver := by
  rcases wakeReceiver_cases hw.receivers_valid with ⟨_, he⟩ | ⟨w, rest, ht, he⟩
  · rw [he]; exact h.of_eq rfl rfl rfl rfl
  · rw [he]
    exact Conserved.grantReceiver (c := { c with receivers := rest }) (h.of_eq rfl rfl rfl rfl)
      (hw.receivers_valid w (takeFirst_mem ht)) (takeFirst_eq_some ht).1

theorem Conserved.fireAll (h : Conserved c) {wakes : List (ℕ × Outcome T)}
    (hn : ∀ wake ∈ wakes, wake.2.Harmless (c.calls wake.1)) : Conserved (c.fireAll wakes) := by
  have he := fireAll_eq c wakes
  refine ⟨by rw [he]; exact h.order, fun i => ?_, fun i => ?_⟩
  · have ha : (c.fireAll wakes).acceptedOf i = c.acceptedOf i := by rw [he]; rfl
    rw [ha]
    rcases fireAll_calls c wakes i with ⟨hc, _⟩ | ⟨wake, hm, rfl, hc⟩
    · rw [hc]; exact h.sent i
    · rw [hc]; exact (hn wake hm).1 _ (h.sent _)
  · have ha : (c.fireAll wakes).handedOf i = c.handedOf i := by rw [he]; rfl
    rw [ha]
    rcases fireAll_calls c wakes i with ⟨hc, _⟩ | ⟨wake, hm, rfl, hc⟩
    · rw [hc]; exact h.taken i
    · rw [hc]; exact (hn wake hm).2 _ (h.taken _)

/-- A closing channel hands its own value back to each blocked sender. -/
theorem Waiter.Valid.closing_harmless {calls : ℕ → Call T} {w : Waiter T} (h : w.Valid calls) :
    w.closing.2.Harmless (calls w.call) := by
  cases w with
  | task i value =>
    obtain ⟨status, watched, cell, hc, hp⟩ := h
    rw [Waiter.closing, Waiter.call, hc]
    rcases hp with rfl | rfl
    · exact ⟨fun _ hv => ⟨rfl, hv⟩, fun _ => id⟩
    · exact ⟨fun _ => id, fun _ => id⟩
  | thread i value =>
    obtain ⟨watched, hc⟩ := h
    rw [Waiter.closing, Waiter.call, hc]
    exact ⟨fun _ hv => ⟨rfl, hv⟩, fun _ => id⟩
  | selector s => exact Call.harmless_select h _

theorem RecvWaiter.Valid.closing_harmless {calls : ℕ → Call T} {w : RecvWaiter}
    (h : w.Valid calls) : (w.closing : ℕ × Outcome T).2.Harmless (calls w.call) := by
  cases w with
  | task i =>
    obtain ⟨status, watched, cell, hc, hp⟩ := h
    rw [RecvWaiter.closing, RecvWaiter.call, hc]
    rcases hp with rfl | rfl <;> exact ⟨fun _ => id, fun _ => id⟩
  | thread i =>
    obtain ⟨watched, hc⟩ := h
    rw [RecvWaiter.closing, RecvWaiter.call, hc]
    exact ⟨fun _ => id, fun _ => id⟩
  | selector s => exact Call.harmless_select h _

theorem Conserved.closeSenders (h : Conserved c) (hw : WellFormed c) (closed : Bool) :
    Conserved { c with closed := closed }.closeSenders := by
  rw [closeSenders_eq]
  apply Conserved.fireAll (c := { c with closed := closed, senders := [] })
    (h.of_eq rfl rfl rfl rfl)
  intro wake hmem
  obtain ⟨w, hm, rfl⟩ := List.mem_map.mp hmem
  rw [Waiter.closing_call]
  exact (hw.senders_valid w hm).closing_harmless

theorem Conserved.closeReceivers (h : Conserved c) (hw : WellFormed c) :
    Conserved c.closeReceivers := by
  rw [closeReceivers_eq]
  apply Conserved.fireAll (c := { c with receivers := [] }) (h.of_eq rfl rfl rfl rfl)
  intro wake hmem
  obtain ⟨w, hm, rfl⟩ := List.mem_map.mp hmem
  rw [RecvWaiter.closing_call]
  exact (hw.receivers_valid w hm).closing_harmless

theorem Conserved.close (h : Conserved c) (hw : WellFormed c) : Conserved c.close := by
  unfold Config.close
  dsimp only
  split
  · exact (h.closeSenders hw true).closeReceivers (hw.closeSenders true)
  · exact h.closeSenders hw true

theorem Conserved.panic (h : Conserved c) (i : ℕ) (op : Op T) :
    Conserved (c.finish i (.panicked op)).poison :=
  h.move (i := i) (k := .panicked op) rfl rfl rfl rfl (fun _ _ => trivial) fun _ _ => trivial

theorem Call.Takes.of_holds {call : Call T} {side : Side} (hh : call.holds side = true)
    {values : List T} (h : call.Takes values) : values = [] := by
  cases call with
  | waiting op watched cell =>
    cases op <;> cases cell <;> first | cases hh | skip
    all_goals
      rename_i o
      cases o <;> first | cases hh | exact h
  | permitted => exact h
  | _ => cases hh

theorem Call.Contributes.of_holds {call : Call T} {side : Side} (hh : call.holds side = true)
    {values : List T} (h : call.Contributes values) : values = [] := by
  cases call with
  | waiting op watched cell =>
    cases op <;> cases cell <;> first | cases hh | skip
    all_goals
      rename_i o
      cases o <;> first | cases hh | exact h
  | permitted => exact h
  | _ => cases hh

theorem Conserved.takeReserved (h : Conserved c) {i : ℕ} {side : Side}
    (hh : (c.calls i).holds side = true) {value : T} {rest : List T}
    (hd : c.deque = value :: rest) : Conserved (c.takeReserved i value rest) :=
  h.update (i := i) (k := .received (.ok value)) (p := []) (q := [value]) rfl
    (by simp [Config.takeReserved, Config.popFront, Config.finish]) rfl
    (by simp [hd, Config.takeReserved, Config.popFront])
    (by rw [(h.sent i).of_holds hh]; rfl) (by rw [(h.taken i).of_holds hh]; rfl)

theorem Conserved.fillReserved (h : Conserved c) {i : ℕ} {side : Side}
    (hh : (c.calls i).holds side = true) (value : T) : Conserved (c.fillReserved i value) :=
  h.update (i := i) (k := .sent value (.ok ())) (p := [value]) (q := []) rfl rfl
    (by simp [Config.fillReserved, Config.pushBack, Config.finish])
    (by simp [Config.fillReserved, Config.pushBack, Config.finish])
    (by rw [(h.sent i).of_holds hh]; rfl) (by rw [(h.taken i).of_holds hh]; rfl)

theorem ConsumesRecv.conserved {i : ℕ} {op : Op T} (hs : ConsumesRecv c i op d)
    (h : Conserved c) (hw : WellFormed c) (hi : Detached c i)
    (hh : (c.calls i).holds .recv = true) : Conserved d := by
  cases hs with
  | underflow => exact h.panic i op
  | drained =>
    refine h.move (i := i) (k := .received (.error .closed)) rfl rfl rfl rfl ?_ ?_
    · exact fun values hv => hv.of_holds hh
    · exact fun values hv => hv.of_holds hh
  | kept _ hd => exact h.takeReserved hh hd
  | refilled _ hd => exact (h.takeReserved hh hd).wakeSender (hw.takeReserved hi _ _)
  | exhausted _ hd => exact (h.takeReserved hh hd).closeReceivers (hw.takeReserved hi _ _)

theorem ConsumesSend.conserved {i : ℕ} {op : Op T} {value : T} (hs : ConsumesSend c i op value d)
    (h : Conserved c) (hw : WellFormed c) (hi : Detached c i)
    (hh : (c.calls i).holds .send = true) : Conserved d := by
  cases hs with
  | noPermit => exact h.panic i op
  | noSlot =>
    exact Conserved.panic (c := { c with sendPermits := c.sendPermits - 1 })
      (h.of_eq rfl rfl rfl rfl) i op
  | delivered => exact (h.fillReserved hh value).wakeReceiver (hw.fillReserved hi value)
  | stored => exact h.fillReserved hh value

theorem WatchesSend.conserved {s : Selector} {available : Bool}
    (hs : WatchesSend c s (d, available)) (h : Conserved c)
    (hb : (c.calls s.waker).selects .send s = true) : Conserved d := by
  cases hs with
  | closed => exact h.fire (Call.harmless_select hb _)
  | granted => exact (h.fire (Call.harmless_select hb _)).of_eq rfl rfl rfl rfl
  | late => exact h
  | queued => exact h.of_eq rfl rfl rfl rfl

theorem WatchesRecv.conserved {s : Selector} {available : Bool}
    (hs : WatchesRecv c s (d, available)) (h : Conserved c)
    (hb : (c.calls s.waker).selects .recv s = true) : Conserved d := by
  cases hs with
  | closed => exact h.fire (Call.harmless_select hb _)
  | granted => exact (h.fire (Call.harmless_select hb _)).of_eq rfl rfl rfl rfl
  | late => exact h
  | queued => exact h.of_eq rfl rfl rfl rfl

theorem Call.watched_contributes {caller : Caller} {slice : Slice} {identifier : ℕ}
    (watched watched' : List ℕ) (cell : Cell (Outcome T)) {values : List T} :
    (Call.waiting (.select caller slice identifier) watched cell).Contributes values →
      (Call.waiting (.select caller slice identifier) watched' cell).Contributes values := by
  cases cell with
  | fired o => cases o <;> exact id
  | _ => exact id

theorem Call.watched_takes {caller : Caller} {slice : Slice} {identifier : ℕ}
    (watched watched' : List ℕ) (cell : Cell (Outcome T)) {values : List T} :
    (Call.waiting (.select caller slice identifier) watched cell).Takes values →
      (Call.waiting (.select caller slice identifier) watched' cell).Takes values := by
  cases cell with
  | fired o => cases o <;> exact id
  | _ => exact id

theorem Checks.conserved {i index identifier : ℕ} {available ready : Bool} {caller : Caller}
    {slice : Slice} {watched : List ℕ} {cell : Cell (Outcome T)}
    (hk : Checks c i index available ready d) (h : Conserved c)
    (hc : c.calls i = .waiting (.select caller slice identifier) watched cell) : Conserved d := by
  cases hk with
  | counted =>
    refine h.move (i := i) rfl rfl rfl rfl ?_ ?_
    · rw [hc]; exact fun _ => Call.watched_contributes _ _ _
    · rw [hc]; exact fun _ => Call.watched_takes _ _ _
  | broken => exact h

theorem Conserved.removeReceiver (h : Conserved c) (hw : WellFormed c) (position : ℕ) :
    Conserved (c.removeReceiver position) := by
  unfold Config.removeReceiver
  split
  next w hm =>
    cases w with
    | task i =>
      obtain ⟨status, watched, cell, hc, hp⟩ := hw.receivers_valid _ (List.mem_of_getElem? hm)
      refine h.move (i := i) (k := (c.calls i).cancel) rfl rfl rfl rfl ?_ ?_ <;> rw [hc] <;>
        rcases hp with rfl | rfl <;> exact fun _ => id
    | thread | selector => exact h.of_eq rfl rfl rfl rfl
  next => exact h

theorem Conserved.unwatchSendPermit (h : Conserved c) (hw : WellFormed c) (identifier : ℕ) :
    Conserved (c.unwatchSendPermit identifier) := by
  unfold Config.unwatchSendPermit
  split
  · exact h.removeReceiver hw _
  · exact h

theorem Conserved.unwatchRecvPermit (h : Conserved c) (hw : WellFormed c) (identifier : ℕ) :
    Conserved (c.unwatchRecvPermit identifier) := by
  unfold Config.unwatchRecvPermit
  split
  · exact h.removeReceiver hw _
  · exact h

theorem Conserved.unwatch (h : Conserved c) {i index identifier : ℕ} {caller : Caller}
    {slice : Slice} {watched : List ℕ} {cell : Cell (Outcome T)}
    (hc : c.calls i = .waiting (.select caller slice identifier) watched cell) : Conserved
      (c.finish i (.waiting (.select caller slice identifier) (watched.erase index) cell)) := by
  refine h.move (i := i) rfl rfl rfl rfl ?_ ?_
  · rw [hc]; exact fun _ => Call.watched_contributes _ _ _
  · rw [hc]; exact fun _ => Call.watched_takes _ _ _

theorem Conserved.takeFree (h : Conserved c) (hw : WellFormed c) {value : T} {rest : List T}
    (hd : c.deque = value :: rest) : Conserved (c.takeFree value rest) := by
  have hpop : Conserved ((c.begin (.received (.ok value))).popFront c.created value rest) :=
    h.update (i := c.created) (k := .received (.ok value)) (p := []) (q := [value]) rfl
      (by simp [Config.popFront, Config.begin]) rfl (by simp [hd, Config.popFront])
      (by rw [h.accepted_created hw]; rfl) (by rw [h.handed_created hw]; rfl)
  exact hpop.wakeSender ((hw.begin (.received (.ok value))).of_eq rfl rfl rfl rfl rfl)

theorem Conserved.step (h : Conserved c) (hw : WellFormed c) {e : Event T} (hm : Move c e d) :
    Conserved d := by
  cases hm with
  | sendRefused he => exact h.begin hw ⟨he, rfl⟩ rfl
  | sendPanicked | recvPanicked => exact h.start hw rfl rfl rfl rfl trivial trivial
  | @sendNow caller trying value =>
    have hpush : Conserved ((c.begin (.sent value (.ok ()))).pushBack c.created value) :=
      h.update (i := c.created) (k := .sent value (.ok ())) (p := [value]) (q := []) rfl rfl
        (by simp [Config.pushBack, Config.begin]) (by simp [Config.pushBack, Config.begin])
        (by rw [h.accepted_created hw]; rfl) (by rw [h.handed_created hw]; rfl)
    exact hpush.wakeReceiver ((hw.begin (.sent value (.ok ()))).of_eq rfl rfl rfl rfl rfl)
  | sendTask | sendThread | recvTask | recvThread | selectStarted =>
    exact h.start hw rfl rfl rfl rfl rfl rfl
  | recvRefused => exact h.begin hw rfl rfl
  | recvNow hd => exact h.takeFree hw hd
  | @recvOverflowed caller _ _ _ hd => exact (h.takeFree hw hd).panic c.created (.recv caller)
  | sendReturned hc =>
    refine h.move rfl rfl rfl rfl ?_ ?_ <;> rw [hc]
    · rename_i result
      rcases result with ⟨_⟩ | _ <;> exact fun _ => id
    · exact fun _ => id
  | recvClosed hc ho =>
    refine h.move rfl rfl rfl rfl ?_ ?_ <;> rw [hc] <;> rcases ho with rfl | rfl <;>
      exact fun _ => id
  | recvReturned hc => refine h.move rfl rfl rfl rfl ?_ ?_ <;> rw [hc] <;> exact fun _ => id
  | waitPanicked =>
    exact h.move rfl rfl rfl rfl (fun _ _ => trivial) fun _ _ => trivial
  | recvResumed hc _ hs =>
    exact hs.conserved h hw (hw.detached_of_woken hc) (by rw [hc]; rfl)
  | selectReturned hc | returnedElsewhere hc =>
    refine h.move rfl rfl rfl rfl ?_ ?_ <;> rw [hc] <;> exact fun _ => id
  | @cancelled i op _ hc =>
    refine h.move rfl rfl rfl rfl ?_ ?_ <;> rw [hc] <;> cases op <;> exact fun _ => id
  | sendSelected hi he =>
    rcases selectSendPermit_cases c.toState with ⟨_, h'⟩ | ⟨_, _, h'⟩ | ⟨_, _, h'⟩ <;>
      rw [h'] at he <;> cases he
    all_goals exact h.start hw rfl rfl rfl rfl rfl rfl
  | recvSelected hi he =>
    rcases selectRecvPermit_cases c.toState with ⟨_, h'⟩ | ⟨_, _, _, h'⟩ | ⟨_, _, h'⟩ <;>
      rw [h'] at he <;> cases he
    all_goals exact h.start hw rfl rfl rfl rfl rfl rfl
  | sendWatched hc hn hi hs hk =>
    obtain ⟨cell, hd, _⟩ := hs.waiting hc hn
    exact hk.conserved (hs.conserved h (by simp [hc, Call.selects, hi])) hd
  | recvWatched hc hn hi hs hk =>
    obtain ⟨cell, hd, _⟩ := hs.waiting hc hn
    exact hk.conserved (hs.conserved h (by simp [hc, Call.selects, hi])) hd
  | firedElsewhere hc =>
    refine h.fire ?_
    rw [hc]
    exact ⟨fun _ => id, fun _ => id⟩
  | sendUnwatched hc =>
    exact (h.unwatchSendPermit hw _).unwatch
      ((hw.unwatchSendPermit_calls (by simp [hc, Call.receives]) _).trans hc)
  | recvUnwatched hc =>
    exact (h.unwatchRecvPermit hw _).unwatch
      ((hw.unwatchRecvPermit_calls (by simp [hc, Call.receives]) _).trans hc)
  | sendDetached hc =>
    refine h.move rfl rfl rfl rfl ?_ ?_ <;> rw [hc]
    · exact fun _ hv => ⟨rfl, hv⟩
    · exact fun _ => id
  | recvDetached hc => refine h.move rfl rfl rfl rfl ?_ ?_ <;> rw [hc] <;> exact fun _ => id
  | sendConsumed hc hi _ hs =>
    exact hs.conserved h hw (hw.detached_of_permitted hc) (by simp [hc, Call.holds, hi])
  | recvConsumed hc hi _ hs =>
    exact hs.conserved h hw (hw.detached_of_permitted hc) (by simp [hc, Call.holds, hi])
  | closed => exact h.close hw

variable {capacity : Capacity}

theorem reachable_conserved (h : Reachable (system T capacity) c) : Conserved c :=
  Reachable.invariant_over (B := Invariant) (I := Conserved) (fun _ => reachable_invariant)
    (initial_conserved capacity)
    (fun _ _ _ hi hc hs => hc.step hi.wellFormed (move_of_step hs)) h

/-- What is handed out is a prefix of what is accepted, the deque holding the rest. A send that
returned `Ok` has its value accepted once, a send that returned an error keeps its own value and
has none accepted, and an interrupted send has none accepted. -/
theorem values_conserved (h : Reachable (system T capacity) c) :
    c.handed.map Prod.snd <+: c.accepted.map Prod.snd ∧
      c.accepted.map Prod.snd = c.handed.map Prod.snd ++ c.deque ∧
      ∀ i, (∀ value, c.calls i = .sent value (.ok ()) → c.acceptedOf i = [value]) ∧
        (∀ value error, c.calls i = .sent value (.error error) →
          error.value = value ∧ c.acceptedOf i = []) ∧
        (∀ caller value watched, c.calls i = .waiting (.send caller value) watched .cancelled →
          c.acceptedOf i = []) ∧
        ∀ value, c.calls i = .received (.ok value) → c.handedOf i = [value] := by
  have hc := reachable_conserved h
  refine ⟨hc.order ▸ List.prefix_append _ _, hc.order, fun i => ⟨?_, ?_, ?_, ?_⟩⟩
  · intro value hi
    simpa [hi, Call.Contributes] using hc.sent i
  · intro value error hi
    simpa [hi, Call.Contributes] using hc.sent i
  · intro caller value watched hi
    simpa [hi, Call.Contributes] using hc.sent i
  · intro value hi
    simpa [hi, Call.Takes] using hc.taken i

/-- The first of two blocked senders is interrupted, and the receive that frees the slot passes
it over. -/
def interruptedTrace : List (Event ℕ) :=
  [.send (.task .running) false 1, .send (.task .running) false 2, .send (.task .running) false 3,
    .cancel 1, .recv (.task .running) false]

theorem interrupted_values_conserved :
    ∃ c : Config ℕ, (system ℕ ⟨1, by decide⟩).runFrom (initial ⟨1, by decide⟩) interruptedTrace =
        some c ∧ c.accepted = [(0, 1), (2, 3)] ∧ c.handed = [(3, 1)] ∧
      c.handed.map Prod.snd <+: c.accepted.map Prod.snd ∧ c.acceptedOf 1 = [] := by
  refine ⟨_, rfl, rfl, rfl, ?_⟩
  have hr := run_reachable (M := system ℕ ⟨1, by decide⟩) interruptedTrace rfl
  obtain ⟨hp, _, hcalls⟩ := values_conserved hr
  exact ⟨hp, (hcalls 1).2.2.1 (.task .running) 2 [] rfl⟩

end ParallelChannel
