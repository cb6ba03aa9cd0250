import Stuck.SerialChannelQueues

/-! No waiter of a serial channel is stranded. Each operation wakes one peer only, so the values
that lie before a waiting receiver, or the slots before a waiting sender, have to be matched by
peers that are woken and still to come. -/
namespace SerialChannel

open TransitionSystem OneShot SharedTypes

variable {T : Type*} {c d : Config T} {i : ℕ} {side : Side}

/-- The coroutine of the call is suspended on this side. -/
def Call.suspended : Call T → Side → Bool
  | .sending _ .pending, .send => true
  | .receiving .pending, .recv => true
  | _, _ => false

/-- The call was woken on this side and has not resumed; a `select!` has not consumed. -/
def Call.woken : Call T → Side → Bool
  | .sending _ (.fired _), .send => true
  | .receiving (.fired _), .recv => true
  | .selecting slice _ _ (.fired (some index)), side => slice[index]?.join == some side
  | .permitted woken, .send => woken
  | _, _ => false

def Config.woken (c : Config T) (side : Side) : ℕ :=
  Nat.count (fun i => (c.calls i).woken side = true) c.created

/-- A suspended coroutine or a selector that has not fired. -/
def Waker.live (calls : ℕ → Call T) : Waker → Bool
  | .selector s => (calls s.waker).applies
  | .resumption i => (calls i).suspended .send || (calls i).suspended .recv

def Config.LiveQueued (c : Config T) (side : Side) : Prop :=
  ∃ w ∈ c.queue side, w.live c.calls = true

/-- Nobody waits beside a value, a slot or the end of the channel that is not spoken for. -/
structure Served (c : Config T) : Prop where
  receivers : c.closed = false → c.LiveQueued .recv → c.deque.length ≤ c.woken .recv
  senders : c.closed = false → c.LiveQueued .send → c.bound - c.deque.length ≤ c.woken .send
  drained : c.closed = true → ∀ side, ¬ c.LiveQueued side

/-- A queued resumption belongs to a coroutine that is suspended there, and it is the only one. -/
structure Sound (c : Config T) : Prop extends WellFormed c where
  suspended : ∀ side i, .resumption i ∈ c.queue side → (c.calls i).suspended side = true
  once : ∀ side i, (c.queue side).count (.resumption i) ≤ 1

structure Attended (c : Config T) : Prop extends Sound c where
  served : c.closed = false → ∀ side, c.LiveQueued side → c.stock side ≤ c.woken side
  drained : c.closed = true → ∀ side, ¬ c.LiveQueued side

theorem Attended.toServed (h : Attended c) : Served c :=
  ⟨fun ho hl => h.served ho .recv hl, fun ho hl => h.served ho .send hl, h.drained⟩

theorem woken_update {call : Call T} (hd : d.calls = Function.update c.calls i call)
    (hn : d.created = c.created) (hi : i < c.created) (side : Side) :
    d.woken side + (if (c.calls i).woken side then 1 else 0) =
      c.woken side + if call.woken side then 1 else 0 := by
  unfold Config.woken
  rw [hd, hn]
  exact Census.count_update (p := fun k : Call T => k.woken side = true) c.calls hi call

theorem woken_begin (call : Call T) (side : Side) :
    (c.begin call).woken side = c.woken side + if call.woken side then 1 else 0 :=
  Census.count_update_succ (p := fun k : Call T => k.woken side = true) c.calls c.created call

theorem woken_congr (hd : d.calls = c.calls) (hn : d.created = c.created) :
    d.woken side = c.woken side := by
  unfold Config.woken
  rw [hd, hn]

/-- The call is neither suspended nor in a `select!` that waits. -/
def Call.Quiet (call : Call T) : Prop := call.applies = false ∧ ∀ side, call.suspended side = false

theorem Sound.absent (h : Sound c) (hs : ∀ side, (c.calls i).suspended side = false) (side : Side) :
    Waker.resumption i ∉ c.queue side := by
  intro hm
  have := h.suspended side i hm
  rw [hs] at this
  cases this

theorem Sound.update (h : Sound c) {call : Call T}
    (hd : d.calls = Function.update c.calls i call) (hn : d.created = c.created)
    (hi : i < c.created)
    (hs : ∀ slice, call.slice = some slice → (c.calls i).slice = some slice)
    (hq : ∀ side, (d.queue side).Sublist (c.queue side))
    (habsent : ∀ side, Waker.resumption i ∉ d.queue side) : Sound d where
  toWellFormed := h.toWellFormed.update hd hn hi hs fun side _ hw => (hq side).subset hw
  suspended side j hj := by
    have hji : j ≠ i := by
      rintro rfl
      exact habsent side hj
    rw [hd]
    simpa [hji] using h.suspended side j ((hq side).subset hj)
  once side j := ((hq side).count_le _).trans (h.once side j)

theorem live_update {call : Call T} (hd : d.calls = Function.update c.calls i call)
    (hc : call.Quiet) {w : Waker} (hw : w.live d.calls = true) : w.live c.calls = true := by
  obtain ⟨happlies, hsuspended⟩ := hc
  rw [hd] at hw
  cases w with
  | selector s =>
    by_cases hsi : s.waker = i
    · simp [Waker.live, hsi, happlies] at hw
    · simpa [Waker.live, hsi] using hw
  | resumption j =>
    by_cases hji : j = i
    · simp [Waker.live, hji, hsuspended] at hw
    · simpa [Waker.live, hji] using hw

theorem liveQueued_update {call : Call T} (hd : d.calls = Function.update c.calls i call)
    (hc : call.Quiet) (hq : ∀ side, (d.queue side).Sublist (c.queue side))
    (hl : d.LiveQueued side) : c.LiveQueued side := by
  obtain ⟨w, hw, hlive⟩ := hl
  exact ⟨w, (hq side).subset hw, live_update hd hc hlive⟩

theorem Sound.requeue (h : Sound c) (hd : Requeue c d)
    (hq : ∀ side, (d.queue side).Sublist (c.queue side)) : Sound d where
  toWellFormed := h.toWellFormed.requeue hd fun side _ hw => (hq side).subset hw
  suspended side j hj := by
    rw [hd.calls]
    exact h.suspended side j ((hq side).subset hj)
  once side j := ((hq side).count_le _).trans (h.once side j)

/-- What waking in a queue achieves: either nobody live is left there or one more is woken. -/
structure Wakes (side : Side) (c d : Config T) : Prop where
  sound : Sound d
  live : ∀ other, d.LiveQueued other → c.LiveQueued other
  woken : ∀ other, c.woken other ≤ d.woken other
  more : d.LiveQueued side → c.woken side + 1 ≤ d.woken side

theorem setQueue_sublist {queue : List Waker} (hq : queue.Sublist (c.queue side)) (other : Side) :
    ((c.setQueue side queue).queue other).Sublist (c.queue other) := by
  by_cases ho : other = side
  · subst ho
    rwa [setQueue_queue]
  · rw [setQueue_opposite c queue ho]

theorem Call.suspended_side {call : Call T} {other : Side} (ho : call.suspended other = true)
    (hs : call.suspended side = true) : other = side := by
  unfold Call.suspended at ho hs
  split at ho <;> split at hs <;> simp_all

theorem Call.suspended_resume {call : Call T} (hs : call.suspended side = true) :
    call.resume.Quiet ∧ call.resume.slice = none ∧ call.resume.woken side = true ∧
      ∀ other, call.woken other = false := by
  cases call with
  | sending value cell =>
    cases cell <;> cases side <;> cases hs
    exact ⟨⟨rfl, fun other => by cases other <;> rfl⟩, rfl, rfl, fun other => by cases other <;> rfl⟩
  | receiving cell =>
    cases cell <;> cases side <;> cases hs
    exact ⟨⟨rfl, fun other => by cases other <;> rfl⟩, rfl, rfl, fun other => by cases other <;> rfl⟩
  | _ => cases hs

/-- The call of the waker that accepts was waiting, and is woken and quiet from now on. -/
structure Accepts (side : Side) (c d : Config T) (i : ℕ) (call : Call T) : Prop where
  created : i < c.created
  calls : d.calls = Function.update c.calls i call
  count : d.created = c.created
  queues : ∀ other, (d.queue other).Sublist (c.queue other)
  quiet : call.Quiet
  slices : ∀ slice, call.slice = some slice → (c.calls i).slice = some slice
  woken : call.woken side = true
  before : ∀ other, (c.calls i).woken other = false
  absent : ∀ other, Waker.resumption i ∉ d.queue other

theorem Sound.accepts_selector (h : Sound c) {rest : List Waker} (hrest : rest.Sublist (c.queue side))
    {s : Selector} {slice : Slice} {identifier : ℕ} {counted : List ℕ} (hlt : s.waker < c.created)
    (hc : c.calls s.waker = .selecting slice identifier counted .pending)
    (hside : slice[s.index]?.join = some side) :
    Accepts side c ((c.setQueue side rest).finish s.waker
      (.selecting slice identifier counted (.fired (some s.index)))) s.waker
      (.selecting slice identifier counted (.fired (some s.index))) where
  created := hlt
  calls := congrArg (Function.update · _ _) (setQueue_calls c side rest)
  count := setQueue_created c side rest
  queues := setQueue_sublist hrest
  quiet := ⟨rfl, fun other => by cases other <;> rfl⟩
  slices := by
    rw [hc]
    exact fun _ => id
  woken := by simp [Call.woken, hside]
  before other := by
    rw [hc]
    cases other <;> rfl
  absent other hm := by
    refine h.absent (i := s.waker) (fun side => ?_) other ((setQueue_sublist hrest other).subset hm)
    rw [hc]
    cases side <;> rfl

theorem Sound.accepts_resumption (h : Sound c) {refused rest : List Waker} {j : ℕ}
    (hq : c.queue side = refused ++ .resumption j :: rest) :
    Accepts side c ((c.setQueue side rest).finish j (c.calls j).resume) j (c.calls j).resume := by
  have hs := h.suspended side j (by simp [hq])
  obtain ⟨hquiet, hslice, hwoken, hbefore⟩ := Call.suspended_resume hs
  have hrest : rest.Sublist (c.queue side) := by
    rw [hq]
    exact (List.sublist_cons_self _ rest).trans (List.sublist_append_right refused _)
  refine ⟨?_, congrArg (Function.update · _ _) (setQueue_calls c side rest),
    setQueue_created c side rest, setQueue_sublist hrest, hquiet, by rw [hslice]; nofun, hwoken,
    hbefore, fun other hm => ?_⟩
  · refine h.created_of fun hc => ?_
    rw [hc] at hs
    cases side <;> cases hs
  · have hm : Waker.resumption j ∈ (c.setQueue side rest).queue other := hm
    by_cases ho : other = side
    · subst ho
      rw [setQueue_queue] at hm
      have hcount := h.once other j
      rw [hq, List.count_append, List.count_cons_self] at hcount
      have hpos := List.count_pos_iff.mpr hm
      omega
    · rw [setQueue_opposite c rest ho] at hm
      exact ho (Call.suspended_side (h.suspended other j hm) hs)

theorem Sound.accepts (h : Sound c) {refused rest : List Waker} {w : Waker}
    (hq : c.queue side = refused ++ w :: rest) (hw : w.wakes c.calls = true) :
    ∃ i call, Accepts side c ((c.setQueue side rest).wake w).1 i call := by
  have hvalid : w.Valid (c.setQueue side rest).created (c.setQueue side rest).calls side := by
    rw [setQueue_calls, setQueue_created]
    exact h.valid side w (by simp [hq])
  cases wake_cases hvalid with
  | refused hr _ =>
    rw [setQueue_calls, hw] at hr
    cases hr
  | selector s slice identifier counted hws hlt hc hside heq =>
    rw [setQueue_calls] at hc
    rw [setQueue_created] at hlt
    rw [heq]
    refine ⟨_, _, h.accepts_selector ?_ hlt hc hside⟩
    rw [hq]
    exact (List.sublist_cons_self w rest).trans (List.sublist_append_right refused _)
  | resumption j hwj heq =>
    subst hwj
    rw [heq, setQueue_calls]
    exact ⟨_, _, h.accepts_resumption hq⟩

theorem Sound.wakeQueue (h : Sound c) (side : Side) :
    Wakes side c (c.wakeQueue side (c.queue side)) := by
  rcases wakeQueue_cases c side (c.queue side) with ⟨_, heq⟩ | ⟨refused, w, rest, hq, hw, heq⟩
  · have hset := requeue_setQueue c side []
    have hsub := fun other : Side =>
      setQueue_sublist (List.nil_sublist (c.queue side)) other
    rw [heq]
    refine ⟨h.requeue hset hsub, fun other hl => ?_, fun other => ?_, fun hl => ?_⟩
    · obtain ⟨v, hv, hlive⟩ := hl
      exact ⟨v, (hsub other).subset hv, by rwa [hset.calls] at hlive⟩
    · rw [woken_congr hset.calls hset.created]
    · obtain ⟨v, hv, _⟩ := hl
      rw [setQueue_queue] at hv
      cases hv
  · obtain ⟨i, call, ha⟩ := h.accepts hq hw
    have hcount : ∀ other, ((c.setQueue side rest).wake w).1.woken other =
        c.woken other + if call.woken other then 1 else 0 := by
      intro other
      have := woken_update ha.calls ha.count ha.created other
      rwa [ha.before other] at this
    rw [heq]
    refine ⟨h.update ha.calls ha.count ha.created ha.slices ha.queues ha.absent,
      fun other hl => liveQueued_update ha.calls ha.quiet ha.queues hl, fun other => ?_, fun _ => ?_⟩
    · rw [hcount]
      exact Nat.le_add_right ..
    · rw [hcount, if_pos ha.woken]

/-- A call moves on. If it gives up being woken there is nothing left to be woken for. -/
theorem Attended.update (h : Attended c) {call : Call T}
    (hd : d.calls = Function.update c.calls i call) (hn : d.created = c.created)
    (hs : d.toState = c.toState) (hi : i < c.created) (hc : call.Quiet)
    (hslice : ∀ slice, call.slice = some slice → (c.calls i).slice = some slice)
    (habsent : ∀ side, Waker.resumption i ∉ c.queue side)
    (hw : ∀ side, (c.calls i).woken side = true →
      call.woken side = true ∨ c.stock side = 0 ∨ c.closed = true) : Attended d := by
  have hq : ∀ side, (d.queue side).Sublist (c.queue side) := by
    rw [hs]
    exact fun side => List.Sublist.refl _
  refine ⟨h.toSound.update hd hn hi hslice hq (by rw [hs]; exact habsent), fun ho side hl => ?_,
    fun ho side hl => ?_⟩
  · rw [hs] at ho ⊢
    have hserved := h.served ho side (liveQueued_update hd hc hq hl)
    have hupdate := woken_update hd hn hi side
    by_cases hb : (c.calls i).woken side = true
    · rcases hw side hb with hk | hz | hk
      · rw [if_pos hb, if_pos hk] at hupdate
        omega
      · omega
      · rw [hk] at ho
        cases ho
    · rw [if_neg hb] at hupdate
      omega
  · rw [hs] at ho
    exact h.drained ho side (liveQueued_update hd hc hq hl)

theorem Attended.finish (h : Attended c) {call : Call T} (hi : i < c.created) (hc : call.Quiet)
    (hslice : ∀ slice, call.slice = some slice → (c.calls i).slice = some slice)
    (habsent : ∀ side, Waker.resumption i ∉ c.queue side)
    (hw : ∀ side, (c.calls i).woken side = true →
      call.woken side = true ∨ c.stock side = 0 ∨ c.closed = true) : Attended (c.finish i call) :=
  h.update rfl rfl rfl hi hc hslice habsent hw

/-- A call serves itself from what its side has in stock and wakes one peer on the other side. -/
theorem Attended.exchange (h : Attended c) (hi : i < c.created) (side : Side) {call : Call T}
    (hc : call.Quiet) (hslice : call.slice = none) (habsent : ∀ side, Waker.resumption i ∉ c.queue side)
    (hw : (c.calls i).woken (opposite side) = false)
    (hd : d.calls = Function.update c.calls i call) (hn : d.created = c.created)
    (ho : d.closed = c.closed) (hq : ∀ other, d.queue other = c.queue other)
    (hstock : d.stock side ≤ c.stock side - 1)
    (hother : d.stock (opposite side) ≤ c.stock (opposite side) + 1) :
    Attended (d.wakeQueue (opposite side) (d.queue (opposite side))) := by
  have hsub : ∀ other, (d.queue other).Sublist (c.queue other) := by
    intro other
    rw [hq]
  have hsound : Sound d := h.toSound.update hd hn hi (by rw [hslice]; nofun) hsub
    fun other => by rw [hq]; exact habsent other
  have hwakes := hsound.wakeQueue (opposite side)
  obtain ⟨_, hwd, hwb, hwc, _⟩ := hsound.toWellFormed.wakeQueue (opposite side)
  have hlive : ∀ other, (d.wakeQueue (opposite side) (d.queue (opposite side))).LiveQueued other →
      c.LiveQueued other := fun other hl => liveQueued_update hd hc hsub (hwakes.live other hl)
  refine ⟨hwakes.sound, fun hopen other hl => ?_, fun hclosed other hl => ?_⟩
  · have hopen : c.closed = false := by rw [← ho, ← hwc]; exact hopen
    have hserved := h.served hopen other (hlive other hl)
    have hupdate := woken_update hd hn hi other
    have hmono := hwakes.woken other
    rw [stock_congr hwb hwd]
    by_cases hside : other = opposite side
    · subst hside
      have hmore := hwakes.more hl
      rw [hw] at hupdate
      simp only [Bool.false_eq_true, if_false] at hupdate
      omega
    · have hside : other = side := by
        cases side <;> cases other <;> first | rfl | exact absurd rfl hside
      subst hside
      have hone : (if (c.calls i).woken other then 1 else 0) ≤ 1 := by split <;> omega
      omega
  · have hclosed : c.closed = true := by rw [← ho, ← hwc]; exact hclosed
    exact h.drained hclosed other (hlive other hl)

/-- A coroutine is suspended where there is nothing for it. -/
theorem Attended.suspend (h : Attended c) (hi : i < c.created) (side : Side) {call : Call T}
    (hs : call.suspended side = true) (hslice : call.slice = none) (hc : call.applies = false)
    (habsent : ∀ side, Waker.resumption i ∉ c.queue side)
    (hw : (c.calls i).woken (opposite side) = false) (ho : c.closed = false)
    (hz : c.stock side = 0) :
    Attended ((c.setQueue side (c.queue side ++ [.resumption i])).finish i call) := by
  obtain ⟨d, hd⟩ : ∃ d, d = (c.setQueue side (c.queue side ++ [.resumption i])).finish i call :=
    ⟨_, rfl⟩
  have hcalls : d.calls = Function.update c.calls i call := by
    rw [hd]
    exact congrArg (Function.update · _ _) (setQueue_calls ..)
  have hcreated : d.created = c.created := by rw [hd]; exact setQueue_created ..
  have hstock : ∀ other, d.stock other = c.stock other := by
    rw [hd]
    exact (requeue_setQueue c side _).stock
  have hclosed : d.closed = c.closed := by rw [hd]; exact setQueue_closed ..
  have hself : d.queue side = c.queue side ++ [.resumption i] := by
    rw [hd]
    exact setQueue_queue ..
  have hrest : ∀ other, other ≠ side → d.queue other = c.queue other := by
    intro other hne
    rw [hd]
    exact setQueue_opposite c _ hne
  have hmem : ∀ other, ∀ w ∈ d.queue other, w ∈ c.queue other ∨ w = .resumption i := by
    intro other w hwq
    by_cases hne : other = side
    · subst hne
      rw [hself] at hwq
      exact (List.mem_append.mp hwq).imp_right List.mem_singleton.mp
    · exact Or.inl (by rwa [hrest other hne] at hwq)
  have hlive : ∀ w : Waker, w ≠ .resumption i → w.live d.calls = true → w.live c.calls = true := by
    intro w hne hl
    rw [hcalls] at hl
    cases w with
    | selector s =>
      by_cases hsi : s.waker = i
      · simp [Waker.live, hsi, hc] at hl
      · simpa [Waker.live, hsi] using hl
    | resumption j =>
      have hji : j ≠ i := fun hji => hne (by rw [hji])
      simpa [Waker.live, hji] using hl
  rw [← hd]
  refine ⟨⟨⟨fun j hj => ?_, fun other w hwq => ?_⟩, fun other j hj => ?_, fun other j => ?_⟩,
    fun _ other hl => ?_, fun hcl => ?_⟩
  · rw [hcreated] at hj
    have hji : j ≠ i := by omega
    rw [hcalls]
    simpa [hji] using h.fresh j hj
  · rcases hmem other w hwq with hold | rfl
    · have hv := h.valid other w hold
      rw [hcalls, hcreated]
      cases w with
      | selector s =>
        refine ⟨hv.1, fun slice hsl => hv.2 slice ?_⟩
        by_cases hsi : s.waker = i
        · simp [hsi, hslice] at hsl
        · simpa [hsi] using hsl
      | resumption => trivial
    · trivial
  · rw [hcalls]
    rcases hmem other _ hj with hold | hnew
    · have hji : j ≠ i := by
        rintro rfl
        exact habsent other hold
      simpa [hji] using h.suspended other j hold
    · cases hnew
      have hos : other = side := by
        by_contra hne
        rw [hrest other hne] at hj
        exact habsent other hj
      simpa [hos] using hs
  · by_cases hne : other = side
    · subst hne
      rw [hself, List.count_append]
      by_cases hji : j = i
      · subst hji
        simp [List.count_eq_zero.mpr (habsent other)]
      · have hnot : Waker.resumption j ∉ [Waker.resumption i] := by simpa using hji
        rw [List.count_eq_zero.mpr hnot]
        exact h.once other j
    · rw [hrest other hne]
      exact h.once other j
  · by_cases hne : other = side
    · rw [hstock, hne, hz]
      exact Nat.zero_le _
    · obtain ⟨w, hwq, hwl⟩ := hl
      rw [hrest other hne] at hwq
      have hwi : w ≠ .resumption i := by
        rintro rfl
        exact habsent other hwq
      have hserved := h.served ho other ⟨w, hwq, hlive w hwi hwl⟩
      have hupdate := woken_update hcalls hcreated hi other
      have hother : other = opposite side := by
        cases side <;> cases other <;> first | rfl | exact absurd rfl hne
      subst hother
      rw [hw] at hupdate
      simp only [Bool.false_eq_true, if_false] at hupdate
      rw [hstock]
      omega
  · rw [hclosed, ho] at hcl
    cases hcl

theorem quiet_sent (value : T) (result : Except (TrySendError T) Unit) :
    (Call.sent value result).Quiet :=
  ⟨rfl, fun side => by cases side <;> rfl⟩

theorem quiet_received (result : Except TryRecvError T) : (Call.received result).Quiet :=
  ⟨rfl, fun side => by cases side <;> rfl⟩

theorem stock_send_of_full (hf : c.isFull = true) : c.stock .send = 0 := by
  have hb : c.bound = c.deque.length := by simpa [State.isFull] using hf
  simp [State.stock, hb]

theorem Attended.send (h : Attended c) (hi : i < c.created) (trying : Bool) (value : T)
    (habsent : ∀ side, Waker.resumption i ∉ c.queue side) (hw : (c.calls i).woken .recv = false) :
    Attended (c.send i trying value) := by
  have hboth : ∀ side, (c.calls i).woken side = true → side = .send := by
    intro side hside
    cases side with
    | send => rfl
    | recv => rw [hw] at hside; cases hside
  unfold Config.send
  split
  next hc =>
    exact h.finish hi (quiet_sent ..) (by simp [Call.slice]) habsent fun _ _ => Or.inr (Or.inr hc)
  next hc =>
    split
    next hf =>
      rw [wakeReceiver_eq]
      refine h.exchange hi .send (quiet_sent ..) rfl habsent hw rfl rfl rfl (fun _ => rfl) ?_ ?_
      · simp only [State.stock, Config.finish, List.length_append, List.length_singleton]
        omega
      · simp [State.stock, Config.finish, opposite]
    next hf =>
      have hf : c.isFull = true := by simpa using hf
      split
      next =>
        refine h.finish hi (quiet_sent ..) (by simp [Call.slice]) habsent fun side hside => Or.inr (Or.inl ?_)
        rw [hboth side hside]
        exact stock_send_of_full hf
      next =>
        exact h.suspend hi .send rfl rfl rfl habsent hw (Bool.eq_false_of_not_eq_true hc)
          (stock_send_of_full hf)

theorem Attended.recv (h : Attended c) (hi : i < c.created) (trying : Bool)
    (habsent : ∀ side, Waker.resumption i ∉ c.queue side) (hw : (c.calls i).woken .send = false) :
    Attended (c.recv i trying) := by
  have hboth : ∀ side, (c.calls i).woken side = true → side = .recv := by
    intro side hside
    cases side with
    | send => rw [hw] at hside; cases hside
    | recv => rfl
  unfold Config.recv
  split
  next value rest hd =>
    have hlen : c.deque.length = rest.length + 1 := by rw [hd]; rfl
    rw [wakeSender_eq]
    refine h.exchange hi .recv (quiet_received ..) rfl habsent hw rfl rfl rfl (fun _ => rfl) ?_ ?_
    · simp only [State.stock, Config.finish]
      omega
    · simp only [State.stock, Config.finish, opposite]
      omega
  next hd =>
    have hz : c.stock .recv = 0 := by simp [State.stock, hd]
    split
    next hc =>
      exact h.finish hi (quiet_received ..) (by simp [Call.slice]) habsent fun _ _ => Or.inr (Or.inr hc)
    next hc =>
      split
      next =>
        refine h.finish hi (quiet_received ..) (by simp [Call.slice]) habsent fun side hside => Or.inr (Or.inl ?_)
        rw [hboth side hside]
        exact hz
      next =>
        exact h.suspend hi .recv rfl rfl rfl habsent hw (Bool.eq_false_of_not_eq_true hc) hz

/-- A consumer that finds its slot or value gone panics. -/
theorem Attended.panic (h : Attended c) (reason : String) (hs : ∀ side, (c.calls i).suspended side = false)
    (hc : c.calls i ≠ .unused) (hw : ∀ side, (c.calls i).woken side = false) :
    Attended (c.finish i (.panicked reason)) := by
  refine h.finish (h.created_of hc) ⟨rfl, fun side => by cases side <;> rfl⟩ nofun (h.absent hs)
    fun side hside => ?_
  rw [hw] at hside
  cases hside

theorem Attended.consumeSendPermit (h : Attended c) (hi : i < c.created) (value : T)
    (habsent : ∀ side, Waker.resumption i ∉ c.queue side) (hw : (c.calls i).woken .recv = false) :
    Attended (c.consumeSendPermit i value) := by
  have hsend := h.send hi true value habsent hw
  unfold Config.consumeSendPermit
  dsimp only
  split
  next v w he =>
    refine hsend.panic _ (fun side => ?_) (by rw [he]; nofun) fun side => ?_ <;> rw [he] <;>
      cases side <;> rfl
  next => exact hsend

theorem Attended.consumeRecvPermit (h : Attended c) (hi : i < c.created)
    (habsent : ∀ side, Waker.resumption i ∉ c.queue side) (hw : (c.calls i).woken .send = false) :
    Attended (c.consumeRecvPermit i) := by
  have hrecv := h.recv hi true habsent hw
  unfold Config.consumeRecvPermit
  dsimp only
  split
  next he =>
    refine hrecv.panic _ (fun side => ?_) (by rw [he]; nofun) fun side => ?_ <;> rw [he] <;>
      cases side <;> rfl
  next => exact hrecv

theorem Attended.close (h : Attended c) : Attended c.close := by
  obtain ⟨hf, hclosed, _, _, hqueue⟩ := h.toWellFormed.close
  refine ⟨⟨h.toWellFormed.frame hf fun side w hw => ?_, fun side j hj => ?_, fun side j => ?_⟩,
    fun ho => ?_, fun _ side hl => ?_⟩
  · rw [hqueue] at hw
    cases hw
  · rw [hqueue] at hj
    cases hj
  · rw [hqueue]
    exact Nat.zero_le _
  · rw [hclosed] at ho
    cases ho
  · obtain ⟨w, hw, _⟩ := hl
    rw [hqueue] at hw
    cases hw

/-- A call starts. What it puts into the queues are its selectors, for branches that are not
ready. -/
theorem Attended.begin (h : Attended c) (hd : Requeue c d) {call : Call T}
    (hwell : WellFormed (d.begin call)) (hcall : ∀ side, call.woken side = false)
    (hq : ∀ side, ∃ added, d.queue side = c.queue side ++ added ∧
      (∀ j, Waker.resumption j ∉ added) ∧
      (added ≠ [] → c.closed = false ∧ c.stock side = 0)) : Attended (d.begin call) := by
  have hold : ∀ j, c.calls j ≠ .unused → (d.begin call).calls j = c.calls j := by
    intro j hj
    have hne : j ≠ d.created := by
      rw [hd.created]
      exact (h.created_of hj).ne
    simp [Config.begin, hne, hd.calls]
  have hlive : ∀ side, ∀ w ∈ c.queue side, w.live (d.begin call).calls = true →
      w.live c.calls = true := by
    intro side w hw hl
    cases w with
    | selector s =>
      have hne : s.waker ≠ d.created := by
        rw [hd.created]
        exact (h.valid side _ hw).1.ne
      simpa [Waker.live, Config.begin, hne, hd.calls] using hl
    | resumption j =>
      have hs := h.suspended side j hw
      have hj : c.calls j ≠ .unused := by
        intro hu
        rw [hu] at hs
        cases side <;> cases hs
      simpa [Waker.live, hold j hj] using hl
  refine ⟨⟨hwell, fun side j hj => ?_, fun side j => ?_⟩, fun ho side hl => ?_, fun ho side hl => ?_⟩
  · obtain ⟨added, heq, hnone, _⟩ := hq side
    have hj : Waker.resumption j ∈ d.queue side := hj
    rw [heq] at hj
    rcases List.mem_append.mp hj with hj | hj
    · have hs := h.suspended side j hj
      rw [hold j fun hu => by rw [hu] at hs; cases side <;> cases hs]
      exact hs
    · exact absurd hj (hnone j)
  · obtain ⟨added, heq, hnone, _⟩ := hq side
    change (d.queue side).count _ ≤ 1
    rw [heq, List.count_append, List.count_eq_zero.mpr (hnone j)]
    exact h.once side j
  · obtain ⟨added, heq, _, hz⟩ := hq side
    rw [woken_begin, hcall side, show (d.begin call).stock side = d.stock side from rfl, hd.stock,
      woken_congr hd.calls hd.created]
    by_cases ha : added = []
    · obtain ⟨w, hw, hl⟩ := hl
      have hw : w ∈ d.queue side := hw
      rw [heq, ha, List.append_nil] at hw
      exact h.served (hd.closed ▸ ho) side ⟨w, hw, hlive side w hw hl⟩
    · rw [(hz ha).2]
      exact Nat.zero_le _
  · obtain ⟨added, heq, _, hz⟩ := hq side
    have ho : c.closed = true := hd.closed ▸ ho
    obtain ⟨w, hw, hl⟩ := hl
    have hw : w ∈ d.queue side := hw
    have ha : added = [] := by
      by_contra ha
      rw [(hz ha).1] at ho
      cases ho
    rw [heq, ha, List.append_nil] at hw
    exact h.drained ho side ⟨w, hw, hlive side w hw hl⟩

theorem Attended.begin_blank (h : Attended c) {call : Call T}
    (hcall : ∀ side, call.woken side = false) : Attended (c.begin call) :=
  h.begin (.refl c) (h.toWellFormed.begin (.refl c) call fun _ _ => Or.inl) hcall fun _ =>
    ⟨[], (List.append_nil _).symm, fun _ => List.not_mem_nil, fun hne => absurd rfl hne⟩

/-- A new call has nothing in the queues. -/
theorem Sound.begin_absent (h : Sound c) (call : Call T) (side : Side) :
    Waker.resumption c.created ∉ (c.begin call).queue side := by
  refine h.absent (fun side => ?_) side
  rw [h.fresh c.created (Nat.le_refl _)]
  cases side <;> rfl

theorem not_ready (hr : c.isReady side = false) : c.closed = false ∧ c.stock side = 0 := by
  cases side with
  | send =>
    have hs : c.closed = false ∧ c.isFull = true := by
      simpa [State.isReady, State.isSendable] using hr
    exact ⟨hs.1, stock_send_of_full hs.2⟩
  | recv =>
    have hs : c.deque = [] ∧ c.closed = false := by
      simpa [State.isReady, State.isRecvable] using hr
    exact ⟨hs.2, by simp [State.stock, hs.1]⟩

theorem Attended.select (h : Attended c) {slice : Slice} {identifier start : ℕ}
    {broken : Option ℕ} {skipped : Bool}
    (hs : c.select slice identifier start broken skipped = some d) : Attended d := by
  obtain ⟨hready, watched, counted, cell, hcell, rfl⟩ := select_begins hs
  obtain ⟨hd, hadded⟩ := watch_all_queues slice c.created identifier watched c
  refine h.begin hd (selecting_well_formed h.toWellFormed watched counted cell) (fun side => ?_)
    fun side => ?_
  · unfold Call.woken
    split <;> simp_all
  · obtain ⟨added, heq, hw⟩ := hadded side
    refine ⟨added, heq, fun j hj => ?_, fun hne => ?_⟩
    · obtain ⟨index, hj, _⟩ := hw _ hj
      cases hj
    · obtain ⟨w, hmem⟩ := List.exists_mem_of_ne_nil added hne
      obtain ⟨index, _, hi⟩ := hw w hmem
      have hmem : some side ∈ slice := List.mem_of_getElem? (Option.join_eq_some_iff.mp hi)
      exact not_ready (hready _ hmem side rfl)

theorem Attended.requeue (h : Attended c) (hd : Requeue c d)
    (hq : ∀ side, (d.queue side).Sublist (c.queue side)) : Attended d := by
  have hlive : ∀ side, d.LiveQueued side → c.LiveQueued side := by
    rintro side ⟨w, hw, hl⟩
    exact ⟨w, (hq side).subset hw, by rwa [hd.calls] at hl⟩
  refine ⟨h.toSound.requeue hd hq, fun ho side hl => ?_, fun ho side hl => ?_⟩
  · rw [hd.stock, woken_congr hd.calls hd.created]
    exact h.served (hd.closed ▸ ho) side (hlive side hl)
  · exact h.drained (hd.closed ▸ ho) side (hlive side hl)

/-- A coroutine that was suspended here for nothing is interrupted, or a `select!` ends elsewhere. -/
theorem Attended.leave (h : Attended c) (hi : i < c.created) {call : Call T} (hc : call.Quiet)
    (hslice : call.slice = none) (hs : ∀ side, (c.calls i).suspended side = false)
    (hw : ∀ side, (c.calls i).woken side = false) : Attended (c.finish i call) := by
  refine h.finish hi hc (by rw [hslice]; nofun) (h.absent hs) fun side hside => ?_
  rw [hw] at hside
  cases hside

theorem Attended.resume (h : Attended c) (hs : c.resume i = some d) : Attended d := by
  have hi : i < c.created := h.created_of fun hc => by simp [Config.resume, hc] at hs
  have hquiet : ∀ call : Call T, call = .interrupted ∨ call = .elsewhere → call.Quiet ∧
      call.slice = none := by
    rintro call (rfl | rfl) <;> exact ⟨⟨rfl, fun side => by cases side <;> rfl⟩, rfl⟩
  obtain ⟨hinterrupted, hnone⟩ := hquiet .interrupted (Or.inl rfl)
  obtain ⟨helsewhere, hnone'⟩ := hquiet .elsewhere (Or.inr rfl)
  unfold Config.resume at hs
  split at hs
  next value hc =>
    cases hs
    exact h.send hi false value (h.absent fun side => by rw [hc]; cases side <;> rfl) (by rw [hc]; rfl)
  next hc =>
    cases hs
    exact h.recv hi false (h.absent fun side => by rw [hc]; cases side <;> rfl) (by rw [hc]; rfl)
  next hc =>
    cases hs
    refine h.leave hi hinterrupted hnone (fun side => ?_) fun side => ?_ <;> rw [hc] <;>
      cases side <;> rfl
  next hc =>
    cases hs
    refine h.leave hi hinterrupted hnone (fun side => ?_) fun side => ?_ <;> rw [hc] <;>
      cases side <;> rfl
  next slice identifier counted cell hc =>
    obtain ⟨hd, hsub⟩ := unwatch_all_queues slice identifier counted c
    have hq := h.requeue hd hsub
    have hi := hd.created.symm ▸ hi
    have hcall := (congrFun hd.calls i).trans hc
    have hsuspended : ∀ side, ((counted.foldl
        (fun d index => d.unwatch slice identifier index) c).calls i).suspended side = false := by
      intro side
      rw [hcall]
      cases side <;> rfl
    split at hs
    next => cases hs
    next =>
      cases hs
      refine hq.leave hi helsewhere hnone' hsuspended fun side => ?_
      rw [hcall]
      cases side <;> rfl
    next index =>
      obtain ⟨side, hside, rfl⟩ := Option.map_eq_some_iff.mp hs
      cases side with
      | send =>
        refine hq.finish hi ⟨rfl, fun side => by cases side <;> rfl⟩ nofun (hq.absent hsuspended)
          fun side hw => Or.inl ?_
        cases side with
        | send => rfl
        | recv => simp [hcall, Call.woken, hside] at hw
      | recv =>
        refine hq.consumeRecvPermit hi (hq.absent hsuspended) ?_
        simp [hcall, Call.woken, hside]
    next =>
      cases hs
      refine hq.leave hi hinterrupted hnone hsuspended fun side => ?_
      rw [hcall]
      cases side <;> rfl
  next => cases hs

/-- The task runs on: nobody is interrupted, and every permit is consumed. -/
def Event.Orderly : Event T → Prop
  | .interrupt _ | .forfeit _ => False
  | _ => True

theorem attended_step {e : Event T} (h : Attended c) (ho : e.Orderly) (hs : c.step e = some d) :
    Attended d := by
  cases e with
  | send trying value =>
    cases hs
    have hb : Attended (c.begin (.sending value .pending)) :=
      h.begin_blank fun side => by cases side <;> rfl
    exact hb.send (Nat.lt_succ_self _) trying value (h.begin_absent _) (by rw [begin_calls _ _ rfl]; rfl)
  | recv trying =>
    cases hs
    have hb : Attended (c.begin (.receiving .pending)) :=
      h.begin_blank fun side => by cases side <;> rfl
    exact hb.recv (Nat.lt_succ_self _) trying (h.begin_absent _) (by rw [begin_calls _ _ rfl]; rfl)
  | resume i => exact h.resume hs
  | interrupt i => exact ho.elim
  | trySelect slice index =>
    simp only [Config.step] at hs
    split at hs
    next =>
      split at hs
      next =>
        cases hs
        exact h.begin_blank fun side => by cases side <;> rfl
      next => cases hs
    next =>
      split at hs
      next =>
        cases hs
        have hb : Attended (c.begin (.receiving .pending)) :=
          h.begin_blank fun side => by cases side <;> rfl
        exact hb.consumeRecvPermit (Nat.lt_succ_self _) (h.begin_absent _)
          (by rw [begin_calls _ _ rfl]; rfl)
      next => cases hs
    next => cases hs
  | select slice identifier start broken skipped => exact h.select hs
  | elsewhere i =>
    simp only [Config.step] at hs
    split at hs
    next slice identifier counted hc =>
      cases hs
      have hi : i < c.created := h.created_of (by rw [hc]; nofun)
      refine h.finish hi ⟨rfl, fun side => by cases side <;> rfl⟩ (by rw [hc]; exact fun _ => id)
        (h.absent fun side => by rw [hc]; cases side <;> rfl) fun side hw => ?_
      rw [hc] at hw
      cases side <;> cases hw
    next => cases hs
  | consumeSend i value =>
    simp only [Config.step] at hs
    split at hs
    next hc =>
      cases hs
      have hi : i < c.created := h.created_of (by rw [hc]; nofun)
      exact h.consumeSendPermit hi value (h.absent fun side => by rw [hc]; cases side <;> rfl)
        (by rw [hc]; rfl)
    next => cases hs
  | forfeit i => exact ho.elim
  | close => cases hs; exact h.close

theorem initial_attended (capacity : Capacity) : Attended (initial (T := T) capacity) where
  fresh _ _ := rfl
  valid side := by cases side <;> exact nofun
  suspended side := by cases side <;> exact nofun
  once side j := by cases side <;> exact Nat.zero_le _
  served _ side hl := by
    obtain ⟨w, hw, _⟩ := hl
    cases side <;> cases hw
  drained := nofun

/-- No waiter of a serial channel is stranded while the task runs on. -/
theorem waiters_served {capacity : Capacity} (ρ : Execution (system T capacity))
    (hn : ∀ s e, ρ.Takes s e → e.Orderly) : ∀ s, ρ.Visits s → Served s := by
  intro s hv
  refine (ρ.induction (P := Attended) (initial_attended capacity) ?_ hv).toServed
  intro c e d ht hs h
  exact attended_step h (hn c e ht) hs

instance (e : Event T) : Decidable e.Orderly := by
  cases e <;> first | exact isTrue trivial | exact isFalse id

/-- A coroutine and a `select!` wait for values; one value comes and wakes the coroutine, which has
not resumed yet. -/
def waitingExecution : Execution (system ℕ ⟨1, by decide⟩) :=
  ⟨[.recv false, .select [some .recv] 7 0 none false, .send true 5], rfl⟩

theorem waiting_select_served :
    waitingExecution.final.LiveQueued .recv ∧ waitingExecution.final.deque = [5] ∧
      Served waitingExecution.final :=
  ⟨⟨.selector ⟨0, 1, 7⟩, by decide, by decide⟩, rfl,
    waiters_served waitingExecution
      (waitingExecution.takes_of_allSteps (P := fun _ e => e.Orderly) (by decide)) _
      waitingExecution.visits_final⟩

end SerialChannel
