import Stuck.SerialChannelQueues

/-! Whether a permit of a serial channel is still worth something when its `select!` runs. Nothing
reserves the slot or the value that a permit promises, so the rest of the task has to leave as many
slots and values as there are permits out. -/
namespace SerialChannel

open TransitionSystem OneShot SharedTypes

variable {T : Type*} {c d : Config T} {i : ℕ} {side : Side}

/-- The call was given a permit that it has not consumed. -/
def Call.holds : Call T → Side → Bool
  | .selecting slice _ _ (.fired (some index)), side => slice[index]?.join == some side
  | .permitted _, .send => true
  | _, _ => false

def Config.held (c : Config T) (side : Side) : ℕ :=
  Nat.count (fun i => (c.calls i).holds side = true) c.created

/-- While the channel is open every permit out has its slot or value. -/
structure Honoured (c : Config T) : Prop extends WellFormed c where
  fits : c.deque.length ≤ c.bound
  covered : c.closed = false → ∀ side, c.held side ≤ c.stock side
  calm : ∀ i reason, c.calls i ≠ .panicked reason

theorem held_update {call : Call T} (hd : d.calls = Function.update c.calls i call)
    (hn : d.created = c.created) (hi : i < c.created) (side : Side) :
    d.held side + (if (c.calls i).holds side then 1 else 0) =
      c.held side + if call.holds side then 1 else 0 := by
  unfold Config.held
  rw [hd, hn]
  exact Census.count_update (p := fun k : Call T => k.holds side = true) c.calls hi call

theorem held_same {call : Call T} (hd : d.calls = Function.update c.calls i call)
    (hn : d.created = c.created) (hk : call.holds side = (c.calls i).holds side) :
    d.held side = c.held side := by
  unfold Config.held
  rw [hd, hn]
  exact Census.count_update_same (p := fun k : Call T => k.holds side = true) c.calls
    (i := i) (n := c.created) (a := call) (by rw [hk])

theorem held_begin (call : Call T) (side : Side) :
    (c.begin call).held side = c.held side + if call.holds side then 1 else 0 :=
  Census.count_update_succ (p := fun k : Call T => k.holds side = true) c.calls c.created call

theorem held_congr (hd : d.calls = c.calls) (hn : d.created = c.created) :
    d.held side = c.held side := by
  unfold Config.held
  rw [hd, hn]

theorem held_pos (hi : i < c.created) (hh : (c.calls i).holds side = true) : 0 < c.held side :=
  Census.count_pos_iff.mpr ⟨i, hi, hh⟩

theorem Call.holds_resume (call : Call T) (side : Side) :
    call.resume.holds side = call.holds side := by
  cases call <;> rfl

/-- A waker of one queue gives out at most one permit, for its own side. -/
theorem wake_held {w : Waker} (hw : w.Valid c.created c.calls side) (other : Side) :
    (c.wake w).1.held other ≤ c.held other + if other = side then 1 else 0 := by
  cases wake_cases hw with
  | refused _ heq =>
    rw [heq]
    exact Nat.le_add_right ..
  | resumption j _ heq =>
    have hsame : (c.wake w).1.held other = c.held other :=
      held_same (by rw [heq]; rfl) (by rw [heq]; rfl) (Call.holds_resume _ other)
    rw [hsame]
    exact Nat.le_add_right ..
  | selector s slice identifier counted _ hlt hc hside heq =>
    have hupdate := held_update (d := (c.wake w).1) (by rw [heq]; rfl) (by rw [heq]; rfl) hlt other
    rw [hc] at hupdate
    by_cases ho : other = side
    · subst ho
      simpa [Call.holds, hside] using hupdate.le
    · simpa [Call.holds, hside, ho, Ne.symm ho] using hupdate.le

theorem WellFormed.wakeQueue_held (h : WellFormed c) (side other : Side) :
    (c.wakeQueue side (c.queue side)).held other ≤
      c.held other + if other = side then 1 else 0 := by
  rcases wakeQueue_cases c side (c.queue side) with ⟨_, heq⟩ | ⟨refused, w, rest, hq, _, heq⟩
  · rw [heq, held_congr (setQueue_calls c side []) (setQueue_created c side [])]
    exact Nat.le_add_right ..
  · have hw : w.Valid c.created c.calls side := h.valid side w (by simp [hq])
    have hset : Requeue c (c.setQueue side rest) := requeue_setQueue c side rest
    have hwake := wake_held (hw.frame (.of_eq hset.calls hset.created)) other
    rwa [← heq, held_congr hset.calls hset.created] at hwake

/-- Waking in a queue leaves a call alone that does not wait. -/
theorem WellFormed.wakeQueue_still (h : WellFormed c) (side : Side)
    (hs : (c.calls i).slice = none) (hr : (c.calls i).resume = c.calls i) :
    (c.wakeQueue side (c.queue side)).calls i = c.calls i := by
  rcases wakeQueue_cases c side (c.queue side) with ⟨_, heq⟩ | ⟨refused, w, rest, hq, _, heq⟩
  · rw [heq, setQueue_calls]
  · have hset : Requeue c (c.setQueue side rest) := requeue_setQueue c side rest
    have hw : w.Valid (c.setQueue side rest).created (c.setQueue side rest).calls side :=
      (h.valid side w (by simp [hq])).frame (.of_eq hset.calls hset.created)
    rw [heq]
    cases wake_cases hw with
    | refused _ he => rw [he, hset.calls]
    | selector s slice identifier counted _ _ hc _ he =>
      have hne : i ≠ s.waker := by
        rintro rfl
        rw [hset.calls] at hc
        rw [hc] at hs
        cases hs
      rw [he]
      simp [Config.finish, hne]
    | resumption j _ he =>
      rw [he]
      by_cases hj : i = j
      · subst hj
        simpa [Config.finish] using hr
      · simp [Config.finish, hj]

/-- A call moves on without a new permit. -/
theorem Honoured.finish (h : Honoured c) (hi : i < c.created) {call : Call T}
    (hs : ∀ slice, call.slice = some slice → (c.calls i).slice = some slice)
    (hp : ∀ reason, call ≠ .panicked reason)
    (hh : ∀ side, call.holds side = true → (c.calls i).holds side = true) :
    Honoured (c.finish i call) := by
  have hf : Frame c (c.finish i call) :=
    .of_update rfl rfl hi hs fun reason hr => absurd hr (hp reason)
  refine ⟨h.frame hf fun _ _ => id, h.fits, fun ho side => ?_, fun j reason hj => ?_⟩
  · have hupdate := held_update (c := c) (d := c.finish i call) rfl rfl hi side
    have hle : (if call.holds side then 1 else 0) ≤ if (c.calls i).holds side then 1 else 0 := by
      by_cases hc : call.holds side = true
      · rw [if_pos hc, if_pos (hh side hc)]
      · rw [if_neg hc]
        exact Nat.zero_le _
    have hheld : (c.finish i call).held side ≤ c.held side := by omega
    exact hheld.trans (h.covered ho side)
  · exact h.calm j reason (hf.calm j reason hj)

theorem Honoured.requeue (h : Honoured c) (hd : Requeue c d)
    (hq : ∀ side, ∀ w ∈ d.queue side, w.Valid c.created c.calls side) : Honoured d where
  fresh := by
    rw [hd.calls, hd.created]
    exact h.fresh
  valid := by
    rw [hd.calls, hd.created]
    exact hq
  fits := by
    rw [hd.deque, hd.bound]
    exact h.fits
  covered ho side := by
    rw [held_congr hd.calls hd.created, hd.stock]
    exact h.covered (hd.closed ▸ ho) side
  calm := by
    rw [hd.calls]
    exact h.calm

/-- A call uses up one piece of what its side has in stock, and not one that another call holds a
permit for. -/
theorem Honoured.exchange (h : Honoured c) (hi : i < c.created) (side : Side) {call : Call T}
    (hc : call.slice = none ∧ call.resume = call ∧ (∀ reason, call ≠ .panicked reason) ∧
      ∀ other, call.holds other = false)
    (hd : d.calls = Function.update c.calls i call) (hn : d.created = c.created)
    (hb : d.bound = c.bound) (ho : d.closed = c.closed) (hq : ∀ other, d.queue other = c.queue other)
    (hfits : d.deque.length ≤ c.bound) (hstock : d.stock side + 1 = c.stock side)
    (hother : d.stock (opposite side) = c.stock (opposite side) + 1)
    (hspare : c.closed = false →
      c.held side < c.stock side + if (c.calls i).holds side then 1 else 0) :
    Honoured (d.wakeQueue (opposite side) (d.queue (opposite side))) ∧
      (d.wakeQueue (opposite side) (d.queue (opposite side))).calls i = call := by
  obtain ⟨hslice, hresume, hpanic, hholds⟩ := hc
  have hf : Frame c d := .of_update hd hn hi (by rw [hslice]; nofun) fun reason hr =>
    absurd hr (hpanic reason)
  have hwell : WellFormed d := h.frame hf fun other w hw => by rwa [hq other] at hw
  have hcall : d.calls i = call := by
    rw [hd]
    exact Function.update_self ..
  obtain ⟨hwf, hwd, hwb, hwc, hwq⟩ := hwell.wakeQueue (opposite side)
  refine ⟨⟨hwell.frame hwf fun other w hw => (hwq other).subset hw, ?_, fun hopen other => ?_,
    fun j reason hj => ?_⟩, ?_⟩
  · rw [hwd, hwb, hb]
    exact hfits
  · have hopen : c.closed = false := by rw [← ho, ← hwc]; exact hopen
    have hwheld := hwell.wakeQueue_held (opposite side) other
    have hheld := held_update hd hn hi other
    have hcovered := h.covered hopen other
    have hspare := hspare hopen
    rw [hholds other] at hheld
    simp only [Bool.false_eq_true, if_false, Nat.add_zero] at hheld
    rw [stock_congr hwb hwd]
    cases side <;> cases other <;>
      simp only [opposite, reduceCtorEq, if_true, if_false] at * <;> omega
  · exact h.calm j reason (hf.calm j reason (hwf.calm j reason hj))
  · rw [hwell.wakeQueue_still _ (by rw [hcall, hslice]) (by rw [hcall, hresume]), hcall]

theorem Honoured.push (h : Honoured c) (hi : i < c.created) (value : T)
    (hf : c.isFull = false) (hroom : c.closed = false →
      c.held .send < c.stock .send + if (c.calls i).holds .send then 1 else 0) :
    Honoured ({ c with deque := c.deque ++ [value] }.finish i (.sent value (.ok ()))).wakeReceiver ∧
      ({ c with deque := c.deque ++ [value] }.finish i
        (.sent value (.ok ()))).wakeReceiver.calls i = .sent value (.ok ()) := by
  have hlt : c.deque.length < c.bound := by
    have hne : c.bound ≠ c.deque.length := by simpa [State.isFull] using hf
    have := h.fits
    omega
  rw [wakeReceiver_eq]
  refine h.exchange hi .send ⟨rfl, rfl, nofun, fun _ => rfl⟩ rfl rfl rfl rfl (fun _ => rfl) ?_ ?_ ?_
    hroom
  · simpa [Config.finish] using Nat.succ_le_of_lt hlt
  · simp only [State.stock, Config.finish, List.length_append, List.length_singleton]
    omega
  · simp [State.stock, Config.finish, opposite]

theorem Honoured.pop (h : Honoured c) (hi : i < c.created) {value : T} {rest : List T}
    (hdeque : c.deque = value :: rest) (hstock : c.closed = false →
      c.held .recv < c.stock .recv + if (c.calls i).holds .recv then 1 else 0) :
    Honoured ({ c with deque := rest }.finish i (.received (.ok value))).wakeSender ∧
      ({ c with deque := rest }.finish i (.received (.ok value))).wakeSender.calls i =
        .received (.ok value) := by
  have hlen : rest.length + 1 = c.deque.length := by rw [hdeque]; rfl
  have hfits := h.fits
  rw [wakeSender_eq]
  refine h.exchange hi .recv ⟨rfl, rfl, nofun, fun _ => rfl⟩ rfl rfl rfl rfl (fun _ => rfl) ?_ ?_ ?_
    hstock
  · simp only [Config.finish]
    omega
  · simpa [State.stock, Config.finish] using hlen
  · simp only [State.stock, Config.finish, opposite]
    omega

/-- A coroutine starts to wait. -/
theorem Honoured.suspend (h : Honoured c) (hi : i < c.created) (side : Side) {call : Call T}
    (hs : call.slice = none) (hp : ∀ reason, call ≠ .panicked reason)
    (hh : ∀ other, call.holds other = false) :
    Honoured ((c.setQueue side (c.queue side ++ [.resumption i])).finish i call) := by
  have hq : Honoured (c.setQueue side (c.queue side ++ [.resumption i])) := by
    refine h.requeue (requeue_setQueue ..) fun other w hw => ?_
    by_cases ho : other = side
    · subst ho
      rw [setQueue_queue] at hw
      rcases List.mem_append.mp hw with hw | hw
      · exact h.valid other w hw
      · cases List.mem_singleton.mp hw
        trivial
    · rw [setQueue_opposite c _ ho] at hw
      exact h.valid other w hw
  exact hq.finish (by simpa using hi) (by rw [hs]; nofun) hp fun other ho => by
    rw [hh other] at ho
    cases ho

theorem Honoured.send (h : Honoured c) (hi : i < c.created) (trying : Bool) (value : T)
    (hroom : c.closed = false → c.isFull = false →
      c.held .send < c.stock .send + if (c.calls i).holds .send then 1 else 0) :
    Honoured (c.send i trying value) := by
  unfold Config.send
  split
  next => exact h.finish hi nofun nofun nofun
  next hc =>
    split
    next hf =>
      have hf : c.isFull = false := by simpa using hf
      exact (h.push hi value hf fun ho => hroom ho hf).1
    next =>
      split
      next => exact h.finish hi nofun nofun nofun
      next => exact h.suspend hi .send rfl nofun fun _ => rfl

theorem Honoured.recv (h : Honoured c) (hi : i < c.created) (trying : Bool)
    (hstock : c.closed = false → c.deque ≠ [] →
      c.held .recv < c.stock .recv + if (c.calls i).holds .recv then 1 else 0) :
    Honoured (c.recv i trying) := by
  unfold Config.recv
  split
  next value rest hd => exact (h.pop hi hd fun ho => hstock ho (by simp [hd])).1
  next hd =>
    split
    next => exact h.finish hi nofun nofun nofun
    next =>
      split
      next => exact h.finish hi nofun nofun nofun
      next => exact h.suspend hi .recv rfl nofun fun _ => rfl

/-- The permit of a call keeps one slot or value for it. -/
theorem Honoured.reserved (h : Honoured c) (hi : i < c.created)
    (hh : (c.calls i).holds side = true) (ho : c.closed = false) :
    0 < c.stock side ∧ c.held side < c.stock side + if (c.calls i).holds side then 1 else 0 := by
  have hpos := held_pos hi hh
  have := h.covered ho side
  rw [if_pos hh]
  omega

/-- The permit stands for a slot, so the `try_send` behind it is not refused. -/
theorem Honoured.consumeSendPermit (h : Honoured c) (hi : i < c.created)
    (hh : (c.calls i).holds .send = true) (value : T) : Honoured (c.consumeSendPermit i value) := by
  have hsend := h.send hi true value fun ho _ => (h.reserved hi hh ho).2
  have hanswer : ∀ v w, (c.send i true value).calls i ≠ .sent v (.error (.full w)) := by
    intro v w he
    unfold Config.send at he
    split at he
    next => simp [Config.finish] at he
    next hc =>
      have hc : c.closed = false := by simpa using hc
      obtain ⟨hpos, hroom⟩ := h.reserved hi hh hc
      have hf : c.isFull = false := by
        simp only [State.stock] at hpos
        have hne : c.bound ≠ c.deque.length := by omega
        simpa [State.isFull] using hne
      rw [if_pos (by simp [hf]), (h.push hi value hf fun _ => hroom).2] at he
      cases he
  unfold Config.consumeSendPermit
  dsimp only
  split
  next he => exact absurd he (hanswer _ _)
  next => exact hsend

theorem Honoured.consumeRecvPermit (h : Honoured c) (hi : i < c.created)
    (hstock : c.closed = false → 0 < c.stock .recv ∧
      c.held .recv < c.stock .recv + if (c.calls i).holds .recv then 1 else 0) :
    Honoured (c.consumeRecvPermit i) := by
  have hrecv := h.recv hi true fun ho _ => (hstock ho).2
  have hanswer : (c.recv i true).calls i ≠ .received (.error .empty) := by
    intro he
    unfold Config.recv at he
    split at he
    next hd =>
      rw [(h.pop hi hd fun ho => (hstock ho).2).2] at he
      cases he
    next hd =>
      split at he
      next => simp [Config.finish] at he
      next hc =>
        have hpos := (hstock (by simpa using hc)).1
        simp [State.stock, hd] at hpos
  unfold Config.consumeRecvPermit
  dsimp only
  split
  next he => exact absurd he hanswer
  next => exact hrecv

theorem Honoured.close (h : Honoured c) : Honoured c.close := by
  obtain ⟨hf, hclosed, hdeque, hbound, hqueue⟩ := h.toWellFormed.close
  refine ⟨h.frame hf fun side w hw => ?_, ?_, fun ho => ?_, fun j reason hj => ?_⟩
  · rw [hqueue] at hw
    cases hw
  · rw [hdeque, hbound]
    exact h.fits
  · rw [hclosed] at ho
    cases ho
  · exact h.calm j reason (hf.calm j reason hj)

/-- A call starts, and takes a permit with it only if there is one to spare. -/
theorem Honoured.begin (h : Honoured c) (hd : Requeue c d) {call : Call T}
    (hwell : WellFormed (d.begin call)) (hp : ∀ reason, call ≠ .panicked reason)
    (hh : c.closed = false → ∀ side,
      c.held side + (if call.holds side then 1 else 0) ≤ c.stock side) :
    Honoured (d.begin call) := by
  refine ⟨hwell, ?_, fun ho side => ?_, fun j reason hj => ?_⟩
  · change d.deque.length ≤ d.bound
    rw [hd.deque, hd.bound]
    exact h.fits
  · have ho : c.closed = false := hd.closed ▸ ho
    rw [held_begin, held_congr hd.calls hd.created,
      show (d.begin call).stock side = d.stock side from rfl, hd.stock]
    exact hh ho side
  · by_cases hne : j = d.created
    · rw [begin_calls d call hne] at hj
      exact absurd hj (hp reason)
    · exact h.calm j reason (by simpa [Config.begin, hne, hd.calls] using hj)

theorem Honoured.begin_blank (h : Honoured c) {call : Call T}
    (hp : ∀ reason, call ≠ .panicked reason) (hh : ∀ side, call.holds side = false) :
    Honoured (c.begin call) := by
  refine h.begin (.refl c) (h.toWellFormed.begin (.refl c) call fun _ _ => Or.inl) hp fun ho side => ?_
  rw [hh]
  exact h.covered ho side

theorem Honoured.select (h : Honoured c) {slice : Slice} {identifier start : ℕ}
    {broken : Option ℕ} {skipped : Bool}
    (hs : c.select slice identifier start broken skipped = some d) : Honoured d := by
  obtain ⟨_, watched, counted, cell, hcell, rfl⟩ := select_begins hs
  refine h.begin (watch_all_queues slice c.created identifier watched c).1
    (selecting_well_formed h.toWellFormed watched counted cell) nofun fun ho side => ?_
  have hnone : (Call.selecting (T := T) slice identifier counted cell).holds side = false := by
    unfold Call.holds
    split <;> simp_all
  rw [hnone]
  exact h.covered ho side

/-- The side whose slot or value an event is about to take, though no permit is out for it. -/
def Config.wants (c : Config T) : Event T → Option Side
  | .send _ _ => some .send
  | .recv _ => some .recv
  | .resume i =>
    match c.calls i with
    | .sending _ (.fired _) => some .send
    | .receiving (.fired _) => some .recv
    | _ => none
  | .trySelect slice index => slice[index]?.join
  | _ => none

/-- An event takes a slot or a value while all that are left are promised to a `select!`. -/
def Steals (c : Config T) (e : Event T) : Prop :=
  c.closed = false ∧
    ((c.wants e).any fun side => c.isReady side && decide (c.stock side ≤ c.held side)) = true

instance (c : Config T) (e : Event T) : Decidable (Steals c e) := inferInstanceAs (Decidable (_ ∧ _))

theorem stock_of_not_steals {e : Event T} (hn : ¬ Steals c e) (hw : c.wants e = some side)
    (ho : c.closed = false) (hr : c.isReady side = true) : c.held side < c.stock side := by
  by_contra hlt
  refine hn ⟨ho, ?_⟩
  rw [hw]
  simpa [hr] using Nat.le_of_not_lt hlt

theorem room_of_not_steals {e : Event T} (hn : ¬ Steals c e) (hw : c.wants e = some .send)
    (ho : c.closed = false) (hf : c.isFull = false) : c.held .send < c.stock .send :=
  stock_of_not_steals hn hw ho (by simp [State.isReady, State.isSendable, hf])

theorem value_of_not_steals {e : Event T} (hn : ¬ Steals c e) (hw : c.wants e = some .recv)
    (ho : c.closed = false) (hd : c.deque ≠ []) : c.held .recv < c.stock .recv :=
  stock_of_not_steals hn hw ho (by simp [State.isReady, State.isRecvable, hd])

theorem Honoured.resume (h : Honoured c) (hs : c.resume i = some d) (hn : ¬ Steals c (.resume i)) :
    Honoured d := by
  have hi : i < c.created := h.toWellFormed.created_of fun hc => by simp [Config.resume, hc] at hs
  unfold Config.resume at hs
  split at hs
  next value hc =>
    cases hs
    have hw : c.wants (.resume i) = some .send := by simp [Config.wants, hc]
    exact h.send hi false value fun ho hf =>
      (room_of_not_steals hn hw ho hf).trans_le (Nat.le_add_right ..)
  next hc =>
    cases hs
    have hw : c.wants (.resume i) = some .recv := by simp [Config.wants, hc]
    exact h.recv hi false fun ho hd =>
      (value_of_not_steals hn hw ho hd).trans_le (Nat.le_add_right ..)
  next => cases hs; exact h.finish hi nofun nofun nofun
  next => cases hs; exact h.finish hi nofun nofun nofun
  next slice identifier counted cell hc =>
    obtain ⟨hd, hsub⟩ := unwatch_all_queues slice identifier counted c
    have hq := h.requeue hd fun side w hw => h.valid side w ((hsub side).subset hw)
    have hi := hd.created.symm ▸ hi
    split at hs
    next => cases hs
    next => cases hs; exact hq.finish hi nofun nofun nofun
    next index =>
      obtain ⟨side, hside, rfl⟩ := Option.map_eq_some_iff.mp hs
      have hheld : ((counted.foldl (fun d index => d.unwatch slice identifier index) c).calls
          i).holds side = true := by
        simp [hd.calls, hc, Call.holds, hside]
      cases side with
      | send =>
        refine hq.finish hi nofun nofun fun other ho => ?_
        cases other with
        | send => exact hheld
        | recv => cases ho
      | recv => exact hq.consumeRecvPermit hi (hq.reserved hi hheld)
    next => cases hs; exact hq.finish hi nofun nofun nofun
  next => cases hs

theorem Honoured.trySelect (h : Honoured c) {slice : Slice} {index : ℕ}
    (hs : c.step (.trySelect slice index) = some d) (hn : ¬ Steals c (.trySelect slice index)) :
    Honoured d := by
  simp only [Config.step] at hs
  split at hs
  next hside =>
    split at hs
    next hready =>
      cases hs
      refine h.begin (.refl c) (h.toWellFormed.begin (.refl c) _ fun _ _ => Or.inl) nofun
        fun ho side => ?_
      cases side with
      | send =>
        have hf : c.isFull = false := by simpa [State.isSendable, ho] using hready
        exact room_of_not_steals hn hside ho hf
      | recv => exact h.covered ho .recv
    next => cases hs
  next hside =>
    split at hs
    next hready =>
      cases hs
      have hb : Honoured (c.begin (.receiving .pending)) := h.begin_blank nofun fun _ => rfl
      refine hb.consumeRecvPermit (Nat.lt_succ_self _) fun ho => ?_
      have ho : c.closed = false := ho
      have hd : c.deque ≠ [] := by simpa [State.isRecvable, ho] using hready
      rw [held_begin]
      exact ⟨List.length_pos_of_ne_nil hd,
        (value_of_not_steals hn hside ho hd).trans_le (Nat.le_add_right ..)⟩
    next => cases hs
  next => cases hs

/-- A step that does not steal keeps every permit good. -/
theorem honoured_step {e : Event T} (h : Honoured c) (hn : ¬ Steals c e)
    (hs : c.step e = some d) : Honoured d := by
  cases e with
  | send trying value =>
    cases hs
    have hb : Honoured (c.begin (.sending value .pending)) := h.begin_blank nofun fun _ => rfl
    refine hb.send (Nat.lt_succ_self _) trying value fun ho hf => ?_
    rw [held_begin]
    exact (room_of_not_steals hn rfl ho hf).trans_le (Nat.le_add_right ..)
  | recv trying =>
    cases hs
    have hb : Honoured (c.begin (.receiving .pending)) := h.begin_blank nofun fun _ => rfl
    refine hb.recv (Nat.lt_succ_self _) trying fun ho hd => ?_
    rw [held_begin]
    exact (value_of_not_steals hn rfl ho hd).trans_le (Nat.le_add_right ..)
  | resume i => exact h.resume hs hn
  | interrupt i =>
    obtain ⟨call, hcall, rfl⟩ := Option.map_eq_some_iff.mp hs
    have hi : i < c.created := h.toWellFormed.created_of fun hc => by
      simp [Call.interrupt, hc] at hcall
    unfold Call.interrupt at hcall
    split at hcall
    next hc => cases hcall; exact h.finish hi nofun nofun nofun
    next hc => cases hcall; exact h.finish hi nofun nofun nofun
    next hc => cases hcall; exact h.finish hi (by rw [hc]; exact fun _ => id) nofun nofun
    next => cases hcall
  | trySelect slice index => exact h.trySelect hs hn
  | select slice identifier start broken skipped => exact h.select hs
  | elsewhere i =>
    simp only [Config.step] at hs
    split at hs
    next slice identifier counted hc =>
      cases hs
      have hi : i < c.created := h.toWellFormed.created_of (by rw [hc]; nofun)
      exact h.finish hi (by rw [hc]; exact fun _ => id) nofun nofun
    next => cases hs
  | consumeSend i value =>
    simp only [Config.step] at hs
    split at hs
    next hc =>
      cases hs
      have hi : i < c.created := h.toWellFormed.created_of (by rw [hc]; nofun)
      exact h.consumeSendPermit hi (by rw [hc]; rfl) value
    next => cases hs
  | forfeit i =>
    simp only [Config.step] at hs
    split at hs
    next hc =>
      cases hs
      exact h.finish (h.toWellFormed.created_of (by rw [hc]; nofun)) nofun nofun nofun
    next => cases hs
  | close => cases hs; exact h.close

theorem initial_honoured (capacity : Capacity) : Honoured (initial (T := T) capacity) where
  fresh _ _ := rfl
  valid side := by cases side <;> exact nofun
  fits := Nat.zero_le _
  covered _ side := Nat.zero_le _
  calm := nofun

/-- In a run without stealing no consumer of a permit hits its panic. -/
theorem permits_honoured {capacity : Capacity} (ρ : Execution (system T capacity))
    (hn : ∀ s e, ρ.Takes s e → ¬ Steals s e) :
    ∀ s, ρ.Visits s → ∀ i reason, s.calls i ≠ .panicked reason := by
  intro s hv
  have h := ρ.guarded (P := Honoured) (fun _ => id) (initial_honoured capacity)
    (fun _ _ _ _ h hn hs => honoured_step h hn hs) hn s hv
  exact h.calm

/-- A value wakes a blocked `select!`, a second one comes, and another coroutine takes the first
before the `select!` runs. -/
def contendedExecution : Execution (system ℕ ⟨2, by decide⟩) :=
  ⟨[.select [some .recv] 7 0 none false, .send true 5, .send true 6, .recv true, .resume 0],
    by decide⟩

theorem contended_permit_honoured :
    contendedExecution.final.calls 0 = .received (.ok 6) ∧
      ∀ s, contendedExecution.Visits s → ∀ i reason, s.calls i ≠ .panicked reason :=
  ⟨by decide, permits_honoured contendedExecution
    (contendedExecution.takes_of_allSteps (P := fun s e => ¬ Steals s e) (by decide))⟩

/-- The same without a second value. -/
def stolenTrace : List (Event ℕ) :=
  [.select [some .recv] 7 0 none false, .send true 5, .recv true, .resume 0]

theorem stolen_permit_panics : ¬ ∀ c : Config ℕ, Reachable (system ℕ ⟨2, by decide⟩) c →
    ∀ i reason, c.calls i ≠ .panicked reason := by
  intro h
  exact h _ (run_reachable stolenTrace rfl) 0 "not ready to recv" (by decide)

end SerialChannel
