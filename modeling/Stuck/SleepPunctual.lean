import Stuck.Sleep

/-! A sleep that is requested while the timer's clock is fresh enough is never woken early. -/
namespace Sleep

open TransitionSystem Time

variable {c d : Config}

theorem Duration.length_lt (d : Duration) : d.length < d.asMillis + 1 := by
  have hlt : d.nanos < (d.nanos / 1000000 + 1) * 1000000 := by omega
  have hcast : (d.nanos : ℚ) < ((d.nanos / 1000000 : ℕ) + 1) * 1000000 := by exact_mod_cast hlt
  simp only [asMillis, length, Nat.cast_add, Nat.cast_mul]
  push_cast
  linarith

/-- What the timer's clock shows once the messages are processed. -/
def clockAfter : ℕ → List Message → ℕ
  | clock, [] => clock
  | clock, .updateTime time :: rest => clockAfter (max clock time.toNat) rest
  | clock, .timeout .. :: rest | clock, .stop :: rest => clockAfter clock rest

theorem clockAfter_append (clock : ℕ) (queue rest : List Message) :
    clockAfter clock (queue ++ rest) = clockAfter (clockAfter clock queue) rest := by
  induction queue generalizing clock with
  | nil => rfl
  | cons message queue ih => cases message <;> exact ih _

/-- The clock that the timer has or is on its way to. -/
def Config.clock (c : Config) : ℕ :=
  match c.timer with
  | some t => max t.time.toNat c.target.toNat
  | none => c.target.toNat

/-- The request of a call that a waker may still wake or has woken. -/
def Call.request : Call → Option (ℚ × Duration)
  | .waiting instant duration | .woken instant duration _ => some (instant, duration)
  | _ => none

/-- A wake of the call in the tick of `deadline` is not early. -/
def Config.Covers (c : Config) (i deadline : ℕ) : Prop :=
  ∃ instant duration, (c.calls i).request = some (instant, duration) ∧
    (instant + duration.length ≤ c.now ∨ instant + duration.length ≤ c.started + deadline)

/-- The time is one that the ticker may have seen. -/
def Config.Passed (c : Config) (time : ℕ) : Prop := time = 0 ∨ (time : ℚ) ≤ c.now - c.started

/-- The call that is about to send its request. -/
def Call.issue : Call → Option (ℚ × Duration)
  | .issued instant duration => some (instant, duration)
  | _ => none

/-- The request fits the timer, and the time last sent by the ticker makes up for the fraction of
a millisecond that the request leaves out. -/
def Config.FreshRequest (c : Config) (instant : ℚ) (duration : Duration) : Prop :=
  c.time.toNat + duration.asMillis + 1 < 2 ^ 64 ∧
    (instant + duration.length ≤ c.now ∨
      instant + duration.length ≤ c.started + (c.time.toNat + duration.asMillis + 1 : ℕ))

/-- The condition on a step: a duration fits its milliseconds, and a request is sent fresh. -/
def Config.Fresh (c : Config) : Event → Prop
  | .sleep duration => duration.asMillis < 2 ^ 64
  | .send i => ∀ request ∈ (c.calls i).issue, c.closed = false →
      c.FreshRequest request.1 request.2
  | _ => True

instance (c : Config) (instant : ℚ) (duration : Duration) :
    Decidable (c.FreshRequest instant duration) := inferInstanceAs (Decidable (_ ∧ _))

instance (c : Config) : ∀ e, Decidable (c.Fresh e)
  | .sleep duration => inferInstanceAs (Decidable (duration.asMillis < 2 ^ 64))
  | .send i => inferInstanceAs (Decidable (∀ request ∈ (c.calls i).issue, c.closed = false →
      c.FreshRequest request.1 request.2))
  | .elapse _ | .sample | .yielded _ | .process | .tick | .stop => isTrue trivial

structure Punctual (c : Config) : Prop where
  fresh : ∀ i, c.created ≤ i → c.calls i = .unused
  ticked : c.Passed c.time.toNat
  targeted : c.Passed c.target.toNat
  sent : ∀ time, .updateTime time ∈ c.queue → c.Passed time.toNat
  horizon : c.closed = false → clockAfter c.clock c.queue = c.time.toNat
  registered : ∃ t a, c.timer = some t ∧ Refines t a ∧
    ∀ entry ∈ a.registered, c.Covers entry.2 entry.1
  queued : ∀ pre timeout i post, c.queue = pre ++ .timeout timeout i :: post →
    clockAfter c.clock pre + timeout.toNat + 1 < 2 ^ 64 ∧
      c.Covers i (clockAfter c.clock pre + timeout.toNat + 1)
  yielding : ∀ i instant duration, c.calls i = .yielding instant duration → duration.length < 1
  punctual : ∀ i instant duration wake, c.calls i = .woken instant duration wake →
    1 ≤ duration.length → instant + duration.length ≤ wake

theorem initial_punctual (boot started : ℚ) : Punctual (initial boot started) where
  fresh _ _ := rfl
  ticked := Or.inl rfl
  targeted := Or.inl rfl
  sent time hm := by cases hm
  horizon _ := rfl
  registered := ⟨_, _, rfl, new_refines, fun entry hm => by cases hm⟩
  queued pre timeout i post he := by
    have := congrArg List.length he
    simp [initial] at this
  yielding i instant duration hc := by cases hc
  punctual i instant duration wake hc := by cases hc

/-- Time goes on, and no request is forgotten. -/
structure Later (c d : Config) : Prop where
  now : c.now ≤ d.now
  started : d.started = c.started
  request : ∀ i request, (c.calls i).request = some request →
    (d.calls i).request = some request

theorem Config.Covers.later {i deadline : ℕ} (h : c.Covers i deadline) (hl : Later c d) :
    d.Covers i deadline := by
  obtain ⟨instant, duration, hr, hc⟩ := h
  refine ⟨instant, duration, hl.request i _ hr, ?_⟩
  rw [hl.started]
  rcases hc with hc | hc
  · exact Or.inl (hc.trans hl.now)
  · exact Or.inr hc

theorem Config.Passed.later {time : ℕ} (h : c.Passed time) (hl : Later c d) : d.Passed time := by
  rcases h with h | h
  · exact Or.inl h
  · right
    have := hl.now
    rw [hl.started]
    linarith

/-- The clauses about the channel and the timer, when these stay. -/
theorem Punctual.calls (h : Punctual c) (hl : Later c d) (htime : d.time = c.time)
    (htarget : d.target = c.target) (hqueue : d.queue = c.queue) (hclosed : d.closed = c.closed)
    (htimer : d.timer = c.timer) (hfresh : ∀ i, d.created ≤ i → d.calls i = .unused)
    (hyielding : ∀ i instant duration, d.calls i = .yielding instant duration →
      duration.length < 1)
    (hpunctual : ∀ i instant duration wake, d.calls i = .woken instant duration wake →
      1 ≤ duration.length → instant + duration.length ≤ wake) : Punctual d where
  fresh := hfresh
  ticked := htime ▸ h.ticked.later hl
  targeted := htarget ▸ h.targeted.later hl
  sent time hm := (h.sent time (hqueue ▸ hm)).later hl
  horizon hc := by
    have := h.horizon (hclosed ▸ hc)
    simpa only [Config.clock, htimer, htarget, hqueue, htime] using this
  registered := by
    obtain ⟨t, a, ht, hr, hc⟩ := h.registered
    exact ⟨t, a, htimer.trans ht, hr, fun entry hm => (hc entry hm).later hl⟩
  queued pre timeout i post he := by
    have hclock : d.clock = c.clock := by simp only [Config.clock, htimer, htarget]
    obtain ⟨hlt, hc⟩ := h.queued pre timeout i post (hqueue ▸ he)
    rw [hclock]
    exact ⟨hlt, hc.later hl⟩
  yielding := hyielding
  punctual := hpunctual

theorem Punctual.elapse (h : Punctual c) {span : ℚ} (hs : 0 ≤ span) :
    Punctual { c with now := c.now + span } := by
  have hl : Later c { c with now := c.now + span } :=
    ⟨by simpa using hs, rfl, fun _ _ => id⟩
  exact h.calls hl rfl rfl rfl rfl rfl h.fresh h.yielding h.punctual

theorem Punctual.later_begin (h : Punctual c) (call : Call) : Later c (c.begin call) where
  now := le_rfl
  started := rfl
  request i request hr := by
    have hi : i ≠ c.created := by
      rintro rfl
      rw [h.fresh c.created (Nat.le_refl _)] at hr
      cases hr
    simpa only [Config.begin, Function.update_of_ne hi] using hr

theorem Punctual.begin (h : Punctual c) {call : Call}
    (hy : ∀ instant duration, call = .yielding instant duration → duration.length < 1)
    (hw : ∀ instant duration wake, call ≠ .woken instant duration wake) :
    Punctual (c.begin call) := by
  refine h.calls (h.later_begin call) rfl rfl rfl rfl rfl ?_ ?_ ?_
  · intro i hi
    have hi : c.created + 1 ≤ i := hi
    simp only [Config.begin]
    rw [Function.update_of_ne (by omega)]
    exact h.fresh i (by omega)
  · intro i instant duration hc
    by_cases hi : i = c.created
    · subst hi
      exact hy instant duration (by simpa [Config.begin] using hc)
    · exact h.yielding i instant duration (by simpa [Config.begin, hi] using hc)
  · intro i instant duration wake hc
    by_cases hi : i = c.created
    · subst hi
      exact absurd (by simpa [Config.begin] using hc) (hw instant duration wake)
    · exact h.punctual i instant duration wake (by simpa [Config.begin, hi] using hc)

theorem toNat_asMillis {d : Duration} (h : d.asMillis < 2 ^ 64) :
    (UInt64.ofNat d.asMillis).toNat = d.asMillis := by
  rw [UInt64.toNat_ofNat']
  exact Nat.mod_eq_of_lt h

theorem Punctual.sleep (h : Punctual c) {duration : Duration} (hf : c.Fresh (.sleep duration)) :
    Punctual (c.sleep duration) := by
  have hmillis := toNat_asMillis hf
  unfold Config.sleep
  dsimp only
  split
  next h0 =>
    refine h.begin ?_ (by simp)
    rintro instant duration' he
    cases he
    have hzero : duration.asMillis = 0 := by
      rw [h0] at hmillis
      exact hmillis.symm
    have := duration.length_lt
    rw [hzero] at this
    simpa using this
  next => exact h.begin (by simp) (by simp)

theorem Punctual.finish (h : Punctual c) {i : ℕ} {call : Call} (hi : c.calls i ≠ .unused)
    (hr : ∀ request, (c.calls i).request = some request → call.request = some request)
    (hy : ∀ instant duration, call ≠ .yielding instant duration)
    (hw : ∀ instant duration wake, call = .woken instant duration wake →
      1 ≤ duration.length → instant + duration.length ≤ wake) : Punctual (c.finish i call) := by
  refine h.calls ⟨le_rfl, rfl, ?_⟩ rfl rfl rfl rfl rfl ?_ ?_ ?_
  · intro j request hj
    by_cases hij : j = i
    · subst hij
      simpa [Config.finish] using hr request hj
    · simpa [Config.finish, hij] using hj
  · intro j hj
    have hij : j ≠ i := by
      rintro rfl
      exact hi (h.fresh j hj)
    simpa [Config.finish, hij] using h.fresh j hj
  · intro j instant duration hc
    by_cases hij : j = i
    · subst hij
      exact absurd (by simpa [Config.finish] using hc) (hy instant duration)
    · exact h.yielding j instant duration (by simpa [Config.finish, hij] using hc)
  · intro j instant duration wake hc
    by_cases hij : j = i
    · subst hij
      exact hw instant duration wake (by simpa [Config.finish] using hc)
    · exact h.punctual j instant duration wake (by simpa [Config.finish, hij] using hc)

theorem Punctual.yielded (h : Punctual c) {i : ℕ} (hs : c.yielded i = some d) : Punctual d := by
  unfold Config.yielded at hs
  split at hs
  next instant duration hc =>
    cases hs
    refine h.finish (by simp [hc]) (by simp [hc, Call.request]) (by simp) ?_
    rintro _ _ _ ⟨⟩ hlen
    exact absurd (h.yielding i instant duration hc) (not_lt.mpr hlen)
  next => cases hs

/-- A message is put at the end of the queue. -/
theorem Punctual.enqueue (h : Punctual c) (message : Message) (time : UInt64)
    (hpassed : c.Passed time.toNat)
    (hsent : ∀ time', message = .updateTime time' → time' = time)
    (htime : c.closed = false → clockAfter c.time.toNat [message] = time.toNat)
    (hqueued : ∀ timeout i, message = .timeout timeout i →
      clockAfter c.clock c.queue + timeout.toNat + 1 < 2 ^ 64 ∧
        c.Covers i (clockAfter c.clock c.queue + timeout.toNat + 1)) :
    Punctual { c with queue := c.queue ++ [message], time := time } where
  fresh := h.fresh
  ticked := hpassed
  targeted := h.targeted
  sent time' hm := by
    rcases List.mem_append.mp hm with hm | hm
    · exact h.sent time' hm
    · rw [hsent time' (List.mem_singleton.mp hm).symm]
      exact hpassed
  horizon hc := by
    have hh := h.horizon hc
    change clockAfter c.clock (c.queue ++ [message]) = _
    rw [clockAfter_append, hh]
    exact htime hc
  registered := h.registered
  queued pre timeout i post he := by
    have he : c.queue ++ [message] = pre ++ .timeout timeout i :: post := he
    rcases List.eq_nil_or_concat post with rfl | ⟨post, last, rfl⟩
    · obtain ⟨rfl, hm⟩ := List.append_inj' he rfl
      exact hqueued timeout i (List.singleton_inj.mp hm)
    · rw [List.concat_eq_append, ← List.cons_append, ← List.append_assoc] at he
      exact h.queued pre timeout i post (List.append_inj' he rfl).1
  yielding := h.yielding
  punctual := h.punctual

theorem Punctual.send (h : Punctual c) {i : ℕ} (hf : c.Fresh (.send i))
    (hs : c.send i = some d) : Punctual d := by
  unfold Config.send at hs
  split at hs
  next instant duration hc =>
    split at hs
    next hclosed =>
      cases hs
      exact h.finish (by simp [hc]) (by simp [hc, Call.request]) (by simp) (by simp)
    next hopen =>
      cases hs
      have hopen : c.closed = false := by simpa using hopen
      obtain ⟨hlt, hdue⟩ := hf (instant, duration) (by simp [hc, Call.issue]) hopen
      dsimp only at hlt hdue
      have hmillis := toNat_asMillis (d := duration) (by omega)
      have hwaiting : Punctual (c.finish i (.waiting instant duration)) :=
        h.finish (by simp [hc]) (by simp [hc, Call.request]) (by simp) (by simp)
      have hhorizon := hwaiting.horizon hopen
      refine hwaiting.enqueue (.timeout (UInt64.ofNat duration.asMillis) i) c.time
        hwaiting.ticked (by simp) (fun _ => rfl) ?_
      rintro timeout j ⟨⟩
      rw [hhorizon, hmillis]
      exact ⟨hlt, instant, duration, by simp [Config.finish, Call.request], hdue⟩
  next => cases hs

theorem elapsed_passed (c : Config) : c.Passed c.elapsed.toNat := by
  have hle : c.elapsed.toNat ≤ ⌊c.now - c.started⌋₊ := by
    rw [Config.elapsed, UInt64.toNat_ofNat']
    exact Nat.mod_le _ _
  by_cases hpos : 0 ≤ c.now - c.started
  · right
    have hfloor := Nat.floor_le hpos
    have hcast : (c.elapsed.toNat : ℚ) ≤ (⌊c.now - c.started⌋₊ : ℚ) := by exact_mod_cast hle
    exact hcast.trans hfloor
  · left
    rw [Nat.floor_of_nonpos (le_of_not_ge hpos)] at hle
    omega

theorem Punctual.sample (h : Punctual c) (hs : c.sample = some d) : Punctual d := by
  unfold Config.sample at hs
  split at hs
  next =>
    have hm : Punctual { c with sampled := c.now } :=
      h.calls ⟨le_rfl, rfl, fun _ _ => id⟩ rfl rfl rfl rfl rfl h.fresh h.yielding h.punctual
    dsimp only at hs
    split at hs
    next hlt =>
      have hlt : c.time.toNat < c.elapsed.toNat := UInt64.lt_iff_toNat_lt.mp hlt
      split at hs
      next hclosed =>
        cases hs
        exact { hm with
          ticked := elapsed_passed c
          horizon := fun hc => by simp [hclosed] at hc }
      next =>
        cases hs
        refine hm.enqueue (.updateTime c.elapsed) c.elapsed (elapsed_passed c)
          (by rintro _ ⟨⟩; rfl) (fun _ => ?_) (by simp)
        exact Nat.max_eq_right (Nat.le_of_lt hlt)
    next =>
      cases hs
      exact hm
  next => cases hs

theorem Punctual.stop (h : Punctual c) :
    Punctual (if c.closed then c else { c with queue := c.queue ++ [.stop] }) := by
  split
  · exact h
  · exact h.enqueue .stop c.time h.ticked (by simp) (fun _ => rfl) (by simp)

/-- The timer takes the first message off the queue. -/
theorem Punctual.dequeue (h : Punctual c) {message : Message} {rest : List Message}
    {timer : Option (Timer ℕ)} {target : UInt64} {closed : Bool}
    (hqueue : c.queue = message :: rest)
    (htarget : c.Passed target.toNat) (hclosed : closed = false → c.closed = false)
    (hclock : ∀ queue, clockAfter c.clock (message :: queue) =
      clockAfter (Config.clock { c with timer := timer, target := target }) queue)
    (hregistered : ∃ t a, timer = some t ∧ Refines t a ∧
      ∀ entry ∈ a.registered, c.Covers entry.2 entry.1) :
    Punctual { c with queue := rest, timer := timer, target := target, closed := closed } where
  fresh := h.fresh
  ticked := h.ticked
  targeted := htarget
  sent time hm := h.sent time (by rw [hqueue]; exact List.mem_cons_of_mem _ hm)
  horizon hc := by
    have hh := h.horizon (hclosed hc)
    rw [hqueue, hclock] at hh
    exact hh
  registered := hregistered
  queued pre timeout i post he := by
    have he : rest = pre ++ .timeout timeout i :: post := he
    have hq := h.queued (message :: pre) timeout i post (by rw [hqueue, he]; rfl)
    rw [hclock] at hq
    exact hq
  yielding := h.yielding
  punctual := h.punctual

theorem Punctual.process (h : Punctual c) (hs : c.process = some d) : Punctual d := by
  obtain ⟨t, a, ht, hr, hc⟩ := h.registered
  have hnow := hr.clock
  unfold Config.process at hs
  rw [ht] at hs
  split at hs
  next t' message rest htimer hqueue =>
    cases htimer
    split at hs
    next => cases hs
    next hidle =>
      have hidle : c.target.toNat ≤ t.time.toNat := by
        have := mt UInt64.lt_iff_toNat_lt.mpr hidle
        omega
      have hclock : c.clock = t.time.toNat := by
        simp only [Config.clock, ht]
        omega
      dsimp only at hs
      split at hs
      next timeout session =>
        cases hs
        obtain ⟨hlt, hcovers⟩ := h.queued [] timeout session rest hqueue
        simp only [clockAfter, hclock] at hlt hcovers
        have hone : (timeout + 1).toNat = timeout.toNat + 1 := by
          rw [UInt64.toNat_add]
          exact Nat.mod_eq_of_lt (by
            have : UInt64.toNat 1 = 1 := rfl
            omega)
        obtain ⟨t', ht', hr'⟩ := hr.timeout (timeout + 1) session ⟨by omega, by omega⟩
        have hsame : t'.time.toNat = t.time.toNat := hr'.clock.trans hnow.symm
        refine h.dequeue hqueue h.targeted id (fun queue => ?_) ⟨t', _, ht', hr', ?_⟩
        · simp only [clockAfter, Config.clock, ht, ht', hsame]
        · intro entry hm
          rcases List.mem_append.mp hm with hm | hm
          · exact hc entry hm
          · rw [List.mem_singleton.mp hm]
            dsimp only
            rw [hone, ← hnow, ← Nat.add_assoc]
            exact hcovers
      next time =>
        cases hs
        have hpassed : c.Passed time.toNat := h.sent time (by rw [hqueue]; exact List.mem_cons_self)
        refine h.dequeue hqueue hpassed id (fun queue => ?_) ⟨t, a, rfl, hr, hc⟩
        rw [clockAfter, hclock]
        rfl
      next =>
        cases hs
        refine h.dequeue hqueue h.targeted (by simp) (fun queue => ?_) ⟨t, a, rfl, hr, hc⟩
        simp only [clockAfter, Config.clock, ht]
  next => cases hs

theorem wake_calls (c : Config) (i j : ℕ) : (c.wake i).calls j = c.calls j ∨
    (j = i ∧ ∃ instant duration, c.calls j = .waiting instant duration ∧
      (c.wake i).calls j = .woken instant duration c.now) := by
  unfold Config.wake
  split
  next instant duration hc =>
    by_cases hj : j = i
    · subst hj
      exact Or.inr ⟨rfl, instant, duration, hc, by simp [Config.finish]⟩
    · exact Or.inl (by simp [Config.finish, hj])
  next => exact Or.inl rfl

theorem wake_frame (c : Config) (i : ℕ) : c.wake i = { c with calls := (c.wake i).calls } := by
  unfold Config.wake
  split <;> rfl

theorem wakeAll_frame (c : Config) (sessions : List ℕ) :
    c.wakeAll sessions = { c with calls := (c.wakeAll sessions).calls } := by
  induction sessions generalizing c with
  | nil => rfl
  | cons i sessions ih =>
    have he : c.wakeAll (i :: sessions) = (c.wake i).wakeAll sessions := rfl
    rw [he, ih (c.wake i), wake_frame c i]

theorem wakeAll_calls (c : Config) (sessions : List ℕ) (j : ℕ) :
    (c.wakeAll sessions).calls j = c.calls j ∨ (j ∈ sessions ∧ ∃ instant duration,
      c.calls j = .waiting instant duration ∧
        (c.wakeAll sessions).calls j = .woken instant duration c.now) := by
  induction sessions generalizing c with
  | nil => exact Or.inl rfl
  | cons i sessions ih =>
    have he : c.wakeAll (i :: sessions) = (c.wake i).wakeAll sessions := rfl
    have hnow : (c.wake i).now = c.now := by rw [wake_frame]
    rw [he]
    rcases ih (c.wake i) with h | ⟨hm, instant, duration, hc, h⟩
    · rcases wake_calls c i j with hw | ⟨rfl, instant, duration, hc, hw⟩
      · exact Or.inl (h.trans hw)
      · exact Or.inr ⟨by simp, instant, duration, hc, h.trans hw⟩
    · right
      refine ⟨by simp [hm], instant, duration, ?_, by rw [h, hnow]⟩
      rcases wake_calls c i j with hw | ⟨_, _, _, _, hw⟩
      · rw [← hw]
        exact hc
      · rw [hw] at hc
        cases hc

theorem Refines.mem_registered {t : Timer ℕ} {a : Alarms ℕ} (h : Refines t a)
    (wake : UInt64 × ℕ) (hm : wake ∈ t.woken) : (wake.1.toNat, wake.2) ∈ a.registered := by
  rw [← Multiset.mem_coe, h.registered]
  exact Multiset.mem_add.mpr (Or.inl (List.mem_map.mpr ⟨wake, hm, rfl⟩))

/-- Every session that a tick wakes is covered by the time of that tick, which is past. -/
theorem Punctual.tick (h : Punctual c) (hs : c.tick = some d) : Punctual d := by
  obtain ⟨t, a, ht, hr, hc⟩ := h.registered
  have hnow := hr.clock
  unfold Config.tick at hs
  rw [ht] at hs
  dsimp only at hs
  split at hs
  next hlt =>
    have hlt : t.time.toNat < c.target.toNat := UInt64.lt_iff_toNat_lt.mp hlt
    have hbound := c.target.toNat_lt
    obtain ⟨t', ht', hr'⟩ := hr.tick (by omega)
    obtain ⟨due, t'', ht'', hticked⟩ := hr.wheel.tick (by omega)
    obtain rfl : t' = t'' := Option.some_injective _ (ht'.symm.trans ht'')
    rw [ht'] at hs
    cases hs
    have hdrop : t'.woken.drop t.woken.length = due.map fun node => (t'.time, node.session) := by
      rw [hticked.woken, List.drop_left]
    rw [hdrop]
    let m : Config := { c with timer := some t' }
    have hclock : m.clock = c.clock := by
      have := hticked.time
      simp only [m, Config.clock, ht]
      omega
    have hm : Punctual m :=
      { h with
        horizon := fun hopen => hclock ▸ h.horizon hopen
        registered := ⟨t', _, rfl, hr', hc⟩
        queued := hclock ▸ h.queued }
    let sessions := (due.map fun node => (t'.time, node.session)).map Prod.snd
    have hcovers : ∀ i ∈ sessions, c.Covers i t'.time.toNat := by
      intro i hi
      obtain ⟨wake, hw, rfl⟩ := List.mem_map.mp hi
      have hreg := Refines.mem_registered hr' wake (by
        rw [hticked.woken]
        exact List.mem_append_right _ hw)
      obtain ⟨node, _, rfl⟩ := List.mem_map.mp hw
      exact hc _ hreg
    have hpast : (t'.time.toNat : ℚ) ≤ c.now - c.started := by
      have hle : t'.time.toNat ≤ c.target.toNat := by
        have := hticked.time
        omega
      have hcast : (t'.time.toNat : ℚ) ≤ (c.target.toNat : ℚ) := by exact_mod_cast hle
      rcases h.targeted with h0 | htarget
      · omega
      · exact hcast.trans htarget
    have hcalls := wakeAll_calls m sessions
    have hframe := wakeAll_frame m sessions
    have hlater : Later m (m.wakeAll sessions) := by
      refine ⟨by rw [hframe], by rw [hframe], fun i request hi => ?_⟩
      rcases hcalls i with he | ⟨_, instant, duration, he, hw⟩
      · rw [he]; exact hi
      · rw [he] at hi
        rw [hw]
        exact hi
    refine hm.calls hlater (by rw [hframe]) (by rw [hframe]) (by rw [hframe]) (by rw [hframe])
      (by rw [hframe]) ?_ ?_ ?_
    · intro i hi
      rw [hframe] at hi
      have hi := hm.fresh i hi
      rcases hcalls i with he | ⟨_, _, _, he, _⟩
      · exact he.trans hi
      · rw [hi] at he
        cases he
    · intro i instant duration hi
      rcases hcalls i with he | ⟨_, _, _, _, hw⟩
      · exact hm.yielding i instant duration (he ▸ hi)
      · rw [hw] at hi
        cases hi
    · intro i instant duration wake hi hlen
      rcases hcalls i with he | ⟨hi', instant', duration', hwait, hw⟩
      · exact hm.punctual i instant duration wake (he ▸ hi) hlen
      · rw [hw] at hi
        cases hi
        obtain ⟨instant', duration', hreq, hdue⟩ := hcovers i hi'
        have hwait : c.calls i = .waiting instant duration := hwait
        rw [hwait] at hreq
        cases hreq
        change instant + duration.length ≤ c.now
        rcases hdue with hdue | hdue
        · exact hdue
        · linarith
  next => cases hs

theorem step_preserves_punctual {e : Event} (h : Punctual c) (hf : c.Fresh e)
    (hs : c.step e = some d) : Punctual d := by
  cases e with
  | elapse span =>
    simp only [Config.step] at hs
    split at hs
    next hpos => cases hs; exact h.elapse hpos
    next => cases hs
  | sample => exact h.sample hs
  | sleep duration => cases hs; exact h.sleep hf
  | send i => exact h.send hf hs
  | yielded i => exact h.yielded hs
  | process => exact h.process hs
  | tick => exact h.tick hs
  | stop => cases hs; exact h.stop

/-- In a run in which every request is fresh, no sleep of at least one millisecond is woken before
its time. -/
theorem sleep_never_early {boot started : ℚ} (ρ : Execution (system boot started))
    (hf : ∀ c e, ρ.Takes c e → c.Fresh e) : ∀ c, ρ.Visits c →
      ∀ i instant duration wake, c.calls i = .woken instant duration wake →
        1 ≤ duration.length → instant + duration.length ≤ wake := by
  intro c hc
  have h : Punctual c := ρ.induction (initial_punctual boot started)
    (fun c e d ht hs hp => step_preserves_punctual hp (hf c e ht) hs) hc
  exact h.punctual

def oneMilli : Duration := ⟨0, 1000000, by decide⟩

/-- The ticker samples at 1.9 and at 3, and a sleep of one millisecond is issued at 2.95: the
timer's clock shows 1 when it takes the request. -/
def staleTrace : List Event :=
  [.elapse (19 / 10), .sample, .process, .tick, .elapse (21 / 20), .sleep oneMilli, .send 0,
    .process, .elapse (1 / 20), .sample, .process, .tick, .tick]

def staleRun : Execution (system 0 0) := ⟨staleTrace, by decide +kernel⟩

theorem stale_sleep_woken_early : ∃ c, Reachable (system 0 0) c ∧
    c.calls 0 = .woken (59 / 20) oneMilli 3 ∧ ¬ 59 / 20 + oneMilli.length ≤ 3 :=
  ⟨staleRun.final, staleRun.final_reachable, by decide +kernel, by decide +kernel⟩

/-- The ticker samples every millisecond. -/
def steadyTrace : List Event :=
  [.elapse 1, .sample, .process, .tick, .sleep oneMilli, .send 0, .process, .elapse 1, .sample,
    .process, .tick, .elapse 1, .sample, .process, .tick]

def steadyRun : Execution (system 0 0) := ⟨steadyTrace, by decide +kernel⟩

theorem steady_sleep_punctual : steadyRun.final.calls 0 = .woken 1 oneMilli 3 ∧
    1 + oneMilli.length ≤ 3 := by
  have hf := steadyRun.takes_of_allSteps (P := Config.Fresh) (by decide +kernel)
  have hw : steadyRun.final.calls 0 = .woken 1 oneMilli 3 := by decide +kernel
  exact ⟨hw, sleep_never_early steadyRun hf _ steadyRun.visits_final 0 1 oneMilli 3 hw
    (by decide +kernel)⟩

end Sleep
