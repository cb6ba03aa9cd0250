import Stuck.ParallelChannelBalance

/-! Any set of parallel channels, with selects over slices of their endpoints. All selectors of a
select share one waker, which one of the channels wins (or something else: an interruption, a
socket); the others find it fired. Within its critical section a channel may win a waker at any
time, so the sections of different channels overlap freely. -/
namespace ParallelChannels

open TransitionSystem OneShot SharedTypes ParallelChannel

variable {ι T : Type*}

/-- Who has fired the waker of a select. -/
inductive Winner (ι : Type*) where
  | channel (k : ι)
  | outside
  deriving DecidableEq, Repr

/-- The entries of a `select!` slice: an endpoint of one of the channels, or anything else. -/
abbrev Slice (ι : Type*) := List (Option (ι × Side))

/-- `part s k` is the call that the select `s` is in the channel `k`. -/
structure Channels (ι T : Type*) where
  channel : ι → Config T
  part : ℕ → ι → Option ℕ
  winner : ℕ → Option (Winner ι)
  selects : ℕ

inductive Event (ι T : Type*) where
  | act (k : ι) (e : ParallelChannel.Event T)
  | trySelect (caller : Caller) (slice : Slice ι) (identifier index : ℕ)
  | select (caller : Caller) (slice : Slice ι) (identifier : ℕ)
  | win (select : ℕ) (k : ι)
  | outside (select : ℕ)
  | cancel (select : ℕ)
  deriving DecidableEq, Repr

def initial (T : Type*) (capacity : ι → Capacity) : Channels ι T where
  channel k := ParallelChannel.initial (capacity k)
  part _ _ := none
  winner _ := none
  selects := 0

/-- The event of one channel that involves no other one. -/
def single (c : Config T) : ParallelChannel.Event T → Bool
  | .trySelect .. | .select .. | .elsewhere _ => false
  | .cancel i =>
    match c.calls i with
    | .waiting (.select ..) .. => false
    | _ => true
  | _ => true

variable [DecidableEq ι]

/-- The slice as the channel `k` sees it. -/
def Slice.at (slice : Slice ι) (k : ι) : SharedTypes.Slice :=
  slice.map fun entry => entry.bind fun (other, side) => if other = k then some side else none

def Slice.mentions (slice : Slice ι) (k : ι) : Bool :=
  slice.any fun entry => entry.any fun (other, _) => other == k

def Channels.setChannel (c : Channels ι T) (k : ι) (d : Config T) : Channels ι T :=
  { c with channel := Function.update c.channel k d }

/-- The channel takes the event where it can. -/
def tryStep (c : Config T) (e : ParallelChannel.Event T) : Config T := (c.step e).getD c

/-- The part of the select in each channel but the winner's takes the event. -/
def Channels.notify (c : Channels ι T) (s : ℕ) (winner : Winner ι)
    (e : ℕ → ParallelChannel.Event T) : Channels ι T :=
  { c with
    winner := Function.update c.winner s (some winner)
    channel := fun k =>
      if winner = .channel k then c.channel k
      else match c.part s k with
        | some i => tryStep (c.channel k) (e i)
        | none => c.channel k }

/-- A channel fires only the wakers that it has won. -/
def Channels.entitled (c : Channels ι T) (k : ι) (d : Config T) : Bool :=
  (List.range c.selects).all fun s =>
    match c.part s k with
    | some i => !((c.channel k).calls i).pending || (d.calls i).pending ||
        c.winner s == some (.channel k)
    | none => true

def Channels.step (c : Channels ι T) : Event ι T → Option (Channels ι T)
  | .act k e =>
    if single (c.channel k) e then
      ((c.channel k).step e).bind fun d => if c.entitled k d then some (c.setChannel k d) else none
    else none
  | .trySelect caller slice identifier index =>
    match slice[index]? with
    | some (some (k, _)) =>
      ((c.channel k).step (.trySelect caller (slice.at k) identifier index)).map (c.setChannel k)
    | _ => none
  | .select caller slice identifier =>
    let begins (k : ι) := (c.channel k).step (.select caller (slice.at k) identifier)
    if slice.all fun entry => entry.all fun (k, _) => (begins k).isSome then
      some {
        channel := fun k => if slice.mentions k then (begins k).getD (c.channel k) else c.channel k
        part := Function.update c.part c.selects fun k =>
          if slice.mentions k then some (c.channel k).created else none
        winner := c.winner
        selects := c.selects + 1 }
    else none
  | .win s k =>
    if s < c.selects ∧ c.winner s = none then some (c.notify s (.channel k) .elsewhere) else none
  | .outside s =>
    if s < c.selects ∧ c.winner s = none then some (c.notify s .outside .elsewhere) else none
  | .cancel s =>
    if s < c.selects ∧ c.winner s = none then some (c.notify s .outside .cancel) else none

def system (T : Type*) (capacity : ι → Capacity) : System (Channels ι T) (Event ι T) where
  init := initial T capacity
  step := Channels.step

variable {capacity : ι → Capacity} {c d : Channels ι T}

omit [DecidableEq ι] in
theorem reachable_tryStep {k : ι} {b : Config T} {e : ParallelChannel.Event T}
    (h : Reachable (ParallelChannel.system T (capacity k)) b) :
    Reachable (ParallelChannel.system T (capacity k)) (tryStep b e) := by
  unfold tryStep
  cases hs : b.step e with
  | none => exact h
  | some b' => exact .step h hs

/-- Each channel goes on in its own system. -/
theorem channel_step {e : Event ι T} (hs : c.step e = some d)
    (h : ∀ k, Reachable (ParallelChannel.system T (capacity k)) (c.channel k)) :
    ∀ k, Reachable (ParallelChannel.system T (capacity k)) (d.channel k) := by
  have hset : ∀ {k : ι} {e : ParallelChannel.Event T} {b : Config T},
      (c.channel k).step e = some b →
        ∀ k', Reachable (ParallelChannel.system T (capacity k')) ((c.setChannel k b).channel k') := by
    intro k e b hb k'
    by_cases hk : k' = k
    · subst hk
      simpa [Channels.setChannel] using Reachable.step (h k') hb
    · simpa [Channels.setChannel, hk] using h k'
  have hnotify : ∀ (s : ℕ) (winner : Winner ι) (e : ℕ → ParallelChannel.Event T) (k : ι),
      Reachable (ParallelChannel.system T (capacity k)) ((c.notify s winner e).channel k) := by
    intro s winner e k
    simp only [Channels.notify]
    split
    · exact h k
    · split
      · exact reachable_tryStep (h k)
      · exact h k
  cases e with
  | act k e =>
    simp only [Channels.step] at hs
    split at hs
    next =>
      obtain ⟨b, hb, hs⟩ := Option.bind_eq_some_iff.mp hs
      split at hs
      next => cases hs; exact hset hb
      next => cases hs
    next => cases hs
  | trySelect caller slice identifier index =>
    simp only [Channels.step] at hs
    split at hs
    next =>
      obtain ⟨b, hb, rfl⟩ := Option.map_eq_some_iff.mp hs
      exact hset hb
    next => cases hs
  | select caller slice identifier =>
    simp only [Channels.step] at hs
    split at hs
    next =>
      cases hs
      intro k
      dsimp only
      split
      · exact reachable_tryStep (h k)
      · exact h k
    next => cases hs
  | win s k =>
    simp only [Channels.step] at hs
    split at hs
    next => cases hs; exact hnotify _ _ _
    next => cases hs
  | outside s =>
    simp only [Channels.step] at hs
    split at hs
    next => cases hs; exact hnotify _ _ _
    next => cases hs
  | cancel s =>
    simp only [Channels.step] at hs
    split at hs
    next => cases hs; exact hnotify _ _ _
    next => cases hs

theorem channel_reachable (h : Reachable (system T capacity) c) :
    ∀ k, Reachable (ParallelChannel.system T (capacity k)) (c.channel k) :=
  Reachable.invariant (I := fun c : Channels ι T =>
      ∀ k, Reachable (ParallelChannel.system T (capacity k)) (c.channel k))
    (fun _ => .init) (fun _ _ _ hi hs => channel_step hs hi) h

section Holders

variable {b b' : Config T} {poisoned : Bool} {side : Side}

theorem holds_step {x y : Call T} (hs : Call.Step poisoned x y) (hx : x ≠ .unused) :
    y ≠ .unused ∧ (y.pending = true → x.pending = true) ∧
      (y.holds side = true → x.holds side = true ∨ x.pending = true) := by
  cases hs with
  | begun | granted => exact absurd rfl hx
  | fired => exact ⟨by simp, fun _ => rfl, fun _ => Or.inr rfl⟩
  | cancelled => exact ⟨by simp, fun _ => rfl, fun _ => Or.inr rfl⟩
  | @rewatched op watched watched' cell =>
    refine ⟨by simp, id, fun hy => Or.inl ?_⟩
    rwa [Call.holds_watched op watched watched' cell side]
  | @returned _ _ _ _ _ permit =>
    refine ⟨by simp, by simp [Call.pending], fun hy => Or.inl ?_⟩
    cases permit <;> exact hy
  | returnedElsewhere | sent | received | panicked =>
    exact ⟨by simp, by simp [Call.pending], by simp [Call.holds]⟩

variable (side) in
/-- A call that comes to hold a permit was pending: somebody has fired its cell. -/
theorem holds_steps {x y : Call T} (hs : Relation.ReflTransGen (Call.Step poisoned) x y)
    (hx : x ≠ .unused) : y ≠ .unused ∧ (y.pending = true → x.pending = true) ∧
      (y.holds side = true → x.holds side = true ∨ x.pending = true) := by
  induction hs with
  | refl => exact ⟨hx, id, Or.inl⟩
  | tail _ hs ih =>
    obtain ⟨hu, hp, hh⟩ := ih
    obtain ⟨hu', hp', hh'⟩ := holds_step hs hu
    exact ⟨hu', hp ∘ hp', fun hy => (hh' hy).elim hh fun hm => Or.inr (hp hm)⟩

variable (side) in
theorem holds_of_step (h : Invariant b) {e : ParallelChannel.Event T} (hs : b.step e = some b')
    {i : ℕ} (hu : b.calls i ≠ .unused) : b'.calls i ≠ .unused ∧
      ((b'.calls i).holds side = true → (b.calls i).holds side = true ∨
        ((b.calls i).pending = true ∧ (b'.calls i).pending = false)) := by
  have hn : ∀ {call : Call T}, call.holds side = true → call.pending = false := by
    intro call hh
    by_contra hp
    rw [Call.holds_of_pending (by simpa using hp)] at hh
    cases hh
  rcases h.evolves (move_of_step hs) with hv | ha
  · obtain ⟨hu', _, hh⟩ := holds_steps side (hv.calls i) hu
    exact ⟨hu', fun hy => (hh hy).imp_right fun hp => ⟨hp, hn hy⟩⟩
  · have hi := h.wellFormed.lt_created hu
    have hc : b'.calls i = b.calls i := by
      cases ha <;> simp [Config.begin, Config.poison, Function.update_of_ne (Nat.ne_of_lt hi)]
    rw [hc]
    exact ⟨hu, Or.inl⟩

/-- A call that has begun does not notice that another one begins. -/
theorem calls_of_trySelect (h : WellFormed b) {caller : Caller} {slice : SharedTypes.Slice}
    {identifier index : ℕ} (hs : b.step (.trySelect caller slice identifier index) = some b')
    {i : ℕ} (hu : b.calls i ≠ .unused) : b'.calls i = b.calls i := by
  have hi := h.lt_created hu
  have hm := move_of_step hs
  cases hm with
  | sendSelected | recvSelected =>
    simp [Config.begin, Config.setState, Function.update_of_ne (Nat.ne_of_lt hi)]

theorem calls_of_select {caller : Caller} {slice : SharedTypes.Slice} {identifier : ℕ}
    (hs : b.step (.select caller slice identifier) = some b') :
    b' = b.begin (.waiting (.select caller slice identifier) [] .pending) := by
  have hm := move_of_step hs
  cases hm with
  | selectStarted => rfl

variable (side) in
/-- An interruption and the waker's use by somebody else grant nothing. -/
theorem holds_of_notice {e : ParallelChannel.Event T} {i : ℕ} (he : e = .elsewhere i ∨ e = .cancel i)
    {j : ℕ} (hu : b.calls j ≠ .unused) : (tryStep b e).calls j ≠ .unused ∧
      (((tryStep b e).calls j).holds side = true → (b.calls j).holds side = true) := by
  unfold tryStep
  cases hs : b.step e with
  | none => exact ⟨hu, id⟩
  | some b' =>
    have hm := move_of_step hs
    have hfinish : ∀ k : Call T, k ≠ .unused → k.holds side = (b.calls i).holds side →
        (b.finish i k).calls j ≠ .unused ∧
          (((b.finish i k).calls j).holds side = true → (b.calls j).holds side = true) := by
      intro k hk hh
      by_cases hj : j = i
      · subst hj
        simp only [Config.finish, Function.update_self]
        exact ⟨hk, by rw [hh]; exact id⟩
      · simp only [Config.finish, Function.update_of_ne hj]
        exact ⟨hu, id⟩
    rcases he with rfl | rfl
    · cases hm with
      | firedElsewhere hc =>
        exact hfinish _ (Call.fire_ne_unused (by simp [hc]) _) (Call.holds_fire _ rfl side)
    · cases hm with
      | @cancelled _ op _ hc =>
        refine hfinish _ (by simp) ?_
        rw [hc]
        cases op <;> rfl

end Holders

theorem Slice.all_of_mentions {slice : Slice ι} {p : ι → Bool} {k : ι}
    (h : slice.all (fun entry => entry.all fun (k, _) => p k) = true)
    (hk : slice.mentions k = true) : p k = true := by
  obtain ⟨entry, hm, hk⟩ := List.any_eq_true.mp hk
  have he := List.all_eq_true.mp h entry hm
  cases entry with
  | none => cases hk
  | some entry =>
    have hk : entry.1 = k := by simpa using hk
    subst hk
    exact he

/-- The parts of a select are calls that have begun, and only the winner's holds a permit. -/
structure Exclusive (c : Channels ι T) : Prop where
  begun : ∀ s k i, c.part s k = some i → s < c.selects ∧ (c.channel k).calls i ≠ .unused
  won : ∀ s k i side, c.part s k = some i → ((c.channel k).calls i).holds side = true →
    c.winner s = some (.channel k)
  unwon : ∀ s, c.selects ≤ s → c.winner s = none

theorem Exclusive.setChannel (h : Exclusive c) {k : ι} {b : Config T}
    (hb : ∀ i, (c.channel k).calls i ≠ .unused → b.calls i ≠ .unused)
    (hw : ∀ s i side, c.part s k = some i → (b.calls i).holds side = true →
      c.winner s = some (.channel k)) : Exclusive (c.setChannel k b) where
  begun s k' i hi := by
    obtain ⟨hs, hu⟩ := h.begun s k' i hi
    refine ⟨hs, ?_⟩
    by_cases hk : k' = k
    · subst hk
      simpa [Channels.setChannel] using hb i hu
    · simpa [Channels.setChannel, hk] using hu
  won s k' i side hi hh := by
    by_cases hk : k' = k
    · subst hk
      exact hw s i side hi (by simpa [Channels.setChannel] using hh)
    · exact h.won s k' i side hi (by simpa [Channels.setChannel, hk] using hh)
  unwon := h.unwon

theorem Exclusive.notify (h : Exclusive c) {s : ℕ} {winner : Winner ι}
    {e : ℕ → ParallelChannel.Event T} (he : ∀ i, e i = .elsewhere i ∨ e i = .cancel i)
    (hs : s < c.selects) (hn : c.winner s = none) : Exclusive (c.notify s winner e) where
  begun s' k i hi := by
    obtain ⟨hs', hu⟩ := h.begun s' k i hi
    refine ⟨hs', ?_⟩
    simp only [Channels.notify]
    split
    · exact hu
    · split
      next j _ => exact (holds_of_notice .send (he j) hu).1
      next => exact hu
  won s' k i side hi hh := by
    obtain ⟨_, hu⟩ := h.begun s' k i hi
    have hbefore : ((c.channel k).calls i).holds side = true := by
      simp only [Channels.notify] at hh
      split at hh
      · exact hh
      · split at hh
        next j _ => exact (holds_of_notice side (he j) hu).2 hh
        next => exact hh
    have hwon := h.won s' k i side hi hbefore
    have hss : s' ≠ s := by
      rintro rfl
      rw [hn] at hwon
      cases hwon
    simpa [Channels.notify, hss] using hwon
  unwon s' hs' := by
    have hs' : c.selects ≤ s' := hs'
    have hss : s' ≠ s := by omega
    simpa [Channels.notify, hss] using h.unwon s' hs'

theorem Exclusive.step (h : Exclusive c) (hi : ∀ k, Invariant (c.channel k)) {e : Event ι T}
    (hs : c.step e = some d) : Exclusive d := by
  cases e with
  | act k e =>
    simp only [Channels.step] at hs
    split at hs
    next =>
      obtain ⟨b, hb, hs⟩ := Option.bind_eq_some_iff.mp hs
      split at hs
      next hent =>
        cases hs
        refine h.setChannel (fun i hu => (holds_of_step .send (hi k) hb hu).1) ?_
        intro s i side hp hh
        obtain ⟨hsel, hu⟩ := h.begun s k i hp
        rcases (holds_of_step side (hi k) hb hu).2 hh with hbefore | ⟨hpend, hfired⟩
        · exact h.won s k i side hp hbefore
        · have hent := List.all_eq_true.mp hent s (List.mem_range.mpr hsel)
          simpa [hp, hpend, hfired] using hent
      next => cases hs
    next => cases hs
  | trySelect caller slice identifier index =>
    simp only [Channels.step] at hs
    split at hs
    next k _ _ =>
      obtain ⟨b, hb, rfl⟩ := Option.map_eq_some_iff.mp hs
      have hcalls := fun {i} hu => calls_of_trySelect (hi k).wellFormed hb (i := i) hu
      refine h.setChannel (fun i hu => by rw [hcalls hu]; exact hu) ?_
      intro s i side hp hh
      rw [hcalls (h.begun s k i hp).2] at hh
      exact h.won s k i side hp hh
    next => cases hs
  | select caller slice identifier =>
    simp only [Channels.step] at hs
    split at hs
    next hall =>
      cases hs
      let call (k : ι) : Call T := .waiting (.select caller (slice.at k) identifier) [] .pending
      have hbegun : ∀ k, slice.mentions k = true →
          ((c.channel k).step (.select caller (slice.at k) identifier)).getD (c.channel k) =
            (c.channel k).begin (call k) := by
        intro k hk
        have hsome := Slice.all_of_mentions (p := fun k =>
          ((c.channel k).step (.select caller (slice.at k) identifier)).isSome) hall hk
        obtain ⟨b, hb⟩ := Option.isSome_iff_exists.mp hsome
        rw [hb]
        exact calls_of_select hb
      have hold : ∀ k i, (c.channel k).calls i ≠ .unused →
          (if slice.mentions k = true then
            ((c.channel k).step (.select caller (slice.at k) identifier)).getD (c.channel k)
          else c.channel k).calls i = (c.channel k).calls i := by
        intro k i hu
        split
        next hk =>
          have hlt := (hi k).wellFormed.lt_created hu
          rw [hbegun k hk]
          simp only [Config.begin, Function.update_of_ne (Nat.ne_of_lt hlt)]
        next => rfl
      have hnew : ∀ k i, (if slice.mentions k = true then some (c.channel k).created else none) =
          some i → (if slice.mentions k = true then
            ((c.channel k).step (.select caller (slice.at k) identifier)).getD (c.channel k)
          else c.channel k).calls i = call k := by
        intro k i hp
        split at hp
        next hk =>
          cases hp
          rw [if_pos hk, hbegun k hk]
          simp [Config.begin]
        next => cases hp
      constructor
      · intro s k i hp
        by_cases hs : s = c.selects
        · subst hs
          simp only [Function.update_self] at hp
          exact ⟨Nat.lt_succ_self _, by rw [hnew k i hp]; simp [call]⟩
        · simp only [Function.update_of_ne hs] at hp
          obtain ⟨hlt, hu⟩ := h.begun s k i hp
          exact ⟨Nat.lt_succ_of_lt hlt, by rw [hold k i hu]; exact hu⟩
      · intro s k i side hp hh
        by_cases hs : s = c.selects
        · subst hs
          simp only [Function.update_self] at hp
          rw [hnew k i hp] at hh
          cases side <;> cases hh
        · simp only [Function.update_of_ne hs] at hp
          rw [hold k i (h.begun s k i hp).2] at hh
          exact h.won s k i side hp hh
      · exact fun s hs => h.unwon s (Nat.le_of_succ_le hs)
    next => cases hs
  | win s k =>
    simp only [Channels.step] at hs
    split at hs
    next hg => cases hs; exact h.notify (fun i => Or.inl rfl) hg.1 hg.2
    next => cases hs
  | outside s =>
    simp only [Channels.step] at hs
    split at hs
    next hg => cases hs; exact h.notify (fun i => Or.inl rfl) hg.1 hg.2
    next => cases hs
  | cancel s =>
    simp only [Channels.step] at hs
    split at hs
    next hg => cases hs; exact h.notify (fun i => Or.inr rfl) hg.1 hg.2
    next => cases hs

omit [DecidableEq ι] in
theorem initial_exclusive (capacity : ι → Capacity) : Exclusive (initial T capacity) where
  begun s k i hp := by cases hp
  won s k i side hp := by cases hp
  unwon _ _ := rfl

theorem reachable_exclusive (h : Reachable (system T capacity) c) : Exclusive c :=
  Reachable.invariant_over
    (B := fun c : Channels ι T => ∀ k, Reachable (ParallelChannel.system T (capacity k)) (c.channel k))
    (I := Exclusive) (fun _ hr => channel_reachable hr) (initial_exclusive capacity)
    (fun _ _ _ hb hc hs => hc.step (fun k => reachable_invariant (hb k)) hs) h

/-- In every channel the permit counters count the granted permits that are not consumed, and the
values and the reserved slots fit the bound. A select holds a permit on one channel only. The
mutex of a channel is poisoned by the session of an aborting coroutine only, hence no assertion,
subtraction or `unwrap` of the channel ever fails. -/
theorem permits_accounted (h : Reachable (system T capacity) c) :
    (∀ k side, (c.channel k).permits side = (c.channel k).reserved side) ∧
    (∀ k, (c.channel k).deque.length + (c.channel k).sendPermits ≤ (c.channel k).bound) ∧
    (∀ s k k' i i' side side', c.part s k = some i → c.part s k' = some i' → k ≠ k' →
      ((c.channel k).calls i).holds side = true →
        ((c.channel k').calls i').holds side' = false) ∧
    ∀ k e d, (c.channel k).step e = some d → (c.channel k).poisoned = false → d.poisoned = true →
      (∃ trying value, e = .send (.task .aborting) trying value) ∨
        ∃ trying, e = .recv (.task .aborting) trying := by
  have hchannel := channel_reachable h
  have hex := reachable_exclusive h
  refine ⟨fun k => reachable_balanced (hchannel k), fun k => (reachable_invariant (hchannel k)).capacity,
    ?_, ?_⟩
  · intro s k k' i i' side side' hi hi' hk hh
    by_contra hh'
    have hw := hex.won s k i side hi hh
    have hw' := hex.won s k' i' side' hi' (by simpa using hh')
    rw [hw] at hw'
    cases hw'
    exact hk rfl
  · intro k e d hs hc hd
    cases (reachable_invariant (hchannel k)).poisons hs hc hd with
    | send => exact Or.inl ⟨_, _, rfl⟩
    | recv => exact Or.inr ⟨_, rfl⟩

/-- A select waits on the receivers of two channels, and a send on the second one wins it. -/
def contendedTrace : List (Event Bool ℕ) :=
  [.select (.task .running) [some (false, .recv), some (true, .recv)] 7,
    .act false (.watch 0 0 false), .act true (.watch 0 1 false), .win 0 true,
    .act true (.send .thread true 5), .act false (.send .thread true 6)]

def contendedRun : Execution (system ℕ fun _ : Bool => ⟨1, Nat.one_pos⟩) :=
  ⟨contendedTrace, by decide +kernel⟩

theorem contended_permits_accounted :
    ((contendedRun.final.channel true).calls 0).holds .recv = true ∧
      ((contendedRun.final.channel false).calls 0).holds .recv = false ∧
      (contendedRun.final.channel true).permits .recv =
        (contendedRun.final.channel true).reserved .recv := by
  obtain ⟨hbalanced, _, hexclusive, _⟩ := permits_accounted contendedRun.final_reachable
  have hh : ((contendedRun.final.channel true).calls 0).holds .recv = true := by decide +kernel
  exact ⟨hh, hexclusive 0 true false 0 0 .recv .recv (by decide +kernel) (by decide +kernel)
    (by decide) hh, hbalanced true .recv⟩

end ParallelChannels
