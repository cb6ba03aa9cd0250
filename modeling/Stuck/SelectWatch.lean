import Stuck.Select
import Stuck.TransitionSystem

/-! `Select::select` (src/select.rs) after its `try_select`: the loop that watches, the wait, and
`Witness::drop` that unwatches, under wake-ups at any time by other threads, and by other coroutines
of the same task while this one is suspended. Another thread may poison the mutex of a parallel
channel at any time; the `lock().unwrap()` of a watch or an unwatch then panics. -/
namespace SelectWatch

open TransitionSystem Select

/-- What select.rs, the channels, time.rs and coroutine/suspension.rs implement `Selectable` for.
The flags say whether a channel handle, a joint or a value is still there; of a parallel endpoint
its channel is told, since the endpoints of one channel share its mutex. -/
inductive Selectable where
  | parallel (channel : Option ℕ)
  | serial (attached : Bool)
  | timer (attached : Bool)
  | join (attached : Bool)
  | ready (value : Bool)
  | never
  deriving DecidableEq, Repr

/-- What a `watch_permit` comes upon: nothing to take, a permit, or a joint where a selector or a
joiner is stored already. -/
inductive Seen where
  | blocked | available | occupied
  deriving DecidableEq, Repr

/-- What it does with the selector. -/
inductive Watch where
  | stored | applied | dropped
  deriving DecidableEq, Repr

/-- A serial channel asserts that it is not ready, stores the selector and returns true; a parallel
channel returns false for one that it stores. `none` is a panic, other than that of a poisoned
mutex. -/
def Selectable.watchPermit : Selectable → Seen → Option (Watch × Bool)
  | .parallel (some _), .available => some (.applied, true)
  | .parallel (some _), _ => some (.stored, false)
  | .serial true, .available | .timer true, .available => none
  | .serial true, _ | .timer true, _ => some (.stored, true)
  | .join true, .available => some (.applied, true)
  | .join true, .occupied => none
  | .join true, .blocked => some (.stored, false)
  | .ready true, _ => some (.applied, true)
  | .parallel none, _ | .serial false, _ | .timer false, _ | .join false, _ | .ready false, _
  | .never, _ => some (.dropped, false)

/-- The mutex that a `watch_permit` or `unwatch_permit` locks is poisoned. -/
def Selectable.isPoisoned (poisoned : List ℕ) : Selectable → Bool
  | .parallel (some channel) => poisoned.contains channel
  | _ => false

/-- Other threads take a stored selector out of a parallel channel. -/
def Selectable.isParallel : Selectable → Bool
  | .parallel _ => true
  | _ => false

/-- An attached serial endpoint or timer. -/
def Selectable.isSerial : Selectable → Bool
  | .serial attached | .timer attached => attached
  | _ => false

inductive Phase where
  | trying
  | watching
  | checking (watched : Bool)
  | waiting
  | suspended
  | unwatching (next : ℕ)
  | done
  | panicked
  | aborted
  deriving DecidableEq, Repr

/-- `aborted` is a panic while another one unwinds, which ends the process. -/
def Phase.isOver : Phase → Bool
  | .done | .panicked | .aborted => true
  | _ => false

/-- Entries are known by their place in the enumeration. `registered` are those that store the
selector, `applying` counts selectors that were taken out but have not woken yet, `unwinding` says
that the wait has panicked, and `poisoned` are the channels whose mutex is poisoned. -/
structure Config where
  items : List (ℕ × Option Selectable)
  phase : Phase
  checked : ℕ
  registered : List ℕ
  applying : ℕ
  ready : Bool
  unwinding : Bool
  poisoned : List ℕ
  unwatched : List ℕ
  deriving DecidableEq, Repr

/-- The selectable at the place `p`, unless that branch is disabled. -/
def Config.selectable? (c : Config) (p : ℕ) : Option Selectable := c.items[p]? >>= Prod.snd

def Config.poisonedAt (c : Config) (p : ℕ) : Bool :=
  (c.selectable? p).any (Selectable.isPoisoned c.poisoned)

/-- `watch_permit`, with its lock. -/
def Config.watchPermit (c : Config) (selectable : Selectable) (seen : Seen) :
    Option (Watch × Bool) :=
  if selectable.isPoisoned c.poisoned then none else selectable.watchPermit seen

inductive Event where
  | trySelect (result : Option (Except TrySelectError (ℕ × Permit)))
  | watch (seen : Seen)
  | check
  | take (place : ℕ)
  | apply
  | cancel
  | suspend
  | wake
  | unwatch
  | poison (channel : ℕ)

/-- What the loop does with the answer of a `watch_permit`. -/
def Config.watched (c : Config) : Option (Watch × Bool) → Config
  | none => { c with phase := .panicked }
  | some (.stored, result) =>
    { c with phase := .checking result, registered := c.checked :: c.registered }
  | some (.applied, result) => { c with phase := .checking result, ready := true }
  | some (.dropped, result) => { c with phase := .checking result }

/-- `take` and `apply` are a wake-up by another party, `cancel` is what makes the wait panic: an
interrupt, or the loss of the last waker. A `try_select` answers `none` where it panics. -/
def step (c : Config) : Event → Option Config
  | .trySelect result =>
    if c.phase = .trying then
      match result with
      | none =>
        if c.items.any fun item => item.2.any (Selectable.isPoisoned c.poisoned) then
          some { c with phase := .panicked }
        else none
      | some (.error .wouldBlock) => some { c with phase := .watching }
      | some _ => some { c with phase := .done }
    else none
  | .watch seen =>
    if c.phase = .watching then
      match c.items[c.checked]? with
      | none => some { c with phase := .waiting }
      | some (_, none) => some { c with checked := c.checked + 1 }
      | some (_, some selectable) => some (c.watched (c.watchPermit selectable seen))
    else none
  | .check =>
    match c.phase with
    | .checking watched =>
      if watched = true ∧ c.ready = true then some { c with phase := .waiting }
      else some { c with phase := .watching, checked := c.checked + 1 }
    | _ => none
  | .take place =>
    if place ∈ c.registered ∧ c.phase.isOver = false ∧ c.poisonedAt place = false ∧
        (c.phase = .suspended ∨ (c.selectable? place).any Selectable.isParallel) then
      some { c with registered := c.registered.erase place, applying := c.applying + 1 }
    else none
  | .apply =>
    if c.applying = 0 ∨ c.phase.isOver then none
    else some { c with applying := c.applying - 1, ready := true }
  | .cancel =>
    if (c.phase = .waiting ∨ c.phase = .suspended) ∧ c.ready = false then
      some { c with ready := true, unwinding := true }
    else none
  | .suspend =>
    if c.phase = .waiting ∧ c.ready = false then some { c with phase := .suspended } else none
  | .wake =>
    if (c.phase = .waiting ∨ c.phase = .suspended) ∧ c.ready = true then
      some { c with phase := .unwatching 0 }
    else none
  | .unwatch =>
    match c.phase with
    | .unwatching next =>
      if c.checked ≤ next then some { c with phase := .done }
      else
        match c.items[next]? with
        | none => some { c with phase := .done }
        | some (_, none) => some { c with phase := .unwatching (next + 1) }
        | some (_, some selectable) =>
          let d := { c with unwatched := next :: c.unwatched }
          if selectable.isPoisoned c.poisoned then
            some { d with phase := if c.unwinding then .aborted else .panicked }
          else some { d with phase := .unwatching (next + 1) }
    | _ => none
  | .poison channel => some { c with poisoned := channel :: c.poisoned }

def select (e : Enumerator Selectable) : System Config Event where
  init := ⟨e.items, .trying, 0, [], 0, false, false, [], []⟩
  step := step

def Config.serialAt (c : Config) (p : ℕ) : Prop :=
  (c.selectable? p).any Selectable.isSerial = true

/-- What `Witness::drop` is about to call `unwatch_permit` on. -/
def Config.unwatching? (c : Config) : Option ℕ :=
  match c.phase with
  | .unwatching next => if next < c.checked then some next else none
  | _ => none

/-- The ways to leave a selector behind: the check after the watch of a serial endpoint or timer
finds the waiter ready, a watch panics while selectors are stored, or an unwatch panics while a
later entry stores one. -/
def orphans (c : Config) : Event → Prop
  | .check => c.ready = true ∧ c.serialAt c.checked
  | .watch seen => c.registered ≠ [] ∧
      (c.selectable? c.checked).any (fun s => (c.watchPermit s seen).isNone) = true
  | .unwatch => ∃ next ∈ c.unwatching?, c.poisonedAt next = true ∧ ∃ p ∈ c.registered, next < p
  | _ => False

instance (c : Config) (ev : Event) : Decidable (orphans c ev) := by
  unfold orphans Config.serialAt
  split <;> infer_instance

/-- `Select::select` has returned or unwound, and the process is still there. -/
def Config.over (c : Config) : Prop := c.phase = .done ∨ c.phase = .panicked

instance (c : Config) : Decidable c.over := inferInstanceAs (Decidable (_ ∨ _))

variable {c t : Config} {e : Enumerator Selectable}

/-- What a step does, with what it found. -/
inductive Moves (c : Config) : Event → Config → Prop where
  | refused {result} : c.phase = .trying → Moves c (.trySelect result) { c with phase := .panicked }
  | selected {result} : c.phase = .trying → Moves c (.trySelect result) { c with phase := .done }
  | blocked {result} : c.phase = .trying → Moves c (.trySelect result) { c with phase := .watching }
  | exhausted {seen} : c.phase = .watching → c.selectable? c.checked = none →
      Moves c (.watch seen) { c with phase := .waiting }
  | disabled {seen} : c.phase = .watching → c.selectable? c.checked = none →
      Moves c (.watch seen) { c with checked := c.checked + 1 }
  | watched {seen selectable} : c.phase = .watching → c.selectable? c.checked = some selectable →
      Moves c (.watch seen) (c.watched (c.watchPermit selectable seen))
  | breaks : c.phase = .checking true → c.ready = true →
      Moves c .check { c with phase := .waiting }
  | counts {watched} : c.phase = .checking watched → ¬ (watched = true ∧ c.ready = true) →
      Moves c .check { c with phase := .watching, checked := c.checked + 1 }
  | take {place} : place ∈ c.registered → c.phase.isOver = false →
      (c.phase = .suspended ∨ (c.selectable? place).any Selectable.isParallel) →
      Moves c (.take place)
        { c with registered := c.registered.erase place, applying := c.applying + 1 }
  | apply : Moves c .apply { c with applying := c.applying - 1, ready := true }
  | cancel : Moves c .cancel { c with ready := true, unwinding := true }
  | suspend : c.phase = .waiting → c.ready = false →
      Moves c .suspend { c with phase := .suspended }
  | wake : c.phase = .waiting ∨ c.phase = .suspended →
      Moves c .wake { c with phase := .unwatching 0 }
  | finished {next} : c.phase = .unwatching next → (c.checked ≤ next ∨ c.items.length ≤ next) →
      Moves c .unwatch { c with phase := .done }
  | skipped {next} : c.phase = .unwatching next → c.selectable? next = none →
      Moves c .unwatch { c with phase := .unwatching (next + 1) }
  | unwatched {next} : c.phase = .unwatching next → next < c.checked → c.poisonedAt next = false →
      Moves c .unwatch
        { c with phase := .unwatching (next + 1), unwatched := next :: c.unwatched }
  | failed {next} {phase : Phase} : c.phase = .unwatching next → next < c.checked →
      c.poisonedAt next = true → phase = .panicked ∨ phase = .aborted →
      Moves c .unwatch { c with phase := phase, unwatched := next :: c.unwatched }
  | poisons {channel} :
      Moves c (.poison channel) { c with poisoned := channel :: c.poisoned }

theorem step_moves {ev : Event} (h : step c ev = some t) : Moves c ev t := by
  cases ev with
  | trySelect result =>
    simp only [step] at h
    split at h
    · rename_i hp
      split at h
      · split at h
        · cases h
          exact .refused hp
        · cases h
      · cases h
        exact .blocked hp
      · cases h
        exact .selected hp
    · cases h
  | watch seen =>
    simp only [step] at h
    split at h
    · rename_i hp
      cases hi : c.items[c.checked]? with
      | none =>
        rw [hi] at h
        cases h
        exact .exhausted hp (by simp [Config.selectable?, hi])
      | some item =>
        obtain ⟨index, entry⟩ := item
        rw [hi] at h
        cases entry with
        | none =>
          cases h
          exact .disabled hp (by simp [Config.selectable?, hi])
        | some selectable =>
          cases h
          exact .watched hp (by simp [Config.selectable?, hi])
    · cases h
  | check =>
    simp only [step] at h
    split at h
    · rename_i watched hp
      split at h
      · rename_i hw
        obtain ⟨rfl, hr⟩ := hw
        cases h
        exact .breaks hp hr
      · rename_i hw
        cases h
        exact .counts hp hw
    · cases h
  | take place =>
    simp only [step] at h
    split at h
    · rename_i hg
      cases h
      exact .take hg.1 hg.2.1 hg.2.2.2
    · cases h
  | apply =>
    simp only [step] at h
    split at h
    · cases h
    · cases h
      exact .apply
  | cancel =>
    simp only [step] at h
    split at h
    · cases h
      exact .cancel
    · cases h
  | suspend =>
    simp only [step] at h
    split at h
    · rename_i hg
      cases h
      exact .suspend hg.1 hg.2
    · cases h
  | wake =>
    simp only [step] at h
    split at h
    · rename_i hg
      cases h
      exact .wake hg.1
    · cases h
  | unwatch =>
    simp only [step] at h
    split at h
    · rename_i next hp
      split at h
      · rename_i hn
        cases h
        exact .finished hp (Or.inl hn)
      · rename_i hn
        cases hi : c.items[next]? with
        | none =>
          rw [hi] at h
          cases h
          exact .finished hp (Or.inr (List.getElem?_eq_none_iff.mp hi))
        | some item =>
          obtain ⟨index, entry⟩ := item
          rw [hi] at h
          cases entry with
          | none =>
            cases h
            exact .skipped hp (by simp [Config.selectable?, hi])
          | some selectable =>
            have hn : next < c.checked := by omega
            have hat : c.poisonedAt next = selectable.isPoisoned c.poisoned := by
              simp [Config.poisonedAt, Config.selectable?, hi]
            dsimp only at h
            split at h
            · rename_i hpoisoned
              cases h
              refine .failed hp hn (hat.trans hpoisoned) ?_
              cases c.unwinding
              · exact Or.inl rfl
              · exact Or.inr rfl
            · rename_i hclean
              cases h
              exact .unwatched hp hn (hat.trans (eq_false_of_ne_true hclean))
    · cases h
  | poison channel =>
    cases h
    exact .poisons

/-- What a watch may do to an entry: a serial endpoint or timer that keeps the selector returns
true, any other entry that keeps it returns false. -/
theorem watchPermit_stored {s : Selectable} {seen : Seen} {watched : Bool}
    (h : s.watchPermit seen = some (.stored, watched)) : watched = s.isSerial := by
  cases s with
  | parallel attached | serial attached | timer attached | join attached | ready attached =>
    cases attached <;> cases seen <;> cases h <;> rfl
  | never => cases h

theorem watchPermit_serial {s : Selectable} {seen : Seen} {w : Watch × Bool}
    (hs : s.isSerial = true) (h : s.watchPermit seen = some w) : w = (.stored, true) := by
  cases s with
  | serial attached | timer attached =>
    obtain rfl : attached = true := hs
    cases seen <;> cases h <;> rfl
  | parallel _ | join _ | ready _ | never => cases hs

/-- A watch that does not panic has found its mutex sound. -/
theorem watchPermit_some {s : Selectable} {seen : Seen} {w : Watch × Bool}
    (h : c.watchPermit s seen = some w) : s.watchPermit seen = some w := by
  unfold Config.watchPermit at h
  split at h
  · cases h
  · exact h

/-- The loop, or the unwinding, has left an entry behind. -/
def Config.orphaned (c : Config) : Prop :=
  match c.phase with
  | .waiting | .suspended | .unwatching _ | .done => c.checked ∈ c.registered
  | .panicked | .aborted => ∃ p ∈ c.registered, p ∉ c.unwatched
  | _ => False

theorem serialAt_not_parallel {p : ℕ} (hs : c.serialAt p) :
    ¬ (c.selectable? p).any Selectable.isParallel = true := by
  unfold Config.serialAt at hs
  intro hp
  cases hx : c.selectable? p with
  | none =>
    rw [hx] at hs
    cases hs
  | some s =>
    rw [hx] at hs hp
    cases s with
    | parallel attached => cases hs
    | serial _ | timer _ | join _ | ready _ | never => cases hp

/-- `current` is the entry at `checked`: while it is being checked, or after the loop left it. -/
structure Registered (c : Config) : Prop where
  placed : ∀ p ∈ c.registered, p ≤ c.checked ∧ (c.selectable? p).isSome
  fresh : c.phase = .trying ∨ c.phase = .watching ∨ c.phase = .suspended →
    c.checked ∉ c.registered
  checking : ∀ watched, c.phase = .checking watched →
    (c.serialAt c.checked → watched = true ∧ c.checked ∈ c.registered) ∧
      (c.checked ∈ c.registered → watched = true → c.serialAt c.checked)
  current : c.phase = .waiting ∨ (∃ next, c.phase = .unwatching next) → c.checked ∈ c.registered →
    c.serialAt c.checked ∧ c.ready = true

/-- What `Witness::drop` has called `unwatch_permit` on. -/
structure Unwatched (c : Config) : Prop where
  start : c.phase = .trying → c.checked = 0
  counted : ∀ p ∈ c.unwatched, p < c.checked
  later : c.unwatched = [] ∨ (∃ next, c.phase = .unwatching next) ∨ c.phase.isOver = true
  reached : ∀ next, c.phase = .unwatching next → ∀ p ∈ c.unwatched, p < next
  passed : ∀ next, c.phase = .unwatching next →
    ∀ p < next, p < c.checked → (c.selectable? p).isSome → p ∈ c.unwatched
  all : c.phase = .done → ∀ p < c.checked, (c.selectable? p).isSome → p ∈ c.unwatched

theorem selectable?_lt {p : ℕ} (h : (c.selectable? p).isSome) : p < c.items.length := by
  by_contra hn
  rw [Config.selectable?, List.getElem?_eq_none (by omega)] at h
  cases h

/-- Before the guard is dropped nothing has been unwatched. -/
theorem Unwatched.none (h : Unwatched c) (hp : ∀ next, c.phase ≠ .unwatching next)
    (hd : c.phase.isOver = false) : c.unwatched = [] := by
  rcases h.later with hn | ⟨next, hn⟩ | hn
  · exact hn
  · exact absurd hn (hp next)
  · rw [hd] at hn
    cases hn

theorem Unwatched.of_none (hs : t.phase = .trying → t.checked = 0) (hn : t.unwatched = [])
    (hp : ∀ next, t.phase ≠ .unwatching next) (hd : t.phase ≠ .done) : Unwatched t where
  start := hs
  counted p hm := by
    rw [hn] at hm
    cases hm
  later := Or.inl hn
  reached next h := absurd h (hp next)
  passed next h := absurd h (hp next)
  all h := absurd h hd

/-- The watch of an entry leads to a check of its answer, or panics. -/
theorem watched_phase (c : Config) (w : Option (Watch × Bool)) :
    (c.watched w).unwatched = c.unwatched ∧
      ((∃ watched, (c.watched w).phase = .checking watched) ∨ (c.watched w).phase = .panicked) := by
  rcases w with _ | ⟨w, result⟩
  · exact ⟨rfl, Or.inr rfl⟩
  · cases w <;> exact ⟨rfl, Or.inl ⟨result, rfl⟩⟩

theorem Unwatched.moves {ev : Event} (h : Unwatched c) (hm : Moves c ev t) : Unwatched t := by
  cases hm with
  | selected hp =>
    have hn := h.none (by simp [hp]) (by simp [hp, Phase.isOver])
    refine ⟨nofun, h.counted, Or.inl hn, nofun, nofun, fun _ p hlt => ?_⟩
    have := h.start hp
    dsimp only at hlt
    omega
  | refused hp | blocked hp | exhausted hp _ | disabled hp _ | breaks hp _ | counts hp _
  | suspend hp _ =>
    have hn := h.none (by simp [hp]) (by simp [hp, Phase.isOver])
    refine .of_none (fun ht => ?_) hn (fun next ht => ?_) (fun ht => ?_) <;> simp [hp] at ht
  | @watched seen selectable hp hs =>
    have hn := h.none (by simp [hp]) (by simp [hp, Phase.isOver])
    obtain ⟨hsame, hphase⟩ := watched_phase c (c.watchPermit selectable seen)
    refine .of_none (fun ht => ?_) (hsame.trans hn) (fun next ht => ?_) (fun ht => ?_) <;>
      rcases hphase with ⟨watched, hphase⟩ | hphase <;> rw [hphase] at ht <;> cases ht
  | take _ _ _ | apply | cancel | poisons =>
    exact ⟨h.start, h.counted, h.later, h.reached, h.passed, h.all⟩
  | wake hp =>
    have hn := h.none (by rcases hp with hp | hp <;> simp [hp])
      (by rcases hp with hp | hp <;> simp [hp, Phase.isOver])
    refine ⟨nofun, h.counted, Or.inl hn, fun next _ p hm => ?_, fun _ he p hlt => ?_, nofun⟩
    · rw [hn] at hm
      cases hm
    · cases he
      omega
  | @finished next hp hn =>
    refine ⟨nofun, h.counted, Or.inr (Or.inr rfl), nofun, nofun, fun _ p hlt hs => ?_⟩
    have hl := selectable?_lt hs
    have hc : p < c.checked := hlt
    have hi : p < c.items.length := hl
    exact h.passed next hp p (by omega) hlt hs
  | @skipped next hp hs =>
    refine ⟨nofun, h.counted, Or.inr (Or.inl ⟨_, rfl⟩), fun k he p hm => ?_,
      fun k he p hlt hc hsome => ?_, nofun⟩
    · cases he
      exact Nat.lt_succ_of_lt (h.reached next hp p hm)
    · cases he
      by_cases hpn : p = next
      · have hsome : (c.selectable? next).isSome := hpn ▸ hsome
        rw [hs] at hsome
        cases hsome
      · exact h.passed next hp p (by omega) hc hsome
  | @unwatched next hp hn _ =>
    refine ⟨nofun, fun p hm => ?_, Or.inr (Or.inl ⟨_, rfl⟩), fun k he p hm => ?_,
      fun k he p hlt hc hsome => ?_, nofun⟩
    · rcases List.mem_cons.mp hm with rfl | hm
      · exact hn
      · exact h.counted p hm
    · cases he
      rcases List.mem_cons.mp hm with rfl | hm
      · exact Nat.lt_succ_self p
      · exact Nat.lt_succ_of_lt (h.reached next hp p hm)
    · cases he
      by_cases hpn : p = next
      · exact hpn ▸ List.mem_cons_self
      · exact List.mem_cons_of_mem _ (h.passed next hp p (by omega) hc hsome)
  | @failed next phase hp hn _ hover =>
    have hcounted : ∀ p ∈ next :: c.unwatched, p < c.checked := by
      intro p hm
      rcases List.mem_cons.mp hm with rfl | hm
      · exact hn
      · exact h.counted p hm
    rcases hover with rfl | rfl
    · exact ⟨nofun, hcounted, Or.inr (Or.inr rfl), nofun, nofun, nofun⟩
    · exact ⟨nofun, hcounted, Or.inr (Or.inr rfl), nofun, nofun, nofun⟩

theorem Registered.moves {ev : Event} (h : Registered c) (hm : Moves c ev t) : Registered t := by
  cases hm with
  | selected hp | refused hp => exact ⟨h.placed, nofun, nofun, nofun⟩
  | blocked hp =>
    exact ⟨h.placed, fun _ => h.fresh (Or.inl hp), nofun, nofun⟩
  | exhausted hp _ =>
    have hf := h.fresh (Or.inr (Or.inl hp))
    exact ⟨h.placed, fun _ => hf, nofun, fun _ hr => absurd hr hf⟩
  | disabled hp _ =>
    refine ⟨fun p hr => ⟨?_, (h.placed p hr).2⟩, fun _ hr => ?_, ?_, ?_⟩
    · exact le_trans (h.placed p hr).1 (Nat.le_succ _)
    · exact absurd (h.placed _ hr).1 (Nat.not_succ_le_self _)
    · simp [hp]
    · simp [hp]
  | @watched seen selectable hp hs =>
    have hf := h.fresh (Or.inr (Or.inl hp))
    have hat : c.serialAt c.checked ↔ selectable.isSerial = true := by simp [Config.serialAt, hs]
    cases hw : c.watchPermit selectable seen with
    | none => exact ⟨h.placed, nofun, nofun, nofun⟩
    | some w =>
      obtain ⟨w, result⟩ := w
      have hser : c.serialAt c.checked → (w, result) = (.stored, true) :=
        fun hc => watchPermit_serial (hat.mp hc) (watchPermit_some hw)
      cases w with
      | stored =>
        have hres := watchPermit_stored (watchPermit_some hw)
        refine ⟨fun p hr => ?_, nofun, fun b hb => ⟨fun hc => ?_, fun _ ht => ?_⟩, nofun⟩
        · rcases List.mem_cons.mp hr with rfl | hr
          · exact ⟨le_rfl, Option.isSome_of_eq_some hs⟩
          · exact h.placed p hr
        · cases hb
          exact ⟨hres.trans (hat.mp hc), List.mem_cons_self⟩
        · cases hb
          exact hat.mpr (hres ▸ ht)
      | applied | dropped =>
        refine ⟨h.placed, nofun, fun b hb => ⟨fun hc => ?_, fun hr => absurd hr hf⟩, nofun⟩
        cases hser hc
  | breaks hp hr =>
    obtain ⟨_, hcur⟩ := h.checking true hp
    exact ⟨h.placed, nofun, nofun, fun _ hc => ⟨hcur hc rfl, hr⟩⟩
  | counts hp hn =>
    refine ⟨fun p hr => ⟨?_, (h.placed p hr).2⟩, fun _ hr => ?_, nofun, nofun⟩
    · exact le_trans (h.placed p hr).1 (Nat.le_succ _)
    · exact absurd (h.placed _ hr).1 (Nat.not_succ_le_self _)
  | @take place hm _ hk =>
    have hsub : ∀ p ∈ c.registered.erase place, p ∈ c.registered := fun p => List.mem_of_mem_erase
    refine ⟨fun p hr => h.placed p (hsub p hr), fun hp hr => h.fresh hp (hsub _ hr),
      fun b hb => ⟨fun hc => ?_, fun hr => (h.checking b hb).2 (hsub _ hr)⟩,
      fun hp hr => h.current hp (hsub _ hr)⟩
    obtain ⟨hres, hr⟩ := (h.checking b hb).1 hc
    have hne : place ≠ c.checked := by
      rintro rfl
      rcases hk with hk | hk
      · rw [show c.phase = .checking b from hb] at hk
        cases hk
      · exact serialAt_not_parallel hc hk
    exact ⟨hres, (List.mem_erase_of_ne hne.symm).mpr hr⟩
  | apply | cancel =>
    exact ⟨h.placed, h.fresh, h.checking, fun hp hr => ⟨(h.current hp hr).1, rfl⟩⟩
  | suspend hp hr =>
    have hf : c.checked ∉ c.registered := by
      intro hm
      have := (h.current (Or.inl hp) hm).2
      rw [hr] at this
      cases this
    exact ⟨h.placed, fun _ => hf, nofun, nofun⟩
  | wake hp =>
    refine ⟨h.placed, nofun, nofun, fun _ hm => ?_⟩
    rcases hp with hp | hp
    · exact h.current (Or.inl hp) hm
    · exact absurd hm (h.fresh (Or.inr (Or.inr hp)))
  | finished hp _ => exact ⟨h.placed, nofun, nofun, nofun⟩
  | skipped hp _ | unwatched hp _ _ =>
    exact ⟨h.placed, nofun, nofun, fun _ hm => h.current (Or.inr ⟨_, hp⟩) hm⟩
  | failed _ _ _ hover =>
    rcases hover with rfl | rfl
    · exact ⟨h.placed, nofun, nofun, nofun⟩
    · exact ⟨h.placed, nofun, nofun, nofun⟩
  | poisons => exact ⟨h.placed, h.fresh, h.checking, h.current⟩

theorem Registered.start (h : Registered c) (hu : Unwatched c) (hp : c.phase = .trying) :
    c.registered = [] := by
  apply List.eq_nil_iff_forall_not_mem.mpr
  intro p hr
  have hzero := hu.start hp
  have hle := (h.placed p hr).1
  have hat : p = c.checked := by omega
  exact h.fresh (Or.inl hp) (hat ▸ hr)

/-- The panic of an unwatch leaves the later entries that store the selector. -/
theorem orphaned_failed {next : ℕ} {phase : Phase} (h : Registered c) (hu : Unwatched c)
    (hp : c.phase = .unwatching next) (hn : next < c.checked) (hpoisoned : c.poisonedAt next = true)
    (hover : phase = .panicked ∨ phase = .aborted) :
    { c with phase := phase, unwatched := next :: c.unwatched }.orphaned ↔
      c.orphaned ∨ orphans c .unwatch := by
  have hleft : { c with phase := phase, unwatched := next :: c.unwatched }.orphaned ↔
      ∃ p ∈ c.registered, p ∉ next :: c.unwatched := by
    rcases hover with rfl | rfl <;> exact Iff.rfl
  have hat : c.unwatching? = some next := by
    rw [Config.unwatching?, hp]
    exact if_pos hn
  have hfails : orphans c .unwatch ↔ ∃ p ∈ c.registered, next < p := by
    constructor
    · rintro ⟨other, hother, _, hlater⟩
      rw [hat] at hother
      cases hother
      exact hlater
    · intro hlater
      exact ⟨next, hat, hpoisoned, hlater⟩
  have hcurrent : c.orphaned ↔ c.checked ∈ c.registered := by
    simp only [Config.orphaned, hp]
  rw [hleft, hfails, hcurrent]
  constructor
  · rintro ⟨p, hr, hnot⟩
    right
    refine ⟨p, hr, ?_⟩
    obtain ⟨hle, hs⟩ := h.placed p hr
    by_contra hlt
    have hne : p ≠ next := fun he => hnot (he ▸ List.mem_cons_self)
    exact hnot (List.mem_cons_of_mem _ (hu.passed next hp p (by omega) (by omega) hs))
  · intro hlater
    obtain ⟨p, hr, hlt⟩ : ∃ p ∈ c.registered, next < p := by
      rcases hlater with hr | hlater
      · exact ⟨c.checked, hr, hn⟩
      · exact hlater
    refine ⟨p, hr, fun hm => ?_⟩
    rcases List.mem_cons.mp hm with rfl | hm
    · exact absurd hlt (Nat.lt_irrefl p)
    · have := hu.reached next hp p hm
      omega

/-- An entry that has been left behind stays behind. -/
theorem orphaned_moves {ev : Event} (h : Registered c) (hu : Unwatched c) (hm : Moves c ev t) :
    t.orphaned ↔ c.orphaned ∨ orphans c ev := by
  cases hm with
  | selected hp =>
    have hf := h.fresh (Or.inl hp)
    simp [Config.orphaned, orphans, hp, hf]
  | refused hp =>
    have hnone := h.start hu hp
    simp [Config.orphaned, orphans, hp, hnone]
  | exhausted hp hs =>
    have hf := h.fresh (Or.inr (Or.inl hp))
    simp [Config.orphaned, orphans, hp, hs, hf]
  | disabled hp hs => simp [Config.orphaned, orphans, hp, hs]
  | blocked hp => simp [Config.orphaned, orphans, hp]
  | @watched seen selectable hp hs =>
    have hn := hu.none (by simp [hp]) (by simp [hp, Phase.isOver])
    cases hw : c.watchPermit selectable seen with
    | none =>
      simp [Config.orphaned, Config.watched, orphans, hp, hs, hw, hn,
        List.eq_nil_iff_forall_not_mem]
    | some w =>
      obtain ⟨w, result⟩ := w
      cases w <;> simp [Config.orphaned, Config.watched, orphans, hp, hs, hw]
  | breaks hp hr =>
    obtain ⟨hser, hcur⟩ := h.checking true hp
    have hiff : c.checked ∈ c.registered ↔ c.serialAt c.checked :=
      ⟨fun hm => hcur hm rfl, fun hc => (hser hc).2⟩
    simpa [Config.orphaned, orphans, hp, hr] using hiff
  | @counts watched hp hn =>
    have hser := (h.checking watched hp).1
    have hno : ¬ (c.ready = true ∧ c.serialAt c.checked) :=
      fun ⟨hr, hc⟩ => hn ⟨(hser hc).1, hr⟩
    simpa [Config.orphaned, orphans, hp] using hno
  | @take place hm hover hk =>
    simp only [Config.orphaned, orphans, or_false]
    cases hp : c.phase with
    | done | panicked | aborted =>
      rw [hp] at hover
      cases hover
    | trying | watching | checking _ => exact Iff.rfl
    | suspended =>
      have hf := h.fresh (Or.inr (Or.inr hp))
      exact ⟨fun he => List.mem_of_mem_erase he, fun he => absurd he hf⟩
    | waiting | unwatching _ =>
      refine ⟨fun he => List.mem_of_mem_erase he, fun he => ?_⟩
      have hser := (h.current (by simp [hp]) he).1
      have hne : place ≠ c.checked := by
        rintro rfl
        rcases hk with hk | hk
        · rw [hp] at hk
          cases hk
        · exact serialAt_not_parallel hser hk
      exact (List.mem_erase_of_ne hne.symm).mpr he
  | apply | cancel | poisons => simp [Config.orphaned, orphans]
  | suspend hp _ => simp [Config.orphaned, orphans, hp]
  | wake hp => rcases hp with hp | hp <;> simp [Config.orphaned, orphans, hp]
  | @finished next hp hn =>
    have hno : ¬ orphans c .unwatch := by
      rintro ⟨other, hother, hpoisoned, _⟩
      rw [Config.unwatching?, hp] at hother
      obtain ⟨hlt, ⟨⟩⟩ := Option.ite_none_right_eq_some.mp hother
      have hsome : (c.selectable? next).isSome := by
        cases hs : c.selectable? next with
        | none =>
          rw [Config.poisonedAt, hs] at hpoisoned
          cases hpoisoned
        | some _ => rfl
      have := selectable?_lt hsome
      omega
    simp [Config.orphaned, hp, hno]
  | @skipped next hp hs =>
    have hno : ¬ orphans c .unwatch := by
      rintro ⟨other, hother, hpoisoned, _⟩
      rw [Config.unwatching?, hp] at hother
      obtain ⟨_, ⟨⟩⟩ := Option.ite_none_right_eq_some.mp hother
      rw [Config.poisonedAt, hs] at hpoisoned
      cases hpoisoned
    simp [Config.orphaned, hp, hno]
  | @unwatched next hp hn hclean =>
    have hno : ¬ orphans c .unwatch := by
      rintro ⟨other, hother, hpoisoned, _⟩
      rw [Config.unwatching?, hp] at hother
      obtain ⟨_, ⟨⟩⟩ := Option.ite_none_right_eq_some.mp hother
      rw [hclean] at hpoisoned
      cases hpoisoned
    simp [Config.orphaned, hp, hno]
  | failed hp hn hpoisoned hover => exact orphaned_failed h hu hp hn hpoisoned hover

/-- At the end of a `select`. -/
theorem orphaned_iff (h : Registered c) (hu : Unwatched c) (ho : c.over) :
    (∀ p ∈ c.registered, p ∈ c.unwatched) ↔ ¬ c.orphaned := by
  rcases ho with hp | hp
  · simp only [Config.orphaned, hp]
    constructor
    · intro hall hc
      exact absurd (hu.counted _ (hall _ hc)) (by omega)
    · intro hc p hr
      obtain ⟨hle, hs⟩ := h.placed p hr
      have hne : p ≠ c.checked := fun he => hc (he ▸ hr)
      exact hu.all hp p (by omega) hs
  · simp only [Config.orphaned, hp]
    push Not
    exact Iff.rfl

theorem registered_reachable (h : Reachable (select e) c) : Registered c ∧ Unwatched c := by
  have hinit : Registered (select e).init ∧ Unwatched (select e).init :=
    ⟨⟨nofun, fun _ => List.not_mem_nil, nofun, fun _ hm => absurd hm List.not_mem_nil⟩,
      .of_none (fun _ => rfl) rfl nofun nofun⟩
  exact h.invariant (I := fun c => Registered c ∧ Unwatched c) hinit fun s ev t hs hst =>
    ⟨hs.1.moves (step_moves hst), hs.2.moves (step_moves hst)⟩

/-- At the end of a `select` every entry that still holds its selector has been unwatched just if no
check, no watch and no unwatch left one behind. -/
theorem select_unwatches (e : Enumerator Selectable) (ρ : Execution (select e))
    (ho : ρ.final.over) :
    (∀ p ∈ ρ.final.registered, p ∈ ρ.final.unwatched) ↔
      ∀ c ev, ρ.Takes c ev → ¬ orphans c ev := by
  obtain ⟨hr, hu⟩ := registered_reachable ρ.final_reachable
  rw [orphaned_iff hr hu ho]
  refine ρ.exact_final (P := fun c => ¬ c.orphaned) (fun s hs => registered_reachable hs)
    (by simp [Config.orphaned, select]) fun s ev t hs hst => ?_
  rw [orphaned_moves hs.1 hs.2 (step_moves hst), not_or]

/-- An endpoint of a parallel channel before one of a serial channel. -/
def endpoints : Enumerator Selectable := ⟨0, 2, [some (.parallel (some 0)), some (.serial true)]⟩

/-- Nobody interferes until the select is suspended. -/
def calmRun : Execution (select endpoints) where
  events := [.trySelect (some (.error .wouldBlock)), .watch .blocked, .check, .watch .blocked,
    .check, .watch .blocked, .suspend, .take 0, .apply, .wake, .unwatch, .unwatch, .unwatch]
  fires := by decide +kernel

theorem calm_endpoint_unwatched : calmRun.final.registered = [1] ∧
    ∀ p ∈ calmRun.final.registered, p ∈ calmRun.final.unwatched :=
  ⟨by decide +kernel, (select_unwatches endpoints calmRun (by decide +kernel)).mpr
    (calmRun.takes_of_allSteps (P := fun c ev => ¬ orphans c ev) (by decide +kernel))⟩

/-- The parallel channel wakes the select between its two watches. -/
def overtakenRun : Execution (select endpoints) where
  events := [.trySelect (some (.error .wouldBlock)), .watch .blocked, .check, .take 0, .apply,
    .watch .blocked, .check, .wake, .unwatch, .unwatch]
  fires := by decide +kernel

theorem overtaken_endpoint_left :
    Enumerator.new 0 endpoints.selectables = some endpoints ∧
      overtakenRun.final.phase = .done ∧ 1 ∈ overtakenRun.final.registered ∧
      1 ∉ overtakenRun.final.unwatched := by
  decide +kernel

def channels : Enumerator Selectable :=
  ⟨0, 3, [some (.parallel (some 0)), some (.parallel (some 1)), some (.parallel (some 2))]⟩

/-- The mutex of the first channel is poisoned while the select waits, and the second wakes it. -/
def poisonedRun : Execution (select channels) where
  events := [.trySelect (some (.error .wouldBlock)), .watch .blocked, .check, .watch .blocked,
    .check, .watch .blocked, .check, .watch .blocked, .suspend, .poison 0, .take 1, .apply, .wake,
    .unwatch]
  fires := by decide +kernel

example : poisonedRun.final.phase = .panicked ∧ 2 ∈ poisonedRun.final.registered ∧
    2 ∉ poisonedRun.final.unwatched := by
  decide +kernel

end SelectWatch
