import Stuck.ThreadParker

/-! The parker of a plain thread settles once: by one `unpark`, by the drop of the last handle, or
by its own drop. -/
namespace ThreadParker

open TransitionSystem OneShot SharedTypes

variable {α P : Type*} {s t : State α P}

/-- The call of `unpark` on the handle has returned true. -/
def Won (handles : List (Handle α)) (h : ℕ) (value : α) : Prop :=
  handles[h]? = some (.answered value true)

def Unwon (handles : List (Handle α)) : Prop := ∀ h value, ¬ Won handles h value

structure OnlyWon (handles : List (Handle α)) (h : ℕ) (value : α) : Prop where
  won : Won handles h value
  only : ∀ j other, Won handles j other → j = h

def Handle.counted : Handle α → Bool
  | .dropped => false
  | _ => true

def Stage.waiting : Stage α P → Bool
  | .owned | .passing | .parked => true
  | _ => false

def Stage.joined : Stage α P → Bool
  | .returned _ | .panicked _ => true
  | _ => false

/-- What the value says of the handles and of the parker. -/
inductive Fits (s : State α P) : Prop where
  | empty (value : s.value = .empty) (unwon : Unwon s.handles) (counted : 0 < s.unparkers)
    (sane : s.poisoned = false) (stage : s.stage.waiting = true)
  | ready {h : ℕ} {a : α} (value : s.value = .ready a) (won : OnlyWon s.handles h a)
    (sane : s.poisoned = false) (stage : s.stage.joined = false)
    (token : s.stage = .parked → s.token = true)
  | panic (value : s.value = .panic allDropped) (unwon : Unwon s.handles)
    (counted : s.unparkers = 0) (sane : s.poisoned = false) (stage : s.stage.joined = false)
    (token : s.stage = .parked → s.token = true)
  | returned {h : ℕ} {a : α} (value : s.value = .joined) (won : OnlyWon s.handles h a)
    (sane : s.poisoned = false) (stage : s.stage = .returned a)
  | panicked (value : s.value = .joined) (unwon : Unwon s.handles) (counted : s.unparkers = 0)
    (stage : s.stage = .panicked allDropped)
  | cancelled (value : s.value = .cancelled) (unwon : Unwon s.handles)
    (sane : s.poisoned = false) (stage : s.stage = .dropped)

structure Inv (s : State α P) : Prop where
  fits : Fits s
  counted : s.unparkers = s.handles.countP Handle.counted
  sound : s.crash = none

theorem won_append {handles : List (Handle α)} {h : ℕ} {value : α} :
    Won (handles ++ [.held]) h value ↔ Won handles h value := by
  unfold Won
  rw [List.getElem?_append]
  by_cases hh : h < handles.length
  · rw [if_pos hh]
  · rw [if_neg hh, List.getElem?_eq_none (Nat.le_of_not_lt hh)]
    cases h - handles.length <;> simp

/-- A call that has not won leaves the winners as they are. -/
theorem won_set {handles : List (Handle α)} {i h : ℕ} {old new : Handle α} {value : α}
    (hold : handles[i]? = some old) (ho : ∀ a, old ≠ .answered a true)
    (hn : ∀ a, new ≠ .answered a true) :
    Won (handles.set i new) h value ↔ Won handles h value := by
  unfold Won
  rw [List.getElem?_set]
  by_cases hi : i = h
  · subst hi
    have hlt := (List.getElem?_eq_some_iff.mp hold).1
    rw [if_pos rfl, if_pos hlt, hold]
    simp [ho value, hn value]
  · rw [if_neg hi]

theorem Unwon.wins {handles : List (Handle α)} (hu : Unwon handles) {i : ℕ} {old : Handle α}
    (hold : handles[i]? = some old) (value : α) :
    OnlyWon (handles.set i (.answered value true)) i value := by
  have hlt := (List.getElem?_eq_some_iff.mp hold).1
  constructor
  · unfold Won
    rw [List.getElem?_set_self hlt]
  · intro j other hj
    by_contra hne
    unfold Won at hj
    rw [List.getElem?_set_ne (Ne.symm hne)] at hj
    exact hu j other hj

theorem countP_set {handles : List (Handle α)} {i : ℕ} {old : Handle α}
    (hold : handles[i]? = some old) (new : Handle α) :
    (handles.set i new).countP Handle.counted + (if old.counted then 1 else 0) =
      handles.countP Handle.counted + (if new.counted then 1 else 0) := by
  obtain ⟨hlt, hget⟩ := List.getElem?_eq_some_iff.mp hold
  have hpos : old.counted = true → 0 < handles.countP Handle.counted := fun hc =>
    List.countP_pos_iff.mpr ⟨old, hget ▸ List.getElem_mem hlt, hc⟩
  rw [List.countP_set hlt, hget]
  by_cases hc : old.counted = true
  · have := hpos hc
    simp only [hc, if_true]
    omega
  · simp only [hc]
    simp

theorem new_inv : Inv (State.new α P) where
  fits := by
    refine .empty rfl (fun h value hw => ?_) Nat.one_pos rfl rfl
    unfold Won State.new at hw
    cases h <;> simp at hw
  counted := rfl
  sound := rfl

/-- Only a parker that has panicked leaves a poisoned mutex, and no handle is left then. -/
theorem Fits.poisoned (h : Fits s) (hp : s.poisoned = true) :
    s.stage = .panicked allDropped ∧ s.unparkers = 0 := by
  cases h with
  | panicked value unwon counted stage => exact ⟨stage, counted⟩
  | empty _ _ _ sane | ready _ _ sane | panic _ _ _ sane | returned _ _ sane
  | cancelled _ _ sane =>
    rw [hp] at sane
    cases sane

theorem Inv.unparkers_pos (h : Inv s) {i : ℕ} {handle : Handle α}
    (hget : s.handles[i]? = some handle) (hc : handle.counted = true) : 0 < s.unparkers := by
  rw [h.counted]
  obtain ⟨hlt, rfl⟩ := List.getElem?_eq_some_iff.mp hget
  exact List.countP_pos_iff.mpr ⟨_, List.getElem_mem hlt, hc⟩

theorem Inv.lock_of_handle (h : Inv s) {i : ℕ} {handle : Handle α}
    (hget : s.handles[i]? = some handle) (hc : handle.counted = true) (locked : State α P) :
    s.lock locked = locked := by
  unfold State.lock
  by_cases hp : s.poisoned = true
  · have := h.unparkers_pos hget hc
    have := (h.fits.poisoned hp).2
    omega
  · rw [if_neg hp]

theorem Inv.lock_of_waiting (h : Inv s) (hw : s.stage.waiting = true) (locked : State α P) :
    s.lock locked = locked := by
  unfold State.lock
  by_cases hp : s.poisoned = true
  · rw [(h.fits.poisoned hp).1] at hw
    cases hw
  · rw [if_neg hp]

/-- The value, the parker and the winners stay; a count of zero never comes to an empty value and
never goes away again. -/
structure Framed (s t : State α P) : Prop where
  value : t.value = s.value
  stage : t.stage = s.stage
  poisoned : t.poisoned = s.poisoned
  won : ∀ h value, Won t.handles h value ↔ Won s.handles h value
  token : s.stage = .parked → s.token = true → t.token = true
  counted : s.value = .empty → 0 < s.unparkers → 0 < t.unparkers
  zero : s.unparkers = 0 → t.unparkers = 0

theorem Framed.unwon (h : Framed s t) (hu : Unwon s.handles) : Unwon t.handles :=
  fun i value hw => hu i value ((h.won i value).mp hw)

theorem Framed.onlyWon (h : Framed s t) {i : ℕ} {value : α} (ho : OnlyWon s.handles i value) :
    OnlyWon t.handles i value :=
  ⟨(h.won i value).mpr ho.won, fun j other hw => ho.only j other ((h.won j other).mp hw)⟩

theorem Framed.fits (h : Framed s t) (hf : Fits s) : Fits t := by
  have hstage := h.stage
  have hvalue := h.value
  have hsane := h.poisoned
  cases hf with
  | empty value unwon counted sane stage =>
    exact .empty (hvalue.trans value) (h.unwon unwon) (h.counted value counted)
      (hsane.trans sane) (hstage ▸ stage)
  | ready value won sane stage token =>
    exact .ready (hvalue.trans value) (h.onlyWon won) (hsane.trans sane) (hstage ▸ stage)
      fun hp => h.token (hstage ▸ hp) (token (hstage ▸ hp))
  | panic value unwon counted sane stage token =>
    exact .panic (hvalue.trans value) (h.unwon unwon) (h.zero counted) (hsane.trans sane)
      (hstage ▸ stage) fun hp => h.token (hstage ▸ hp) (token (hstage ▸ hp))
  | returned value won sane stage =>
    exact .returned (hvalue.trans value) (h.onlyWon won) (hsane.trans sane) (hstage.trans stage)
  | panicked value unwon counted stage =>
    exact .panicked (hvalue.trans value) (h.unwon unwon) (h.zero counted) (hstage.trans stage)
  | cancelled value unwon sane stage =>
    exact .cancelled (hvalue.trans value) (h.unwon unwon) (hsane.trans sane) (hstage.trans stage)

theorem Inv.clone (h : Inv s) {i : ℕ} (held : s.handles[i]? = some .held) : Inv s.clone where
  fits := by
    have hpos := h.unparkers_pos held rfl
    have hframe : Framed s s.clone := by
      refine ⟨rfl, rfl, rfl, ?_, fun _ ht => ht, ?_, ?_⟩
      · intro j value
        exact won_append
      · intro _ _
        exact Nat.succ_pos _
      · intro hz
        omega
    exact hframe.fits h.fits
  counted := by
    show s.unparkers + 1 = (s.handles ++ [Handle.held]).countP Handle.counted
    rw [List.countP_append, ← h.counted]
    rfl
  sound := h.sound

/-- A handle on which no call has won goes from `old` to `new`, and counts as before. -/
theorem Inv.setHandle (h : Inv s) {i : ℕ} {old new : Handle α} (hold : s.handles[i]? = some old)
    (ho : ∀ a, old ≠ .answered a true) (hn : ∀ a, new ≠ .answered a true)
    (hc : new.counted = old.counted) : Inv { s with handles := s.handles.set i new } where
  fits := by
    have hframe : Framed s { s with handles := s.handles.set i new } := by
      refine ⟨rfl, rfl, rfl, ?_, fun _ ht => ht, fun _ hp => hp, fun hz => hz⟩
      intro j value
      exact won_set hold ho hn
    exact hframe.fits h.fits
  counted := by
    have hset := countP_set hold new
    have hcount := h.counted
    rw [hc] at hset
    show s.unparkers = (s.handles.set i new).countP Handle.counted
    omega
  sound := h.sound

theorem Inv.unpark (h : Inv s) {i : ℕ} {a : α} (calling : s.handles[i]? = some (.unparking a)) :
    Inv (s.unpark i a) := by
  have hlate : Inv { s with handles := s.handles.set i (.answered a false) } :=
    h.setHandle calling (by simp) (by simp) rfl
  unfold State.unpark
  cases hv : s.value with
  | empty =>
    have hset := countP_set calling (.answered a true)
    constructor
    · cases h.fits with
      | empty value unwon counted sane stage =>
        refine .ready rfl (unwon.wins calling a) sane ?_ fun _ => rfl
        show s.stage.joined = false
        revert stage
        cases s.stage <;> simp [Stage.waiting, Stage.joined]
      | ready value | panic value | returned value | panicked value | cancelled value =>
        rw [hv] at value
        cases value
    · have hcount := h.counted
      simp only [Handle.counted, if_true] at hset
      show s.unparkers = (s.handles.set i (.answered a true)).countP Handle.counted
      omega
    · exact h.sound
  | ready | panic | joined | cancelled =>
    rw [hv] at hlate
    exact hlate

/-- The last handle finds the value empty just if nobody has won and the parker waits. -/
theorem Inv.dropUnparker (h : Inv s) {i : ℕ} (held : s.handles[i]? = some .held) :
    Inv (s.dropUnparker i) := by
  have hpos := h.unparkers_pos held rfl
  have hset := countP_set held .dropped
  have hcount := h.counted
  simp only [Handle.counted, if_true, Bool.false_eq_true, if_false] at hset
  have hwon : ∀ j value, Won (s.handles.set i .dropped) j value ↔ Won s.handles j value :=
    fun j value => won_set held (by simp) (by simp)
  unfold State.dropUnparker
  rw [if_neg (Nat.ne_of_gt hpos)]
  by_cases hlast : s.unparkers - 1 = 0 ∧ s.value.isEmpty = true
  · rw [if_pos hlast]
    refine ⟨?_, by simp only; omega, h.sound⟩
    cases h.fits with
    | empty value unwon counted sane stage =>
      refine .panic rfl ?_ hlast.1 sane ?_ fun _ => rfl
      · intro j a hw
        exact unwon j a ((hwon j a).mp hw)
      · show s.stage.joined = false
        revert stage
        cases s.stage <;> simp [Stage.waiting, Stage.joined]
    | ready value | panic value | returned value | panicked value | cancelled value =>
      rw [value] at hlast
      cases hlast.2
  · rw [if_neg hlast]
    refine ⟨?_, by simp only; omega, h.sound⟩
    have hframe : Framed s
        { s with unparkers := s.unparkers - 1, handles := s.handles.set i .dropped } := by
      refine ⟨rfl, rfl, rfl, hwon, fun _ ht => ht, ?_, ?_⟩
      · intro hv _
        rw [hv] at hlast
        have hne : s.unparkers - 1 ≠ 0 := fun hz => hlast ⟨hz, rfl⟩
        exact Nat.pos_of_ne_zero hne
      · intro hz
        omega
    exact hframe.fits h.fits

theorem Inv.setToken (h : Inv s) {token : Bool} (ht : s.stage = .parked → token = true) :
    Inv { s with token := token } where
  fits := by
    have hframe : Framed s { s with token := token } :=
      ⟨rfl, rfl, rfl, fun _ _ => Iff.rfl, fun hp _ => ht hp, fun _ hp => hp, fun hz => hz⟩
    exact hframe.fits h.fits
  counted := h.counted
  sound := h.sound

/-- A parker that waits may come to its next pass at any time. -/
theorem Inv.passing (h : Inv s) (hw : s.stage.waiting = true) (token : Bool) :
    Inv { s with token := token, stage := .passing } where
  fits := by
    cases h.fits with
    | empty value unwon counted sane _ => exact .empty value unwon counted sane rfl
    | ready value won sane _ _ => exact .ready value won sane rfl (by simp)
    | panic value unwon counted sane _ _ => exact .panic value unwon counted sane rfl (by simp)
    | returned _ _ _ stage | panicked _ _ _ stage | cancelled _ _ _ stage =>
      rw [stage] at hw
      cases hw
  counted := h.counted
  sound := h.sound

/-- A pass finds the value empty and parks, or joins what is there. -/
theorem Inv.pass (h : Inv s) (hp : s.stage = .passing) : Inv s.pass := by
  unfold State.pass
  cases h.fits with
  | empty value unwon counted sane stage =>
    rw [value]
    exact ⟨.empty rfl unwon counted sane rfl, h.counted, h.sound⟩
  | ready value won sane stage token =>
    rw [value]
    exact ⟨.returned rfl won sane rfl, h.counted, h.sound⟩
  | panic value unwon counted sane stage token =>
    rw [value]
    exact ⟨.panicked rfl unwon counted rfl, h.counted, h.sound⟩
  | returned _ _ _ stage | panicked _ _ _ stage | cancelled _ _ _ stage =>
    rw [hp] at stage
    cases stage

theorem Inv.dropParker (h : Inv s) (ho : s.stage = .owned) : Inv s.dropParker := by
  unfold State.dropParker
  cases h.fits with
  | empty value unwon counted sane stage =>
    rw [value]
    exact ⟨.cancelled rfl unwon sane rfl, h.counted, h.sound⟩
  | ready value won sane stage token =>
    rw [value]
    exact ⟨.ready rfl won sane rfl (fun hp => by cases hp), h.counted, h.sound⟩
  | panic value unwon counted sane stage token =>
    rw [value]
    exact ⟨.panic rfl unwon counted sane rfl (fun hp => by cases hp), h.counted, h.sound⟩
  | returned _ _ _ stage | panicked _ _ _ stage | cancelled _ _ _ stage =>
    rw [ho] at stage
    cases stage

theorem Inv.step (h : Inv s) {e : Event α} (hm : Moves s e t) : Inv t := by
  have hwaiting : ∀ {stage : Stage α P}, s.stage = stage → stage.waiting = true →
      s.stage.waiting = true := fun hs hw => hs ▸ hw
  cases hm with
  | clone held =>
    rw [h.lock_of_handle held rfl]
    exact h.clone held
  | call held => exact h.setHandle held (by simp) (by simp) rfl
  | unpark calling =>
    rw [h.lock_of_handle calling rfl]
    exact h.unpark calling
  | dropUnparker held =>
    rw [h.lock_of_handle held rfl]
    exact h.dropUnparker held
  | isReady owned =>
    rw [h.lock_of_waiting (hwaiting owned rfl)]
    exact h
  | park owned => exact h.passing (hwaiting owned rfl) s.token
  | pass passing =>
    rw [h.lock_of_waiting (hwaiting passing rfl)]
    exact h.pass passing
  | unparked parked _ => exact h.passing (hwaiting parked rfl) false
  | spurious parked => exact h.passing (hwaiting parked rfl) s.token
  | dropParker owned =>
    rw [h.lock_of_waiting (hwaiting owned rfl)]
    exact h.dropParker owned
  | stray => exact h.setToken fun _ => rfl
  | spend elsewhere =>
    refine h.setToken fun hp => ?_
    rw [hp] at elsewhere
    cases elsewhere

theorem reachable_inv (h : Reachable (system α P) s) : Inv s :=
  h.invariant new_inv fun _ _ _ hi hs => hi.step (step_moves hs)

/-- The parker as a cell that is settled once, by a value, by the panic or by its own drop. -/
def State.cell (s : State α P) : Cell (Except (PanicError P) α) :=
  match s.value with
  | .empty => .pending
  | .ready value => .fired (.ok value)
  | .panic error => .fired (.error error)
  | .cancelled => .cancelled
  | .joined =>
    match s.stage with
    | .returned value => .fired (.ok value)
    | .panicked error => .fired (.error error)
    | _ => .pending

theorem cell_unpark (s : State α P) (i : ℕ) (a : α) :
    (s.unpark i a).cell = s.cell ∨
      ∃ f, (OneShot.system _).step s.cell f = some (s.unpark i a).cell := by
  unfold State.unpark
  cases hv : s.value with
  | empty =>
    right
    refine ⟨.fire (.ok a), ?_⟩
    simp only [State.cell, hv]
    rfl
  | ready | panic | joined | cancelled =>
    left
    simp only [State.cell, hv]

theorem cell_dropUnparker (s : State α P) (i : ℕ) :
    (s.dropUnparker i).cell = s.cell ∨
      ∃ f, (OneShot.system _).step s.cell f = some (s.dropUnparker i).cell := by
  unfold State.dropUnparker
  split
  · exact Or.inl rfl
  · cases hv : s.value with
    | empty =>
      dsimp only
      split
      · right
        refine ⟨.fire (.error allDropped), ?_⟩
        simp only [State.cell, hv]
        rfl
      · left
        simp only [State.cell, hv]
    | ready | panic | joined | cancelled =>
      left
      simp [State.cell, hv, Value.isEmpty]

theorem cell_dropParker (ho : s.stage = .owned) :
    s.dropParker.cell = s.cell ∨
      ∃ f, (OneShot.system _).step s.cell f = some s.dropParker.cell := by
  unfold State.dropParker
  cases hv : s.value with
  | empty =>
    right
    refine ⟨.cancel, ?_⟩
    simp only [State.cell, hv]
    rfl
  | ready | panic | joined | cancelled =>
    left
    simp [State.cell, hv, ho, Value.isEmpty]

theorem Inv.cell_pass (h : Inv s) (hp : s.stage = .passing) : s.pass.cell = s.cell := by
  unfold State.pass
  cases h.fits with
  | empty value | ready value | panic value => simp [State.cell, value]
  | returned _ _ _ stage | panicked _ _ _ stage | cancelled _ _ _ stage =>
    rw [hp] at stage
    cases stage

/-- Every step settles the cell or leaves it alone. -/
theorem Inv.cell_step (h : Inv s) {e : Event α} (hm : Moves s e t) :
    t.cell = s.cell ∨ ∃ f, (OneShot.system _).step s.cell f = some t.cell := by
  have hmoved : ∀ {stage : Stage α P} (token : Bool), s.stage = stage → stage.waiting = true →
      ({ s with token := token, stage := .passing } : State α P).cell = s.cell := by
    intro stage token hs hw
    subst hs
    simp only [State.cell]
    cases s.value with
    | joined => cases hs : s.stage <;> simp_all [Stage.waiting]
    | empty | ready | panic | cancelled => rfl
  cases hm with
  | clone held =>
    rw [h.lock_of_handle held rfl]
    exact Or.inl rfl
  | call held => exact Or.inl rfl
  | unpark calling =>
    rw [h.lock_of_handle calling rfl]
    exact cell_unpark _ _ _
  | dropUnparker held =>
    rw [h.lock_of_handle held rfl]
    exact cell_dropUnparker _ _
  | isReady owned =>
    rw [h.lock_of_waiting (by rw [owned]; rfl)]
    exact Or.inl rfl
  | park owned => exact Or.inl (hmoved s.token owned rfl)
  | pass passing =>
    rw [h.lock_of_waiting (by rw [passing]; rfl)]
    exact Or.inl (h.cell_pass passing)
  | unparked parked _ => exact Or.inl (hmoved false parked rfl)
  | spurious parked => exact Or.inl (hmoved s.token parked rfl)
  | dropParker owned =>
    rw [h.lock_of_waiting (by rw [owned]; rfl)]
    exact cell_dropParker owned
  | stray | spend => exact Or.inl rfl

theorem Inv.run (h : Inv s) {es : List (Event α)} (hr : (system α P).runFrom s es = some t) :
    Inv t :=
  run_invariant (fun _ _ _ hi hs => hi.step (step_moves hs)) h hr

theorem Inv.cell_run (h : Inv s) {es : List (Event α)}
    (hr : (system α P).runFrom s es = some t) :
    ∃ fs, (OneShot.system _).runFrom s.cell fs = some t.cell :=
  run_simulated (fun _ _ _ hi hs => hi.step (step_moves hs))
    (fun _ _ _ hi hs => hi.cell_step (step_moves hs)) h hr

/-- What has settled the parker stays what has settled it. -/
theorem Inv.settled (h : Inv s) {es : List (Event α)}
    (hr : (system α P).runFrom s es = some t) (hs : s.cell ≠ .pending) : t.cell = s.cell := by
  obtain ⟨fs, hfs⟩ := h.cell_run hr
  exact settled_run hs hfs

/-- After the cancellation no call of `unpark` has won, and none will. -/
theorem Inv.unwon_of_cancelled (h : Inv s) (hc : s.cell = .cancelled) : Unwon s.handles := by
  cases h.fits with
  | empty _ unwon | panicked _ unwon | cancelled _ unwon => exact unwon
  | panic _ unwon => exact unwon
  | ready value =>
    simp only [State.cell, value] at hc
    cases hc
  | returned value _ _ stage =>
    simp only [State.cell, value, stage] at hc
    cases hc

/-- What holds of the calls and of the parker in every state. -/
structure Correct (s : State α P) : Prop where
  once : ∀ (i j : ℕ) (v w : α), s.handles[i]? = some (.answered v true) →
    s.handles[j]? = some (.answered w true) → i = j
  returned : ∀ a, s.stage = .returned a → ∃ h : ℕ, s.handles[h]? = some (.answered a true)
  panicked : ∀ e, s.stage = .panicked e →
    e = .static "all unparkers dropped" ∧ ∀ handle ∈ s.handles, handle = .dropped
  sound : s.crash = none
  token : s.value.isSet = true → s.stage = .parked → s.token = true

theorem Fits.once (h : Fits s) {i j : ℕ} {v w : α} (hi : Won s.handles i v)
    (hj : Won s.handles j w) : i = j := by
  cases h with
  | ready _ won | returned _ won => exact (won.only i v hi).trans (won.only j w hj).symm
  | empty _ unwon | panic _ unwon | panicked _ unwon | cancelled _ unwon =>
    exact absurd hi (unwon i v)

theorem Inv.all_dropped (h : Inv s) (hz : s.unparkers = 0) :
    ∀ handle ∈ s.handles, handle = .dropped := by
  intro handle hm
  have hcount := h.counted
  rw [hz] at hcount
  have hnot := List.countP_eq_zero.mp hcount.symm handle hm
  cases handle with
  | dropped => rfl
  | held | unparking | answered => exact absurd rfl hnot

theorem Inv.correct (h : Inv s) : Correct s where
  once _ _ _ _ hi hj := h.fits.once hi hj
  returned a ha := by
    cases h.fits with
    | @returned i b value won sane stage =>
      rw [stage] at ha
      cases ha
      exact ⟨i, won.won⟩
    | empty _ _ _ _ stage | ready _ _ _ stage | panic _ _ _ _ stage =>
      rw [ha] at stage
      cases stage
    | panicked _ _ _ stage | cancelled _ _ _ stage =>
      rw [ha] at stage
      cases stage
  panicked e he := by
    cases h.fits with
    | panicked value unwon counted stage =>
      rw [stage] at he
      cases he
      exact ⟨rfl, h.all_dropped counted⟩
    | empty _ _ _ _ stage | ready _ _ _ stage | panic _ _ _ _ stage =>
      rw [he] at stage
      cases stage
    | returned _ _ _ stage | cancelled _ _ _ stage =>
      rw [he] at stage
      cases stage
  sound := h.sound
  token hv hp := by
    cases h.fits with
    | ready _ _ _ _ token | panic _ _ _ _ _ token => exact token hp
    | empty value | returned value | panicked value | cancelled value =>
      rw [value] at hv
      cases hv

/-- In every reachable state at most one `unpark` has returned true, `park` has returned nothing
but its value and has panicked only when all handles were dropped, nothing has failed, and a
parked thread whose value is set has its token. Once the parker is dropped empty, `unpark`
returns false. -/
theorem parker_exactly_once (h : Reachable (system α P) s) :
    Correct s ∧ ∀ t es u, s.value = .empty → (system α P).step s .dropParker = some t →
      (system α P).runFrom t es = some u →
        ∀ (i : ℕ) v b, u.handles[i]? = some (.answered v b) → b = false := by
  have hi := reachable_inv h
  refine ⟨hi.correct, ?_⟩
  intro t es u hv hd hr i v b ha
  have ht := hi.step (step_moves hd)
  have hu := ht.run hr
  have hcell : t.cell = .cancelled := by
    cases step_moves hd with
    | dropParker owned =>
      rw [hi.lock_of_waiting (by rw [owned]; rfl)]
      simp [State.dropParker, State.cell, hv, Value.isEmpty]
  have hfinal : u.cell = .cancelled := by
    rw [ht.settled hr (by rw [hcell]; simp), hcell]
  cases b with
  | false => rfl
  | true => exact absurd ha (hu.unwon_of_cancelled hfinal i v)

/-- Two calls race for a parker that has parked twice, once after a spurious return. -/
def races : List (Event ℕ) :=
  [.clone 0, .park, .pass, .spurious, .call 0 5, .pass, .call 1 6, .unpark 1, .unpark 0,
    .unparked, .pass]

theorem raced_parker : ∃ s t : State ℕ ℕ,
    (system ℕ ℕ).runFrom (.new ℕ ℕ) races = some s ∧ s.stage = .returned 6 ∧ Correct s ∧
    (system ℕ ℕ).runFrom (.new ℕ ℕ) [.dropParker, .call 0 5, .unpark 0] = some t ∧
    ∀ (i : ℕ) v b, t.handles[i]? = some (.answered v b) → b = false := by
  refine ⟨_, _, rfl, rfl, (parker_exactly_once (run_reachable races rfl)).1, rfl, ?_⟩
  exact (parker_exactly_once .init).2 _ [.call 0 5, .unpark 0] _ rfl rfl rfl

end ThreadParker
