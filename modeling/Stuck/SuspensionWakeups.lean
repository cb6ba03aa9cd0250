import Stuck.Suspension

/-! When a suspension wakes exactly once. A `join` that finds the value present leaves the joint in
the state of a waiting coroutine, and only the sends that follow it go astray. -/
namespace Suspension

open TransitionSystem SharedTypes

variable {T P : Type*} {c d : Config T P} {x y : Joint T P} {coroutines : ℕ → Stage} {i j k : ℕ}

/-- The values of the accepted sends. -/
def Joint.accepted (x : Joint T P) : List T :=
  x.sends.filterMap fun send => if send.2.toBool then some send.1 else none

/-- The joint is settled with the value it has accepted, or with a panic and no value. -/
def SuspensionState.Carries (values : List T) : SuspensionState T P → Prop
  | .value v => values = [v]
  | .panicked _ => values = []
  | _ => False

def Matches (values : List T) : Except (PanicError P) T → Prop
  | .ok value => values = [value]
  | .error _ => values = []

/-- A settled joint whose handle has not been used yet. -/
def Handle.open : Handle T P → Bool
  | .held | .granted | .selecting _ true => true
  | _ => false

/-- Whoever settled the joint was forgotten and not dropped, or was the last to be dropped. -/
def Joint.spent (x : Joint T P) : Prop := x.resumptions = 0 ∨ x.resumptions < x.wakers

inductive Joint.Phase (coroutines : ℕ → Stage) (j : ℕ) (x : Joint T P) : Prop
  | empty : x.state = .empty → x.handle = .held → x.accepted = [] → x.early = false →
      Phase coroutines j x
  | selecting {identifier} : x.state = .selector identifier →
      x.handle = .selecting identifier false → x.accepted = [] → x.early = false →
      Phase coroutines j x
  | settled : x.state.Carries x.accepted → x.handle.open = true → x.spent → x.early = false →
      Phase coroutines j x
  | suspended {co} : x.state = .joining co → x.handle = .waiting co →
      coroutines co = .suspended j → x.accepted = [] → x.early = false → Phase coroutines j x
  | resumed {co} : x.state.Carries x.accepted → x.handle = .waiting co →
      coroutines co = .resumed j → x.early = false → Phase coroutines j x
  | abandoned : x.state.Carries x.accepted → x.handle = .dropped → x.early = false →
      Phase coroutines j x
  | joined {result} : x.state = .joined → x.handle = .concluded result →
      Matches x.accepted result → x.early = false → Phase coroutines j x
  | early {co result} : x.state = .joining co → x.handle = .concluded result →
      Matches x.accepted result → x.early = true → x.spent → Phase coroutines j x

/-- The coroutine is in a `join` of joint `j`. -/
def Stage.at (stage : Stage) (j : ℕ) : Prop := stage = .suspended j ∨ stage = .resumed j

structure Joint.Valid (coroutines : ℕ → Stage) (j : ℕ) (x : Joint T P) : Prop where
  phase : x.Phase coroutines j
  counted : x.resumptions ≤ x.wakers
  waiting : ∀ co, (coroutines co).at j → x.handle = .waiting co
  answered : ∀ send ∈ x.sends, send.2 = .ok () ∨ send.2 = .error send.1
  unstrayed : x.strayed = false

def Valid (c : Config T P) : Prop := ∀ j, (c.joints j).Valid c.coroutines j

/-- Coroutines move only between being free and being in a `join` of joint `j`. -/
def Moves (j : ℕ) (before after : ℕ → Stage) : Prop :=
  ∀ co, after co = before co ∨
    (before co = .free ∨ (before co).at j) ∧ (after co = .free ∨ (after co).at j)

theorem Stage.at_unique {stage : Stage} (hi : stage.at i) (hj : stage.at j) : i = j := by
  rcases hi with rfl | rfl <;> rcases hj with h | h <;> cases h <;> rfl

theorem Moves.at_iff {before after : ℕ → Stage} (h : Moves j before after) (hij : i ≠ j)
    (stage : Stage) (hs : stage.at i) : after k = stage ↔ before k = stage := by
  have hout : ∀ s : Stage, (s = .free ∨ s.at j) → s ≠ stage := by
    rintro s (rfl | hsj) rfl
    · rcases hs with h | h <;> cases h
    · exact hij (Stage.at_unique hs hsj)
  rcases h k with h | ⟨hb, ha⟩
  · rw [h]
  · exact iff_of_false (hout _ ha) (hout _ hb)

/-- A joint does not see the others' coroutines move. -/
theorem Joint.Valid.frame {before after : ℕ → Stage} (h : x.Valid before i)
    (hm : Moves j before after) (hij : i ≠ j) : x.Valid after i := by
  refine ⟨?_, h.counted, ?_, h.answered, h.unstrayed⟩
  · cases h.phase with
    | empty h1 h2 h3 h4 => exact .empty h1 h2 h3 h4
    | selecting h1 h2 h3 h4 => exact .selecting h1 h2 h3 h4
    | settled h1 h2 h3 h4 => exact .settled h1 h2 h3 h4
    | suspended h1 h2 h3 h4 h5 =>
      exact .suspended h1 h2 ((hm.at_iff hij _ (Or.inl rfl)).mpr h3) h4 h5
    | resumed h1 h2 h3 h4 => exact .resumed h1 h2 ((hm.at_iff hij _ (Or.inr rfl)).mpr h3) h4
    | abandoned h1 h2 h3 => exact .abandoned h1 h2 h3
    | joined h1 h2 h3 h4 => exact .joined h1 h2 h3 h4
    | early h1 h2 h3 h4 h5 => exact .early h1 h2 h3 h4 h5
  · rintro co (ha | ha)
    · exact h.waiting co (Or.inl ((hm.at_iff hij _ (Or.inl rfl)).mp ha))
    · exact h.waiting co (Or.inr ((hm.at_iff hij _ (Or.inr rfl)).mp ha))

/-- One joint is updated, and only its own coroutine moves. -/
theorem Valid.update (h : Valid c) (hd : d.joints = Function.update c.joints j x)
    (hm : Moves j c.coroutines d.coroutines) (hx : x.Valid d.coroutines j) : Valid d := by
  intro i
  rw [hd]
  by_cases hij : i = j
  · subst hij
    rwa [Function.update_self]
  · rw [Function.update_of_ne hij]
    exact (h i).frame hm hij

theorem Moves.refl (j : ℕ) (coroutines : ℕ → Stage) : Moves j coroutines coroutines :=
  fun _ => Or.inl rfl

theorem Valid.setJoint (h : Valid c) (hx : x.Valid c.coroutines j) : Valid (c.setJoint j x) :=
  h.update rfl (Moves.refl j c.coroutines) hx

theorem moves_update {co : ℕ} {stage : Stage}
    (hb : coroutines co = .free ∨ (coroutines co).at j) (ha : stage = .free ∨ stage.at j) :
    Moves j coroutines (Function.update coroutines co stage) := by
  intro k
  by_cases hk : k = co
  · subst hk
    exact Or.inr ⟨hb, by simpa using ha⟩
  · exact Or.inl (by simp [hk])

@[simp] theorem Joint.accepted_answer_ok (x : Joint T P) (value : T) :
    (x.answer value (.ok ())).accepted = x.accepted ++ [value] := by
  simp [answer, accepted, Except.toBool]

@[simp] theorem Joint.accepted_answer_error (x : Joint T P) (value back : T) :
    (x.answer value (.error back)).accepted = x.accepted := by
  simp [answer, accepted, Except.toBool]

theorem SuspensionState.Carries.settled {state : SuspensionState T P} {values : List T}
    (h : state.Carries values) : state.isSettled = true := by
  cases state <;> first | rfl | cases h

/-- A joint that changes its counts and its refusals alone. -/
theorem Joint.Valid.adjust (h : x.Valid coroutines j) (hs : y.state = x.state)
    (hh : y.handle = x.handle) (ha : y.accepted = x.accepted) (he : y.early = x.early)
    (ht : y.strayed = x.strayed) (hc : y.resumptions ≤ y.wakers) (hp : x.spent → y.spent)
    (hn : ∀ send ∈ y.sends, send.2 = .ok () ∨ send.2 = .error send.1) : y.Valid coroutines j := by
  refine ⟨?_, hc, fun co hco => hh.trans (h.waiting co hco), hn, ht.trans h.unstrayed⟩
  cases h.phase with
  | empty h1 h2 h3 h4 =>
    exact .empty (hs.trans h1) (hh.trans h2) (ha.trans h3) (he.trans h4)
  | selecting h1 h2 h3 h4 =>
    exact .selecting (hs.trans h1) (hh.trans h2) (ha.trans h3) (he.trans h4)
  | settled h1 h2 h3 h4 =>
    exact .settled (by rwa [hs, ha]) (by rwa [hh]) (hp h3) (he.trans h4)
  | suspended h1 h2 h3 h4 h5 =>
    exact .suspended (hs.trans h1) (hh.trans h2) h3 (ha.trans h4) (he.trans h5)
  | resumed h1 h2 h3 h4 =>
    exact .resumed (by rwa [hs, ha]) (hh.trans h2) h3 (he.trans h4)
  | abandoned h1 h2 h3 => exact .abandoned (by rwa [hs, ha]) (hh.trans h2) (he.trans h3)
  | joined h1 h2 h3 h4 =>
    exact .joined (hs.trans h1) (hh.trans h2) (by rwa [ha]) (he.trans h4)
  | early h1 h2 h3 h4 h5 =>
    exact .early (hs.trans h1) (hh.trans h2) (by rwa [ha]) (he.trans h4) (hp h5)

/-- An unsettled joint is settled, and a coroutine that is suspended on it resumes. -/
theorem Valid.settle (h : Valid c) {state : SuspensionState T P}
    (hs : y.state = (c.joints j).state) (hh : y.handle = (c.joints j).handle)
    (he : (c.joints j).early = false) (hye : y.early = (c.joints j).early)
    (ht : y.strayed = (c.joints j).strayed) (hc : y.resumptions ≤ y.wakers) (hp : y.spent)
    (hn : ∀ send ∈ y.sends, send.2 = .ok () ∨ send.2 = .error send.1)
    (hu : (c.joints j).state.isSettled = false) (hv : state.Carries y.accepted) :
    Valid (c.wakeCoroutine j (y.replace state)) := by
  have hx := h j
  have hye := hye.trans he
  have hyt := ht.trans hx.unstrayed
  cases hx.phase with
  | empty h1 h2 h3 h4 =>
    have hreplace : y.replace state = ({ y with state }, none) := by
      simp [Joint.replace, hs, h1]
    rw [hreplace]
    have hheld : y.handle = .held := hh.trans h2
    exact h.setJoint ⟨.settled hv (by simp [hheld, Handle.open]) hp hye, hc,
      fun co hco => hh.trans (hx.waiting co hco), hn, hyt⟩
  | @selecting identifier h1 h2 h3 h4 =>
    have hreplace : y.replace state =
        ({ y with state, handle := .selecting identifier true }, none) := by
      simp [Joint.replace, hs, h1, hh, h2, Handle.apply]
    rw [hreplace]
    refine h.setJoint ⟨.settled hv rfl hp hye, hc, fun co hco => ?_, hn, hyt⟩
    have := hx.waiting co hco
    rw [h2] at this
    cases this
  | @suspended co h1 h2 h3 h4 h5 =>
    have hreplace : y.replace state = ({ y with state }, some co) := by
      simp [Joint.replace, hs, h1]
    have hwaiting : y.handle = .waiting co := hh.trans h2
    rw [hreplace]
    refine h.update (j := j) (x := { y with state, strayed := false }) ?_ ?_ ?_
    · simp [Config.wakeCoroutine, Config.resume, Config.setJoint, Config.setStage, h3, hyt]
    · simp only [Config.wakeCoroutine, Config.resume, Config.setJoint, Config.setStage, h3]
      exact moves_update (Or.inr (Or.inl h3)) (Or.inr (Or.inr rfl))
    · simp only [Config.wakeCoroutine, Config.resume, Config.setJoint, Config.setStage, h3]
      refine ⟨.resumed hv hwaiting (by simp) hye, hc, fun k hk => ?_, hn, rfl⟩
      by_cases hkc : k = co
      · rw [hkc]; exact hwaiting
      · rw [Function.update_of_ne hkc] at hk
        exact hh.trans (hx.waiting k hk)
  | settled h1 => rw [h1.settled] at hu; cases hu
  | resumed h1 => rw [h1.settled] at hu; cases hu
  | abandoned h1 => rw [h1.settled] at hu; cases hu
  | joined h1 => rw [h1] at hu; cases hu
  | early _ _ _ h4 => rw [he] at h4; cases h4

/-- A joint whose `join` did not suspend takes a later `wake` for that of a waiting coroutine. -/
theorem Valid.strays (h : Valid c) {state : SuspensionState T P}
    (hs : y.state = (c.joints j).state) (he : (c.joints j).early = true) :
    ((c.wakeCoroutine j (y.replace state)).joints j).strayed = true := by
  have hx := h j
  cases hx.phase with
  | @early co result h1 h2 =>
    have hreplace : y.replace state = ({ y with state }, some co) := by
      simp [Joint.replace, hs, h1]
    have hfree : c.coroutines co ≠ .suspended j := by
      intro hc
      have := hx.waiting co (Or.inl hc)
      rw [h2] at this
      cases this
    rw [hreplace]
    unfold Config.wakeCoroutine Config.resume
    dsimp only
    split <;> simp [Config.setJoint, Config.setStage, hfree]
  | empty _ _ _ hn | selecting _ _ _ hn | settled _ _ _ hn
  | suspended _ _ _ _ hn | resumed _ _ _ hn | abandoned _ _ hn | joined _ _ _ hn =>
    rw [he] at hn; cases hn

theorem Joint.Valid.early_unsettled (h : x.Valid coroutines j) (he : x.early = true) :
    x.state.isSettled = false := by
  cases h.phase with
  | early h1 => rw [h1]; rfl
  | empty _ _ _ hn | selecting _ _ _ hn | settled _ _ _ hn
  | suspended _ _ _ _ hn | resumed _ _ _ hn | abandoned _ _ hn | joined _ _ _ hn =>
    rw [he] at hn; cases hn

theorem Joint.Valid.unaccepted (h : x.Valid coroutines j) (hu : x.state.isSettled = false)
    (he : x.early = false) : x.accepted = [] := by
  cases h.phase with
  | empty _ _ h3 | selecting _ _ h3 => exact h3
  | suspended _ _ _ h4 => exact h4
  | settled h1 => rw [h1.settled] at hu; cases hu
  | resumed h1 => rw [h1.settled] at hu; cases hu
  | abandoned h1 => rw [h1.settled] at hu; cases hu
  | joined h1 => rw [h1] at hu; cases hu
  | early _ _ _ h4 => rw [he] at h4; cases h4

theorem Joint.Valid.answered_append (h : x.Valid coroutines j) (value : T)
    {result : Except T Unit} (hr : result = .ok () ∨ result = .error value) :
    ∀ send ∈ (x.answer value result).sends, send.2 = .ok () ∨ send.2 = .error send.1 := by
  intro send hs
  rcases List.mem_append.mp hs with hs | hs
  · exact h.answered send hs
  · cases List.mem_singleton.mp hs
    exact hr

theorem Joint.spent_intoJoint (hr : x.resumptions ≠ 0) (hc : x.resumptions ≤ x.wakers) :
    x.intoJoint.spent := by
  refine Or.inr ?_
  simp only [intoJoint]
  omega

theorem Valid.wake (h : Valid c) (value : T) (hr : (c.joints j).resumptions ≠ 0)
    (he : (c.joints j).early = false) :
    Valid (c.wakeCoroutine j ((c.joints j).intoJoint.wake value)) := by
  have hx := h j
  have hc := hx.counted
  have hle : (c.joints j).intoJoint.resumptions ≤ (c.joints j).intoJoint.wakers := by
    simp only [Joint.intoJoint]
    omega
  unfold Joint.wake
  split
  next hs =>
    exact h.setJoint (hx.adjust rfl rfl (Joint.accepted_answer_error ..) rfl rfl hle
      (fun _ => Joint.spent_intoJoint hr hc) (hx.answered_append value (Or.inr rfl)))
  next hs =>
    have hu : (c.joints j).state.isSettled = false := by simpa [Joint.intoJoint] using hs
    have hn := hx.unaccepted hu he
    refine h.settle rfl rfl he rfl rfl hle (Joint.spent_intoJoint hr hc)
      (hx.answered_append value (Or.inl rfl)) hu ?_
    exact (Joint.accepted_answer_ok ..).trans (congrArg (· ++ [value]) hn)

/-- `cancel` by a resumption that is gone: consumed, or dropped as the last. -/
theorem Valid.cancel (h : Valid c) (error : PanicError P) (hs : y.state = (c.joints j).state)
    (hh : y.handle = (c.joints j).handle) (ha : y.sends = (c.joints j).sends)
    (hye : y.early = (c.joints j).early) (ht : y.strayed = (c.joints j).strayed)
    (hc : y.resumptions ≤ y.wakers) (hp : y.spent)
    (he : (c.joints j).early = false) : Valid (c.wakeCoroutine j (y.cancel error)) := by
  have hx := h j
  have hacc : y.accepted = (c.joints j).accepted := by simp [Joint.accepted, ha]
  unfold Joint.cancel
  split
  next => exact h.setJoint (hx.adjust hs hh hacc hye ht hc (fun _ => hp) (ha ▸ hx.answered))
  next hu =>
    have hu : (c.joints j).state.isSettled = false := by simpa [hs] using hu
    exact h.settle hs hh he hye ht hc hp (ha ▸ hx.answered) hu
      (hacc.trans (hx.unaccepted hu he))

theorem Valid.setResult (h : Valid c) (result : Except P T) (hr : (c.joints j).resumptions ≠ 0)
    (he : (c.joints j).early = false) :
    Valid (c.wakeCoroutine j ((c.joints j).intoJoint.setResult result)) := by
  have hc := (h j).counted
  cases result with
  | ok value => exact h.wake value hr he
  | error payload =>
    refine h.cancel _ rfl rfl rfl rfl rfl ?_ (Joint.spent_intoJoint hr hc) he
    simp only [Joint.intoJoint]
    omega

/-- The last resumption is never dropped behind a `join` that did not suspend. -/
theorem Joint.Valid.not_early_of_last (h : x.Valid coroutines j) (hr : x.resumptions ≠ 0)
    (hl : x.wakers = 1) : x.early = false := by
  cases h.phase with
  | early _ _ _ _ hp =>
    rcases hp with hp | hp
    · exact absurd hp hr
    · omega
  | empty _ _ _ hn | selecting _ _ _ hn | settled _ _ _ hn
  | suspended _ _ _ _ hn | resumed _ _ _ hn | abandoned _ _ hn | joined _ _ _ hn => exact hn

theorem Valid.removeWaker (h : Valid c) (hr : (c.joints j).resumptions ≠ 0) :
    Valid (c.wakeCoroutine j (c.joints j).removeWaker) := by
  have hx := h j
  have hc := hx.counted
  have hle : (c.joints j).resumptions - 1 ≤ (c.joints j).wakers - 1 := by omega
  unfold Joint.removeWaker
  dsimp only
  split
  next hz =>
    refine h.cancel _ rfl rfl rfl rfl rfl hle (Or.inl ?_) (hx.not_early_of_last hr (by omega))
    show (c.joints j).resumptions - 1 = 0
    omega
  next hz =>
    refine h.setJoint (hx.adjust rfl rfl rfl rfl rfl hle ?_ hx.answered)
    rintro (hp | hp)
    · exact absurd hp hr
    · right
      show (c.joints j).resumptions - 1 < (c.joints j).wakers - 1
      omega

/-- What an event does, and to which coroutine and handle. -/
inductive Move (c : Config T P) : Event T P → Config T P → Prop where
  | cloned {j : ℕ} : (c.joints j).resumptions ≠ 0 →
      Move c (.clone j) (c.setJoint j { c.joints j with
        wakers := (c.joints j).wakers + 1, resumptions := (c.joints j).resumptions + 1 })
  | sent {j : ℕ} {value : T} : (c.joints j).resumptions ≠ 0 →
      Move c (.resume j value) (c.wakeCoroutine j ((c.joints j).intoJoint.wake value))
  | resultSet {j : ℕ} {result : Except P T} : (c.joints j).resumptions ≠ 0 →
      Move c (.setResult j result) (c.wakeCoroutine j ((c.joints j).intoJoint.setResult result))
  | dropped {j : ℕ} : (c.joints j).resumptions ≠ 0 →
      Move c (.drop j) (c.wakeCoroutine j (c.joints j).removeWaker)
  | joined {co j : ℕ} : c.coroutines co = .free → (c.joints j).handle = .held →
      Move c (.join co j) (c.join co j)
  | ran {co j : ℕ} : c.coroutines co = .resumed j →
      Move c (.run co) ((c.setJoint j (c.joints j).take).setStage co .free)
  | interrupted {co j : ℕ} {reason : String} : c.coroutines co = .suspended j →
      Move c (.interrupt co reason)
        ((c.setJoint j ((c.joints j).cancel (.static reason)).1).setStage co (.resumed j))
  | abandoned {j : ℕ} : (c.joints j).handle = .held →
      Move c (.abandon j) (c.setJoint j
        { ((c.joints j).cancel (.static "suspension dropped")).1 with handle := .dropped })
  | granted {j : ℕ} : (c.joints j).handle = .held → (c.joints j).state.isReady = true →
      Move c (.trySelect j) (c.setJoint j { c.joints j with handle := .granted })
  | watched {j identifier : ℕ} : (c.joints j).handle = .held →
      Move c (.watch j identifier) (c.setJoint j ((c.joints j).watch identifier))
  | unwatched {j identifier : ℕ} {won applied : Bool} :
      (c.joints j).handle = .selecting identifier applied →
      (won && !applied) = false →
      Move c (.unwatch j won) (c.setJoint j ((c.joints j).unwatch identifier won))
  | consumed {j : ℕ} : (c.joints j).handle = .granted →
      Move c (.consume j) (c.setJoint j (c.joints j).take)

theorem move_of_step {e : Event T P} (hs : c.step e = some d) : Move c e d := by
  cases e with
  | clone j =>
    simp only [Config.step] at hs
    split at hs <;> cases hs
    exact .cloned ‹_›
  | resume j value =>
    simp only [Config.step] at hs
    split at hs <;> cases hs
    exact .sent ‹_›
  | setResult j result =>
    simp only [Config.step] at hs
    split at hs <;> cases hs
    exact .resultSet ‹_›
  | drop j =>
    simp only [Config.step] at hs
    split at hs <;> cases hs
    exact .dropped ‹_›
  | join co j =>
    simp only [Config.step] at hs
    split at hs <;> cases hs
    exact .joined ‹_› ‹_›
  | run co =>
    simp only [Config.step] at hs
    split at hs <;> cases hs
    exact .ran ‹_›
  | interrupt co reason =>
    simp only [Config.step] at hs
    split at hs <;> cases hs
    exact .interrupted ‹_›
  | abandon j =>
    simp only [Config.step] at hs
    split at hs <;> cases hs
    exact .abandoned ‹_›
  | trySelect j =>
    simp only [Config.step] at hs
    split at hs
    · split at hs <;> cases hs
      exact .granted ‹_› ‹_›
    · cases hs
  | watch j identifier =>
    simp only [Config.step] at hs
    split at hs <;> cases hs
    exact .watched ‹_›
  | unwatch j won =>
    simp only [Config.step] at hs
    split at hs
    next hh =>
      split at hs
      next => cases hs
      next hw =>
        cases hs
        exact .unwatched hh (by simpa using hw)
    next => cases hs
  | consume j =>
    simp only [Config.step] at hs
    split at hs <;> cases hs
    exact .consumed ‹_›

/-- The step sends to a joint whose `join` returned at once, or sets its result. -/
def SendsLate (c : Config T P) : Event T P → Prop
  | .resume j _ | .setResult j _ => (c.joints j).early = true
  | _ => False

theorem Joint.Valid.held (h : x.Valid coroutines j) (hh : x.handle = .held) :
    x.early = false ∧ (x.state = .empty ∧ x.accepted = [] ∨ x.state.Carries x.accepted ∧ x.spent) := by
  cases h.phase with
  | empty h1 _ h3 h4 => exact ⟨h4, Or.inl ⟨h1, h3⟩⟩
  | settled h1 _ h3 h4 => exact ⟨h4, Or.inr ⟨h1, h3⟩⟩
  | selecting _ h2 | suspended _ h2 | resumed _ h2 | abandoned _ h2 | joined _ h2
  | early _ h2 => rw [hh] at h2; cases h2

theorem Joint.Valid.none_at (h : x.Valid coroutines j) (hh : ∀ co, x.handle ≠ .waiting co)
    (co : ℕ) : ¬ (coroutines co).at j := fun hco => hh co (h.waiting co hco)

/-- The handle of a joint changes hands, and no coroutine is in a `join` of it. -/
theorem Joint.Valid.rehandle (h : x.Valid coroutines j) (hh : ∀ co, x.handle ≠ .waiting co)
    (hp : y.Phase coroutines j) (hr : y.resumptions = x.resumptions) (hw : y.wakers = x.wakers)
    (hs : y.sends = x.sends) (ht : y.strayed = x.strayed) : y.Valid coroutines j where
  phase := hp
  counted := by rw [hr, hw]; exact h.counted
  waiting co hco := absurd hco (h.none_at hh co)
  answered := by rw [hs]; exact h.answered
  unstrayed := ht.trans h.unstrayed

theorem SuspensionState.Carries.conclude {state : SuspensionState T P} {values : List T}
    (h : state.Carries values) :
    ∃ result, state.conclude = .concluded result ∧ Matches values result := by
  cases state with
  | value v => exact ⟨.ok v, rfl, h⟩
  | panicked e => exact ⟨.error e, rfl, h⟩
  | empty | joining | selector | joined => cases h

theorem initial_valid : Valid (initial : Config T P) := fun _ =>
  ⟨.empty rfl rfl rfl rfl, Nat.le_refl _, fun _ h => absurd h (by rintro (h | h) <;> cases h),
    nofun, rfl⟩

/-- `join` suspends on an empty joint, and elsewhere it takes what is there. -/
theorem Valid.join (h : Valid c) {co : ℕ} (hf : c.coroutines co = .free)
    (hh : (c.joints j).handle = .held) : Valid (c.join co j) := by
  have hx := h j
  obtain ⟨he, hs⟩ := hx.held hh
  have hnone := hx.none_at (by rw [hh]; nofun)
  unfold Config.join
  rcases hs with ⟨hs, ha⟩ | ⟨hs, hp⟩
  · rw [hs]
    refine h.update (j := j) rfl (moves_update (Or.inl hf) (Or.inr (Or.inl rfl))) ?_
    refine ⟨.suspended rfl rfl (Function.update_self ..) ha he, hx.counted, ?_, hx.answered,
      hx.unstrayed⟩
    intro k hk
    by_cases hkc : k = co
    · rw [hkc]
    · exact absurd (by simpa [Config.setStage, Config.setJoint, hkc] using hk) (hnone k)
  · cases hst : (c.joints j).state with
    | value v =>
      rw [hst] at hs
      exact h.setJoint (hx.rehandle (by rw [hh]; nofun) (.early rfl rfl hs rfl hp) rfl rfl rfl rfl)
    | panicked e =>
      rw [hst] at hs
      exact h.setJoint (hx.rehandle (by rw [hh]; nofun) (.early rfl rfl hs rfl hp) rfl rfl rfl rfl)
    | empty | joining | selector | joined => rw [hst] at hs; cases hs

theorem Joint.Valid.resumed (h : x.Valid coroutines j) {co : ℕ}
    (hc : coroutines co = .resumed j) :
    x.state.Carries x.accepted ∧ x.handle = .waiting co ∧ x.early = false := by
  have hw := h.waiting co (Or.inr hc)
  cases h.phase with
  | resumed h1 _ _ h4 => exact ⟨h1, hw, h4⟩
  | @suspended co' _ h2 h3 =>
    cases hw.symm.trans h2
    rw [hc] at h3
    cases h3
  | settled _ h2 => rw [hw] at h2; cases h2
  | empty _ h2 | selecting _ h2 | abandoned _ h2 | joined _ h2 | early _ h2 =>
    rw [hw] at h2; cases h2

theorem Joint.Valid.suspended (h : x.Valid coroutines j) {co : ℕ}
    (hc : coroutines co = .suspended j) : x.state = .joining co ∧ x.handle = .waiting co ∧
      x.accepted = [] ∧ x.early = false := by
  have hw := h.waiting co (Or.inl hc)
  cases h.phase with
  | @suspended co' h1 h2 _ h4 h5 =>
    cases hw.symm.trans h2
    exact ⟨h1, hw, h4, h5⟩
  | resumed _ h2 h3 =>
    cases hw.symm.trans h2
    rw [hc] at h3
    cases h3
  | settled _ h2 => rw [hw] at h2; cases h2
  | empty _ h2 | selecting _ h2 | abandoned _ h2 | joined _ h2 | early _ h2 =>
    rw [hw] at h2; cases h2

theorem Valid.run (h : Valid c) {co : ℕ} (hc : c.coroutines co = .resumed j) :
    Valid ((c.setJoint j (c.joints j).take).setStage co .free) := by
  have hx := h j
  obtain ⟨hs, hw, he⟩ := hx.resumed hc
  obtain ⟨result, hr, hm⟩ := hs.conclude
  refine h.update (j := j) rfl (moves_update (Or.inr (Or.inr hc)) (Or.inl rfl)) ?_
  refine ⟨.joined rfl hr hm he, hx.counted, ?_, hx.answered, hx.unstrayed⟩
  intro k hk
  by_cases hkc : k = co
  · subst hkc
    rcases hk with hk | hk <;> simp [Config.setStage] at hk
  · have hk : (c.coroutines k).at j := by
      simpa [Config.setStage, Config.setJoint, hkc] using hk
    cases (hx.waiting k hk).symm.trans hw
    exact absurd rfl hkc

theorem Valid.interrupt (h : Valid c) {co : ℕ} (hc : c.coroutines co = .suspended j)
    (error : PanicError P) :
    Valid ((c.setJoint j ((c.joints j).cancel error).1).setStage co (.resumed j)) := by
  have hx := h j
  obtain ⟨hs, hw, ha, he⟩ := hx.suspended hc
  have hcancel : ((c.joints j).cancel error).1 =
      { c.joints j with state := .panicked error } := by
    simp [Joint.cancel, Joint.replace, hs, SuspensionState.isSettled]
  rw [hcancel]
  refine h.update (j := j) rfl (moves_update (Or.inr (Or.inl hc)) (Or.inr (Or.inr rfl))) ?_
  refine ⟨.resumed ha hw (Function.update_self ..) he, hx.counted, ?_, hx.answered,
    hx.unstrayed⟩
  intro k hk
  by_cases hkc : k = co
  · rw [hkc]; exact hw
  · exact hx.waiting k (by simpa [Config.setStage, Config.setJoint, hkc] using hk)

theorem Joint.Valid.abandon (h : x.Valid coroutines j) (hh : x.handle = .held)
    (error : PanicError P) :
    ({ (x.cancel error).1 with handle := .dropped } : Joint T P).Valid coroutines j := by
  obtain ⟨he, ⟨hs, ha⟩ | ⟨hs, hp⟩⟩ := h.held hh
  · have hcancel : (x.cancel error).1 = { x with state := .panicked error } := by
      simp [Joint.cancel, Joint.replace, hs, SuspensionState.isSettled]
    rw [hcancel]
    exact h.rehandle (by rw [hh]; nofun) (.abandoned ha rfl he) rfl rfl rfl rfl
  · have hcancel : (x.cancel error).1 = x := by simp [Joint.cancel, hs.settled]
    rw [hcancel]
    exact h.rehandle (by rw [hh]; nofun) (.abandoned hs rfl he) rfl rfl rfl rfl

theorem Joint.Valid.watch (h : x.Valid coroutines j) (hh : x.handle = .held) (identifier : ℕ) :
    (x.watch identifier).Valid coroutines j := by
  obtain ⟨he, ⟨hs, ha⟩ | ⟨hs, hp⟩⟩ := h.held hh
  · have hwatch : x.watch identifier =
        { x with state := .selector identifier, handle := .selecting identifier false } := by
      simp [Joint.watch, hs]
    rw [hwatch]
    exact h.rehandle (by rw [hh]; nofun) (.selecting rfl rfl ha he) rfl rfl rfl rfl
  · have hwatch : x.watch identifier = { x with handle := .selecting identifier true } := by
      unfold Joint.watch
      cases hst : x.state with
      | value | panicked | joined => rfl
      | empty | joining | selector => rw [hst] at hs; cases hs
    rw [hwatch]
    exact h.rehandle (by rw [hh]; nofun) (.settled hs rfl hp he) rfl rfl rfl rfl

theorem Joint.Valid.unwatch (h : x.Valid coroutines j) {identifier : ℕ} {applied won : Bool}
    (hh : x.handle = .selecting identifier applied) (hw : (won && !applied) = false) :
    (x.unwatch identifier won).Valid coroutines j := by
  cases h.phase with
  | @selecting identifier' h1 h2 h3 h4 =>
    cases hh.symm.trans h2
    have hwon : won = false := by simpa using hw
    subst hwon
    have hunwatch : x.unwatch identifier false = { x with state := .empty, handle := .held } := by
      simp [Joint.unwatch, h1]
    rw [hunwatch]
    exact h.rehandle (by rw [hh]; nofun) (.empty rfl rfl h3 h4) rfl rfl rfl rfl
  | settled h1 h2 h3 h4 =>
    have hunwatch : x.unwatch identifier won =
        { x with handle := if won then .granted else .held } := by
      unfold Joint.unwatch
      cases hst : x.state with
      | selector => rw [hst] at h1; cases h1
      | value | panicked | empty | joining | joined => rfl
    rw [hunwatch]
    refine h.rehandle (by rw [hh]; nofun) (.settled h1 ?_ h3 h4) rfl rfl rfl rfl
    cases won <;> rfl
  | empty _ h2 | suspended _ h2 | resumed _ h2 | abandoned _ h2 | joined _ h2 | early _ h2 =>
    rw [hh] at h2; cases h2

theorem Joint.Valid.granted (h : x.Valid coroutines j) (hh : x.handle = .granted) :
    x.state.Carries x.accepted ∧ x.early = false := by
  cases h.phase with
  | settled h1 _ _ h4 => exact ⟨h1, h4⟩
  | empty _ h2 | selecting _ h2 | suspended _ h2 | resumed _ h2 | abandoned _ h2 | joined _ h2
  | early _ h2 => rw [hh] at h2; cases h2

theorem Joint.Valid.consume (h : x.Valid coroutines j) (hh : x.handle = .granted) :
    x.take.Valid coroutines j := by
  obtain ⟨hs, he⟩ := h.granted hh
  obtain ⟨result, hr, hm⟩ := hs.conclude
  exact h.rehandle (by rw [hh]; nofun) (.joined rfl hr hm he) rfl rfl rfl rfl

theorem Joint.Valid.trySelect (h : x.Valid coroutines j) (hh : x.handle = .held)
    (hr : x.state.isReady = true) :
    ({ x with handle := .granted } : Joint T P).Valid coroutines j := by
  obtain ⟨he, ⟨hs, _⟩ | ⟨hs, hp⟩⟩ := h.held hh
  · rw [hs] at hr
    cases hr
  · exact h.rehandle (by rw [hh]; nofun) (.settled hs rfl hp he) rfl rfl rfl rfl

theorem Valid.clone (h : Valid c) (hr : (c.joints j).resumptions ≠ 0) :
    Valid (c.setJoint j { c.joints j with
      wakers := (c.joints j).wakers + 1, resumptions := (c.joints j).resumptions + 1 }) := by
  have hc := (h j).counted
  refine h.setJoint ((h j).adjust rfl rfl rfl rfl rfl (Nat.succ_le_succ hc) ?_ (h j).answered)
  rintro (hp | hp)
  · exact absurd hp hr
  · exact Or.inr (Nat.succ_lt_succ hp)

theorem Valid.step (h : Valid c) {e : Event T P} (hm : Move c e d) (hn : ¬ SendsLate c e) :
    Valid d := by
  cases hm with
  | cloned hr => exact h.clone hr
  | sent hr => exact h.wake _ hr (by simpa [SendsLate] using hn)
  | resultSet hr => exact h.setResult _ hr (by simpa [SendsLate] using hn)
  | dropped hr => exact h.removeWaker hr
  | joined hf hh => exact h.join hf hh
  | ran hc => exact h.run hc
  | interrupted hc => exact h.interrupt hc _
  | abandoned hh => exact h.setJoint ((h _).abandon hh _)
  | granted hh hr => exact h.setJoint ((h _).trySelect hh hr)
  | watched hh => exact h.setJoint ((h _).watch hh _)
  | unwatched hh hw => exact h.setJoint ((h _).unwatch hh hw)
  | consumed hh => exact h.setJoint ((h _).consume hh)

theorem Valid.cancel_late (h : Valid c) (error : PanicError P) (he : (c.joints j).early = true) :
    (c.joints j).intoJoint.cancel error = (c.joints j).intoJoint.replace (.panicked error) :=
  if_neg (by simp [Joint.intoJoint, (h j).early_unsettled he])

theorem Valid.wake_late (h : Valid c) (value : T) (he : (c.joints j).early = true) :
    (c.joints j).intoJoint.wake value =
      ((c.joints j).intoJoint.answer value (.ok ())).replace (.value value) :=
  if_neg (by simp [Joint.intoJoint, (h j).early_unsettled he])

/-- A send to a joint whose `join` returned at once resumes a coroutine that is not there. -/
theorem Valid.strays_of_late (h : Valid c) {e : Event T P} (hm : Move c e d)
    (hl : SendsLate c e) : ∃ j, (d.joints j).strayed = true := by
  cases hm with
  | @sent j value =>
    refine ⟨j, ?_⟩
    rw [h.wake_late value hl]
    exact h.strays rfl hl
  | @resultSet j result =>
    refine ⟨j, ?_⟩
    cases result with
    | ok value =>
      rw [Joint.setResult, h.wake_late value hl]
      exact h.strays rfl hl
    | error payload =>
      rw [Joint.setResult, h.cancel_late _ hl]
      exact h.strays rfl hl
  | _ => cases hl

@[simp] theorem Joint.replace_strayed (x : Joint T P) (state : SuspensionState T P) :
    (x.replace state).1.strayed = x.strayed := by
  unfold replace
  split <;> rfl

@[simp] theorem Joint.cancel_strayed (x : Joint T P) (error : PanicError P) :
    (x.cancel error).1.strayed = x.strayed := by
  unfold cancel
  split
  · rfl
  · exact replace_strayed ..

@[simp] theorem Joint.wake_strayed (x : Joint T P) (value : T) :
    (x.wake value).1.strayed = x.strayed := by
  unfold wake
  split
  · rfl
  · exact replace_strayed ..

theorem Joint.setResult_strayed (x : Joint T P) (result : Except P T) :
    (x.setResult result).1.strayed = x.strayed := by
  cases result with
  | ok value => exact wake_strayed ..
  | error payload => exact cancel_strayed ..

theorem Joint.removeWaker_strayed (x : Joint T P) : x.removeWaker.1.strayed = x.strayed := by
  unfold removeWaker
  dsimp only
  split
  · exact cancel_strayed ..
  · rfl

theorem Joint.watch_strayed (x : Joint T P) (identifier : ℕ) :
    (x.watch identifier).strayed = x.strayed := by
  unfold watch
  split <;> rfl

theorem Joint.unwatch_strayed (x : Joint T P) (identifier : ℕ) (won : Bool) :
    (x.unwatch identifier won).strayed = x.strayed := by
  unfold unwatch
  dsimp only
  split
  · split <;> rfl
  · rfl

theorem strayed_setJoint (hj : (c.joints j).strayed = true) (hy : y.strayed = (c.joints i).strayed) :
    ((c.setJoint i y).joints j).strayed = true := by
  by_cases hji : j = i
  · subst hji
    simpa [Config.setJoint] using hy.trans hj
  · simpa [Config.setJoint, hji] using hj

theorem strayed_wakeCoroutine (hj : (c.joints j).strayed = true) {p : Joint T P × Option ℕ}
    (hy : p.1.strayed = (c.joints i).strayed) :
    ((c.wakeCoroutine i p).joints j).strayed = true := by
  obtain ⟨y, _ | co⟩ := p
  · exact strayed_setJoint hj hy
  · have hjoint : ∀ b, ((c.setJoint i { y with strayed := y.strayed || b }).joints j).strayed =
        true := by
      intro b
      by_cases hji : j = i
      · subst hji
        have hy : y.strayed = true := Eq.trans hy hj
        simp [Config.setJoint, hy]
      · simpa [Config.setJoint, hji] using hj
    unfold Config.wakeCoroutine Config.resume
    dsimp only
    split <;> exact hjoint _

theorem strayed_join (hj : (c.joints j).strayed = true) (co i : ℕ) :
    ((c.join co i).joints j).strayed = true := by
  unfold Config.join
  dsimp only
  split <;> exact strayed_setJoint hj rfl

/-- A stray resumption stays on record. -/
theorem Move.strayed {e : Event T P} (hm : Move c e d) (hj : (c.joints j).strayed = true) :
    (d.joints j).strayed = true := by
  cases hm with
  | sent => exact strayed_wakeCoroutine hj (Joint.wake_strayed ..)
  | resultSet => exact strayed_wakeCoroutine hj (Joint.setResult_strayed ..)
  | dropped => exact strayed_wakeCoroutine hj (Joint.removeWaker_strayed _)
  | joined => exact strayed_join hj _ _
  | interrupted | abandoned => exact strayed_setJoint hj (Joint.cancel_strayed ..)
  | watched => exact strayed_setJoint hj (Joint.watch_strayed ..)
  | unwatched => exact strayed_setJoint hj (Joint.unwatch_strayed ..)
  | cloned | ran | granted | consumed => exact strayed_setJoint hj rfl

/-- A suspension comes to one end: no second accepted send, the accepted value for its holder or
a panic where there is none, refused values back to their senders, no resumption of a coroutine that is not
suspended there, and no arm that the code holds unreachable. -/
structure Joint.Exact (x : Joint T P) : Prop where
  accepted_once : x.accepted.length ≤ 1
  concluded : ∀ value, x.handle = .concluded (.ok value) → x.accepted = [value]
  panicked : ∀ error, x.handle = .concluded (.error error) → x.accepted = []
  answered : ∀ send ∈ x.sends, send.2 = .ok () ∨ send.2 = .error send.1
  unstrayed : x.strayed = false
  reachable : x.handle ≠ .unreachable

theorem SuspensionState.Carries.length_le {state : SuspensionState T P} {values : List T}
    (h : state.Carries values) : values.length ≤ 1 := by
  cases state with
  | value v => rw [show values = [v] from h]; exact Nat.le_refl _
  | panicked e => rw [show values = [] from h]; exact Nat.zero_le _
  | empty | joining | selector | joined => cases h

theorem Matches.length_le {values : List T} {result : Except (PanicError P) T}
    (h : Matches values result) : values.length ≤ 1 := by
  cases result with
  | ok v => rw [show values = [v] from h]; exact Nat.le_refl _
  | error e => rw [show values = [] from h]; exact Nat.zero_le _

theorem Joint.Valid.matches (h : x.Valid coroutines j) {result : Except (PanicError P) T}
    (hr : x.handle = .concluded result) : Matches x.accepted result := by
  cases h.phase with
  | joined _ h2 h3 => cases h2.symm.trans hr; exact h3
  | early _ h2 h3 => cases h2.symm.trans hr; exact h3
  | settled _ h2 => rw [hr] at h2; cases h2
  | empty _ h2 | selecting _ h2 | suspended _ h2 | resumed _ h2 | abandoned _ h2 =>
    rw [hr] at h2; cases h2

theorem Joint.Valid.exact (h : x.Valid coroutines j) : x.Exact := by
  refine ⟨?_, fun _ => h.matches, fun _ => h.matches, h.answered, h.unstrayed, ?_⟩
  · cases h.phase with
    | empty _ _ h3 | selecting _ _ h3 => simp [h3]
    | suspended _ _ _ h4 => simp [h4]
    | settled h1 | resumed h1 | abandoned h1 => exact h1.length_le
    | joined _ _ h3 | early _ _ h3 => exact h3.length_le
  · intro hu
    cases h.phase with
    | settled _ h2 => rw [hu] at h2; cases h2
    | empty _ h2 | selecting _ h2 | suspended _ h2 | resumed _ h2 | abandoned _ h2
    | joined _ h2 | early _ h2 => rw [hu] at h2; cases h2

/-- As long as no resumption went astray the joints are valid. -/
theorem reachable_valid (h : Reachable (system T P) c)
    (hn : ∀ j, (c.joints j).strayed = false) : Valid c := by
  revert hn
  refine Reachable.invariant (I := fun c => (∀ j, (c.joints j).strayed = false) → Valid c)
    (fun _ => initial_valid) ?_ h
  intro c e d hv hs hn
  have hc : Valid c := hv fun j => by
    by_contra hj
    rw [Bool.not_eq_false] at hj
    exact absurd ((move_of_step hs).strayed hj) (by simp [hn j])
  refine hc.step (move_of_step hs) fun hl => ?_
  obtain ⟨j, hj⟩ := hc.strays_of_late (move_of_step hs) hl
  rw [hn j] at hj
  cases hj

/-- Every suspension of a run is exact just when nobody sends to one whose `join` found its end
there and returned at once. -/
theorem suspensions_exact (ρ : Execution (system T P)) :
    (∀ s, ρ.Visits s → ∀ j, (s.joints j).Exact) ↔ ∀ s e, ρ.Takes s e → ¬ SendsLate s e := by
  refine ρ.exact (B := fun c => (∀ j, (c.joints j).strayed = false) → Valid c)
    (fun _ => reachable_valid) (fun j => (initial_valid j).exact) ?_
  intro c e d hv hc hs
  have hvalid := hv fun j => (hc j).unstrayed
  constructor
  · intro hd hl
    obtain ⟨j, hj⟩ := hvalid.strays_of_late (move_of_step hs) hl
    rw [(hd j).unstrayed] at hj
    cases hj
  · intro hn j
    exact (hvalid.step (move_of_step hs) hn j).exact

/-- A clone sends before the first suspension is joined, and the other one while the coroutine is
suspended elsewhere. -/
def lateTrace : List (Event ℕ Unit) :=
  [.clone 0, .resume 0 5, .join 7 0, .join 7 1, .resume 0 6, .run 7]

theorem late_send_accepted : ¬ ∀ c : Config ℕ Unit, Reachable (system ℕ Unit) c →
    ∀ j, (c.joints j).Exact := by
  intro h
  have hr := run_reachable (M := system ℕ Unit) lateTrace rfl
  exact absurd (h _ hr 0).accepted_once (by decide)

end Suspension
