import Stuck.SessionInvariant

/-! What a session comes to: one outcome, told alike to the winner, to the losers and to the
owner. -/
namespace Session

open TransitionSystem OneShot SharedTypes

variable {T P : Type*} {c d : Config T P} {i : ℕ} {call : Call T P}

/-- The call whose `set_value` has returned `Ok`. -/
def Agent.accepted : Agent T P → Option (Call T P)
  | .setting call (.ok _) | .waking call _ | .finished call true _ => some call
  | _ => none

/-- The call whose `set_value` has won the status word. -/
def Agent.claimed : Agent T P → Option (Call T P)
  | .setting call pc => if pc.claimed then some call else none
  | .waking call _ | .finished call true _ => some call
  | _ => none

/-- The agent of a waker that is not at rest: the interrupts of the owner's task are none. -/
def Agent.inProgress : Agent T P → Bool
  | .setting (.interrupt _) _ | .waking (.interrupt _) _ => false
  | .setting .. | .waking .. => true
  | _ => false

theorem stepDrop_frame {spurious : Bool} {pc : DropPc} {m : Config T P × DropPc}
    (h : c.stepDrop spurious pc = some m) : m.1.agents = c.agents ∧
      (m.1.outcome = c.outcome ∨ m.1.outcome = c.outcome.cancel) := by
  obtain ⟨_, _, rfl⟩ := Option.map_eq_some_iff.mp h
  refine ⟨rfl, ?_⟩
  dsimp only
  split
  · exact Or.inr rfl
  · exact Or.inl rfl

theorem stepDrop_outcome {spurious : Bool} {pc : DropPc} {m : Config T P × DropPc}
    (h : c.stepDrop spurious pc = some m) : m.1.outcome = c.outcome ∨
      ∃ f, (OneShot.system _).step c.outcome f = some m.1.outcome := by
  rcases (stepDrop_frame h).2 with ho | ho
  · exact Or.inl ho
  · rw [ho]
    exact cancel_step _

theorem step_outcome {e : Event T P} (h : c.step e = some d) : d.outcome = c.outcome ∨
    ∃ f, (OneShot.system _).step c.outcome f = some d.outcome := by
  cases e with
  | clone | drop | call | interrupt | join | abandon =>
    simp only [Config.step] at h
    split at h <;> cases h
    all_goals exact Or.inl rfl
  | advance i spurious =>
    simp only [Config.step, Config.advance] at h
    split at h
    next => split at h <;> cases h <;> exact Or.inl rfl
    next => cases h; exact Or.inl rfl
    next =>
      obtain ⟨_, _, rfl⟩ := Option.map_eq_some_iff.mp h
      simp only [Config.setAgent]
      split
      · exact fire_step _ _
      · exact Or.inl rfl
    next => cases h; exact Or.inl rfl
    next => cases h
  | owner spurious =>
    simp only [Config.step, Config.stepOwner] at h
    split at h
    next => cases h; exact Or.inl rfl
    next => obtain ⟨_, _, rfl⟩ := Option.map_eq_some_iff.mp h; exact Or.inl rfl
    next => obtain ⟨_, hm, rfl⟩ := Option.map_eq_some_iff.mp h; exact stepDrop_outcome hm
    next => cases h
  | dispose spurious =>
    simp only [Config.step] at h
    split at h
    next => split at h <;> cases h; exact Or.inl rfl
    next => obtain ⟨_, hm, rfl⟩ := Option.map_eq_some_iff.mp h; exact stepDrop_outcome hm

/-- A session is a one-shot cell for its callers. -/
def refinement (T P : Type*) :
    Refinement (system T P) (OneShot.system (ℕ × SessionValue T P)) where
  map c := c.outcome
  init := rfl
  step _ _ _ := step_outcome

theorem outcome_final {es : List (Event T P)} (hr : (system T P).runFrom c es = some d)
    (ho : c.outcome ≠ .pending) : d.outcome = c.outcome := by
  obtain ⟨fs, hfs⟩ := (refinement T P).run hr
  exact settled_run ho hfs

theorem Invariant.accepted (h : Invariant c) (ha : (c.agents i).accepted = some call) :
    c.outcome = .fired (i, call.value) := by
  have hv := h.agents_valid i
  unfold Agent.accepted at ha
  split at ha <;> cases ha <;> simp_all [Agent.Valid, SetPc.Valid]

theorem setValue_claimed {joint joint' : SessionJoint T P} {v : SessionValue T P} {spurious : Bool}
    {pc next : SetPc} (h : setValue joint v spurious pc = some (joint', next))
    (hc : pc.claimed = true) (hn : next ≠ .undefined) : next.claimed = true := by
  cases pc with
  | takeJoiner =>
    simp only [setValue] at h
    split at h <;> cases h
    · rfl
    · exact absurd rfl hn
  | write joiner => rcases joiner with _ | ⟨_⟩ | _ <;> cases h <;> rfl
  | unpark | store => cases h; rfl
  | load | casEmpty | casJoining => cases hc
  | ok | err | undefined => cases h

/-- The outcome belongs to an agent that has won. -/
def Won (c : Config T P) : Prop :=
  ∀ i v, c.outcome = .fired (i, v) → ∃ call, (c.agents i).claimed = some call ∧ call.value = v

/-- Only the agent `i` changes, and no claim of it is lost. -/
theorem Won.of_agents (h : Won c) (ho : d.outcome = c.outcome)
    (ha : ∀ j, j ≠ i → c.agents j ≠ .unused → d.agents j = c.agents j)
    (hi : ∀ call, (c.agents i).claimed = some call → (d.agents i).claimed = some call) :
    Won d := by
  intro j v hj
  obtain ⟨call, hc, hv⟩ := h j v (ho ▸ hj)
  refine ⟨call, ?_, hv⟩
  by_cases hji : j = i
  · subst hji
    exact hi call hc
  · rw [ha j hji (fun he => by rw [he] at hc; cases hc)]
    exact hc

theorem won_setAgent (h : Won c) {agent : Agent T P}
    (hi : ∀ call, (c.agents i).claimed = some call → agent.claimed = some call) :
    Won (c.setAgent i agent) := by
  refine h.of_agents (i := i) rfl (fun j hj _ => by simp [Config.setAgent, hj]) ?_
  simpa [Config.setAgent] using hi

theorem Won.of_drop (h : Won c)
    (hd : d.agents = c.agents ∧ (d.outcome = c.outcome ∨ d.outcome = c.outcome.cancel)) :
    Won d := by
  obtain ⟨ha, ho⟩ := hd
  intro i v hi
  rw [ha]
  rcases ho with ho | ho <;> rw [ho] at hi
  · exact h i v hi
  · cases hc : c.outcome with
    | fired => rw [hc] at hi; exact h i v (hc.trans hi)
    | pending | cancelled => rw [hc] at hi; cases hi

theorem Won.advance (h : Won c) (hi : Invariant c) {spurious : Bool}
    (hs : c.advance i spurious = some d) : Won d := by
  unfold Config.advance at hs
  split at hs
  next ha =>
    split at hs <;> cases hs <;> refine won_setAgent h ?_ <;> rw [ha] <;> exact fun _ => id
  next ha => cases hs; refine won_setAgent h ?_; rw [ha]; exact nofun
  next call pc _ _ ha =>
    have hv := hi.agents_valid i
    rw [ha] at hv
    obtain ⟨⟨joint, next⟩, hset, rfl⟩ := Option.map_eq_some_iff.mp hs
    have hn : next ≠ .undefined := by
      rintro rfl
      exact (setValue_step hset hi.stage hv rfl).2.1
    intro j v hj
    simp only [Config.setAgent] at hj ⊢
    by_cases hji : j = i
    · subst hji
      simp only [Function.update_self, Agent.claimed]
      by_cases hcl : pc.claimed = true
      · obtain ⟨call', hc, hv⟩ := h j v (by simpa [hcl] using hj)
        simp only [ha, Agent.claimed, hcl, if_true, Option.some.injEq] at hc
        subst hc
        exact ⟨call, by simp [setValue_claimed hset hcl hn], hv⟩
      · have hno : ∀ v, c.outcome ≠ .fired (j, v) := by
          intro v ho
          obtain ⟨_, hc, _⟩ := h j v ho
          simp [ha, Agent.claimed, hcl] at hc
        split at hj
        next hw =>
          have hnext : next.claimed = true := (Bool.and_eq_true_iff.mp hw).2
          refine ⟨call, by simp [hnext], ?_⟩
          cases ho : c.outcome with
          | pending => rw [ho] at hj; cases hj; rfl
          | fired | cancelled => rw [ho] at hj; exact absurd (ho.trans hj) (hno v)
        next => exact absurd hj (hno v)
    · have ho : c.outcome = .fired (j, v) := by
        split at hj
        next =>
          cases ho : c.outcome with
          | pending => rw [ho] at hj; cases hj; exact absurd rfl hji
          | fired | cancelled => rw [ho] at hj; exact hj
        next => exact hj
      simpa [hji] using h j v ho
  next ha => cases hs; refine won_setAgent h ?_; rw [ha]; exact fun _ => id
  next => cases hs

theorem won_step {e : Event T P} (h : Won c) (hi : Invariant c) (hs : c.step e = some d) :
    Won d := by
  have hstart : ∀ {j agent}, c.agents j = .handle → Won (c.setAgent j agent) := by
    intro j agent hj
    refine won_setAgent h fun call hc => ?_
    rw [hj] at hc
    cases hc
  have hadd : ∀ agent, Won (c.addAgent agent) := fun agent => by
    refine h.of_agents (i := c.created) rfl (fun j hj _ => by simp [Config.addAgent, hj]) ?_
    intro call hc
    rw [hi.fresh _ (Nat.le_refl _)] at hc
    cases hc
  cases e with
  | clone j =>
    simp only [Config.step] at hs
    split at hs <;> cases hs
    exact hadd _
  | call j call =>
    simp only [Config.step] at hs
    split at hs <;> cases hs <;> exact hstart ‹_›
  | drop j =>
    simp only [Config.step] at hs
    split at hs <;> cases hs
    exact @hstart j (if c.wakers = 1 then .setting .fault .load else .dropped) ‹_›
  | interrupt reason =>
    simp only [Config.step] at hs
    split at hs <;> cases hs
    exact hadd _
  | advance j spurious => exact h.advance hi hs
  | join | abandon =>
    simp only [Config.step] at hs
    split at hs <;> cases hs
    exact h
  | owner spurious =>
    simp only [Config.step, Config.stepOwner] at hs
    split at hs
    next => cases hs; exact h
    next => obtain ⟨_, _, rfl⟩ := Option.map_eq_some_iff.mp hs; exact h
    next => obtain ⟨_, hm, rfl⟩ := Option.map_eq_some_iff.mp hs; exact h.of_drop (stepDrop_frame hm)
    next => cases hs
  | dispose spurious =>
    simp only [Config.step] at hs
    split at hs
    next => split at hs <;> cases hs; exact h
    next => obtain ⟨_, hm, rfl⟩ := Option.map_eq_some_iff.mp hs; exact h.of_drop (stepDrop_frame hm)

theorem reachable_won (h : Reachable (system T P) c) : Won c :=
  Reachable.invariant_over (B := Invariant) (I := Won) (fun _ => reachable_invariant) nofun
    (fun _ _ _ hi hw hs => won_step hw hi hs) h

/-- The winner of a session whose owner is done has returned from its `set_value`. -/
theorem Invariant.returned (h : Invariant c) (hw : Won c) {v : SessionValue T P}
    (ho : c.outcome = .fired (i, v)) (hs : c.joint.status ≠ SessionStatus.value.into) :
    ∃ call, (c.agents i).accepted = some call ∧ call.value = v := by
  obtain ⟨call, hc, hv⟩ := hw i v ho
  have hvalid := h.agents_valid i
  refine ⟨call, ?_, hv⟩
  cases ha : c.agents i with
  | setting call' pc =>
    rw [ha] at hc hvalid
    cases pc with
    | ok => exact hc
    | takeJoiner | write => exact absurd hvalid.1 hs
    | unpark | store => exact absurd (congrArg SessionJoint.status hvalid.1) hs
    | load | casEmpty | casJoining | err | undefined => cases hc
  | waking => rw [ha] at hc; exact hc
  | finished call' accepted =>
    rw [ha] at hc
    cases accepted <;> exact hc
  | unused | handle | dropped => rw [ha] at hc; cases hc

theorem Invariant.concluded (h : Invariant c) (hw : Won c) {join : Join}
    {conclusion : Conclusion T P} (ho : c.owner = .finished join conclusion) :
    ∃ i call, (c.agents i).accepted = some call ∧ conclusion = join.conclude call.value := by
  have hst := h.stage
  rw [ho] at hst
  obtain ⟨i, v, hout, hs, hc⟩ : ∃ i v, c.outcome = .fired (i, v) ∧
      c.joint.status ≠ SessionStatus.value.into ∧ conclusion = join.conclude v := by
    revert hst
    generalize c.joint = joint, c.outcome = outcome
    intro hst
    cases hst with
    | taken hc => exact ⟨_, _, rfl, nofun, hc⟩
    | empty hn | posting hn | posted hn | claimed hn => cases hn
  obtain ⟨call, ha, hv⟩ := h.returned hw hout hs
  exact ⟨i, call, ha, by rw [hc, hv]⟩

/-- The wait panics, so the winner is neither a `wake` nor a `send`. -/
theorem Join.panicked_value {join : Join} {e : PanicError P}
    (h : join.conclude call.value = .panicked e) : call.delivers = false := by
  unfold conclude at h
  split at h
  · cases h
  · cases call with
    | wake | send => cases h
    | setResult | fault | interrupt => rfl

/-- The fault of the last waker comes after every waker was dropped uncalled. -/
theorem Invariant.fault_alone (h : Invariant c) (hf : (c.agents i).call = some .fault) (j : ℕ) :
    c.agents j ≠ .handle ∧ ∀ call, (c.agents j).call = some call → call.consumes = false := by
  have hz : c.wakers = 0 := h.faulted.mpr ⟨i, by rw [Agent.faults, hf]; rfl⟩
  have hn : (c.agents j).counted = false := by
    by_contra hc
    rw [Bool.not_eq_false] at hc
    have hj : j < c.created := h.lt_created (fun he => by rw [he] at hc; cases hc)
    have : 0 < c.wakers := by
      rw [h.wakers_counted, Census.count_pos_iff]
      exact ⟨j, hj, hc⟩
    omega
  refine ⟨fun he => absurd hn (by simp [he, Agent.counted]), ?_⟩
  intro call hcall
  unfold Agent.counted at hn
  split at hn
  next ha => cases hn
  next => simpa [hcall] using hn

/-- With no handle left and every waker at rest somebody has settled the session. -/
theorem Invariant.settled (h : Invariant c) (hh : ∀ i, c.agents i ≠ .handle)
    (hr : ∀ i, (c.agents i).inProgress = false) : c.outcome ≠ .pending := by
  have hrest : ∀ i call, (c.agents i).call = some call → (∀ reason, call ≠ .interrupt reason) →
      c.outcome ≠ .pending := by
    intro i call hc hi
    have hv := h.agents_valid i
    have hn := hr i
    cases ha : c.agents i with
    | setting call' | waking call' =>
      rw [ha] at hc hn
      cases hc
      cases call with
      | interrupt reason => exact absurd rfl (hi reason)
      | wake | send | setResult | fault => cases hn
    | finished call' accepted =>
      rw [ha] at hv
      cases accepted with
      | true => exact fun hp => by rw [hp] at hv; cases hv.1
      | false => exact hv.1
    | unused | handle | dropped => rw [ha] at hc; cases hc
  by_cases hz : c.wakers = 0
  · obtain ⟨i, hi⟩ := h.faulted.mp hz
    obtain ⟨call, hc, hf⟩ := (Option.any_eq_true ..).mp hi
    exact hrest i call hc (by rintro reason rfl; cases hf)
  · have hpos : 0 < c.wakers := Nat.pos_of_ne_zero hz
    rw [h.wakers_counted, Census.count_pos_iff] at hpos
    obtain ⟨i, _, hi⟩ := hpos
    unfold Agent.counted at hi
    split at hi
    next ha => exact absurd ha (hh i)
    next =>
      obtain ⟨call, hc, hf⟩ := (Option.any_eq_true ..).mp hi
      exact hrest i call hc (by rintro reason rfl; cases hf)

theorem Call.accept_defined (call : Call T P) : (call.accept : Answer T) ≠ .undefined := by
  cases call <;> exact nofun

theorem Call.refuse_defined (call : Call T P) : call.refuse call.value ≠ .undefined := by
  cases call with
  | setResult result => cases result <;> exact nofun
  | wake | send | fault | interrupt => exact nofun

/-- No party reads the wrong field of the union or meets an unexpected status. -/
structure Defined (c : Config T P) : Prop where
  agents : ∀ i call, c.agents i ≠ .setting call .undefined ∧
    ∀ accepted, c.agents i ≠ .finished call accepted .undefined
  owner : ∀ join, c.owner ≠ .joining join .undefined ∧ c.owner ≠ .joining join .unreachable ∧
    c.owner ≠ .dropping .undefined

theorem Invariant.defined (h : Invariant c) : Defined c where
  agents i call := by
    have hv := h.agents_valid i
    refine ⟨fun ha => by rw [ha] at hv; exact hv, fun accepted ha => ?_⟩
    rw [ha] at hv
    cases accepted with
    | true => exact call.accept_defined hv.2.symm
    | false => exact call.refuse_defined hv.2.symm
  owner join := by
    have hst := h.stage
    refine ⟨?_, ?_, ?_⟩ <;> intro ho <;> rw [ho] at hst <;> revert hst <;>
      generalize c.joint = joint, c.outcome = outcome <;> intro hst <;> cases hst <;>
      rename_i hn <;> cases hn

/-- One `set_value` wins and gives the owner its value or panic, each loser gets its own value
back, a wait that panics has no successful `wake` or `send` beside it, the fault of the last waker
wins only over uncalled wakers, and wakers leave no session unsettled. -/
theorem session_exactly_once (h : Reachable (system T P) c) :
    (∀ es d i j call call', (system T P).runFrom c es = some d →
      (c.agents i).accepted = some call → (d.agents j).accepted = some call' → i = j) ∧
    (∀ join conclusion, c.owner = .finished join conclusion →
      ∃ i call, (c.agents i).accepted = some call ∧ conclusion = join.conclude call.value) ∧
    (∀ i v answer, c.agents i = .finished (.send v) false answer → answer = .sent (.error v)) ∧
    (∀ join e, c.owner = .finished join (.panicked e) →
      ∀ es d i call, (system T P).runFrom c es = some d → (d.agents i).accepted = some call →
        call.delivers = false) ∧
    (∀ i, (c.agents i).accepted = some .fault → ∀ j, c.agents j ≠ .handle ∧
      ∀ call, (c.agents j).call = some call → call.consumes = false) ∧
    ((∀ i, c.agents i ≠ .handle) → (∀ i, (c.agents i).inProgress = false) →
      c.joint.status.status ≠ .empty ∧ c.joint.status.status ≠ .joining) ∧
    Defined c := by
  have hi := reachable_invariant h
  have hw := reachable_won h
  have hunique : ∀ es d i j call call', (system T P).runFrom c es = some d →
      (c.agents i).accepted = some call → (d.agents j).accepted = some call' →
      i = j ∧ call'.value = call.value := by
    intro es d i j call call' hr ha hb
    have hc := hi.accepted ha
    have hd := (reachable_invariant (Reachable.run h hr)).accepted hb
    rw [outcome_final hr (by rw [hc]; nofun), hc] at hd
    simp only [Cell.fired.injEq, Prod.mk.injEq] at hd
    exact ⟨hd.1, hd.2.symm⟩
  refine ⟨?_, ?_, ?_, ?_, ?_, ?_, hi.defined⟩
  · intro es d i j call call' hr ha hb
    exact (hunique es d i j call call' hr ha hb).1
  · intro join conclusion ho
    exact hi.concluded hw ho
  · intro i v answer ha
    have hv := hi.agents_valid i
    rw [ha] at hv
    exact hv.2
  · intro join e ho es d i call hr hb
    obtain ⟨j, winner, ha, hc⟩ := hi.concluded hw ho
    have hv := (hunique es d j i winner call hr ha hb).2
    have hp : join.conclude call.value = .panicked e := by rw [hv, hc]
    exact Join.panicked_value hp
  · intro i ha j
    refine hi.fault_alone (i := i) ?_ j
    unfold Agent.accepted at ha
    split at ha <;> cases ha <;> simp_all [Agent.call]
  · intro hh hr
    exact hi.stage.status_of_settled (hi.settled hh hr)

/-- A task waits, two clones send, and the second exchange loses. -/
def contendedExecution : Execution (system ℕ Unit) where
  events :=
    let advance (i : ℕ) : Event ℕ Unit := .advance i false
    let owner : Event ℕ Unit := .owner false
    [.clone 0, .join ⟨false, .task 7, true⟩, owner, owner, owner, owner, .call 0 (.send 5),
      .call 1 (.send 6), advance 0, advance 1, advance 0, advance 1, advance 1, advance 0,
      advance 0, advance 0, advance 0, advance 0, owner, owner, owner, owner]
  fires := by decide +kernel

theorem contended_session :
    contendedExecution.final.agents 1 = .finished (.send 6) false (.sent (.error 6)) ∧
      ∃ i call, (contendedExecution.final.agents i).accepted = some call ∧
        .returned 5 = Join.conclude ⟨false, .task 7, true⟩ call.value := by
  refine ⟨by decide +kernel, ?_⟩
  obtain ⟨_, hconcluded, _⟩ := session_exactly_once contendedExecution.final_reachable
  exact hconcluded _ _ (by decide +kernel)

end Session
