import Stuck.Session

/-! What holds of a session between any two atomic operations: the stage that the status word, the
cell and the owner are in together, and what each agent may rely on at its next operation. -/
namespace Session

open TransitionSystem OneShot SharedTypes

variable {T P : Type*} {c d : Config T P} {joint joint' : SessionJoint T P}
  {outcome outcome' : Cell (ℕ × SessionValue T P)} {owner : Owner T P}

/-- The owner has not entered the session. -/
def Owner.unentered : Owner T P → Bool
  | .idle | .joining _ .load | .joining _ .casEmpty => true
  | .dropping .load | .dropping .casEmpty => true
  | _ => false

/-- The owner has not claimed the value. -/
def Owner.unclaimed : Owner T P → Bool
  | .joining _ .waiting | .joining _ .claim | .dropping .claim => true
  | owner => owner.unentered

def Owner.taking : Owner T P → Bool
  | .joining _ .take | .dropping .take => true
  | _ => false

/-- The owner is done with the value `v`. -/
def Owner.Took (v : SessionValue T P) : Owner T P → Prop
  | .joining _ (.returned w) => w = v
  | .finished join conclusion => conclusion = join.conclude v
  | .dropping .claim | .dropping .done => True
  | _ => False

inductive Stage : SessionJoint T P → Cell (ℕ × SessionValue T P) → Owner T P → Prop
  | empty {o : Owner T P} : o.unentered = true →
      Stage ⟨SessionStatus.empty.into, .vacant⟩ .pending o
  | entering {join : Join} :
      Stage ⟨SessionStatus.joining.into, .vacant⟩ .pending (.joining join .writeJoiner)
  | entered {join : Join} :
      Stage ⟨SessionStatus.joining.into, .joiner join.joiner⟩ .pending (.joining join .store)
  | waiting {join : Join} :
      Stage ⟨SessionStatus.joining.intoRelease, .joiner join.joiner⟩ .pending
        (.joining join .waiting)
  | posting {i v slot} {o : Owner T P} : o.unclaimed = true →
      Stage ⟨SessionStatus.value.into, slot⟩ (.fired (i, v)) o
  | posted {i v} {o : Owner T P} : o.unclaimed = true →
      Stage ⟨SessionStatus.value.intoRelease, .value v⟩ (.fired (i, v)) o
  | claimed {i v} {o : Owner T P} : o.taking = true →
      Stage ⟨SessionStatus.joined.intoRelease, .value v⟩ (.fired (i, v)) o
  | taken {i v} {o : Owner T P} : o.Took v →
      Stage ⟨SessionStatus.joined.intoRelease, .vacant⟩ (.fired (i, v)) o
  | abandoned : Stage ⟨SessionStatus.joined.intoRelease, .vacant⟩ .cancelled (.dropping .done)

/-- What `set_value` of agent `i` relies on at its next operation. -/
def SetPc.Valid (joint : SessionJoint T P) (outcome : Cell (ℕ × SessionValue T P)) (i : ℕ)
    (v : SessionValue T P) : SetPc → Prop
  | .load | .casEmpty => True
  | .casJoining => joint.status.status ≠ .empty
  | .takeJoiner => joint.status = SessionStatus.value.into ∧
      (∃ joiner, joint.state = .joiner joiner) ∧ outcome = .fired (i, v)
  | .write _ => joint.status = SessionStatus.value.into ∧ outcome = .fired (i, v)
  | .unpark | .store _ => joint = ⟨SessionStatus.value.into, .value v⟩ ∧ outcome = .fired (i, v)
  | .ok _ => outcome = .fired (i, v)
  | .err => outcome ≠ .pending
  | .undefined => False

def Agent.Valid (joint : SessionJoint T P) (outcome : Cell (ℕ × SessionValue T P)) (i : ℕ) :
    Agent T P → Prop
  | .setting call pc => pc.Valid joint outcome i call.value
  | .waking call _ => outcome = .fired (i, call.value)
  | .finished call true answer => outcome = .fired (i, call.value) ∧ answer = call.accept
  | .finished call false answer => outcome ≠ .pending ∧ answer = call.refuse call.value
  | _ => True

/-- A waker that was consumed by its call: it never leaves the count. -/
def Call.consumes : Call T P → Bool
  | .wake _ | .send _ | .setResult _ => true
  | _ => false

def Call.faults : Call T P → Bool
  | .fault => true
  | _ => false

def Agent.call : Agent T P → Option (Call T P)
  | .setting call _ | .waking call _ | .finished call .. => some call
  | _ => none

/-- The agent is in the count of wakers. -/
def Agent.counted : Agent T P → Bool
  | .handle => true
  | agent => agent.call.any Call.consumes

def Agent.faults (agent : Agent T P) : Bool := agent.call.any Call.faults

structure Invariant (c : Config T P) : Prop where
  fresh : ∀ i, c.created ≤ i → c.agents i = .unused
  stage : Stage c.joint c.outcome c.owner
  agents_valid : ∀ i, (c.agents i).Valid c.joint c.outcome i
  wakers_counted : c.wakers = Nat.count (fun i => (c.agents i).counted = true) c.created
  faulted : c.wakers = 0 ↔ ∃ i, (c.agents i).faults = true
  disposed : ∀ pc, c.disposal = some pc → c.owner.over = true ∧ (pc = .load ∨ pc = .done)

theorem initial_invariant : Invariant (initial : Config T P) where
  fresh i hi := by
    have : i ≠ 0 := Nat.ne_of_gt hi
    simp [initial, this]
  stage := .empty rfl
  agents_valid i := by
    by_cases hi : i = 0
    · subst hi
      simp [initial, Agent.Valid]
    · simp [initial, hi, Agent.Valid]
  wakers_counted := by
    rw [show (initial : Config T P).created = 0 + 1 from rfl, Nat.count_succ, Nat.count_zero]
    rfl
  faulted := by
    refine iff_of_false (by simp [initial]) ?_
    rintro ⟨i, hi⟩
    by_cases h0 : i = 0
    · subst h0
      simp [initial, Agent.faults, Agent.call] at hi
    · simp [initial, h0, Agent.faults, Agent.call] at hi
  disposed := by simp [initial]

theorem Stage.settled (h : Stage joint outcome owner) (he : joint.status.status ≠ .empty)
    (hj : joint.status.status ≠ .joining) : outcome ≠ .pending := by
  cases h with
  | empty => exact absurd rfl he
  | entering | entered | waiting => exact absurd rfl hj
  | posting | posted | claimed | taken | abandoned => nofun

theorem Stage.status_of_settled (h : Stage joint outcome owner) (ho : outcome ≠ .pending) :
    joint.status.status ≠ .empty ∧ joint.status.status ≠ .joining := by
  cases h with
  | empty | entering | entered | waiting => exact absurd rfl ho
  | posting | posted | claimed | taken | abandoned => exact ⟨nofun, nofun⟩

/-- The session leaves the empty status for good, its first outcome is final, and only the agent
that has locked the cell changes it. -/
structure Frame (i : ℕ) (joint joint' : SessionJoint T P)
    (outcome outcome' : Cell (ℕ × SessionValue T P)) : Prop where
  nonempty : joint'.status.status = .empty → joint.status.status = .empty
  settled : outcome ≠ .pending → outcome' = outcome
  locked : joint.status = SessionStatus.value.into → joint' = joint ∨ ∃ v, outcome = .fired (i, v)

theorem Frame.refl (i : ℕ) (joint : SessionJoint T P) (outcome) :
    Frame i joint joint outcome outcome :=
  ⟨id, fun _ => rfl, fun _ => Or.inl rfl⟩

theorem SetPc.Valid.frame {pc : SetPc} {i j : ℕ} {v : SessionValue T P}
    (h : pc.Valid joint outcome j v) (hf : Frame i joint joint' outcome outcome') (hij : j ≠ i) :
    pc.Valid joint' outcome' j v := by
  have hfired : outcome = .fired (j, v) → outcome' = .fired (j, v) := by
    intro ho
    rw [hf.settled (by simp [ho]), ho]
  have hlocked : joint.status = SessionStatus.value.into → outcome = .fired (j, v) →
      joint' = joint := by
    intro hs ho
    rcases hf.locked hs with he | ⟨w, hw⟩
    · exact he
    · rw [ho] at hw
      cases hw
      exact absurd rfl hij
  cases pc with
  | load | casEmpty => trivial
  | casJoining => exact fun he => h (hf.nonempty he)
  | takeJoiner => exact hlocked h.1 h.2.2 ▸ ⟨h.1, h.2.1, hfired h.2.2⟩
  | write => exact hlocked h.1 h.2 ▸ ⟨h.1, hfired h.2⟩
  | unpark | store => exact hlocked (by rw [h.1]) h.2 ▸ ⟨h.1, hfired h.2⟩
  | ok => exact hfired h
  | err => exact hf.settled h ▸ h
  | undefined => exact h

theorem Agent.Valid.frame {agent : Agent T P} {i j : ℕ} (h : agent.Valid joint outcome j)
    (hf : Frame i joint joint' outcome outcome') (hij : j ≠ i) :
    agent.Valid joint' outcome' j := by
  have hfired : ∀ v, outcome = .fired (j, v) → outcome' = .fired (j, v) := by
    intro v ho
    rw [hf.settled (by simp [ho]), ho]
  cases agent with
  | setting call pc => exact SetPc.Valid.frame h hf hij
  | waking call => exact hfired _ h
  | finished call accepted =>
    cases accepted with
    | true => exact ⟨hfired _ h.1, h.2⟩
    | false => exact ⟨hf.settled h.1 ▸ h.1, h.2⟩
  | unused | handle | dropped => trivial

theorem Owner.unclaimed_of_unentered (h : owner.unentered = true) : owner.unclaimed = true := by
  unfold Owner.unclaimed
  split <;> first | rfl | exact h

theorem Stage.enter (h : Stage joint outcome .idle) (ho : owner.unentered = true) :
    Stage joint outcome owner := by
  cases h with
  | empty => exact .empty ho
  | posting => exact .posting (Owner.unclaimed_of_unentered ho)
  | posted => exact .posted (Owner.unclaimed_of_unentered ho)
  | claimed hn | taken hn => cases hn

/-- One step of `set_value` by agent `i`. -/
theorem setValue_step {i : ℕ} {v : SessionValue T P} {spurious : Bool} {pc next : SetPc}
    (h : setValue joint v spurious pc = some (joint', next)) (hst : Stage joint outcome owner)
    (hv : pc.Valid joint outcome i v)
    (ho : outcome' = if !pc.claimed && next.claimed then outcome.fire (i, v) else outcome) :
    Stage joint' outcome' owner ∧ next.Valid joint' outcome' i v ∧
      Frame i joint joint' outcome outcome' := by
  cases pc with
  | load =>
    simp only [setValue] at h
    split at h <;> cases h <;> subst ho
    · exact ⟨hst, trivial, .refl ..⟩
    next hs => exact ⟨hst, by simp [SetPc.Valid, hs], .refl ..⟩
    next he hj => exact ⟨hst, hst.settled (fun h => he h) (fun h => hj h), .refl ..⟩
  | casEmpty =>
    simp only [setValue] at h
    split at h
    next hs =>
      cases h
      cases hst <;> cases hs
      next hu =>
        subst ho
        exact ⟨.posting (Owner.unclaimed_of_unentered hu), ⟨rfl, rfl⟩, nofun, fun h => absurd rfl h,
          nofun⟩
    next hn =>
      split at h <;> cases h <;> subst ho
      next hs => exact ⟨hst, by simp [SetPc.Valid, hs], .refl ..⟩
      next hj =>
        refine ⟨hst, hst.settled ?_ hj, .refl ..⟩
        intro he
        cases hst <;> first | exact hn rfl | cases he
  | casJoining =>
    simp only [setValue] at h
    split at h
    next hs =>
      obtain ⟨_, hs⟩ := hs
      cases h
      cases hst <;> cases hs
      subst ho
      exact ⟨.posting rfl, ⟨rfl, ⟨_, rfl⟩, rfl⟩, nofun, fun h => absurd rfl h, nofun⟩
    next =>
      split at h <;> cases h <;> subst ho
      next hj => exact ⟨hst, hst.settled hv hj, .refl ..⟩
      next => exact ⟨hst, hv, .refl ..⟩
  | takeJoiner =>
    obtain ⟨hs, ⟨joiner, hj⟩, hf⟩ := hv
    simp only [setValue, hj, Option.some.injEq, Prod.mk.injEq] at h
    obtain ⟨rfl, rfl⟩ := h
    subst ho hf
    cases hst <;> cases hs
    next hu => exact ⟨.posting hu, ⟨rfl, rfl⟩, nofun, fun _ => rfl, fun _ => Or.inr ⟨v, rfl⟩⟩
  | write joiner =>
    obtain ⟨hs, hf⟩ := hv
    subst hf
    cases hst <;> cases hs
    next hu =>
      rcases joiner with _ | ⟨coroutine⟩ | _ <;> cases h <;> subst ho <;>
        exact ⟨.posting hu, ⟨rfl, rfl⟩, nofun, fun _ => rfl, fun _ => Or.inr ⟨v, rfl⟩⟩
  | unpark =>
    cases h
    subst ho
    exact ⟨hst, hv, .refl ..⟩
  | store task =>
    obtain ⟨rfl, rfl⟩ := hv
    cases h
    subst ho
    cases hst with
    | posting hu => exact ⟨.posted hu, rfl, nofun, fun _ => rfl, fun _ => Or.inr ⟨v, rfl⟩⟩
  | ok | err | undefined => cases h

/-- One step of `join_value`. -/
theorem joinValue_step {join : Join} {spurious : Bool} {pc next : JoinPc T P}
    (h : joinValue joint join.joiner spurious pc = some (joint', next))
    (hst : Stage joint outcome (.joining join pc)) :
    Stage joint' outcome (.joining join next) ∧ ∀ i, Frame i joint joint' outcome outcome := by
  cases pc with
  | load =>
    cases hst with
    | empty => cases h; exact ⟨.empty rfl, fun _ => .refl ..⟩
    | posting => cases h; exact ⟨.posting rfl, fun _ => .refl ..⟩
    | posted => cases h; exact ⟨.posted rfl, fun _ => .refl ..⟩
    | claimed hn | taken hn => cases hn
  | casEmpty =>
    cases hst with
    | empty => cases h; exact ⟨.entering, fun _ => ⟨nofun, fun _ => rfl, nofun⟩⟩
    | posting => cases h; exact ⟨.posting rfl, fun _ => .refl ..⟩
    | posted => cases h; exact ⟨.posted rfl, fun _ => .refl ..⟩
    | claimed hn | taken hn => cases hn
  | writeJoiner =>
    cases hst with
    | entering => cases h; exact ⟨.entered, fun _ => ⟨nofun, fun _ => rfl, nofun⟩⟩
    | empty hn | posting hn | posted hn | claimed hn | taken hn => cases hn
  | store =>
    cases hst with
    | entered => cases h; exact ⟨.waiting, fun _ => ⟨nofun, fun _ => rfl, nofun⟩⟩
    | empty hn | posting hn | posted hn | claimed hn | taken hn => cases hn
  | waiting =>
    cases hst with
    | waiting => cases h; exact ⟨.waiting, fun _ => .refl ..⟩
    | posting => cases h; exact ⟨.posting rfl, fun _ => .refl ..⟩
    | posted => cases h; exact ⟨.posted rfl, fun _ => .refl ..⟩
    | empty hn | claimed hn | taken hn => cases hn
  | claim =>
    cases hst with
    | posting =>
      simp only [joinValue] at h
      split at h
      next hs => cases hs.2
      next => cases h; exact ⟨.posting rfl, fun _ => .refl ..⟩
    | posted =>
      simp only [joinValue] at h
      split at h
      next => cases h; exact ⟨.claimed rfl, fun _ => ⟨nofun, fun _ => rfl, nofun⟩⟩
      next => cases h; exact ⟨.posted rfl, fun _ => .refl ..⟩
    | empty hn | claimed hn | taken hn => cases hn
  | take =>
    cases hst with
    | claimed => cases h; exact ⟨.taken rfl, fun _ => ⟨nofun, fun _ => rfl, nofun⟩⟩
    | empty hn | posting hn | posted hn | taken hn => cases hn
  | returned | unreachable | undefined => cases h

/-- One step of `drop_value` by the owner. -/
theorem dropValue_step {spurious : Bool} {pc next : DropPc}
    (h : dropValue joint spurious pc = some (joint', next))
    (hst : Stage joint outcome (.dropping pc))
    (ho : outcome' = if pc = .casEmpty ∧ joint.status = SessionStatus.empty.into then
      outcome.cancel else outcome) :
    Stage joint' outcome' (.dropping next) ∧ ∀ i, Frame i joint joint' outcome outcome' := by
  cases pc with
  | load =>
    cases hst with
    | empty => cases h; subst ho; exact ⟨.empty rfl, fun _ => .refl ..⟩
    | posting => cases h; subst ho; exact ⟨.posting rfl, fun _ => .refl ..⟩
    | posted => cases h; subst ho; exact ⟨.posted rfl, fun _ => .refl ..⟩
    | claimed hn | taken hn => cases hn
  | casEmpty =>
    cases hst with
    | empty =>
      cases h; subst ho
      exact ⟨.abandoned, fun _ => ⟨nofun, fun h => absurd rfl h, nofun⟩⟩
    | posting => cases h; subst ho; exact ⟨.posting rfl, fun _ => .refl ..⟩
    | posted => cases h; subst ho; exact ⟨.posted rfl, fun _ => .refl ..⟩
    | claimed hn | taken hn => cases hn
  | claim =>
    simp only [reduceCtorEq, false_and, if_false] at ho
    subst ho
    cases hst with
    | posting =>
      simp only [dropValue] at h
      split at h
      next hs => cases hs.2
      next => cases h; exact ⟨.posting rfl, fun _ => .refl ..⟩
    | posted =>
      simp only [dropValue] at h
      split at h
      next => cases h; exact ⟨.claimed rfl, fun _ => ⟨nofun, fun _ => rfl, nofun⟩⟩
      next => cases h; exact ⟨.posted rfl, fun _ => .refl ..⟩
    | taken =>
      simp only [dropValue] at h
      split at h
      next hs => cases hs.2
      next => cases h; exact ⟨.taken trivial, fun _ => .refl ..⟩
    | empty hn | claimed hn => cases hn
  | take =>
    simp only [reduceCtorEq, false_and, if_false] at ho
    subst ho
    cases hst with
    | claimed => cases h; exact ⟨.taken trivial, fun _ => ⟨nofun, fun _ => rfl, nofun⟩⟩
    | empty hn | posting hn | posted hn | taken hn => cases hn
  | done | undefined => cases h

theorem Owner.claimed_of_over (h : owner.over = true) :
    owner.unentered = false ∧ owner.unclaimed = false ∧ owner.taking = false := by
  cases owner with
  | idle | joining => cases h
  | finished => exact ⟨rfl, rfl, rfl⟩
  | dropping pc => cases pc <;> first | exact ⟨rfl, rfl, rfl⟩ | cases h

/-- Once the owner is done the session is joined. -/
theorem Stage.joined_of_over (h : Stage joint outcome owner) (ho : owner.over = true) :
    joint.status.status = .joined := by
  obtain ⟨he, hc, ht⟩ := Owner.claimed_of_over ho
  cases h with
  | empty hu => simp [he] at hu
  | posting hu | posted hu => simp [hc] at hu
  | claimed hu => simp [ht] at hu
  | entering | entered | waiting => cases ho
  | taken | abandoned => rfl

/-- The last `drop_value` finds the session joined and leaves it. -/
theorem dropValue_joined {spurious : Bool} {pc next : DropPc}
    (h : dropValue joint spurious pc = some (joint', next))
    (hj : joint.status.status = .joined) (hp : pc = .load ∨ pc = .done) :
    joint' = joint ∧ next = .done := by
  rcases hp with rfl | rfl
  · simp [dropValue, hj, SessionStatus.afterDrop] at h
    exact ⟨h.1.symm, h.2.symm⟩
  · cases h

theorem Invariant.lt_created (h : Invariant c) {i : ℕ} (hi : c.agents i ≠ .unused) :
    i < c.created := by
  by_contra hn
  exact hi (h.fresh i (Nat.le_of_not_lt hn))

/-- An agent moves on in its call. -/
theorem Invariant.setAgent (h : Invariant c) {i : ℕ} {agent : Agent T P} (hi : i < c.created)
    (hd : d = { c with joint := joint', outcome := outcome' }.setAgent i agent)
    (hst : Stage joint' outcome' c.owner) (hv : agent.Valid joint' outcome' i)
    (hf : Frame i c.joint joint' c.outcome outcome')
    (hc : agent.counted = (c.agents i).counted) (hw : agent.faults = (c.agents i).faults) :
    Invariant d := by
  subst hd
  exact
  { fresh := fun j hj => by
      have hji : j ≠ i := by rintro rfl; exact absurd hi (Nat.not_lt_of_le hj)
      simpa [Config.setAgent, hji] using h.fresh j hj
    stage := hst
    agents_valid := fun j => by
      by_cases hji : j = i
      · subst hji
        simpa [Config.setAgent] using hv
      · simpa [Config.setAgent, hji] using (h.agents_valid j).frame hf hji
    wakers_counted := by
      have := Census.count_update_same (p := fun a : Agent T P => a.counted = true) c.agents
        (i := i) (n := c.created) (a := agent) (by rw [hc])
      exact h.wakers_counted.trans this.symm
    faulted := by
      refine h.faulted.trans ⟨fun ⟨j, hj⟩ => ⟨j, ?_⟩, fun ⟨j, hj⟩ => ⟨j, ?_⟩⟩
      · by_cases hji : j = i
        · subst hji; simpa [Config.setAgent, hw] using hj
        · simpa [Config.setAgent, hji] using hj
      · by_cases hji : j = i
        · subst hji; simpa [Config.setAgent, hw] using hj
        · simpa [Config.setAgent, hji] using hj
    disposed := h.disposed }

/-- The agent's `set_value` is over or has not begun, so the session stays. -/
theorem Invariant.moveAgent (h : Invariant c) {i : ℕ} {agent : Agent T P} (hi : i < c.created)
    (hv : agent.Valid c.joint c.outcome i) (hc : agent.counted = (c.agents i).counted)
    (hw : agent.faults = (c.agents i).faults) : Invariant (c.setAgent i agent) :=
  h.setAgent hi rfl h.stage hv (.refl ..) hc hw

theorem Invariant.advance (h : Invariant c) {i : ℕ} {spurious : Bool}
    (hs : c.advance i spurious = some d) : Invariant d := by
  have hv := h.agents_valid i
  have hi : c.agents i ≠ .unused → i < c.created := h.lt_created
  unfold Config.advance at hs
  split at hs
  next call task ha =>
    rw [ha] at hi hv
    split at hs <;> cases hs
    · exact h.moveAgent (hi nofun) ⟨hv, rfl⟩ (by rw [ha]; rfl) (by rw [ha]; rfl)
    · exact h.moveAgent (hi nofun) ⟨hv, rfl⟩ (by rw [ha]; rfl) (by rw [ha]; rfl)
    · exact h.moveAgent (hi nofun) hv (by rw [ha]; rfl) (by rw [ha]; rfl)
  next call ha =>
    rw [ha] at hi hv
    cases hs
    exact h.moveAgent (hi nofun) ⟨hv, rfl⟩ (by rw [ha]; rfl) (by rw [ha]; rfl)
  next call pc _ _ ha =>
    rw [ha] at hi hv
    obtain ⟨⟨joint, next⟩, hset, rfl⟩ := Option.map_eq_some_iff.mp hs
    obtain ⟨hst, hn, hf⟩ := setValue_step hset h.stage hv rfl
    exact h.setAgent (hi nofun) rfl hst hn hf (by rw [ha]; rfl) (by rw [ha]; rfl)
  next call task ha =>
    rw [ha] at hi hv
    cases hs
    exact h.moveAgent (hi nofun) ⟨hv, rfl⟩ (by rw [ha]; rfl) (by rw [ha]; rfl)
  next => cases hs

/-- Agents come and go only as handles, dropped handles and interrupts. -/
theorem Invariant.addAgent (h : Invariant c) (agent : Agent T P)
    (hv : ∀ joint outcome, agent.Valid joint outcome c.created) (hw : agent.faults = false)
    {wakers : ℕ} (hc : wakers = c.wakers + if agent.counted then 1 else 0)
    (hz : wakers = 0 ↔ c.wakers = 0) : Invariant ({ c with wakers := wakers }.addAgent agent) where
  fresh j hj := by
    have hj : c.created + 1 ≤ j := hj
    have hn : j ≠ c.created := by omega
    simpa [Config.addAgent, hn] using h.fresh j (by omega)
  stage := h.stage
  agents_valid j := by
    by_cases hn : j = c.created
    · subst hn
      simpa [Config.addAgent] using hv c.joint c.outcome
    · simpa [Config.addAgent, hn] using h.agents_valid j
  wakers_counted := by
    have := Census.count_update_succ (p := fun a : Agent T P => a.counted = true) c.agents
      c.created agent
    rw [← h.wakers_counted] at this
    exact hc.trans this.symm
  faulted := by
    refine (hz.trans h.faulted).trans ⟨fun ⟨j, hj⟩ => ⟨j, ?_⟩, fun ⟨j, hj⟩ => ⟨j, ?_⟩⟩
    · have hn : j ≠ c.created := by
        rintro rfl
        rw [h.fresh _ (Nat.le_refl _)] at hj
        cases hj
      simpa [Config.addAgent, hn] using hj
    · by_cases hn : j = c.created
      · subst hn
        simp [Config.addAgent, hw] at hj
      · simpa [Config.addAgent, hn] using hj
  disposed := h.disposed

theorem Invariant.wakers_pos (h : Invariant c) {i : ℕ} (hi : c.agents i = .handle) :
    0 < c.wakers := by
  rw [h.wakers_counted, Census.count_pos_iff]
  exact ⟨i, h.lt_created (by rw [hi]; nofun), by rw [hi]; rfl⟩

theorem Invariant.dropWaker (h : Invariant c) {i : ℕ} (hi : c.agents i = .handle) :
    Invariant (c.dropWaker i) := by
  have hpos := h.wakers_pos hi
  have hlt : i < c.created := h.lt_created (by rw [hi]; nofun)
  -- the last handle turns into the agent of the fault
  obtain ⟨agent, ha⟩ : ∃ agent, agent =
    if c.wakers = 1 then Agent.setting (Call.fault (T := T) (P := P)) .load else .dropped := ⟨_, rfl⟩
  have hv : ∀ joint outcome, agent.Valid joint outcome i := by
    intro joint outcome
    rw [ha]
    split <;> trivial
  have hn : agent.counted = false := by
    rw [ha]
    split <;> rfl
  have hf : agent.faults = true ↔ c.wakers = 1 := by
    rw [ha]
    split <;> simp_all [Agent.faults, Agent.call, Call.faults]
  have he : c.dropWaker i = { c with wakers := c.wakers - 1 }.setAgent i agent := by
    rw [ha]
    rfl
  rw [he]
  refine ⟨fun j hj => ?_, h.stage, fun j => ?_, ?_, ?_, h.disposed⟩
  · have hji : j ≠ i := by rintro rfl; exact absurd hlt (Nat.not_lt_of_le hj)
    simpa [Config.setAgent, hji] using h.fresh j hj
  · by_cases hji : j = i
    · subst hji
      simpa [Config.setAgent] using hv c.joint c.outcome
    · simpa [Config.setAgent, hji] using h.agents_valid j
  · have := Census.count_update (p := fun a : Agent T P => a.counted = true) c.agents hlt agent
    rw [← h.wakers_counted, hn, hi] at this
    exact Nat.sub_eq_of_eq_add (show _ + 1 = c.wakers from this).symm
  · have hnone : ¬ ∃ j, (c.agents j).faults = true := fun hj => by
      have := h.faulted.mpr hj
      omega
    simp only [Config.setAgent]
    constructor
    · intro hz
      exact ⟨i, by simpa using hf.mpr (by omega)⟩
    · rintro ⟨j, hj⟩
      by_cases hji : j = i
      · subst hji
        have := hf.mp (by simpa using hj)
        omega
      · exact absurd ⟨j, by simpa [hji] using hj⟩ hnone

/-- The owner moves on. -/
theorem Invariant.setOwner (h : Invariant c) (hst : Stage joint' outcome' owner)
    (hf : ∀ i, Frame i c.joint joint' c.outcome outcome') (ho : c.owner.over = true → owner.over = true) :
    Invariant { c with joint := joint', outcome := outcome', owner := owner } where
  fresh := h.fresh
  stage := hst
  agents_valid j := (h.agents_valid j).frame (hf (j + 1)) (by omega)
  wakers_counted := h.wakers_counted
  faulted := h.faulted
  disposed pc hpc := ⟨ho (h.disposed pc hpc).1, (h.disposed pc hpc).2⟩

theorem Invariant.stepOwner (h : Invariant c) {spurious : Bool}
    (hs : c.stepOwner spurious = some d) : Invariant d := by
  have hst := h.stage
  unfold Config.stepOwner at hs
  split at hs
  next join v ho =>
    cases hs
    rw [ho] at hst
    refine h.setOwner ?_ (fun _ => .refl ..)
      fun _ => rfl
    generalize c.joint = joint, c.outcome = outcome at hst ⊢
    cases hst with
    | taken hv => cases hv; exact .taken rfl
    | empty hn | posting hn | posted hn | claimed hn => cases hn
  next join pc _ ho =>
    rw [ho] at hst
    obtain ⟨⟨joint, next⟩, hjoin, rfl⟩ := Option.map_eq_some_iff.mp hs
    obtain ⟨hst, hf⟩ := joinValue_step hjoin hst
    exact h.setOwner hst hf (by rw [ho]; nofun)
  next pc ho =>
    rw [ho] at hst
    obtain ⟨⟨e, next⟩, he, rfl⟩ := Option.map_eq_some_iff.mp hs
    obtain ⟨⟨joint, next⟩, hdrop, he⟩ := Option.map_eq_some_iff.mp he
    cases he
    obtain ⟨hst, hf⟩ := dropValue_step hdrop hst rfl
    refine h.setOwner hst hf ?_
    rw [ho]
    intro hover
    have hdone : pc = .done := by simpa [Owner.over] using hover
    subst hdone
    cases hdrop
  next => cases hs

theorem step_preserves_invariant {e : Event T P} (h : Invariant c) (hs : c.step e = some d) :
    Invariant d := by
  cases e with
  | clone i =>
    simp only [Config.step] at hs
    split at hs
    next hi =>
      cases hs
      have := h.wakers_pos hi
      exact h.addAgent .handle (fun _ _ => trivial) rfl rfl (by omega)
    next => cases hs
  | call i call =>
    have hi : c.agents i = .handle → i < c.created := fun hi => h.lt_created (by rw [hi]; nofun)
    simp only [Config.step] at hs
    split at hs
    next ha =>
      cases hs; exact h.moveAgent (hi ha) trivial (by rw [ha]; rfl) (by rw [ha]; rfl)
    next ha =>
      cases hs; exact h.moveAgent (hi ha) trivial (by rw [ha]; rfl) (by rw [ha]; rfl)
    next ha =>
      cases hs; exact h.moveAgent (hi ha) trivial (by rw [ha]; rfl) (by rw [ha]; rfl)
    next => cases hs
  | drop i =>
    simp only [Config.step] at hs
    split at hs
    next hi => cases hs; exact h.dropWaker hi
    next => cases hs
  | interrupt reason =>
    simp only [Config.step] at hs
    split at hs
    · cases hs
      exact h.addAgent (.setting (.interrupt reason) .load) (fun _ _ => trivial) rfl rfl Iff.rfl
    · cases hs
  | advance i spurious => exact h.advance hs
  | join join =>
    simp only [Config.step] at hs
    split at hs
    next ho =>
      cases hs
      exact h.setOwner ((ho ▸ h.stage).enter rfl) (fun _ => .refl ..) (by rw [ho]; nofun)
    next => cases hs
  | abandon =>
    simp only [Config.step] at hs
    split at hs
    next ho =>
      cases hs
      exact h.setOwner ((ho ▸ h.stage).enter rfl) (fun _ => .refl ..) (by rw [ho]; nofun)
    next => cases hs
  | owner spurious => exact h.stepOwner hs
  | dispose spurious =>
    simp only [Config.step] at hs
    split at hs
    next hd =>
      split at hs
      next ho =>
        cases hs
        refine ⟨h.fresh, h.stage, h.agents_valid, h.wakers_counted, h.faulted, ?_⟩
        rintro pc ⟨⟩
        exact ⟨(Bool.and_eq_true_iff.mp ho).1, Or.inl rfl⟩
      next => cases hs
    next pc hd =>
      obtain ⟨ho, hp⟩ := h.disposed pc hd
      obtain ⟨⟨e, next⟩, he, rfl⟩ := Option.map_eq_some_iff.mp hs
      obtain ⟨⟨joint, next⟩, hdrop, he⟩ := Option.map_eq_some_iff.mp he
      cases he
      obtain ⟨rfl, rfl⟩ := dropValue_joined hdrop (h.stage.joined_of_over ho) hp
      have hne : ¬ (pc = .casEmpty ∧ c.joint.status = SessionStatus.empty.into) := by
        rintro ⟨rfl, _⟩
        rcases hp with hp | hp <;> cases hp
      simp only [hne, if_false]
      refine ⟨h.fresh, h.stage, h.agents_valid, h.wakers_counted, h.faulted, ?_⟩
      rintro pc ⟨⟩
      exact ⟨ho, Or.inr rfl⟩

theorem reachable_invariant (h : Reachable (system T P) c) : Invariant c :=
  Reachable.invariant (I := Invariant) initial_invariant
    (fun _ _ _ hi hs => step_preserves_invariant hi hs) h


end Session
