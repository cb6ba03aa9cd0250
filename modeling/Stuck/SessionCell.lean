import Stuck.SessionInvariant

/-! The cell of a session (src/task/session.rs): who reads and writes the union, under which status,
and what becomes of a value that is written. -/
namespace Session

open TransitionSystem OneShot SharedTypes

variable {T P : Type*} {c d : Config T P}

/-- Those that access the cell: an agent in its `set_value`, the owner, and the `drop_value` of the
last `Arc`. -/
inductive Party where
  | agent (i : ℕ)
  | owner
  | disposal
  deriving DecidableEq, Repr

inductive Access where
  | readJoiner
  | writeJoiner
  | readValue
  | writeValue
  deriving DecidableEq, Repr

/-- The access to the cell that is the next operation of the party. -/
def Config.next (c : Config T P) : Party → Option Access
  | .agent i =>
    match c.agents i with
    | .setting _ .takeJoiner => some .readJoiner
    | .setting _ (.write _) => some .writeValue
    | _ => none
  | .owner =>
    match c.owner with
    | .joining _ .writeJoiner => some .writeJoiner
    | .joining _ .take | .dropping .take => some .readValue
    | _ => none
  | .disposal =>
    match c.disposal with
    | some .take => some .readValue
    | _ => none

/-- The party has acquired the cell by a status change and not released it. -/
def Config.inside (c : Config T P) : Party → Bool
  | .agent i =>
    match c.agents i with
    | .setting _ .takeJoiner | .setting _ (.write _) | .setting _ .unpark | .setting _ (.store _) =>
      true
    | _ => false
  | .owner =>
    match c.owner with
    | .joining _ .writeJoiner | .joining _ .store | .joining _ .take | .dropping .take => true
    | _ => false
  | .disposal => c.disposal == some .take

/-- A session with a record of the joiners released by a status change, and of the values written
to the cell and taken out of it. No operation reads the record. -/
structure Ledger (T P : Type*) where
  config : Config T P
  released : List SessionJoiner
  written : List (SessionValue T P)
  taken : List (SessionValue T P)

def Config.releases (c : Config T P) : Event T P → List SessionJoiner
  | .owner _ =>
    match c.owner with
    | .joining join .store => [join.joiner]
    | _ => []
  | _ => []

def Config.writes (c : Config T P) : Event T P → List (SessionValue T P)
  | .advance i _ =>
    match c.agents i with
    | .setting call (.write _) => [call.value]
    | _ => []
  | _ => []

def Slot.values : Slot T P → List (SessionValue T P)
  | .value v => [v]
  | _ => []

def Config.takes (c : Config T P) : Event T P → List (SessionValue T P)
  | .owner _ => if c.next .owner = some .readValue then c.joint.state.values else []
  | .dispose _ => if c.next .disposal = some .readValue then c.joint.state.values else []
  | _ => []

def Ledger.step (l : Ledger T P) (e : Event T P) : Option (Ledger T P) :=
  (l.config.step e).map fun d =>
    ⟨d, l.released ++ l.config.releases e, l.written ++ l.config.writes e,
      l.taken ++ l.config.takes e⟩

def ledger (T P : Type*) : System (Ledger T P) (Event T P) where
  init := ⟨initial, [], [], []⟩
  step := Ledger.step

/-- The agent has won the session and not written its value. -/
def Agent.beforeWrite : Agent T P → Bool
  | .setting _ .takeJoiner | .setting _ (.write _) => true
  | _ => false

/-- The cell and the record: at most one value is written, it is in the cell until it is taken, and
a joiner in the cell belongs to an owner that waits or is about to. -/
structure Kept (c : Config T P) (released : List SessionJoiner)
    (written taken : List (SessionValue T P)) : Prop where
  pending : c.outcome = .pending → written = []
  unwritten : ∀ i, (c.agents i).beforeWrite = true → written = []
  joiner : ∀ j, c.joint.state = .joiner j → ∃ join pc, c.owner = .joining join pc ∧
    join.joiner = j ∧ (pc = .store ∨ (pc = .waiting ∨ pc = .claim) ∧ j ∈ released)
  held : ∀ v, c.joint.state = .value v → written = [v] ∧ taken = []
  settled : c.joint.state.values = [] → taken = written ∧ written.length ≤ 1

variable {r : List SessionJoiner} {w t : List (SessionValue T P)} {i : ℕ}

/-- The cell and the owner stay as they are, and nobody wins the session. -/
theorem Kept.keep (h : Kept c r w t) (hj : d.joint.state = c.joint.state)
    (ho : d.outcome = .pending → c.outcome = .pending) (hw : d.owner = c.owner)
    (ha : ∀ i, (d.agents i).beforeWrite = true → (c.agents i).beforeWrite = true) :
    Kept d r w t where
  pending hp := h.pending (ho hp)
  unwritten i hi := h.unwritten i (ha i hi)
  joiner j hs := hw ▸ h.joiner j (hj ▸ hs)
  held v hs := h.held v (hj ▸ hs)
  settled hs := h.settled (hj ▸ hs)

theorem beforeWrite_setAgent {agent : Agent T P} {j : ℕ}
    (h : ((c.setAgent i agent).agents j).beforeWrite = true) :
    j ≠ i ∧ (c.agents j).beforeWrite = true ∨ agent.beforeWrite = true := by
  by_cases hji : j = i
  · subst hji
    exact Or.inr (by simpa [Config.setAgent] using h)
  · exact Or.inl ⟨hji, by simpa [Config.setAgent, hji] using h⟩

theorem Kept.setAgent (h : Kept c r w t) {agent : Agent T P} (ha : agent.beforeWrite = false) :
    Kept (c.setAgent i agent) r w t := by
  refine h.keep rfl id rfl fun j hj => ?_
  rcases beforeWrite_setAgent hj with ⟨_, hj⟩ | hj
  · exact hj
  · rw [ha] at hj
    cases hj

theorem Kept.addAgent (h : Kept c r w t) {agent : Agent T P} (ha : agent.beforeWrite = false) :
    Kept (c.addAgent agent) r w t :=
  (h.setAgent (i := c.created) ha).keep rfl id rfl fun _ => id

/-- The winner is alone between its exchange and its write. -/
theorem Invariant.beforeWrite_unique (h : Invariant c) {j : ℕ}
    (hi : (c.agents i).beforeWrite = true) (hj : (c.agents j).beforeWrite = true) : i = j := by
  have hfired : ∀ k, (c.agents k).beforeWrite = true → ∃ v, c.outcome = .fired (k, v) := by
    intro k hk
    have hv := h.agents_valid k
    cases ha : c.agents k with
    | setting call pc =>
      rw [ha] at hk hv
      cases pc with
      | takeJoiner => exact ⟨_, hv.2.2⟩
      | write => exact ⟨_, hv.2⟩
      | _ => cases hk
    | _ =>
      rw [ha] at hk
      cases hk
  obtain ⟨v, hv⟩ := hfired i hi
  obtain ⟨u, hu⟩ := hfired j hj
  rw [hv] at hu
  cases hu
  rfl

variable {joint : SessionJoint T P} {outcome : Cell (ℕ × SessionValue T P)} {agent : Agent T P}

/-- The agent moves on in a cell that stays as it is. -/
theorem Kept.advanced (h : Kept c r w t) (hj : joint.state = c.joint.state)
    (ho : outcome = .pending → c.outcome = .pending)
    (ha : agent.beforeWrite = true → c.outcome = .pending) :
    Kept ({ c with joint := joint, outcome := outcome }.setAgent i agent) r w t where
  pending hp := h.pending (ho hp)
  unwritten j hb := by
    rcases beforeWrite_setAgent hb with ⟨_, hb⟩ | hb
    · exact h.unwritten j hb
    · exact h.pending (ha hb)
  joiner j hs := h.joiner j (hj ▸ hs)
  held v hs := h.held v (hj ▸ hs)
  settled hs := h.settled (hj ▸ hs)

theorem Kept.advanced_late (h : Kept c r w t) (hj : joint.state = c.joint.state)
    (ho : outcome = .pending → c.outcome = .pending) (hb : agent.beforeWrite = false) :
    Kept ({ c with joint := joint, outcome := outcome }.setAgent i agent) r w t :=
  h.advanced hj ho fun ha => by rw [hb] at ha; cases ha

/-- The winner writes its value. -/
theorem Kept.wrote (h : Kept c r w t) (hi : Invariant c) {call : Call T P} {joiner : Option SessionJoiner}
    {next : SetPc} (ha : c.agents i = .setting call (.write joiner))
    (hj : joint.state = .value call.value)
    (hn : (Agent.setting call next : Agent T P).beforeWrite = false)
    (ho : outcome = .fired (i, call.value)) :
    Kept ({ c with joint := joint, outcome := outcome }.setAgent i (.setting call next)) r
      [call.value] t := by
  have hbefore : (c.agents i).beforeWrite = true := by
    rw [ha]
    rfl
  have hw := h.unwritten i hbefore
  have hnot : c.joint.state.values = [] := by
    cases hstate : c.joint.state with
    | value v =>
      have := (h.held v hstate).1
      rw [hw] at this
      cases this
    | vacant | joiner => rfl
  have htaken : t = [] := (h.settled hnot).1.trans hw
  refine ⟨fun hp => ?_, fun j hb => ?_, fun j hst => ?_, fun v hst => ?_, fun hst => ?_⟩
  · have := ho.symm.trans hp
    cases this
  · rcases beforeWrite_setAgent hb with ⟨hji, hb⟩ | hb
    · exact absurd (hi.beforeWrite_unique hb hbefore) hji
    · rw [hn] at hb
      cases hb
  · have := hj.symm.trans hst
    cases this
  · have := hj.symm.trans hst
    cases this
    exact ⟨rfl, htaken⟩
  · have := (congrArg Slot.values hj).symm.trans hst
    cases this

/-- One step of the `set_value` of agent `i`. -/
theorem Kept.set (h : Kept c r w t) (hi : Invariant c) {call : Call T P} {pc next : SetPc}
    {spurious : Bool} (ha : c.agents i = .setting call pc)
    (hs : setValue c.joint call.value spurious pc = some (joint, next))
    (ho : outcome = if !pc.claimed && next.claimed then c.outcome.fire (i, call.value)
      else c.outcome) :
    Kept ({ c with joint := joint, outcome := outcome }.setAgent i (.setting call next)) r
      (w ++ c.writes (.advance i spurious)) t := by
  have hv := hi.agents_valid i
  have hst := hi.stage
  rw [ha] at hv
  have hbefore : (Agent.setting call pc : Agent T P).beforeWrite = true → w = [] := fun hb =>
    h.unwritten i (by rw [ha]; exact hb)
  have hnone : (∀ joiner, pc ≠ .write joiner) → w ++ c.writes (.advance i spurious) = w := by
    intro hn
    simp only [Config.writes, ha]
    split
    next joiner he => exact absurd (by injection he) (hn joiner)
    next => exact List.append_nil w
  cases pc with
  | load =>
    rw [hnone (by simp)]
    simp only [setValue] at hs
    split at hs <;> cases hs <;> subst ho <;> exact h.advanced_late rfl id rfl
  | casEmpty =>
    rw [hnone (by simp)]
    simp only [setValue] at hs
    split at hs
    next hempty =>
      cases hs
      have hp : c.outcome = .pending := by
        by_contra hn
        exact (hst.status_of_settled hn).1 (by rw [hempty]; rfl)
      exact h.advanced rfl (fun _ => hp) fun _ => hp
    next => split at hs <;> cases hs <;> subst ho <;> exact h.advanced_late rfl id rfl
  | casJoining =>
    rw [hnone (by simp)]
    simp only [setValue] at hs
    split at hs
    next hjoining =>
      cases hs
      have hp : c.outcome = .pending := by
        by_contra hn
        exact (hst.status_of_settled hn).2 (by rw [hjoining.2]; rfl)
      exact h.advanced rfl (fun _ => hp) fun _ => hp
    next => split at hs <;> cases hs <;> subst ho <;> exact h.advanced_late rfl id rfl
  | takeJoiner =>
    rw [hnone (by simp)]
    obtain ⟨_, ⟨joiner, hj⟩, hf⟩ := hv
    have hw := hbefore rfl
    simp only [setValue, hj, Option.some.injEq, Prod.mk.injEq] at hs
    obtain ⟨rfl, rfl⟩ := hs
    have hc := h.settled (by rw [hj]; rfl)
    refine ⟨fun _ => hw, fun _ _ => hw, fun j hs => ?_, fun v hs => ?_, fun _ => hc⟩
    · cases hs
    · cases hs
  | write joiner =>
    have hwrites : w ++ c.writes (.advance i spurious) = [call.value] := by
      simp only [Config.writes, ha, hbefore rfl, List.nil_append]
    have hoc : outcome = .fired (i, call.value) := by
      rw [ho, hv.2]
      rfl
    rw [hwrites]
    rcases joiner with _ | ⟨coroutine⟩ | _ <;> cases hs <;> exact h.wrote hi ha rfl rfl hoc
  | unpark =>
    rw [hnone (by simp)]
    cases hs
    subst ho
    exact h.advanced_late rfl id rfl
  | store task =>
    rw [hnone (by simp)]
    cases hs
    subst ho
    exact h.advanced_late rfl id rfl
  | ok | err | undefined => cases hs

variable {owner : Owner T P} {r' : List SessionJoiner}

/-- The owner moves on in a cell that stays as it is. -/
theorem Kept.moved (h : Kept c r w t) (hj : joint.state = c.joint.state)
    (ho : outcome = .pending → c.outcome = .pending)
    (hjoiner : ∀ j, c.joint.state = .joiner j → ∃ join pc, owner = .joining join pc ∧
      join.joiner = j ∧ (pc = .store ∨ (pc = .waiting ∨ pc = .claim) ∧ j ∈ r')) :
    Kept { c with joint := joint, outcome := outcome, owner := owner } r' w t where
  pending hp := h.pending (ho hp)
  unwritten := h.unwritten
  joiner j hs := hjoiner j (hj ▸ hs)
  held v hs := h.held v (hj ▸ hs)
  settled hs := h.settled (hj ▸ hs)

/-- The owner takes the value. -/
theorem Kept.took (h : Kept c r w t) {v : SessionValue T P} (hv : c.joint.state = .value v)
    (hj : joint.state = .vacant) :
    Kept { c with joint := joint, owner := owner } r w (t ++ c.joint.state.values) where
  pending := h.pending
  unwritten := h.unwritten
  joiner j hs := by
    rw [show _ = Slot.vacant from hj] at hs
    cases hs
  held v hs := by
    rw [show _ = Slot.vacant from hj] at hs
    cases hs
  settled _ := by
    obtain ⟨hw, ht⟩ := h.held v hv
    rw [hv, ht, hw]
    exact ⟨rfl, Nat.le_refl _⟩

/-- One step of `join_value`. -/
theorem Kept.join (h : Kept c r w t) (hi : Invariant c) {join : Join} {pc next : JoinPc T P}
    {spurious : Bool} (ha : c.owner = .joining join pc)
    (hs : joinValue c.joint join.joiner spurious pc = some (joint, next)) :
    Kept { c with joint := joint, owner := .joining join next }
      (r ++ c.releases (.owner spurious)) w (t ++ c.takes (.owner spurious)) := by
  have hst := hi.stage
  rw [ha] at hst
  have hmine : ∀ j, c.joint.state = .joiner j → join.joiner = j ∧
      (pc = .store ∨ (pc = .waiting ∨ pc = .claim) ∧ j ∈ r) := by
    intro j hj
    obtain ⟨join', pc', ho, hj, hpc⟩ := h.joiner j hj
    rw [ha] at ho
    cases ho
    exact ⟨hj, hpc⟩
  have hr : pc ≠ .store → r ++ c.releases (.owner spurious) = r := by
    intro hn
    simp only [Config.releases, ha]
    split
    next he => exact absurd (by injection he) hn
    next => exact List.append_nil r
  have ht : pc ≠ .take → t ++ c.takes (.owner spurious) = t := by
    intro hn
    simp only [Config.takes, Config.next, ha]
    cases pc with
    | take => exact absurd rfl hn
    | _ => exact List.append_nil t
  cases pc with
  | load | casEmpty =>
    rw [hr (by simp), ht (by simp)]
    have hstate : joint.state = c.joint.state := by
      simp only [joinValue] at hs
      split at hs <;> cases hs <;> rfl
    refine h.moved hstate id fun j hj => ?_
    rcases (hmine j hj).2 with hpc | ⟨hpc | hpc, _⟩ <;> cases hpc
  | writeJoiner =>
    rw [hr (by simp), ht (by simp)]
    cases hs
    have hvacant : c.joint.state.values = [] := by
      generalize c.joint = joint, c.outcome = outcome at hst
      cases hst with
      | entering => rfl
      | empty hn | posting hn | posted hn | claimed hn | taken hn => cases hn
    have hsettled := h.settled hvacant
    refine ⟨h.pending, h.unwritten, fun j hj => ?_, (by simp), fun _ => hsettled⟩
    cases hj
    exact ⟨join, .store, rfl, rfl, Or.inl rfl⟩
  | store =>
    rw [ht (by simp)]
    cases hs
    refine h.moved rfl id fun j hj => ⟨join, .waiting, rfl, (hmine j hj).1, Or.inr ⟨Or.inl rfl, ?_⟩⟩
    simp [Config.releases, ha, (hmine j hj).1]
  | waiting =>
    rw [hr (by simp), ht (by simp)]
    cases hs
    refine h.moved rfl id fun j hj => ?_
    have hreleased : j ∈ r := by
      rcases (hmine j hj).2 with hpc | ⟨_, hm⟩
      · cases hpc
      · exact hm
    refine ⟨join, _, rfl, (hmine j hj).1, Or.inr ⟨?_, hreleased⟩⟩
    generalize c.joint = joint, c.outcome = outcome at hst
    cases hst with
    | waiting => exact Or.inl rfl
    | posting | posted => exact Or.inr rfl
    | empty hn | claimed hn | taken hn => cases hn
  | claim =>
    rw [hr (by simp), ht (by simp)]
    have hstate : joint.state = c.joint.state := by
      simp only [joinValue] at hs
      split at hs
      · cases hs
        rfl
      · split at hs <;> cases hs <;> rfl
    refine h.moved hstate id fun j hj => ⟨join, next, rfl, (hmine j hj).1, Or.inr ⟨Or.inr ?_, ?_⟩⟩
    · simp only [joinValue] at hs
      generalize c.joint = joint, c.outcome = outcome at hst hs hj
      cases hst with
      | posting =>
        split at hs
        next hc => cases hc.2
        next => cases hs; rfl
      | posted => cases hj
      | empty hn | claimed hn | taken hn => cases hn
    · rcases (hmine j hj).2 with hpc | ⟨_, hm⟩
      · cases hpc
      · exact hm
  | take =>
    rw [hr (by simp)]
    have htakes : c.takes (.owner spurious) = c.joint.state.values := by
      simp only [Config.takes, Config.next, ha]
      rfl
    rw [htakes]
    simp only [joinValue] at hs
    split at hs
    next v hv =>
      cases hs
      exact h.took hv rfl
    next hv =>
      generalize c.joint = joint, c.outcome = outcome at hst hv
      cases hst with
      | claimed => exact absurd rfl (hv _)
      | empty hn | posting hn | posted hn | taken hn => cases hn
  | returned | unreachable | undefined => cases hs

/-- One step of the owner's `drop_value`. -/
theorem Kept.drop (h : Kept c r w t) (hi : Invariant c) {pc next : DropPc} {spurious : Bool}
    (ha : c.owner = .dropping pc)
    (hs : dropValue c.joint spurious pc = some (joint, next))
    (ho : outcome = .pending → c.outcome = .pending) :
    Kept { c with joint := joint, outcome := outcome, owner := .dropping next }
      (r ++ c.releases (.owner spurious)) w (t ++ c.takes (.owner spurious)) := by
  have hst := hi.stage
  rw [ha] at hst
  have hr : r ++ c.releases (.owner spurious) = r := by
    simp only [Config.releases, ha]
    exact List.append_nil r
  have hnone : ∀ j, c.joint.state ≠ .joiner j := by
    intro j hj
    obtain ⟨join, pc', ho, _⟩ := h.joiner j hj
    rw [ha] at ho
    cases ho
  rw [hr]
  by_cases hpc : pc = .take
  · subst hpc
    have htakes : c.takes (.owner spurious) = c.joint.state.values := by
      simp only [Config.takes, Config.next, ha]
      rfl
    rw [htakes]
    simp only [dropValue] at hs
    split at hs
    next v hv =>
      cases hs
      exact (h.took hv rfl).keep rfl ho rfl fun _ => id
    next hv =>
      generalize c.joint = joint, c.outcome = outcome at hst hv
      cases hst with
      | claimed => exact absurd rfl (hv _)
      | empty hn | posting hn | posted hn | taken hn => cases hn
  · have ht : t ++ c.takes (.owner spurious) = t := by
      simp only [Config.takes, Config.next, ha]
      cases pc with
      | take => exact absurd rfl hpc
      | _ => exact List.append_nil t
    rw [ht]
    have hstate : joint.state = c.joint.state := by
      cases pc with
      | load | casEmpty | claim =>
        simp only [dropValue] at hs
        split at hs <;> cases hs <;> rfl
      | take => exact absurd rfl hpc
      | done | undefined => cases hs
    exact h.moved hstate ho fun j hj => absurd hj (hnone j)

theorem pending_of_cancel {o : Cell (ℕ × SessionValue T P)} (h : o.cancel = .pending) :
    o = .pending := by
  cases o <;> cases h

theorem Kept.stepOwner (h : Kept c r w t) (hi : Invariant c) {spurious : Bool}
    (hs : c.stepOwner spurious = some d) :
    Kept d (r ++ c.releases (.owner spurious)) w (t ++ c.takes (.owner spurious)) := by
  unfold Config.stepOwner at hs
  split at hs
  next join v ha =>
    cases hs
    have hr : c.releases (.owner spurious) = [] := by simp only [Config.releases, ha]
    have ht : c.takes (.owner spurious) = [] := by
      simp only [Config.takes, Config.next, ha]
      rfl
    rw [hr, ht, List.append_nil, List.append_nil]
    refine h.moved rfl id fun j hj => ?_
    obtain ⟨join', pc, ho, _, hpc⟩ := h.joiner j hj
    rw [ha] at ho
    cases ho
    rcases hpc with hpc | ⟨hpc | hpc, _⟩ <;> cases hpc
  next join pc _ ha =>
    obtain ⟨⟨joint, next⟩, hjoin, rfl⟩ := Option.map_eq_some_iff.mp hs
    exact h.join hi ha hjoin
  next pc ha =>
    obtain ⟨⟨m, next⟩, hm, rfl⟩ := Option.map_eq_some_iff.mp hs
    obtain ⟨⟨joint, next'⟩, hdrop, he⟩ := Option.map_eq_some_iff.mp hm
    cases he
    refine h.drop hi ha hdrop fun hp => ?_
    dsimp only at hp
    split at hp
    · exact pending_of_cancel hp
    · exact hp
  next => cases hs

theorem Kept.advance (h : Kept c r w t) (hi : Invariant c) {spurious : Bool}
    (hs : c.advance i spurious = some d) :
    Kept d r (w ++ c.writes (.advance i spurious)) t := by
  unfold Config.advance at hs
  split at hs
  next call task ha =>
    have hw : c.writes (.advance i spurious) = [] := by simp only [Config.writes, ha]
    rw [hw, List.append_nil]
    split at hs <;> cases hs <;> exact h.setAgent rfl
  next call ha =>
    have hw : c.writes (.advance i spurious) = [] := by simp only [Config.writes, ha]
    rw [hw, List.append_nil]
    cases hs
    exact h.setAgent rfl
  next call pc _ _ ha =>
    obtain ⟨⟨joint, next⟩, hset, rfl⟩ := Option.map_eq_some_iff.mp hs
    exact h.set hi ha hset rfl
  next call task ha =>
    have hw : c.writes (.advance i spurious) = [] := by simp only [Config.writes, ha]
    rw [hw, List.append_nil]
    cases hs
    exact h.setAgent rfl
  next => cases hs

/-- The `drop_value` of the last `Arc` leaves the cell alone. -/
theorem Kept.dispose (h : Kept c r w t) (hi : Invariant c) {spurious : Bool}
    (hs : c.step (.dispose spurious) = some d) :
    Kept d r w (t ++ c.takes (.dispose spurious)) := by
  have ht : c.takes (.dispose spurious) = [] := by
    have hnone : c.next .disposal = none := by
      simp only [Config.next]
      split
      next hd =>
        rcases (hi.disposed _ hd).2 with hp | hp <;> cases hp
      next => rfl
    simp only [Config.takes, hnone]
    rfl
  rw [ht, List.append_nil]
  simp only [Config.step] at hs
  split at hs
  next =>
    split at hs <;> cases hs
    exact h.keep rfl id rfl fun _ => id
  next pc hd =>
    obtain ⟨ho, hp⟩ := hi.disposed pc hd
    obtain ⟨⟨m, next⟩, hm, rfl⟩ := Option.map_eq_some_iff.mp hs
    obtain ⟨⟨joint, next'⟩, hdrop, he⟩ := Option.map_eq_some_iff.mp hm
    cases he
    obtain ⟨rfl, rfl⟩ := dropValue_joined hdrop (hi.stage.joined_of_over ho) hp
    refine h.keep rfl (fun hpend => ?_) rfl fun _ => id
    dsimp only at hpend
    split at hpend
    · exact pending_of_cancel hpend
    · exact hpend

theorem Kept.step (h : Kept c r w t) (hi : Invariant c) {e : Event T P}
    (hs : c.step e = some d) :
    Kept d (r ++ c.releases e) (w ++ c.writes e) (t ++ c.takes e) := by
  cases e with
  | advance i spurious =>
    rw [show c.releases (.advance i spurious) = [] from rfl,
      show c.takes (.advance i spurious) = [] from rfl, List.append_nil, List.append_nil]
    exact h.advance hi hs
  | owner spurious =>
    rw [show c.writes (.owner spurious) = [] from rfl, List.append_nil]
    exact h.stepOwner hi hs
  | dispose spurious =>
    rw [show c.releases (.dispose spurious) = [] from rfl,
      show c.writes (.dispose spurious) = [] from rfl, List.append_nil, List.append_nil]
    exact h.dispose hi hs
  | clone i =>
    simp only [Config.releases, Config.writes, Config.takes, List.append_nil]
    simp only [Config.step] at hs
    split at hs <;> cases hs
    exact (h.keep (d := { c with wakers := c.wakers + 1 }) rfl id rfl fun _ => id).addAgent rfl
  | call i call =>
    simp only [Config.releases, Config.writes, Config.takes, List.append_nil]
    simp only [Config.step] at hs
    split at hs <;> cases hs <;> exact h.setAgent rfl
  | drop i =>
    simp only [Config.releases, Config.writes, Config.takes, List.append_nil]
    simp only [Config.step] at hs
    split at hs <;> cases hs
    refine (h.keep (d := { c with wakers := c.wakers - 1 }) rfl id rfl fun _ => id).setAgent ?_
    split <;> rfl
  | interrupt reason =>
    simp only [Config.releases, Config.writes, Config.takes, List.append_nil]
    simp only [Config.step] at hs
    split at hs <;> cases hs
    exact h.addAgent rfl
  | join join | abandon =>
    simp only [Config.releases, Config.writes, Config.takes, List.append_nil]
    simp only [Config.step] at hs
    split at hs <;> cases hs
    next hidle =>
      refine h.moved rfl id fun j hj => ?_
      obtain ⟨join', pc, ho, _⟩ := h.joiner j hj
      rw [hidle] at ho
      cases ho

def Ledger.Kept (l : Ledger T P) : Prop := Session.Kept l.config l.released l.written l.taken

theorem ledger_step {l m : Ledger T P} {e : Event T P} (h : (ledger T P).step l e = some m) :
    l.config.step e = some m.config ∧ m.released = l.released ++ l.config.releases e ∧
      m.written = l.written ++ l.config.writes e ∧ m.taken = l.taken ++ l.config.takes e := by
  obtain ⟨d, hd, rfl⟩ := Option.map_eq_some_iff.mp h
  exact ⟨hd, rfl, rfl, rfl⟩

variable {l : Ledger T P}

theorem ledger_reachable (h : Reachable (ledger T P) l) : Reachable (system T P) l.config := by
  induction h with
  | init => exact .init
  | step _ hs ih => exact .step ih (ledger_step hs).1

theorem reachable_kept (h : Reachable (ledger T P) l) : l.Kept := by
  refine Reachable.invariant_over (B := fun l => Invariant l.config) (I := Ledger.Kept)
    (fun l hl => reachable_invariant (ledger_reachable hl)) ?_ (fun l e m hi hk hs => ?_) h
  · exact ⟨fun _ => rfl, fun _ _ => rfl, nofun, nofun, fun _ => ⟨rfl, Nat.zero_le _⟩⟩
  · obtain ⟨hd, hr, hw, ht⟩ := ledger_step hs
    unfold Ledger.Kept
    rw [hr, hw, ht]
    exact hk.step hi hd

/-- An agent has the cell under a `Value` that is not released, which is its own. -/
theorem Invariant.agent_inside (h : Invariant c) (hi : c.inside (.agent i) = true) :
    c.joint.status = SessionStatus.value.into ∧ ∃ v, c.outcome = .fired (i, v) := by
  have hv := h.agents_valid i
  simp only [Config.inside] at hi
  split at hi
  next ha =>
    rw [ha] at hv
    exact ⟨hv.1, _, hv.2.2⟩
  next ha =>
    rw [ha] at hv
    exact ⟨hv.1, _, hv.2⟩
  next ha =>
    rw [ha] at hv
    exact ⟨by rw [hv.1], _, hv.2⟩
  next ha =>
    rw [ha] at hv
    exact ⟨by rw [hv.1], _, hv.2⟩
  next => cases hi

theorem Invariant.owner_inside (h : Invariant c) (hi : c.inside .owner = true) :
    c.joint.status ≠ SessionStatus.value.into := by
  have hst := h.stage
  simp only [Config.inside] at hi
  generalize c.joint = joint, c.outcome = outcome at hst ⊢
  split at hi
  next ho =>
    rw [ho] at hst
    cases hst with
    | entering => nofun
    | empty hn | posting hn | posted hn | claimed hn | taken hn => cases hn
  next ho =>
    rw [ho] at hst
    cases hst with
    | entered => nofun
    | empty hn | posting hn | posted hn | claimed hn | taken hn => cases hn
  next ho =>
    rw [ho] at hst
    cases hst with
    | claimed => nofun
    | empty hn | posting hn | posted hn | taken hn => cases hn
  next ho =>
    rw [ho] at hst
    cases hst with
    | claimed => nofun
    | empty hn | posting hn | posted hn | taken hn => cases hn
  next => cases hi

theorem Invariant.disposal_outside (h : Invariant c) : c.disposal ≠ some .take := by
  intro hd
  rcases (h.disposed _ hd).2 with hp | hp <;> cases hp

theorem Invariant.inside_unique (h : Invariant c) {p q : Party} (hp : c.inside p = true)
    (hq : c.inside q = true) : p = q := by
  have hdisposal : c.inside .disposal ≠ true := fun hd =>
    h.disposal_outside (by simpa [Config.inside] using hd)
  cases p with
  | disposal => exact absurd hp hdisposal
  | owner =>
    cases q with
    | disposal => exact absurd hq hdisposal
    | owner => rfl
    | agent i => exact absurd (h.agent_inside hq).1 (h.owner_inside hp)
  | agent i =>
    cases q with
    | disposal => exact absurd hq hdisposal
    | owner => exact absurd (h.agent_inside hp).1 (h.owner_inside hq)
    | agent j =>
      obtain ⟨v, hv⟩ := (h.agent_inside hp).2
      obtain ⟨u, hu⟩ := (h.agent_inside hq).2
      rw [hv] at hu
      cases hu
      rfl

theorem next_inside {p : Party} (h : (c.next p).isSome = true) : c.inside p = true := by
  cases p with
  | agent i =>
    simp only [Config.next] at h
    simp only [Config.inside]
    split at h
    next ha => rw [ha]
    next ha => rw [ha]
    next => cases h
  | owner =>
    simp only [Config.next] at h
    simp only [Config.inside]
    split at h
    next ho => rw [ho]
    next ho => rw [ho]
    next ho => rw [ho]
    next => cases h
  | disposal =>
    simp only [Config.next] at h
    split at h
    next hd => simp [Config.inside, hd]
    next => cases h

/-- The owner has claimed the value that it is going to take. -/
theorem Invariant.reads_value (h : Invariant c) {p : Party}
    (hp : c.next p = some .readValue) : ∃ v, c.joint.state = .value v := by
  have hst := h.stage
  cases p with
  | agent i =>
    simp only [Config.next] at hp
    split at hp <;> cases hp
  | owner =>
    simp only [Config.next] at hp
    generalize c.joint = joint, c.outcome = outcome at hst ⊢
    split at hp
    next => cases hp
    next ho =>
      rw [ho] at hst
      cases hst with
      | claimed => exact ⟨_, rfl⟩
      | empty hn | posting hn | posted hn | taken hn => cases hn
    next ho =>
      rw [ho] at hst
      cases hst with
      | claimed => exact ⟨_, rfl⟩
      | empty hn | posting hn | posted hn | taken hn => cases hn
    next => cases hp
  | disposal =>
    simp only [Config.next] at hp
    split at hp
    next hd => exact absurd hd h.disposal_outside
    next => cases hp

theorem Kept.reads_joiner (hk : Kept c r w t) (h : Invariant c) {p : Party}
    (hp : c.next p = some .readJoiner) : ∃ j ∈ r, c.joint.state = .joiner j := by
  cases p with
  | agent i =>
    have hv := h.agents_valid i
    simp only [Config.next] at hp
    split at hp
    next call ha =>
      rw [ha] at hv
      obtain ⟨hs, ⟨j, hj⟩, _⟩ := hv
      obtain ⟨join, pc, ho, _, hpc⟩ := hk.joiner j hj
      rcases hpc with rfl | ⟨_, hm⟩
      · exact absurd hs (h.owner_inside (by simp only [Config.inside, ho]))
      · exact ⟨j, hm, hj⟩
    next => cases hp
    next => cases hp
  | owner =>
    simp only [Config.next] at hp
    split at hp <;> cases hp
  | disposal =>
    simp only [Config.next] at hp
    split at hp <;> cases hp

/-- Once the owner is done nothing is left in the cell. -/
theorem Stage.vacant_of_over {joint : SessionJoint T P}
    {outcome : Cell (ℕ × SessionValue T P)} {owner : Owner T P} (h : Stage joint outcome owner)
    (ho : owner.over = true) : joint.state = .vacant := by
  obtain ⟨he, hc, ht⟩ := Owner.claimed_of_over ho
  cases h with
  | empty hu => simp [he] at hu
  | posting hu | posted hu => simp [hc] at hu
  | claimed hu => simp [ht] at hu
  | entering | entered | waiting => cases ho
  | taken | abandoned => rfl

/-- The union is read as what it holds, by one party at a time, and the one value written to it is
taken out of it once, before the owner is done and the last `Arc` can go. -/
theorem cell_disciplined (h : Reachable (ledger T P) l) :
    (∀ p, l.config.next p = some .readValue →
      ∃ v, l.config.joint.state = .value v ∧ l.written = [v] ∧ l.taken = []) ∧
    (∀ p, l.config.next p = some .readJoiner →
      ∃ j ∈ l.released, l.config.joint.state = .joiner j) ∧
    (∀ p, (l.config.next p).isSome = true → l.config.inside p = true) ∧
    (∀ p q, l.config.inside p = true → l.config.inside q = true → p = q) ∧
    l.taken <+: l.written ∧ l.written.length ≤ 1 ∧
    (l.config.owner.over = true → l.taken = l.written ∧ l.config.joint.state = .vacant) := by
  have hi := reachable_invariant (ledger_reachable h)
  have hk := reachable_kept h
  have hlists : l.taken <+: l.written ∧ l.written.length ≤ 1 := by
    cases hs : l.config.joint.state with
    | value v =>
      obtain ⟨hw, ht⟩ := hk.held v hs
      rw [hw, ht]
      exact ⟨List.nil_prefix, Nat.le_refl _⟩
    | vacant | joiner j =>
      obtain ⟨ht, hl⟩ := hk.settled (by rw [hs]; rfl)
      rw [ht]
      exact ⟨List.prefix_refl _, hl⟩
  refine ⟨fun p hp => ?_, fun p hp => hk.reads_joiner hi hp, fun p hp => next_inside hp,
    fun p q hp hq => hi.inside_unique hp hq, hlists.1, hlists.2, fun ho => ?_⟩
  · obtain ⟨v, hv⟩ := hi.reads_value hp
    exact ⟨v, hv, hk.held v hv⟩
  · have hs := hi.stage.vacant_of_over ho
    exact ⟨(hk.settled (by rw [hs]; rfl)).1, hs⟩

/-- A task waits, a clone wakes it while the other one loses, and the session is disposed of. -/
def contendedCell : Execution (ledger ℕ Unit) where
  events :=
    let advance (i : ℕ) : Event ℕ Unit := .advance i false
    let owner : Event ℕ Unit := .owner false
    [.clone 0, .join ⟨false, .task 7, true⟩, owner, owner, owner, owner, .call 0 (.send 5),
      .call 1 (.send 6), advance 0, advance 1, advance 0, advance 1, advance 1, advance 0,
      advance 0, advance 0, advance 0, advance 0, owner, owner, owner, owner, .dispose false,
      .dispose false]
  fires := by decide +kernel

theorem contended_cell_disciplined :
    contendedCell.final.config.disposal = some .done ∧
      contendedCell.final.written = [.value 5] ∧
      contendedCell.final.taken = contendedCell.final.written ∧
      contendedCell.final.config.joint.state = .vacant :=
  ⟨by decide +kernel, by decide +kernel,
    (cell_disciplined contendedCell.final_reachable).2.2.2.2.2.2 (by decide +kernel)⟩

end Session
