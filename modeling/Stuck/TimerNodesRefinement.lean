import Stuck.TimerNodes

/-! The timer in memory refines the timer of lists: no link dangles, no list is dropped by an
assignment, no loop runs on, and no session is read where none is written. -/
namespace TimerNodes

open TransitionSystem LinkedLists Time

variable {σ : Type*}

/-- The variables that own nodes: the `first` of each list, `nodes`, and the locals `list` and
`node` of the function that runs. -/
inductive Root where
  | slot (slot : Slot)
  | nodes
  | list
  | node
  deriving DecidableEq

def Memory.root (m : Memory σ) (list node : Option ℕ) : Root → Option ℕ
  | .slot slot => m.first slot
  | .nodes => m.nodes
  | .list => list
  | .node => node

/-- What the memory holds of a node that is listed. -/
def content (node : Node σ) : Content σ := ⟨node.expire, some node.session⟩

/-- The place behind the last node of a list. -/
def Place.last (slot : Slot) (list : List (ℕ × Content σ)) : Place :=
  match list.getLast? with
  | some node => .next node.1
  | none => .first slot

/-- The lists of the two arrays. -/
structure Listed (last : Slot → Place) (lists : Root → List (ℕ × Content σ)) (t : Timer σ) :
    Prop where
  last : ∀ slot, last slot = Place.last slot (lists (.slot slot))
  ranged : ∀ slot, slot.inRange = false → lists (.slot slot) = []
  nodes : ∀ slot, (lists (.slot slot)).map Prod.snd = (t.list slot).map content

/-- The memory shows the timer, with `list` and `node` in the hands of a function. -/
structure View (m : Memory σ) (list node : Option ℕ) (lists : Root → List (ℕ × Content σ))
    (t : Timer σ) : Prop where
  owned : Owned m.heap (m.root list node) lists
  listed : Listed m.last lists t
  spare : ∀ cell ∈ lists .nodes, cell.2 = .spare
  fresh : ∀ a, (m.heap a).isSome = true → a < m.created
  time : m.time = t.time
  woken : m.woken = t.woken
  kept : m.dropped = []

section Roots

variable (m : Memory σ) (list node link : Option ℕ)

theorem root_list : m.root link node = Function.update (m.root list node) .list link := by
  funext r
  cases r <;> rfl

theorem root_node : m.root list link = Function.update (m.root list node) .node link := by
  funext r
  cases r <;> rfl

theorem root_nodes : { m with nodes := link }.root list node =
    Function.update (m.root list node) .nodes link := by
  funext r
  cases r <;> rfl

theorem root_slot (slot : Slot) : { m with first := Function.update m.first slot link }.root
    list node = Function.update (m.root list node) (.slot slot) link := by
  funext r
  cases r with
  | slot other =>
    by_cases h : other = slot
    · subst h
      simp [Memory.root]
    · simp [Memory.root, h]
  | nodes | list | node => rfl

end Roots

variable {m m' : Memory σ} {list node : Option ℕ} {lists : Root → List (ℕ × Content σ)}
  {t : Timer σ} {a : ℕ} {c : Content σ}

theorem rel_bind {α β γ δ : Type*} {r : α → β → Prop} {s : γ → δ → Prop} {x : Option α}
    {y : Option β} {f : α → Option γ} {g : β → Option δ} (h : Option.Rel r x y)
    (hf : ∀ a b, r a b → Option.Rel s (f a) (g b)) : Option.Rel s (x.bind f) (y.bind g) := by
  cases h with
  | none => exact .none
  | some h => exact hf _ _ h

theorem rel_mono {α β : Type*} {r s : α → β → Prop} {x : Option α} {y : Option β}
    (h : Option.Rel r x y) (hrs : ∀ a b, r a b → s a b) : Option.Rel s x y := by
  cases h with
  | none => exact .none
  | some h => exact .some (hrs _ _ h)

@[simp] theorem setCell_last (cell : Cell (Content σ)) : (m.setCell a cell).last = m.last := rfl

@[simp] theorem list_wake (t : Timer σ) (rest : List (Node σ)) : (t.wake rest).list = t.list := by
  funext slot
  cases slot <;> rfl

theorem fresh_setCell (h : ∀ a, (m.heap a).isSome = true → a < m.created)
    (ha : (m.heap a).isSome = true) (cell : Cell (Content σ)) (b : ℕ)
    (hb : ((m.setCell a cell).heap b).isSome = true) : b < (m.setCell a cell).created := by
  by_cases hab : b = a
  · rw [hab]
    exact h a ha
  · dsimp only [Memory.setCell] at hb
    rw [Function.update_of_ne hab] at hb
    exact h b hb

theorem Listed.congr {last : Slot → Place} {lists new : Root → List (ℕ × Content σ)}
    {t t' : Timer σ} (h : Listed last lists t)
    (hnew : ∀ slot, new (.slot slot) = lists (.slot slot)) (ht : t'.list = t.list) :
    Listed last new t' where
  last slot := by rw [hnew, h.last]
  ranged slot hs := by rw [hnew, h.ranged slot hs]
  nodes slot := by rw [hnew, ht, h.nodes]

/-- One list of an array changes. -/
theorem Listed.update {last : Slot → Place} {lists new : Root → List (ℕ × Content σ)}
    (h : Listed last lists t) {slot : Slot} (hs : slot.inRange = true) {nodes : List (Node σ)}
    {place : Place} (hplace : place = Place.last slot (new (.slot slot)))
    (hnodes : (new (.slot slot)).map Prod.snd = nodes.map content)
    (hnew : ∀ other, other ≠ slot → new (.slot other) = lists (.slot other)) :
    Listed (Function.update last slot place) new (t.setList nodes slot) := by
  refine ⟨fun other => ?_, fun other hr => ?_, fun other => ?_⟩
  · by_cases ho : other = slot
    · rw [ho, Function.update_self, hplace]
    · rw [Function.update_of_ne ho, hnew other ho, h.last]
  · have ho : other ≠ slot := by
      rintro rfl
      rw [hs] at hr
      cases hr
    rw [hnew other ho, h.ranged other hr]
  · rw [list_setList]
    by_cases ho : other = slot
    · rw [ho, Function.update_self, hnodes]
    · rw [Function.update_of_ne ho, hnew other ho, h.nodes]

theorem View.holds (h : View m list node lists t) (hn : lists .node = [(a, c)]) :
    m.heap a = some ⟨none, c⟩ := (h.owned.only hn).2

/-- `node.next.take()` at the head of `list`. -/
theorem View.takeNext (h : View m list none lists t) {rest : List (ℕ × Content σ)}
    (hl : lists .list = (a, c) :: rest) (hn : lists .node = []) :
    ∃ next m', m.takeNext a = some (next, m') ∧ m'.created = m.created ∧
      View m' next (some a)
        (Function.update (Function.update lists .list rest) .node [(a, c)]) t := by
  obtain ⟨_, next, hcell, _⟩ := h.owned.cell hl
  refine ⟨next, m.setCell a ⟨none, c⟩, ?_, rfl, ?_⟩
  · rw [Memory.takeNext, hcell]
    rfl
  · have howned := h.owned.pop (by simp) hl hn hcell
    rw [← root_list, ← root_node] at howned
    refine ⟨howned, h.listed.congr (by simp) rfl, ?_, ?_, h.time, h.woken, h.kept⟩
    · simpa using h.spare
    · exact fresh_setCell h.fresh (by rw [hcell]; rfl) _

/-- A node that is to be linked behind a list. -/
theorem View.link (h : View m list (some a) lists t) (hn : lists .node = [(a, c)]) (slot : Slot) :
    ∃ m', m.link (m.last slot) a = some m' ∧
      Owned m'.heap (m'.root list none) (Function.update
        (Function.update lists (.slot slot) (lists (.slot slot) ++ [(a, c)])) .node []) ∧
      m' = { m with heap := m'.heap, first := m'.first } ∧
      ∀ b, (m'.heap b).isSome = true → b < m.created := by
  rw [h.listed.last slot, Place.last]
  rcases List.eq_nil_or_concat (lists (.slot slot)) with hs | ⟨init, ⟨b, w⟩, hs⟩
  · have hfirst : m.first slot = none := h.owned.empty hs
    have howned := h.owned.take (i := .node) (j := .slot slot) (by simp) hs
    rw [← root_node, ← root_slot, hn, Function.update_comm (by simp)] at howned
    refine ⟨{ m with first := Function.update m.first slot (some a) }, ?_, ?_, rfl, h.fresh⟩
    · simp only [hs, List.getLast?_nil, Memory.link, hfirst]
    · rw [hs]
      exact howned
  · rw [List.concat_eq_append] at hs
    obtain ⟨hlast, howned⟩ := h.owned.append (by simp) hs hn
    rw [Function.update_eq_self, ← root_node] at howned
    refine ⟨m.setCell b ⟨some a, w⟩, ?_, howned, rfl, ?_⟩
    · simp only [hs, List.getLast?_append, List.getLast?_singleton, Option.some_or, Memory.link,
        hlast]
    · exact fresh_setCell h.fresh (by rw [hlast]; rfl) _

theorem View.insert {n : Node σ} (h : View m list (some a) lists t)
    (hn : lists .node = [(a, content n)]) (slot : Slot) :
    Option.Rel (fun m' t' => m'.created = m.created ∧ View m' list none (Function.update
      (Function.update lists (.slot slot) (lists (.slot slot) ++ [(a, content n)])) .node []) t')
      (m.insert slot a) (t.insert slot n) := by
  unfold Memory.insert Timer.insert
  split
  next hr =>
    obtain ⟨m', hlink, howned, hsame, hfresh⟩ := h.link hn slot
    rw [hlink]
    rw [hsame] at howned hfresh ⊢
    refine .some ⟨rfl, howned, ?_, ?_, hfresh, ?_, ?_, h.kept⟩
    · apply h.listed.update hr
      · simp [Place.last]
      · simpa using h.listed.nodes slot
      · intro other ho
        simp [ho]
    · simpa using h.spare
    · rw [setList_time]
      exact h.time
    · rw [setList_woken]
      exact h.woken
  next => exact .none

theorem View.queueNode {n : Node σ} (h : View m list (some a) lists t)
    (hn : lists .node = [(a, content n)]) :
    Option.Rel (fun m' t' => m'.created = m.created ∧ ∃ lists', View m' list none lists' t' ∧
      lists' .list = lists .list ∧ lists' .node = []) (m.queueNode a) (t.queueNode n) := by
  have hinsert : ∀ slot, Option.Rel (fun m' t' => m'.created = m.created ∧
      ∃ lists', View m' list none lists' t' ∧ lists' .list = lists .list ∧ lists' .node = [])
      (m.insert slot a) (t.insert slot n) := by
    intro slot
    apply rel_mono (h.insert hn slot)
    rintro m₁ t₁ ⟨hcreated, hview⟩
    exact ⟨hcreated, _, hview, by simp, by simp⟩
  unfold Memory.queueNode Timer.queueNode
  rw [h.holds hn, Option.bind_some, h.time, content]
  split
  · exact hinsert _
  · cases farSlot n.expire t.time timeLevelCount 0 (1 <<< timeLeastShift) with
    | none => exact .none
    | some slot => exact hinsert slot

/-- A list that is queued again: induction on what is left of it. -/
theorem View.queueList {rest : List (Node σ)} {rounds : ℕ} (h : View m list none lists t)
    (hl : (lists .list).map Prod.snd = rest.map content) (hn : lists .node = [])
    (hrounds : rest.length ≤ rounds) :
    Option.Rel (fun m' t' => m'.created = m.created ∧ ∃ lists', View m' none none lists' t' ∧
      lists' .list = [] ∧ lists' .node = []) (m.queueList rounds list) (t.queueList rest) := by
  induction rest generalizing m list lists t rounds with
  | nil =>
    have hnil : lists .list = [] := by simpa using hl
    obtain rfl : list = none := h.owned.empty hnil
    cases rounds <;> exact .some ⟨rfl, lists, h, hnil, hn⟩
  | cons n rest ih =>
    obtain ⟨⟨b, w⟩, cells, hlist, rfl, hrest⟩ := List.map_eq_cons_iff.mp hl
    obtain rfl : list = some b := (h.owned.cell hlist).1
    obtain ⟨next, m₁, htake, hcreated, hview⟩ := h.takeNext hlist hn
    cases rounds with
    | zero => cases hrounds
    | succ rounds =>
      rw [Memory.queueList, htake, Option.bind_some, Timer.queueList, List.foldlM_cons]
      apply rel_bind (hview.queueNode (n := n) (by simp))
      rintro m₂ t₂ ⟨hc, lists₂, h₂, hl₂, hn₂⟩
      rw [← hcreated, ← hc]
      apply ih h₂ ?_ hn₂ (Nat.le_of_succ_le_succ hrounds)
      rw [hl₂]
      simpa using hrest

/-- `wake` and `free_node` of a node. -/
theorem View.wakeNode {n : Node σ} (h : View m list (some a) lists t)
    (hn : lists .node = [(a, content n)]) :
    ∃ m', (m.wakeNode a).bind (fun m => m.freeNode a) = some m' ∧ m'.created = m.created ∧
      ∃ lists', View m' list none lists' (t.wake [n]) ∧ lists' .list = lists .list ∧
        lists' .node = [] := by
  have hcell := h.holds hn
  let woken := m.woken ++ [(m.time, n.session)]
  let m₁ : Memory σ := { m.setCell a ⟨none, .spare⟩ with woken := woken }
  have hwake : m.wakeNode a = some m₁ := by
    rw [Memory.wakeNode, hcell]
    rfl
  have hwrite := h.owned.write hn .spare
  rw [← root_node] at hwrite
  have hspare : m₁.heap a = some ⟨none, .spare⟩ := Function.update_self _ _ _
  have hpush := hwrite.push (i := .nodes) (j := .node) (by simp) (Function.update_self _ _ _)
  rw [← root_nodes, ← root_node] at hpush
  refine ⟨{ m₁.setCell a ⟨m₁.nodes, .spare⟩ with nodes := some a }, ?_, rfl, _, ⟨hpush,
    h.listed.congr (by simp) (list_wake t [n]), ?_, ?_, h.time, ?_, h.kept⟩, by simp, by simp⟩
  · rw [hwake, Option.bind_some, Memory.freeNode, hspare]
  · intro cell hm
    simp only [ne_eq, reduceCtorEq, not_false_eq_true, Function.update_of_ne, Function.update_self,
      List.mem_cons] at hm
    rcases hm with rfl | hm
    · rfl
    · exact h.spare cell hm
  · have hfirst : ∀ b, (m₁.heap b).isSome = true → b < m₁.created :=
      fresh_setCell h.fresh (by rw [hcell]; rfl) _
    exact fresh_setCell hfirst (by rw [hspare]; rfl) _
  · exact congrArg₂ (· ++ ·) h.woken (by rw [h.time]; rfl)

theorem wake_cons (t : Timer σ) (n : Node σ) (rest : List (Node σ)) :
    t.wake (n :: rest) = (t.wake [n]).wake rest := by
  simp [Timer.wake]

theorem View.wake {rest : List (Node σ)} {rounds : ℕ} (h : View m list none lists t)
    (hl : (lists .list).map Prod.snd = rest.map content) (hn : lists .node = [])
    (hrounds : rest.length ≤ rounds) :
    ∃ m', m.wake rounds list = some m' ∧ m'.created = m.created ∧
      ∃ lists', View m' none none lists' (t.wake rest) ∧ lists' .list = [] ∧ lists' .node = [] := by
  induction rest generalizing m list lists t rounds with
  | nil =>
    have hnil : lists .list = [] := by simpa using hl
    obtain rfl : list = none := h.owned.empty hnil
    have hwake : t.wake [] = t := by simp [Timer.wake]
    rw [hwake]
    cases rounds <;> exact ⟨m, rfl, rfl, lists, h, hnil, hn⟩
  | cons n rest ih =>
    obtain ⟨⟨b, w⟩, cells, hlist, rfl, hrest⟩ := List.map_eq_cons_iff.mp hl
    obtain rfl : list = some b := (h.owned.cell hlist).1
    obtain ⟨next, m₁, htake, hcreated, hview⟩ := h.takeNext hlist hn
    obtain ⟨m₂, hwake, hc, lists₂, h₂, hl₂, hn₂⟩ := hview.wakeNode (n := n) (by simp)
    cases rounds with
    | zero => cases hrounds
    | succ rounds =>
      have hrest₂ : (lists₂ .list).map Prod.snd = rest.map content := by
        rw [hl₂]
        simpa using hrest
      obtain ⟨m₃, hm₃, hc₃, hlists⟩ := ih h₂ hrest₂ hn₂ (Nat.le_of_succ_le_succ hrounds)
      refine ⟨m₃, ?_, hc₃.trans (hc.trans hcreated), wake_cons t n rest ▸ hlists⟩
      rw [Memory.wake, htake, Option.bind_some]
      dsimp only
      rw [hwake, Option.bind_some, hm₃]

/-- Between two operations of the timer nothing is in the hands of a function. -/
def Refines (m : Memory σ) (t : Timer σ) : Prop :=
  ∃ lists, View m none none lists t ∧ lists .list = [] ∧ lists .node = []

/-- A list that is cleared is as long as the loops over it may take. -/
theorem View.clear (h : View m none none lists t) (hl : lists .list = []) (hn : lists .node = [])
    (slot : Slot) : Option.Rel (fun p q => ∃ lists', View p.2 p.1 none lists' q.2 ∧
      (lists' .list).map Prod.snd = q.1.map content ∧ lists' .node = [] ∧
      q.1.length ≤ p.2.created) (m.clear slot) (t.clear slot) := by
  unfold Memory.clear Timer.clear
  split
  next hr =>
    have hlength := h.owned.length_le h.fresh (.slot slot)
    rw [← List.length_map (f := Prod.snd), h.listed.nodes slot, List.length_map] at hlength
    have howned := h.owned.take (i := .slot slot) (j := .list) (by simp) hl
    rw [← root_slot, ← root_list] at howned
    refine .some ⟨_, ⟨howned, ?_, ?_, h.fresh, ?_, ?_, h.kept⟩, ?_, ?_, hlength⟩
    · apply h.listed.update hr
      · simp [Place.last]
      · simp
      · intro other ho
        simp [ho]
    · simpa using h.spare
    · rw [setList_time]
      exact h.time
    · rw [setList_woken]
      exact h.woken
    · simpa using h.listed.nodes slot
    · simpa using hn
  next => exact .none

theorem Refines.cascade (h : Refines m t) : Option.Rel Refines m.cascade t.cascade := by
  obtain ⟨lists, hv, hl, hn⟩ := h
  unfold Memory.cascade Timer.cascade
  rw [hv.time]
  split
  · cases turnedSlot timeLevelCount 0 (t.time >>> timeLeastShift) with
    | none => exact .none
    | some slot =>
      apply rel_bind (hv.clear hl hn slot)
      rintro ⟨link, m₁⟩ ⟨rest, t₁⟩ ⟨lists₁, h₁, hl₁, hn₁, hlength⟩
      apply rel_mono (h₁.queueList hl₁ hn₁ hlength)
      intro m₂ t₂ hr
      exact hr.2
  · exact .some ⟨lists, hv, hl, hn⟩

theorem Refines.raise (h : Refines m t) :
    Refines { m with time := m.time + 1 } { t with time := t.time + 1 } := by
  obtain ⟨lists, hv, hl, hn⟩ := h
  have hlisted := hv.listed.congr (fun _ => rfl) (list_setTime t (t.time + 1))
  exact ⟨lists, ⟨hv.owned, hlisted, hv.spare, hv.fresh, congrArg (· + 1) hv.time, hv.woken,
    hv.kept⟩, hl, hn⟩

theorem Refines.tick (h : Refines m t) : Option.Rel Refines m.tick t.tick := by
  unfold Memory.tick Timer.tick
  apply rel_bind h.raise.cascade
  rintro m₁ t₁ ⟨lists, hv, hl, hn⟩
  rw [hv.time]
  rw [Option.map_eq_bind]
  apply rel_bind (hv.clear hl hn (.least (t₁.time &&& timeLeastMask).toNat))
  rintro ⟨link, m₂⟩ ⟨rest, t₂⟩ ⟨lists₂, h₂, hl₂, hn₂, hlength⟩
  obtain ⟨m₃, hm₃, _, hr⟩ := h₂.wake hl₂ hn₂ hlength
  change Option.Rel Refines (m₂.wake m₂.created link) (some (t₂.wake rest))
  rw [hm₃]
  exact .some hr

theorem Refines.tickTo (h : Refines m t) (time : UInt64) (ticks : ℕ) :
    Option.Rel Refines (m.tickTo time ticks) (t.tickTo time ticks) := by
  induction ticks generalizing m t with
  | zero => exact .some h
  | succ ticks ih =>
    have htime : m.time = t.time := h.elim fun _ hv => hv.1.time
    rw [Memory.tickTo, Timer.tickTo, htime]
    split
    · apply rel_bind h.tick
      intro m₁ t₁ h₁
      exact ih h₁
    · exact .some h

/-- `new_node` takes a spare node, or a new one that is no different. -/
theorem View.newNode (h : View m none none lists t) (hn : lists .node = []) :
    ∃ a m' lists', m.newNode = some (a, m') ∧ View m' none (some a) lists' t ∧
      lists' .node = [(a, .spare)] ∧ lists' .list = lists .list := by
  unfold Memory.newNode
  cases hs : lists .nodes with
  | nil =>
    have hnodes : m.nodes = none := h.owned.empty hs
    have hnone : m.heap m.created = none := by
      cases hcell : m.heap m.created with
      | none => rfl
      | some cell => exact absurd (h.fresh _ (by rw [hcell]; rfl)) (Nat.lt_irrefl _)
    have howned := h.owned.alloc hn hnone .spare
    rw [← root_node] at howned
    rw [hnodes]
    refine ⟨_, _, _, rfl, ⟨howned, h.listed.congr (by simp) rfl, ?_, ?_, h.time, h.woken,
      h.kept⟩, by simp, by simp⟩
    · simpa using h.spare
    · intro b hb
      by_cases hbc : b = m.created
      · rw [hbc]
        exact Nat.lt_succ_self _
      · simp only [Memory.setCell, Function.update_of_ne hbc] at hb
        exact Nat.lt_succ_of_lt (h.fresh b hb)
  | cons cell rest =>
    obtain ⟨b, w⟩ := cell
    obtain ⟨hfirst, next, hcell, _⟩ := h.owned.cell hs
    have hnodes : m.nodes = some b := hfirst
    obtain rfl : w = .spare := h.spare (b, w) (hs ▸ List.mem_cons_self)
    have howned := h.owned.pop (by simp) hs hn hcell
    rw [← root_nodes, ← root_node] at howned
    rw [hnodes]
    refine ⟨b, { m.setCell b ⟨none, .spare⟩ with nodes := next }, _, ?_, ⟨howned,
      h.listed.congr (by simp) rfl, ?_, ?_, h.time, h.woken, h.kept⟩, by simp, by simp⟩
    · simp only [Memory.takeNext, hcell, Option.map_some]
    · intro cell hm
      have hm' : cell ∈ rest := by simpa using hm
      exact h.spare cell (hs ▸ List.mem_cons_of_mem _ hm')
    · exact fresh_setCell h.fresh (by rw [hcell]; rfl) _

theorem View.arm {w : Content σ} (h : View m none (some a) lists t)
    (hn : lists .node = [(a, w)]) (c : Content σ) : ∃ m', m.arm a c = some m' ∧
      View m' none (some a) (Function.update lists .node [(a, c)]) t := by
  have hcell := h.holds hn
  have howned := h.owned.write hn c
  rw [← root_node] at howned
  refine ⟨m.setCell a ⟨none, c⟩, ?_, howned, h.listed.congr (by simp) rfl, ?_, ?_, h.time, h.woken,
    h.kept⟩
  · rw [Memory.arm, hcell]
    rfl
  · simpa using h.spare
  · exact fresh_setCell h.fresh (by rw [hcell]; rfl) _

theorem Refines.timeout (h : Refines m t) (timeout : UInt64) (session : σ) :
    Option.Rel Refines (m.timeout timeout session) (t.timeout timeout session) := by
  obtain ⟨lists, hv, hl, hn⟩ := h
  obtain ⟨a, m₁, lists₁, hnew, h₁, hn₁, hl₁⟩ := hv.newNode hn
  obtain ⟨m₂, harm, h₂⟩ := h₁.arm hn₁ ⟨m₁.time + timeout, some session⟩
  rw [Memory.timeout, hnew, Option.bind_some]
  dsimp only
  rw [harm, Option.bind_some, Timer.timeout]
  have hqueue := h₂.queueNode (n := ⟨t.time + timeout, session⟩) (by rw [← h₁.time]; simp [content])
  apply rel_mono hqueue
  rintro m₃ t₃ ⟨_, lists₃, h₃, hl₃, hn₃⟩
  refine ⟨lists₃, h₃, ?_, hn₃⟩
  rw [hl₃]
  simpa [hl₁] using hl

theorem Refines.step (h : Refines m t) (op : Op σ) : Option.Rel Refines (m.step op) (t.step op) := by
  cases op with
  | timeout timeout session => exact h.timeout timeout session
  | update time =>
    have htime : m.time = t.time := h.elim fun _ hv => hv.1.time
    rw [Memory.step, Memory.update, Timer.step, Timer.update, htime]
    exact h.tickTo time _

theorem new_refines : Refines (Memory.new σ) (Timer.new σ) := by
  have howned : Owned (Memory.new σ).heap ((Memory.new σ).root none none) fun _ => [] := by
    refine ⟨fun r => ?_, ⟨fun _ => List.nodup_nil, ?_⟩, ?_⟩
    · cases r <;> rfl
    · intro _ _ _ ha
      cases ha
    · intro a ha
      cases ha
  refine ⟨fun _ => [], ⟨howned, ⟨fun _ => rfl, fun _ _ => rfl, ?_⟩, ?_, ?_, rfl, rfl, rfl⟩, rfl, rfl⟩
  · intro slot
    cases slot <;> rfl
  · intro cell hm
    cases hm
  · intro a ha
    cases ha

theorem Refines.run (h : Refines m t) (ops : List (Op σ)) :
    Option.Rel Refines ((system σ).runFrom m ops) ((Time.system σ).runFrom t ops) := by
  induction ops generalizing m t with
  | nil => exact .some h
  | cons op ops ih =>
    apply rel_bind (h.step op)
    intro m₁ t₁ h₁
    exact ih h₁

/-- The links of each list lead to its nodes. -/
theorem View.nodesOf (h : View m none none lists t) (slot : Slot) :
    Memory.timer.nodesOf m (m.first slot) = t.list slot := by
  have hfollow := (h.owned.chain (.slot slot)).follow (h.owned.length_le h.fresh (.slot slot))
  have hback : ∀ node : Node σ, ((content node).session.map (Node.mk (content node).expire)) =
      some node := fun _ => rfl
  rw [Memory.timer.nodesOf]
  change (follow m.heap m.created (m.root none none (.slot slot))).filterMap _ = _
  rw [hfollow, h.listed.nodes slot, List.filterMap_map]
  exact (List.filterMap_congr fun node _ => hback node).trans List.filterMap_some

theorem Refines.timer (h : Refines m t) : m.timer = t := by
  obtain ⟨lists, hv, _, _⟩ := h
  cases t with
  | mk time least level woken =>
    have hleast : ∀ index, Memory.timer.nodesOf m (m.first (.least index)) = least index :=
      fun index => hv.nodesOf (.least index)
    have hlevel : ∀ i index, Memory.timer.nodesOf m (m.first (.level i index)) = level i index :=
      fun i index => hv.nodesOf (.level i index)
    rw [Memory.timer, Timer.mk.injEq]
    exact ⟨hv.time, funext hleast, funext fun i => funext (hlevel i), hv.woken⟩

/-- In memory the timer does what the timer of lists does: after every sequence of calls the same
nodes are found along the links, in the same order, and the same sessions have been woken; and it
fails only where the timer of lists panics. So `last` never points to a node that is not the last
of its list, no assignment drops a list, no node is linked twice, and every session that is read
has been written and is read once. -/
theorem memory_refines (ops : List (Op σ)) :
    ((system σ).runFrom (.new σ) ops).map Memory.timer = (Time.system σ).runFrom (.new σ) ops := by
  cases hrun : (system σ).runFrom (Memory.new σ) ops <;>
    cases hlists : (Time.system σ).runFrom (Timer.new σ) ops
  all_goals
    have hr : Option.Rel Refines ((system σ).runFrom (.new σ) ops)
        ((Time.system σ).runFrom (.new σ) ops) := new_refines.run ops
    rw [hrun, hlists] at hr
  · rfl
  · cases hr
  · cases hr
  · cases hr with
    | some h => exact congrArg some h.timer

end TimerNodes
