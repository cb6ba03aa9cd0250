import Stuck.TimerNodesRefinement

/-! The end of the timer: its lists and its spare nodes are dropped, and with them the sessions that
wait. -/
namespace TimerNodes

open TransitionSystem LinkedLists TimingWheel Time

variable {σ : Type*} {m m' : Memory σ} {list : Option ℕ} {t : Timer σ}
  {lists : Root → List (ℕ × Content σ)}

/-- What `Node::drop` reads out. -/
def Content.released (c : Content σ) : Option σ := if c.expire = 0 then none else c.session

def released (list : List (ℕ × Content σ)) : List σ := list.filterMap fun cell => cell.2.released

/-- `expire` tells whether there is a session to read. -/
def Content.Told (c : Content σ) : Prop := c.expire ≠ 0 → c.session.isSome = true

theorem dropNode_told {a : ℕ} {c : Content σ} {next : Option ℕ} (hc : c.Told)
    (ha : m.heap a = some ⟨next, c⟩) : m.dropNode a = some (next, { m with
      heap := Function.update m.heap a none
      dropped := m.dropped ++ c.released.toList }) := by
  obtain ⟨expire, session⟩ := c
  rw [Memory.dropNode, ha]
  dsimp only
  by_cases he : expire = 0
  · simp [he, Content.released]
  · obtain ⟨session, rfl⟩ := Option.isSome_iff_exists.mp (hc he)
    simp [he, Content.released]

/-- A list is dropped from its first node to its last. -/
theorem dropList_frees {cells : List (ℕ × Content σ)} {rounds : ℕ}
    (h : Owned m.heap (m.root list none) lists) (hl : lists .list = cells)
    (hc : ∀ cell ∈ cells, cell.2.Told) (hr : cells.length ≤ rounds) :
    ∃ heap, m.dropList rounds list = some { m with
        heap := heap
        dropped := m.dropped ++ released cells } ∧
      Owned heap (m.root none none) (Function.update lists .list []) ∧
      ∀ a, (heap a).isSome = true → (m.heap a).isSome = true := by
  induction cells generalizing m list lists rounds with
  | nil =>
    obtain rfl : list = none := h.empty hl
    refine ⟨m.heap, ?_, ?_, fun _ ha => ha⟩
    · cases rounds <;> simp [Memory.dropList, released]
    · rwa [← hl, Function.update_eq_self]
  | cons cell rest ih =>
    obtain ⟨a, c⟩ := cell
    obtain ⟨hfirst, next, hcell, _⟩ := h.cell hl
    obtain rfl : list = some a := hfirst
    cases rounds with
    | zero => cases hr
    | succ rounds =>
      let m₁ : Memory σ := { m with
        heap := Function.update m.heap a none
        dropped := m.dropped ++ c.released.toList }
      have howned : Owned m₁.heap (m₁.root next none) (Function.update lists .list rest) := by
        have hfree := h.free hl hcell
        rwa [← root_list] at hfree
      obtain ⟨heap, hdrop, hheap, hless⟩ := ih howned (Function.update_self _ _ _)
        (fun cell hm => hc cell (List.mem_cons_of_mem _ hm)) (Nat.le_of_succ_le_succ hr)
      refine ⟨heap, ?_, ?_, fun b hb => ?_⟩
      · rw [Memory.dropList, dropNode_told (hc _ List.mem_cons_self) hcell, Option.bind_some]
        refine hdrop.trans ?_
        simp only [m₁, released, List.append_assoc, List.filterMap_cons]
        cases c.released <;> rfl
      · rwa [Function.update_idem] at hheap
      · have hb := hless b hb
        by_cases hba : b = a
        · rw [hba, hcell]
          rfl
        · simpa [m₁, hba] using hb

/-- While the timer is dropped. -/
structure Dropping (m : Memory σ) (lists : Root → List (ℕ × Content σ)) : Prop where
  owned : Owned m.heap (m.root none none) lists
  told : ∀ r, ∀ cell ∈ lists r, cell.2.Told
  fresh : ∀ a, (m.heap a).isSome = true → a < m.created
  list : lists .list = []

/-- One field is dropped. -/
theorem Dropping.field (h : Dropping m lists) {r : Root} (hr : r ≠ .list) {m₁ : Memory σ}
    (hsame : m₁ = { m with first := m₁.first, nodes := m₁.nodes })
    (hroot : ∀ list, m₁.root list none = Function.update (m.root list none) r none) :
    ∃ m', m₁.dropList m.created (m.root none none r) = some m' ∧
      Dropping m' (Function.update lists r []) ∧
      m'.dropped = m.dropped ++ released (lists r) ∧ m'.woken = m.woken := by
  have howned := h.owned.take hr h.list
  rw [← hroot, ← root_list] at howned
  have hheap : m₁.heap = m.heap := by rw [hsame]
  have hcreated : m₁.created = m.created := by rw [hsame]
  have hdropped : m₁.dropped = m.dropped := by rw [hsame]
  have hwoken : m₁.woken = m.woken := by rw [hsame]
  rw [← hheap] at howned
  obtain ⟨heap, hdrop, hfreed, hless⟩ := dropList_frees howned (Function.update_self _ _ _)
    (h.told r) (h.owned.length_le h.fresh r)
  refine ⟨_, hdrop, ⟨?_, fun s cell hm => ?_, fun a ha => ?_, ?_⟩, ?_, hwoken⟩
  · rw [Function.update_idem] at hfreed
    have hback := Function.update_eq_self Root.list (Function.update lists r [])
    rw [Function.update_of_ne (Ne.symm hr), h.list] at hback
    rwa [hback] at hfreed
  · by_cases hs : s = r
    · rw [hs, Function.update_self] at hm
      cases hm
    · rw [Function.update_of_ne hs] at hm
      exact h.told s cell hm
  · rw [hcreated]
    exact h.fresh a (hheap ▸ hless a ha)
  · rw [Function.update_of_ne (Ne.symm hr), h.list]
  · rw [hdropped]

theorem Dropping.slot (h : Dropping m lists) (slot : Slot) :
    ∃ m', m.dropSlot slot = some m' ∧ Dropping m' (Function.update lists (.slot slot) []) ∧
      m'.dropped = m.dropped ++ released (lists (.slot slot)) ∧ m'.woken = m.woken :=
  h.field (by simp) rfl fun list => root_slot m list none none slot

theorem Dropping.slots (h : Dropping m lists) {slots : List Slot} (hs : slots.Nodup) :
    ∃ m' new, slots.foldlM Memory.dropSlot m = some m' ∧ Dropping m' new ∧
      m'.dropped = m.dropped ++ slots.flatMap (fun slot => released (lists (.slot slot))) ∧
      m'.woken = m.woken ∧ (∀ slot ∈ slots, new (.slot slot) = []) ∧
      (∀ slot ∉ slots, new (.slot slot) = lists (.slot slot)) ∧ new .nodes = lists .nodes ∧
      new .node = lists .node := by
  induction slots generalizing m lists with
  | nil => exact ⟨m, lists, rfl, h, by simp, rfl, by simp, by simp, rfl, rfl⟩
  | cons slot rest ih =>
    obtain ⟨hslot, hrest⟩ := List.nodup_cons.mp hs
    obtain ⟨m₁, hm₁, h₁, hdropped₁, hwoken₁⟩ := h.slot slot
    obtain ⟨m₂, new, hm₂, h₂, hdropped₂, hwoken₂, hnil, hkept, hnodes, hnode⟩ := ih h₁ hrest
    have hothers : rest.flatMap (fun other =>
        released (Function.update lists (.slot slot) [] (.slot other))) =
          rest.flatMap fun other => released (lists (.slot other)) := by
      apply List.flatMap_congr
      intro other ho
      have hne : (Root.slot other) ≠ .slot slot := by
        rintro ⟨⟩
        exact hslot ho
      rw [Function.update_of_ne hne]
    refine ⟨m₂, new, ?_, h₂, ?_, hwoken₂.trans hwoken₁, ?_, ?_, ?_, ?_⟩
    · rw [List.foldlM_cons, hm₁]
      exact hm₂
    · rw [hdropped₂, hdropped₁, hothers, List.flatMap_cons, List.append_assoc]
    · intro other ho
      by_cases hor : other ∈ rest
      · exact hnil other hor
      · obtain rfl : other = slot := (List.mem_cons.mp ho).resolve_right hor
        rw [hkept other hor, Function.update_self]
    · intro other ho
      obtain ⟨hos, hor⟩ := not_or.mp (fun hm => ho (List.mem_cons.mpr hm))
      rw [hkept other hor, Function.update_of_ne (by simpa using hos)]
    · rw [hnodes, Function.update_of_ne (by simp)]
    · rw [hnode, Function.update_of_ne (by simp)]

theorem mem_arraySlots {slot : Slot} : slot ∈ arraySlots ↔ slot.inRange = true := by
  cases slot with
  | least index => simp [arraySlots, Slot.inRange]
  | level i index => simp [arraySlots, Slot.inRange]

theorem arraySlots_nodup : arraySlots.Nodup := by
  have hrange : ∀ k (f : ℕ → Slot), Function.Injective f → ((List.range k).map f).Nodup :=
    fun k f hf => List.nodup_range.map hf
  refine List.nodup_append.mpr ⟨hrange _ _ fun _ _ he => Slot.least.inj he, ?_, ?_⟩
  · refine List.nodup_flatMap.mpr ⟨fun i _ => hrange _ _ fun _ _ he => (Slot.level.inj he).2, ?_⟩
    apply List.nodup_range.imp
    intro i j hij slot hi hj
    obtain ⟨_, _, rfl⟩ := List.mem_map.mp hi
    obtain ⟨_, _, he⟩ := List.mem_map.mp hj
    exact hij (Slot.level.inj he).1.symm
  · intro a ha b hb
    obtain ⟨_, _, rfl⟩ := List.mem_map.mp ha
    obtain ⟨_, _, hb⟩ := List.mem_flatMap.mp hb
    obtain ⟨_, _, rfl⟩ := List.mem_map.mp hb
    simp

theorem coe_arraySlots : (arraySlots : Multiset Slot) = slots.val := by
  rw [Multiset.Nodup.ext (Multiset.coe_nodup.mpr arraySlots_nodup) slots.nodup]
  intro slot
  rw [Multiset.mem_coe, mem_arraySlots, Finset.mem_val, mem_slots]

theorem released_content {list : List (ℕ × Content σ)} {nodes : List (Node σ)}
    (h : list.map Prod.snd = nodes.map content) :
    released list = (nodes.filter fun node => node.expire ≠ 0).map Node.session := by
  have hmap : released list = (list.map Prod.snd).filterMap Content.released := by
    rw [List.filterMap_map]
    rfl
  rw [hmap, h, List.filterMap_map, ← List.filterMap_eq_map, List.filterMap_filter]
  apply List.filterMap_congr
  intro node _
  by_cases he : node.expire = 0
  · simp [he, content, Content.released]
  · simp [he, content, Content.released]

/-- What is dropped with the arrays. -/
theorem dropped_pending (t : Timer σ) :
    (arraySlots.flatMap fun slot => ((t.list slot).filter fun node => node.expire ≠ 0).map
      Node.session : Multiset σ) =
      (t.pending.filter fun node => node.expire ≠ 0).map Node.session := by
  have hsum : t.pending = (arraySlots.flatMap t.list : List (Node σ)) := by
    rw [Timer.pending, listed, Finset.sum, ← coe_arraySlots, Multiset.map_coe, Multiset.sum_coe]
    induction arraySlots with
    | nil => rfl
    | cons slot rest ih =>
      rw [List.map_cons, List.sum_cons, ih, List.flatMap_cons, ← Multiset.coe_add]
  rw [hsum, Multiset.filter_coe, Multiset.map_coe, List.filter_flatMap, List.map_flatMap]

theorem Refines.drop (h : Refines m t) : ∃ m', m.drop = some m' ∧ (∀ a, m'.heap a = none) ∧
    m'.woken = m.woken ∧ (m'.dropped : Multiset σ) =
      (t.pending.filter fun node => node.expire ≠ 0).map Node.session := by
  obtain ⟨lists, hv, hl, hn⟩ := h
  have htold : ∀ r, ∀ cell ∈ lists r, cell.2.Told := by
    intro r cell hm
    cases r with
    | slot slot =>
      have hcell : cell.2 ∈ (t.list slot).map content := by
        rw [← hv.listed.nodes slot]
        exact List.mem_map_of_mem hm
      obtain ⟨node, _, hcontent⟩ := List.mem_map.mp hcell
      intro _
      rw [← hcontent]
      rfl
    | nodes =>
      intro he
      rw [hv.spare cell hm] at he
      exact absurd rfl he
    | list =>
      rw [hl] at hm
      cases hm
    | node =>
      rw [hn] at hm
      cases hm
  have hd : Dropping m lists := ⟨hv.owned, htold, hv.fresh, hl⟩
  obtain ⟨m₁, new, hm₁, h₁, hdropped₁, hwoken₁, hnil, hkept, hnodes, hnode⟩ :=
    hd.slots arraySlots_nodup
  obtain ⟨m₂, hm₂, h₂, hdropped₂, hwoken₂⟩ : ∃ m₂,
      { m₁ with nodes := none }.dropList m₁.created (m₁.root none none .nodes) = some m₂ ∧
      Dropping m₂ (Function.update new .nodes []) ∧
      m₂.dropped = m₁.dropped ++ released (new .nodes) ∧ m₂.woken = m₁.woken :=
    h₁.field (by simp) rfl fun list => root_nodes m₁ list none none
  have hspare : released (new .nodes) = [] := by
    rw [hnodes]
    apply List.filterMap_eq_nil_iff.mpr
    intro cell hm
    rw [hv.spare cell hm]
    rfl
  refine ⟨m₂, ?_, fun a => ?_, hwoken₂.trans hwoken₁, ?_⟩
  · rw [Memory.drop, hm₁, Option.bind_some]
    exact hm₂
  · cases ha : m₂.heap a with
    | none => rfl
    | some cell =>
      obtain ⟨r, hr⟩ := h₂.owned.covers a (by rw [ha]; rfl)
      have hempty : Function.update new .nodes [] r = [] := by
        cases r with
        | slot slot =>
          rw [Function.update_of_ne (by simp)]
          by_cases hs : slot.inRange = true
          · exact hnil slot (mem_arraySlots.mpr hs)
          · rw [hkept slot fun hm => hs (mem_arraySlots.mp hm)]
            exact hv.listed.ranged slot (by simpa using hs)
        | nodes => exact Function.update_self _ _ _
        | list =>
          rw [Function.update_of_ne (by simp)]
          exact h₁.list
        | node => rw [Function.update_of_ne (by simp), hnode, hn]
      rw [hempty] at hr
      cases hr
  · have hflat : arraySlots.flatMap (fun slot => released (lists (.slot slot))) =
        arraySlots.flatMap fun slot =>
          ((t.list slot).filter fun node => node.expire ≠ 0).map Node.session :=
      List.flatMap_congr fun slot _ => released_content (hv.listed.nodes slot)
    rw [hdropped₂, hspare, List.append_nil, hdropped₁, hv.kept, List.nil_append, hflat,
      dropped_pending]

/-- Where no deadline overflows, what waits at the end is what was registered for later. -/
theorem pending_later {a : Alarms σ} (h : Time.Refines t a) :
    (t.pending.filter fun node => node.expire ≠ 0).map Node.session =
      ((a.registered.filter fun entry => a.now < entry.1).map Prod.snd : List σ) := by
  have hahead : ∀ node ∈ t.pending, a.now < node.expire.toNat := by
    intro node hm
    obtain ⟨slot, _, hs⟩ := mem_pending.mp hm
    rw [← h.clock]
    exact h.wheel.ahead slot node hs
  have hpast : ∀ entry ∈ (t.woken.map fun wake => (wake.1.toNat, wake.2) : List (ℕ × σ)),
      ¬ a.now < entry.1 := by
    intro entry hm
    obtain ⟨wake, hw, rfl⟩ := List.mem_map.mp hm
    exact Nat.not_lt.mpr (h.past wake hw)
  have hnonzero : ∀ node ∈ t.pending, node.expire ≠ 0 := by
    intro node hm he
    have hlt := hahead node hm
    rw [he] at hlt
    exact Nat.not_lt_zero _ hlt
  rw [Multiset.filter_eq_self.mpr hnonzero, ← Multiset.map_coe, ← Multiset.filter_coe, h.registered,
    Multiset.filter_add, Multiset.filter_eq_nil.mpr hpast, zero_add, Multiset.filter_eq_self.mpr,
    Multiset.map_map]
  · rfl
  · intro entry hm
    obtain ⟨node, hn, rfl⟩ := Multiset.mem_map.mp hm
    exact hahead node hn

/-- The timer may be dropped after any calls. Every node is freed once, whether it is spare or in a
list, and no session is read where none is. Each session has then been woken or been dropped, once;
lost are only those whose deadline wrapped to 0, which `Node::drop` takes for an empty node. Where
no deadline overflows none is lost: the sessions that were due have been woken, the others are
dropped. -/
theorem sessions_released {ops : List (Op σ)} (h : (system σ).runFrom (.new σ) ops = some m) :
    ∃ m', m.drop = some m' ∧ (∀ a, m'.heap a = none) ∧
      ((m'.woken.map Prod.snd ++ m'.dropped : List σ) : Multiset σ) +
        (m.timer.pending.filter fun node => node.expire = 0).map Node.session =
          (Alarms.after ops).registered.map Prod.snd ∧
      ((alarms σ).AllSteps Alarms.Admits (.new σ) ops →
        (m'.woken.map fun wake => (wake.1.toNat, wake.2)).Perm
          ((Alarms.after ops).registered.filter fun entry => entry.1 ≤ (Alarms.after ops).now) ∧
        m'.dropped.Perm (((Alarms.after ops).registered.filter fun entry =>
          (Alarms.after ops).now < entry.1).map Prod.snd)) := by
  have hlists : ((system σ).runFrom (.new σ) ops).map Memory.timer =
      (Time.system σ).runFrom (.new σ) ops := memory_refines ops
  rw [h, Option.map_some] at hlists
  have hr : Refines m m.timer := by
    have hrun : Option.Rel Refines ((system σ).runFrom (.new σ) ops)
        ((Time.system σ).runFrom (.new σ) ops) := new_refines.run ops
    rw [h, ← hlists] at hrun
    cases hrun with
    | some hr => exact hr
  obtain ⟨m', hdrop, hfreed, hwoken, hdropped⟩ := hr.drop
  refine ⟨m', hdrop, hfreed, ?_, fun hadmits => ?_⟩
  · have hrecorded := new_recorded.run hlists.symm
    unfold Recorded at hrecorded
    rw [hwoken, ← Multiset.coe_add, hdropped, add_assoc, ← Multiset.map_add,
      add_comm (Multiset.filter _ _), Multiset.filter_add_not]
    exact hrecorded
  · obtain ⟨t, ht, hexact⟩ := Time.new_refines.run hadmits
    have htimer : m.timer = t := Option.some_inj.mp (hlists.trans ht)
    rw [htimer] at hdropped hr
    constructor
    · rw [hwoken, hr.elim fun _ hv => hv.1.woken]
      exact hexact.woken_perm
    · rw [← Multiset.coe_eq_coe, hdropped]
      exact pending_later hexact

/-- One sleeper is woken, the second waits in the node after it, the third in the spare one. -/
def droppedOps : List (Op ℕ) := [.timeout 2 7, .update 1, .timeout 20 8, .update 3, .timeout 5 9]

theorem droppedOps_released : ∃ m m', (system ℕ).runFrom (.new ℕ) droppedOps = some m ∧
    m.drop = some m' ∧ (∀ a, m'.heap a = none) ∧
    (m'.woken.map fun wake => (wake.1.toNat, wake.2)).Perm [(2, 7)] ∧ m'.dropped.Perm [8, 9] :=
  have hr : ((system ℕ).runFrom (.new ℕ) droppedOps).isSome = true := by decide +kernel
  have ⟨m', hdrop, hfreed, _, hadmitted⟩ := sessions_released (Option.some_get hr).symm
  have ⟨hwoken, hdropped⟩ := hadmitted (by decide)
  ⟨_, m', (Option.some_get hr).symm, hdrop, hfreed, hwoken, hdropped⟩

end TimerNodes
