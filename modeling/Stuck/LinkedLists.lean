import Mathlib.Logic.Function.Basic
import Mathlib.Data.List.Perm.Subperm

/-! Singly linked lists in a heap. Each cell belongs to the list of one root, and is in it once;
the rules move cells between the lists, one link at a time. -/
namespace LinkedLists

variable {α ι : Type*}

structure Cell (α : Type*) where
  next : Option ℕ
  value : α
  deriving DecidableEq, Repr

/-- The allocated cells by their addresses. -/
abbrev Heap (α : Type*) := ℕ → Option (Cell α)

/-- The cells that a link leads to. -/
def Chain (heap : Heap α) : Option ℕ → List (ℕ × α) → Prop
  | link, [] => link = none
  | link, node :: rest => link = some node.1 ∧
    ∃ next, heap node.1 = some ⟨next, node.2⟩ ∧ Chain heap next rest

/-- What can be read along a link within so many cells. -/
def follow (heap : Heap α) : ℕ → Option ℕ → List α
  | fuel + 1, some a =>
    match heap a with
    | some cell => cell.value :: follow heap fuel cell.next
    | none => []
  | _, _ => []

def addresses (list : List (ℕ × α)) : List ℕ := list.map Prod.fst

variable {heap other : Heap α} {link : Option ℕ} {list : List (ℕ × α)}

@[simp] theorem addresses_nil : addresses ([] : List (ℕ × α)) = [] := rfl

@[simp] theorem addresses_cons (node : ℕ × α) :
    addresses (node :: list) = node.1 :: addresses list := rfl

@[simp] theorem addresses_append (more : List (ℕ × α)) :
    addresses (list ++ more) = addresses list ++ addresses more := List.map_append

theorem ne_of_notMem {a b : ℕ} {v : α} (h : b ∉ addresses [(a, v)]) : b ≠ a := by
  rintro rfl
  exact h (List.mem_singleton_self b)

theorem Chain.nil : Chain heap none [] := rfl

theorem Chain.single {a : ℕ} {v : α} (h : heap a = some ⟨none, v⟩) :
    Chain heap (some a) [(a, v)] := ⟨rfl, none, h, rfl⟩

theorem Chain.follow {fuel : ℕ} (h : Chain heap link list) (hf : list.length ≤ fuel) :
    follow heap fuel link = list.map Prod.snd := by
  induction list generalizing link fuel with
  | nil =>
    cases h
    cases fuel <;> rfl
  | cons node rest ih =>
    obtain ⟨rfl, next, hcell, hrest⟩ := h
    cases fuel with
    | zero => cases hf
    | succ fuel =>
      rw [LinkedLists.follow, hcell, List.map_cons]
      exact congrArg (node.2 :: ·) (ih hrest (Nat.le_of_succ_le_succ hf))

/-- Frame: a chain sees its own cells only. -/
theorem Chain.frame (h : Chain heap link list)
    (hsame : ∀ a ∈ addresses list, other a = heap a) : Chain other link list := by
  induction list generalizing link with
  | nil => exact h
  | cons node rest ih =>
    obtain ⟨hlink, next, hcell, hrest⟩ := h
    refine ⟨hlink, next, ?_, ih hrest fun a ha => hsame a (List.mem_cons_of_mem _ ha)⟩
    rw [hsame node.1 List.mem_cons_self, hcell]

theorem Chain.update (h : Chain heap link list) {a : ℕ} (ha : a ∉ addresses list)
    (cell : Option (Cell α)) : Chain (Function.update heap a cell) link list := by
  apply h.frame
  intro b hb
  have hne : b ≠ a := by
    rintro rfl
    exact ha hb
  exact Function.update_of_ne hne _ _

theorem Chain.allocated (h : Chain heap link list) {a : ℕ} (ha : a ∈ addresses list) :
    (heap a).isSome = true := by
  induction list generalizing link with
  | nil => cases ha
  | cons node rest ih =>
    obtain ⟨_, next, hcell, hrest⟩ := h
    rcases List.mem_cons.mp ha with rfl | ha
    · rw [hcell]
      rfl
    · exact ih hrest ha

/-- The cell at the end of a chain links to nothing, and something may be linked to it. -/
theorem Chain.snoc {a b : ℕ} {v w : α} (h : Chain heap link (list ++ [(b, w)]))
    (hb : b ∉ addresses list) (ha : heap a = some ⟨none, v⟩) (hab : a ≠ b)
    (hlist : a ∉ addresses list) : heap b = some ⟨none, w⟩ ∧
      Chain (Function.update heap b (some ⟨some a, w⟩)) link (list ++ [(b, w)] ++ [(a, v)]) := by
  induction list generalizing link with
  | nil =>
    obtain ⟨rfl, next, hcell, rfl⟩ := h
    refine ⟨hcell, rfl, some a, Function.update_self _ _ _, rfl, none, ?_, rfl⟩
    rw [Function.update_of_ne hab, ha]
  | cons node rest ih =>
    obtain ⟨rfl, next, hcell, hrest⟩ := h
    obtain ⟨hlast, hchain⟩ := ih hrest (fun hm => hb (List.mem_cons_of_mem _ hm))
      fun hm => hlist (List.mem_cons_of_mem _ hm)
    refine ⟨hlast, rfl, next, ?_, hchain⟩
    have hne : node.1 ≠ b := by
      rintro rfl
      exact hb List.mem_cons_self
    rw [Function.update_of_ne hne, hcell]

/-- No cell is in two lists, or in one of them twice. -/
structure Apart (lists : ι → List (ℕ × α)) : Prop where
  nodup : ∀ i, (addresses (lists i)).Nodup
  one : ∀ i j a, a ∈ addresses (lists i) → a ∈ addresses (lists j) → i = j

section Exchange

variable {lists new : ι → List (ℕ × α)} {i j : ι}

/-- Two lists exchange cells. -/
theorem mem_exchanged (hother : ∀ k, k ≠ i → k ≠ j → new k = lists k)
    (hpair : (addresses (new i) ++ addresses (new j)).Perm
      (addresses (lists i) ++ addresses (lists j))) {k : ι} {a : ℕ}
    (hk : a ∈ addresses (new k)) :
    (k = i ∨ k = j) ∧ (a ∈ addresses (lists i) ∨ a ∈ addresses (lists j)) ∨
      k ≠ i ∧ k ≠ j ∧ a ∈ addresses (lists k) := by
  by_cases hki : k = i
  · left
    refine ⟨Or.inl hki, List.mem_append.mp (hpair.mem_iff.mp (List.mem_append.mpr (Or.inl ?_)))⟩
    rwa [← hki]
  · by_cases hkj : k = j
    · left
      refine ⟨Or.inr hkj, List.mem_append.mp (hpair.mem_iff.mp (List.mem_append.mpr (Or.inr ?_)))⟩
      rwa [← hkj]
    · right
      exact ⟨hki, hkj, hother k hki hkj ▸ hk⟩

theorem Apart.exchange (h : Apart lists) (hij : i ≠ j)
    (hother : ∀ k, k ≠ i → k ≠ j → new k = lists k)
    (hpair : (addresses (new i) ++ addresses (new j)).Perm
      (addresses (lists i) ++ addresses (lists j))) : Apart new := by
  have hboth : (addresses (new i) ++ addresses (new j)).Nodup := by
    rw [hpair.nodup_iff]
    refine List.nodup_append.mpr ⟨h.nodup i, h.nodup j, fun a ha b hb => ?_⟩
    rintro rfl
    exact hij (h.one i j a ha hb)
  obtain ⟨hi, hj, hdisjoint⟩ := List.nodup_append.mp hboth
  constructor
  · intro k
    by_cases hki : k = i
    · rw [hki]
      exact hi
    · by_cases hkj : k = j
      · rw [hkj]
        exact hj
      · rw [hother k hki hkj]
        exact h.nodup k
  · intro k l a hk hl
    rcases mem_exchanged hother hpair hk with ⟨hk', hold⟩ | ⟨hki, hkj, hk'⟩
    · rcases mem_exchanged hother hpair hl with ⟨hl', _⟩ | ⟨hli, hlj, hl'⟩
      · rcases hk' with rfl | rfl <;> rcases hl' with rfl | rfl
        · rfl
        · exact absurd rfl (hdisjoint a hk a hl)
        · exact absurd rfl (hdisjoint a hl a hk)
        · rfl
      · rcases hold with hold | hold
        · exact absurd (h.one i l a hold hl').symm hli
        · exact absurd (h.one j l a hold hl').symm hlj
    · rcases mem_exchanged hother hpair hl with ⟨_, hold | hold⟩ | ⟨_, _, hl'⟩
      · exact absurd (h.one k i a hk' hold) hki
      · exact absurd (h.one k j a hk' hold) hkj
      · exact h.one k l a hk' hl'

end Exchange

/-- Each root leads to its list, and every allocated cell is in one. -/
structure Owned (heap : Heap α) (root : ι → Option ℕ) (lists : ι → List (ℕ × α)) : Prop where
  chain : ∀ i, Chain heap (root i) (lists i)
  apart : Apart lists
  covers : ∀ a, (heap a).isSome = true → ∃ i, a ∈ addresses (lists i)

section Rules

variable {root : ι → Option ℕ} {lists : ι → List (ℕ × α)} {i j : ι} {a : ℕ} {v : α}

theorem Owned.cell (h : Owned heap root lists) {rest : List (ℕ × α)}
    (hi : lists i = (a, v) :: rest) :
    root i = some a ∧ ∃ next, heap a = some ⟨next, v⟩ ∧ Chain heap next rest := by
  have hc := h.chain i
  rw [hi] at hc
  exact hc

theorem Owned.empty (h : Owned heap root lists) (hi : lists i = []) : root i = none := by
  have hc := h.chain i
  rwa [hi] at hc

theorem Owned.only (h : Owned heap root lists) (hi : lists i = [(a, v)]) :
    root i = some a ∧ heap a = some ⟨none, v⟩ := by
  obtain ⟨hroot, next, hcell, hnext⟩ := h.cell hi
  exact ⟨hroot, hnext ▸ hcell⟩

/-- As many cells as a bound allows. -/
theorem Owned.length_le (h : Owned heap root lists) {bound : ℕ}
    (hb : ∀ a, (heap a).isSome = true → a < bound) (i : ι) : (lists i).length ≤ bound := by
  have hsub : addresses (lists i) ⊆ List.range bound := fun a ha =>
    List.mem_range.mpr (hb a ((h.chain i).allocated ha))
  have hle := (List.subperm_of_subset (h.apart.nodup i) hsub).length_le
  rwa [addresses, List.length_map, List.length_range] at hle

variable [DecidableEq ι]

/-- Two lists exchange cells, and the links follow; every other chain is framed. -/
theorem Owned.exchange (h : Owned heap root lists) (hij : i ≠ j) {x y : Option ℕ}
    {xs ys : List (ℕ × α)} (hx : Chain other x xs) (hy : Chain other y ys)
    (hpair : (addresses xs ++ addresses ys).Perm (addresses (lists i) ++ addresses (lists j)))
    (hsame : ∀ a, a ∉ addresses (lists i) → a ∉ addresses (lists j) → other a = heap a) :
    Owned other (Function.update (Function.update root i x) j y)
      (Function.update (Function.update lists i xs) j ys) := by
  have hother : ∀ k, k ≠ i → k ≠ j →
      Function.update (Function.update lists i xs) j ys k = lists k := by
    intro k hki hkj
    rw [Function.update_of_ne hkj, Function.update_of_ne hki]
  have hi : Function.update (Function.update lists i xs) j ys i = xs := by
    rw [Function.update_of_ne hij, Function.update_self]
  have hj : Function.update (Function.update lists i xs) j ys j = ys := Function.update_self _ _ _
  refine ⟨fun k => ?_, h.apart.exchange hij hother (by rw [hi, hj]; exact hpair), fun b hb => ?_⟩
  · by_cases hkj : k = j
    · subst hkj
      rw [hj, Function.update_self]
      exact hy
    · by_cases hki : k = i
      · subst hki
        rw [hi, Function.update_of_ne hij, Function.update_self]
        exact hx
      · rw [hother k hki hkj, Function.update_of_ne hkj, Function.update_of_ne hki]
        apply (h.chain k).frame
        intro b hb
        exact hsame b (fun hm => hki (h.apart.one k i b hb hm))
          fun hm => hkj (h.apart.one k j b hb hm)
  · by_cases hbi : b ∈ addresses (lists i) ++ addresses (lists j)
    · rcases List.mem_append.mp (hpair.mem_iff.mpr hbi) with hm | hm
      · exact ⟨i, hi.symm ▸ hm⟩
      · exact ⟨j, hj.symm ▸ hm⟩
    · rw [List.mem_append, not_or] at hbi
      rw [hsame b hbi.1 hbi.2] at hb
      obtain ⟨k, hk⟩ := h.covers b hb
      have hki : k ≠ i := fun he => hbi.1 (he ▸ hk)
      have hkj : k ≠ j := fun he => hbi.2 (he ▸ hk)
      exact ⟨k, (hother k hki hkj).symm ▸ hk⟩

/-- The whole chain of a root moves to a root without one. -/
theorem Owned.take (h : Owned heap root lists) (hij : i ≠ j) (hj : lists j = []) :
    Owned heap (Function.update (Function.update root i none) j (root i))
      (Function.update (Function.update lists i []) j (lists i)) := by
  apply h.exchange hij .nil (h.chain i)
  · rw [hj]
    exact List.perm_append_comm
  · intro _ _ _
    rfl

/-- The first cell of a list is unlinked. -/
theorem Owned.pop (h : Owned heap root lists) (hij : i ≠ j) {rest : List (ℕ × α)}
    (hi : lists i = (a, v) :: rest) (hj : lists j = []) {next : Option ℕ}
    (hcell : heap a = some ⟨next, v⟩) :
    Owned (Function.update heap a (some ⟨none, v⟩))
      (Function.update (Function.update root i next) j (some a))
      (Function.update (Function.update lists i rest) j [(a, v)]) := by
  obtain ⟨_, link, hlink, hrest⟩ := h.cell hi
  rw [hcell, Option.some_inj, Cell.mk.injEq] at hlink
  obtain ⟨rfl, _⟩ := hlink
  have hnodup := h.apart.nodup i
  rw [hi, addresses_cons, List.nodup_cons] at hnodup
  apply h.exchange hij (hrest.update hnodup.1 _)
    (.single (Function.update_self _ _ _))
  · rw [hi, hj]
    exact (List.perm_append_singleton _ _).trans (List.append_nil _ ▸ .refl _)
  · intro b hb _
    rw [hi, addresses_cons, List.mem_cons, not_or] at hb
    exact Function.update_of_ne hb.1 _ _

/-- A single cell is linked before a list. -/
theorem Owned.push (h : Owned heap root lists) (hij : i ≠ j) (hj : lists j = [(a, v)]) :
    Owned (Function.update heap a (some ⟨root i, v⟩))
      (Function.update (Function.update root i (some a)) j none)
      (Function.update (Function.update lists i ((a, v) :: lists i)) j []) := by
  have ha : a ∉ addresses (lists i) := fun hm =>
    hij (h.apart.one i j a hm (hj ▸ List.mem_singleton_self a))
  have hx : Chain (Function.update heap a (some ⟨root i, v⟩)) (some a) ((a, v) :: lists i) :=
    ⟨rfl, root i, Function.update_self _ _ _, (h.chain i).update ha _⟩
  apply h.exchange hij hx .nil
  · rw [hj, addresses_nil, List.append_nil]
    exact (List.perm_append_singleton _ _).symm
  · intro b _ hb
    rw [hj] at hb
    exact Function.update_of_ne (ne_of_notMem hb) _ _

/-- A single cell is linked after the last cell of a list. -/
theorem Owned.append (h : Owned heap root lists) (hij : i ≠ j) {init : List (ℕ × α)} {b : ℕ}
    {w : α} (hi : lists i = init ++ [(b, w)]) (hj : lists j = [(a, v)]) :
    heap b = some ⟨none, w⟩ ∧
      Owned (Function.update heap b (some ⟨some a, w⟩))
        (Function.update (Function.update root i (root i)) j none)
        (Function.update (Function.update lists i (lists i ++ [(a, v)])) j []) := by
  have ha : a ∉ addresses (lists i) := fun hm =>
    hij (h.apart.one i j a hm (hj ▸ List.mem_singleton_self a))
  have hnodup := h.apart.nodup i
  rw [hi, addresses_append] at ha hnodup
  rw [List.mem_append, not_or] at ha
  have hb : b ∉ addresses init := fun hm =>
    (List.nodup_append.mp hnodup).2.2 b hm b (List.mem_singleton_self b) rfl
  have hab : a ≠ b := fun he => ha.2 (he ▸ List.mem_singleton_self b)
  obtain ⟨hlast, hchain⟩ := (hi ▸ h.chain i).snoc hb (h.only hj).2 hab ha.1
  refine ⟨hlast, ?_⟩
  rw [← hi] at hchain
  apply h.exchange hij hchain .nil
  · rw [hj, addresses_append, addresses_nil, List.append_nil]
  · intro c hc _
    rw [hi, addresses_append, List.mem_append, not_or] at hc
    exact Function.update_of_ne (ne_of_notMem hc.2) _ _

/-- A list changes by itself, in cells of its own or in new ones. -/
theorem Owned.replace (h : Owned heap root lists) {x : Option ℕ} {xs : List (ℕ × α)}
    (hx : Chain other x xs) (hnodup : (addresses xs).Nodup)
    (hnew : ∀ a ∈ addresses xs, a ∈ addresses (lists i) ∨ heap a = none)
    (hsame : ∀ a, a ∉ addresses (lists i) → a ∉ addresses xs → other a = heap a)
    (hgone : ∀ a ∈ addresses (lists i), a ∉ addresses xs → other a = none) :
    Owned other (Function.update root i x) (Function.update lists i xs) := by
  have hfree : ∀ k, k ≠ i → ∀ a ∈ addresses (lists k), a ∉ addresses (lists i) ∧
      a ∉ addresses xs := by
    intro k hk a ha
    have hi : a ∉ addresses (lists i) := fun hm => hk (h.apart.one k i a ha hm)
    refine ⟨hi, fun hm => ?_⟩
    rcases hnew a hm with hm | hnone
    · exact hi hm
    · have hsome := (h.chain k).allocated ha
      rw [hnone] at hsome
      cases hsome
  refine ⟨fun k => ?_, ⟨fun k => ?_, fun k l a hk hl => ?_⟩, fun a ha => ?_⟩
  · by_cases hk : k = i
    · subst hk
      rw [Function.update_self, Function.update_self]
      exact hx
    · rw [Function.update_of_ne hk, Function.update_of_ne hk]
      apply (h.chain k).frame
      intro a ha
      exact hsame a (hfree k hk a ha).1 (hfree k hk a ha).2
  · by_cases hk : k = i
    · subst hk
      rwa [Function.update_self]
    · rw [Function.update_of_ne hk]
      exact h.apart.nodup k
  · by_cases hki : k = i <;> by_cases hli : l = i
    · rw [hki, hli]
    · subst hki
      rw [Function.update_self] at hk
      rw [Function.update_of_ne hli] at hl
      exact absurd hk (hfree l hli a hl).2
    · subst hli
      rw [Function.update_self] at hl
      rw [Function.update_of_ne hki] at hk
      exact absurd hl (hfree k hki a hk).2
    · rw [Function.update_of_ne hki] at hk
      rw [Function.update_of_ne hli] at hl
      exact h.apart.one k l a hk hl
  · by_cases hxs : a ∈ addresses xs
    · exact ⟨i, (Function.update_self i xs lists).symm ▸ hxs⟩
    · by_cases hi : a ∈ addresses (lists i)
      · rw [hgone a hi hxs] at ha
        cases ha
      · rw [hsame a hi hxs] at ha
        obtain ⟨k, hk⟩ := h.covers a ha
        have hki : k ≠ i := fun he => hi (he ▸ hk)
        exact ⟨k, (Function.update_of_ne hki xs lists).symm ▸ hk⟩

/-- A new cell. -/
theorem Owned.alloc (h : Owned heap root lists) (hi : lists i = []) (ha : heap a = none) (v : α) :
    Owned (Function.update heap a (some ⟨none, v⟩)) (Function.update root i (some a))
      (Function.update lists i [(a, v)]) := by
  apply h.replace (.single (Function.update_self _ _ _)) (by simp)
  · intro b hb
    rw [List.mem_singleton.mp hb]
    exact Or.inr ha
  · intro b _ hb
    exact Function.update_of_ne (ne_of_notMem hb) _ _
  · intro b hb
    rw [hi] at hb
    cases hb

/-- The value of a single cell is written. -/
theorem Owned.write (h : Owned heap root lists) (hi : lists i = [(a, v)]) (w : α) :
    Owned (Function.update heap a (some ⟨none, w⟩)) (Function.update root i (some a))
      (Function.update lists i [(a, w)]) := by
  apply h.replace (.single (Function.update_self _ _ _)) (by simp)
  · intro b hb
    rw [hi]
    exact Or.inl hb
  · intro b _ hb
    exact Function.update_of_ne (ne_of_notMem hb) _ _
  · intro b hb hn
    rw [hi] at hb
    exact absurd hb hn

/-- The first cell of a list is freed. -/
theorem Owned.free (h : Owned heap root lists) {rest : List (ℕ × α)}
    (hi : lists i = (a, v) :: rest) {next : Option ℕ} (hcell : heap a = some ⟨next, v⟩) :
    Owned (Function.update heap a none) (Function.update root i next)
      (Function.update lists i rest) := by
  obtain ⟨_, link, hlink, hrest⟩ := h.cell hi
  rw [hcell, Option.some_inj, Cell.mk.injEq] at hlink
  obtain ⟨rfl, _⟩ := hlink
  have hnodup := h.apart.nodup i
  rw [hi, addresses_cons, List.nodup_cons] at hnodup
  apply h.replace (hrest.update hnodup.1 _) hnodup.2
  · intro b hb
    rw [hi]
    exact Or.inl (List.mem_cons_of_mem _ hb)
  · intro b hb _
    rw [hi, addresses_cons, List.mem_cons, not_or] at hb
    exact Function.update_of_ne hb.1 _ _
  · intro b hb hn
    rw [hi, addresses_cons, List.mem_cons] at hb
    rcases hb with rfl | hb
    · exact Function.update_self _ _ _
    · exact absurd hb hn

end Rules

end LinkedLists
