import Mathlib.Data.List.Rotate
import Mathlib.Data.List.Perm.Basic

/-! `Select::try_select` (src/select.rs) and the clauses of `select!` (src/select_macro.rs). The
selectables share a state, which each question about a permit may change; a panic is `none`. -/
namespace Select

/-- `select::Permit`. -/
structure Permit where
  primitive : ℕ
  attendant : Option ℕ
  deriving DecidableEq, Repr

inductive TrySelectError where
  | wouldBlock | completed
  deriving DecidableEq, Repr

/-- The slice of a `select!`; a disabled branch is `none`. -/
abbrev Slice (α : Type*) := List (Option α)

structure Enumerator (α : Type*) where
  next : ℕ
  stop : ℕ
  selectables : Slice α
  deriving DecidableEq, Repr

variable {α σ : Type*}

/-- The remainder by the length of an empty slice panics. -/
def Enumerator.new (rand : ℕ) (selectables : Slice α) : Option (Enumerator α) :=
  if selectables.length = 0 then none
  else
    let start := rand % selectables.length
    some ⟨start, start + selectables.length, selectables⟩

/-- `Iterator::next`. -/
def Enumerator.next? (e : Enumerator α) : Option ((ℕ × Option α) × Enumerator α) :=
  if e.stop ≤ e.next then none
  else
    let index := e.next % e.selectables.length
    some ((index, e.selectables[index]?.join), { e with next := e.next + 1 })

/-- What a `for` loop over the enumerator goes through. -/
def Enumerator.collect : ℕ → Enumerator α → List (ℕ × Option α)
  | 0, _ => []
  | fuel + 1, e =>
    match e.next? with
    | none => []
    | some (item, e) => item :: Enumerator.collect fuel e

def Enumerator.items (e : Enumerator α) : List (ℕ × Option α) := e.collect (e.stop - e.next)

section TrySelect

variable (selectPermit : α → σ → Except TrySelectError Permit × σ)

/-- The loop of `try_select`. -/
def poll : List (ℕ × Option α) → TrySelectError → σ → Except TrySelectError (ℕ × Permit) × σ
  | [], err, s => (.error err, s)
  | (_, none) :: rest, err, s => poll rest err s
  | (index, some selectable) :: rest, err, s =>
    match selectPermit selectable s with
    | (.ok permit, s) => (.ok (index, permit), s)
    | (.error .wouldBlock, s) => poll rest .wouldBlock s
    | (.error .completed, s) => poll rest err s

/-- `Select::try_select`. A selectable answers what it is asked (`selectPermit`): one that panics
there is left out. -/
def trySelect (rand : ℕ) (selectables : Slice α) (s : σ) :
    Option (Except TrySelectError (ℕ × Permit) × σ) :=
  (Enumerator.new rand selectables).map fun e => poll selectPermit e.items .completed s

/-- The arm that `select!` runs; without a `default` clause it goes on to wait for a permit. -/
inductive Arm where
  | branch (index : ℕ) (permit : Permit)
  | default
  | complete
  | waits
  | panicked
  deriving DecidableEq, Repr

/-- The `@add` rules of the macro, for which of the two clauses it has. -/
def arm (hasDefault hasComplete : Bool) : Except TrySelectError (ℕ × Permit) → Arm
  | .ok (index, permit) => .branch index permit
  | .error .completed =>
    if hasComplete then .complete else if hasDefault then .default else .panicked
  | .error .wouldBlock => if hasDefault then .default else .waits

def runSelect (hasDefault hasComplete : Bool) (rand : ℕ) (selectables : Slice α) (s : σ) : Arm :=
  match trySelect selectPermit rand selectables s with
  | none => .panicked
  | some (result, _) => arm hasDefault hasComplete result

/-- The selectables are asked in this order and refuse with these errors. -/
inductive Refuses (selectables : Slice α) : σ → List (ℕ × TrySelectError) → σ → Prop where
  | nil {s} : Refuses selectables s [] s
  | cons {s m t index selectable err asked} : selectables[index]? = some (some selectable) →
      selectPermit selectable s = (.error err, m) → Refuses selectables m asked t →
      Refuses selectables s ((index, err) :: asked) t

/-- What a `try_select` is to answer: the first permit that is granted, where each present
selectable is asked at most once, or an error when all of them have refused. -/
inductive Answers (selectables : Slice α) (s : σ) :
    Except TrySelectError (ℕ × Permit) → σ → Prop where
  | granted {asked m t index permit selectable} : Refuses selectPermit selectables s asked m →
      (asked.map Prod.fst).Nodup → index ∉ asked.map Prod.fst →
      selectables[index]? = some (some selectable) →
      selectPermit selectable m = (.ok permit, t) → Answers selectables s (.ok (index, permit)) t
  | refused {asked t err} : Refuses selectPermit selectables s asked t →
      (asked.map Prod.fst).Nodup →
      (∀ index selectable, selectables[index]? = some (some selectable) →
        index ∈ asked.map Prod.fst) →
      (err = .completed ↔ ∀ a ∈ asked, a.2 = .completed) →
      (err = .wouldBlock ↔ ∃ a ∈ asked, a.2 = .wouldBlock) → Answers selectables s (.error err) t

end TrySelect

variable {e : Enumerator α} {l : Slice α} {rand : ℕ}

/-- The items from the cursor on. -/
theorem collect_eq {fuel : ℕ} (h : e.next + fuel = e.stop) : e.collect fuel =
    (List.range' e.next fuel).map fun n =>
      (n % e.selectables.length, e.selectables[n % e.selectables.length]?.join) := by
  induction fuel generalizing e with
  | zero => rfl
  | succ fuel ih =>
    have hlt : ¬ e.stop ≤ e.next := by omega
    have hnext : e.next? = some ((e.next % e.selectables.length,
        e.selectables[e.next % e.selectables.length]?.join), { e with next := e.next + 1 }) :=
      if_neg hlt
    rw [Enumerator.collect, hnext, List.range'_succ, List.map_cons]
    dsimp only
    rw [ih (by dsimp only; omega)]

/-- The order is the one of the slice, rotated by the start. -/
theorem items_eq (h : Enumerator.new rand l = some e) :
    e.items = ((List.range l.length).rotate rand).map fun index => (index, l[index]?.join) := by
  unfold Enumerator.new at h
  by_cases hl : l.length = 0
  · rw [if_pos hl] at h
    cases h
  rw [if_neg hl] at h
  cases h
  rw [Enumerator.items, collect_eq (by dsimp only; omega)]
  dsimp only
  apply List.ext_getElem
  · simp
  · intro n h1 h2
    have hn : (rand % l.length + n) % l.length = (n + rand) % l.length := by
      rw [Nat.add_comm n rand, Nat.add_mod, Nat.mod_mod, ← Nat.add_mod]
    simp [List.getElem_rotate, hn]

/-- A refusal of each present selectable among the items, in their order, unless one grants. -/
theorem poll_spec (selectPermit : α → σ → Except TrySelectError Permit × σ)
    {items : List (ℕ × Option α)} (hl : ∀ item ∈ items, item.2 = l[item.1]?.join)
    (err : TrySelectError) (s : σ) :
    ∃ asked m, Refuses selectPermit l s asked m ∧
      ((∃ index selectable permit t, poll selectPermit items err s = (.ok (index, permit), t) ∧
          l[index]? = some (some selectable) ∧ selectPermit selectable m = (.ok permit, t) ∧
          (asked.map Prod.fst ++ [index]).Sublist (items.map Prod.fst)) ∨
        (poll selectPermit items err s = (.error (if asked.any fun a => a.2 == .wouldBlock
            then .wouldBlock else err), m) ∧
          asked.map Prod.fst = (items.filter fun item => item.2.isSome).map Prod.fst)) := by
  induction items generalizing err s with
  | nil => exact ⟨[], s, .nil, Or.inr ⟨rfl, rfl⟩⟩
  | cons item rest ih =>
    have ih := ih fun item hi => hl item (by simp [hi])
    obtain ⟨index, entry⟩ := item
    cases entry with
    | none =>
      obtain ⟨asked, m, hr, h⟩ := ih err s
      refine ⟨asked, m, hr, ?_⟩
      rcases h with ⟨index', selectable, permit, t, hp, hs, hg, hsub⟩ | ⟨hp, ha⟩
      · exact Or.inl ⟨index', selectable, permit, t, hp, hs, hg, hsub.cons _⟩
      · exact Or.inr ⟨hp, by simpa using ha⟩
    | some selectable =>
      have hentry : l[index]? = some (some selectable) := by
        have := hl (index, some selectable) (by simp)
        cases hx : l[index]? with
        | none => simp [hx] at this
        | some x => simpa [hx] using this.symm
      simp only [poll]
      cases hg : selectPermit selectable s with
      | mk answer t =>
        cases answer with
        | ok permit =>
          exact ⟨[], s, .nil, Or.inl ⟨index, selectable, permit, t, rfl, hentry, hg, by simp⟩⟩
        | error e =>
          cases e with
          | wouldBlock =>
            obtain ⟨asked, m, hr, h⟩ := ih .wouldBlock t
            refine ⟨(index, .wouldBlock) :: asked, m, .cons hentry hg hr, ?_⟩
            rcases h with ⟨index', selectable', permit, t, hp, hs, hg, hsub⟩ | ⟨hp, ha⟩
            · exact Or.inl ⟨index', selectable', permit, t, hp, hs, hg, by simpa using hsub⟩
            · exact Or.inr ⟨by simpa using hp, by simpa using ha⟩
          | completed =>
            obtain ⟨asked, m, hr, h⟩ := ih err t
            refine ⟨(index, .completed) :: asked, m, .cons hentry hg hr, ?_⟩
            rcases h with ⟨index', selectable', permit, t, hp, hs, hg, hsub⟩ | ⟨hp, ha⟩
            · exact Or.inl ⟨index', selectable', permit, t, hp, hs, hg, by simpa using hsub⟩
            · refine Or.inr ⟨?_, by simpa using ha⟩
              rw [List.any_cons]
              exact hp

theorem new_eq_none : Enumerator.new rand l = none ↔ l = [] := by
  unfold Enumerator.new
  by_cases hl : l.length = 0
  · rw [if_pos hl]
    exact ⟨fun _ => List.length_eq_zero_iff.mp hl, fun _ => rfl⟩
  · rw [if_neg hl]
    exact ⟨nofun, fun h => absurd (h ▸ rfl) hl⟩

theorem mem_items (h : Enumerator.new rand l = some e) {item : ℕ × Option α} :
    item ∈ e.items ↔ item.1 < l.length ∧ item.2 = l[item.1]?.join := by
  rw [items_eq h, List.mem_map]
  constructor
  · rintro ⟨index, hi, rfl⟩
    exact ⟨by simpa using hi, rfl⟩
  · rintro ⟨hlt, he⟩
    exact ⟨item.1, by simpa using hlt, Prod.ext rfl he.symm⟩

theorem items_nodup (h : Enumerator.new rand l = some e) : (e.items.map Prod.fst).Nodup := by
  rw [items_eq h, List.map_map]
  exact (List.nodup_rotate.mpr List.nodup_range).map fun _ _ hxy => hxy

theorem trySelect_answers {selectPermit : α → σ → Except TrySelectError Permit × σ} {s t : σ}
    {result : Except TrySelectError (ℕ × Permit)}
    (h : trySelect selectPermit rand l s = some (result, t)) :
    Answers selectPermit l s result t := by
  obtain ⟨e, he, hp⟩ := Option.map_eq_some_iff.mp h
  have hnodup := items_nodup he
  obtain ⟨asked, m, hr, hspec⟩ := poll_spec selectPermit
    (fun item hi => ((mem_items he).mp hi).2) .completed s
  rcases hspec with ⟨index, selectable, permit, t', hp', hs, hg, hsub⟩ | ⟨hp', ha⟩
  · rw [hp'] at hp
    cases hp
    obtain ⟨hn, _, hd⟩ := List.nodup_append.mp (hnodup.sublist hsub)
    exact .granted hr hn (fun hm => hd index hm index (by simp) rfl) hs hg
  · rw [hp'] at hp
    cases hp
    have hsub : (asked.map Prod.fst).Sublist (e.items.map Prod.fst) := by
      rw [ha]
      exact List.filter_sublist.map _
    refine .refused hr (hnodup.sublist hsub) (fun index selectable hi => ?_) ?_ ?_
    · rw [ha, List.mem_map]
      have hlt : index < l.length := (List.getElem?_eq_some_iff.mp hi).1
      exact ⟨(index, some selectable),
        List.mem_filter.mpr ⟨(mem_items he).mpr ⟨hlt, by rw [hi]; rfl⟩, rfl⟩, rfl⟩
    · by_cases hw : (asked.any fun a => a.2 == .wouldBlock) = true
      · rw [if_pos hw]
        obtain ⟨a, hm, hw⟩ := List.any_eq_true.mp hw
        refine ⟨nofun, fun hall => ?_⟩
        rw [hall a hm] at hw
        cases hw
      · rw [if_neg hw]
        refine ⟨fun _ a hm => ?_, fun _ => rfl⟩
        cases hc : a.2 with
        | completed => rfl
        | wouldBlock => exact absurd (List.any_eq_true.mpr ⟨a, hm, by rw [hc]; rfl⟩) hw
    · by_cases hw : (asked.any fun a => a.2 == .wouldBlock) = true
      · rw [if_pos hw]
        refine ⟨fun _ => ?_, fun _ => rfl⟩
        obtain ⟨a, hm, hw⟩ := List.any_eq_true.mp hw
        exact ⟨a, hm, by simpa using hw⟩
      · rw [if_neg hw]
        refine ⟨nofun, fun ⟨a, hm, hc⟩ => ?_⟩
        exact absurd (List.any_eq_true.mpr ⟨a, hm, by rw [hc]; rfl⟩) hw

/-- A slice of disabled branches is completed without a question. -/
theorem trySelect_disabled {selectPermit : α → σ → Except TrySelectError Permit × σ} {s : σ}
    (hl : l ≠ []) (hn : ∀ entry ∈ l, entry = none) :
    trySelect selectPermit rand l s = some (.error .completed, s) := by
  obtain ⟨e, he⟩ := Option.ne_none_iff_exists'.mp (mt new_eq_none.mp hl)
  have hnone : ∀ item ∈ e.items, item.2 = none := by
    intro item hi
    obtain ⟨hlt, hitem⟩ := (mem_items he).mp hi
    rw [hitem, List.getElem?_eq_getElem hlt]
    exact hn _ (List.getElem_mem hlt)
  have hpoll : ∀ items : List (ℕ × Option α), (∀ item ∈ items, item.2 = none) →
      poll selectPermit items .completed s = (.error .completed, s) := by
    intro items
    induction items with
    | nil => exact fun _ => rfl
    | cons item rest ih =>
      intro hi
      obtain ⟨index, entry⟩ := item
      obtain rfl : entry = none := hi (index, entry) (by simp)
      exact ih fun item hm => hi item (by simp [hm])
  rw [trySelect, he, Option.map_some, hpoll _ hnone]

/-- `try_select` panics on the empty slice and only there; otherwise it answers as it should. So a
`select!` without enabled branches runs its `complete` or `default` clause just if its slice is not
empty. -/
theorem try_select_exact (selectPermit : α → σ → Except TrySelectError Permit × σ) (rand : ℕ)
    (l : Slice α) (s : σ) :
    (trySelect selectPermit rand l s = none ↔ l = []) ∧
    (∀ result t, trySelect selectPermit rand l s = some (result, t) →
      Answers selectPermit l s result t) ∧
    ∀ hasDefault hasComplete, (hasDefault || hasComplete) = true → (∀ entry ∈ l, entry = none) →
      (runSelect selectPermit hasDefault hasComplete rand l s =
        (if hasComplete then .complete else .default) ↔ l ≠ []) := by
  have hnone : trySelect selectPermit rand l s = none ↔ l = [] := by
    rw [trySelect, Option.map_eq_none_iff, new_eq_none]
  refine ⟨hnone, fun _ _ h => trySelect_answers h, fun hasDefault hasComplete hc hn => ?_⟩
  unfold runSelect
  constructor
  · rintro h rfl
    rw [hnone.mpr rfl] at h
    cases hasComplete <;> cases h
  · intro hl
    rw [trySelect_disabled hl hn]
    cases hasDefault <;> cases hasComplete <;> first | rfl | cases hc

/-- A `select!` whose only clause is `default`, or `complete`, has an empty slice. -/
theorem clause_alone_panics :
    trySelect (fun (_ : Unit) (s : ℕ) => (.error .wouldBlock, s)) 5 [] 0 = none ∧
      runSelect (fun (_ : Unit) (s : ℕ) => (.error .wouldBlock, s)) true false 5 [] 0 =
        .panicked ∧
      runSelect (fun (_ : Unit) (s : ℕ) => (.error .wouldBlock, s)) false true 5 [] 0 =
        .panicked :=
  ⟨rfl, rfl, rfl⟩

end Select
