import Stuck.SharedTypes
import Stuck.TransitionSystem
import Mathlib.Data.Int.Notation
import Mathlib.Data.List.Basic
import Mathlib.Data.List.Count
import Mathlib.Logic.Function.Basic

/-! The handles of a channel (src/channel/shared.rs) over any implementation of the trait, under
calls that block and selects that come back to consume their permit later. A removal counts down
first and closes the channel in a step of its own. -/
namespace HandleCounting

open TransitionSystem SharedTypes

/-- How a handle gives up its place in the counter: a call was refused, `close` or `terminate` took
the channel out, or the handle is dropped. -/
inductive Departure where
  | refused | taken | dropped
  deriving DecidableEq, Repr

/-- `leaving` is a handle that has counted its side down to zero and not closed the channel yet. -/
inductive Handle where
  | attached
  | leaving (way : Departure)
  | detached
  | dropped
  deriving DecidableEq, Repr

def Departure.after : Departure → Handle
  | .refused | .taken => .detached
  | .dropped => .dropped

/-- The handle after a panic of `State::close`: only a refused call has the channel still in it. -/
def Departure.unwound : Departure → Handle
  | .refused => .attached
  | .taken => .detached
  | .dropped => .dropped

/-- The call that detaches the handle has not returned. -/
def Handle.held : Handle → Bool
  | .attached | .leaving _ => true
  | .detached | .dropped => false

/-- The counter of one side and the handles of that side. -/
structure Tally where
  count : ℤ
  handles : List Handle
  deriving DecidableEq, Repr

def Tally.attached (t : Tally) : ℕ := t.handles.count .attached

/-- `Clone` of an attached handle. -/
def Tally.add (t : Tally) : Tally := ⟨t.count + 1, t.handles ++ [.attached]⟩

/-- `Sender::empty` and `Receiver::empty`. -/
def Tally.addEmpty (t : Tally) : Tally := { t with handles := t.handles ++ [.detached] }

def Tally.set (t : Tally) (h : ℕ) (handle : Handle) : Tally :=
  { t with handles := t.handles.set h handle }

/-- `remove_sender` and `remove_receiver` up to the lock. -/
def Tally.remove (t : Tally) (h : ℕ) (way : Departure) : Tally :=
  { t with count := t.count - 1 }.set h (if t.count = 1 then .leaving way else way.after)

/-- How far a call has got, as its handle sees it. `refused` is the error `Closed`, or the `None` of
a consumed receive. -/
inductive Stage where
  | running
  | permitted (permit : Permit)
  | returned (refused : Bool)
  deriving DecidableEq, Repr

/-- What an event of the channel is to the handles. -/
inductive Role where
  | call (side : Side)
  | select (slice : Slice)
  | consume (call : ℕ)
  | close
  | inner
  deriving DecidableEq, Repr

/-- An implementation of `trait Channel` under calls. `picks` tells the branch that a select gets
with an event, and `poisoned` is a mutex whose lock panics. -/
structure Kind (κ ε : Type*) where
  system : System κ ε
  closed : κ → Bool
  poisoned : κ → Bool
  close : ε
  created : κ → ℕ
  stage : κ → ℕ → Stage
  role : ε → Role
  picks : κ → ε → Option (ℕ × ℕ)

/-- The handles that a call borrows. -/
inductive Use where
  | call (side : Side) (h : ℕ)
  | select (branches : List (Option (Side × ℕ))) (picked : Option ℕ)
  deriving DecidableEq, Repr

/-- The handle that the outcome of the call is for. -/
def Use.handle : Use → Option (Side × ℕ)
  | .call side h => some (side, h)
  | .select branches picked => picked.bind fun index => branches[index]?.join

variable {κ ε : Type*}

/-- `closeCalled` records `Receiver::close`; no operation reads it. -/
structure Config (κ : Type*) where
  channel : κ
  tally : Side → Tally
  uses : ℕ → Option Use
  closeCalled : Bool

def Config.handle? (c : Config κ) (side : Side) (h : ℕ) : Option Handle :=
  (c.tally side).handles[h]?

def Config.setTally (c : Config κ) (side : Side) (t : Tally) : Config κ :=
  { c with tally := Function.update c.tally side t }

def Config.use (c : Config κ) (i : ℕ) (use : Option Use) : Config κ :=
  { c with uses := Function.update c.uses i use }

/-- A `send` or `recv` on the handle has not returned. -/
def Config.mutBorrowed (c : Config κ) (K : Kind κ ε) (side : Side) (h : ℕ) : Bool :=
  (List.range (K.created c.channel)).any fun i => c.uses i == some (.call side h)

def Config.borrowed (c : Config κ) (K : Kind κ ε) (side : Side) (h : ℕ) : Bool :=
  c.mutBorrowed K side h || (List.range (K.created c.channel)).any fun i =>
    match c.uses i, K.stage c.channel i with
    | some (.select _ _), .permitted _ => false
    | some (.select branches _), _ => branches.contains (some (side, h))
    | _, _ => false

inductive Event (ε : Type*) where
  | call (side : Side) (h : ℕ) (e : ε)
  | select (branches : List (Option (Side × ℕ))) (e : ε)
  | inner (e : ε)
  | consume (i : ℕ) (e : ε)
  | leave (i : ℕ)
  | settle (i : ℕ)
  | shut (side : Side) (h : ℕ)
  | clone (side : Side) (h : ℕ)
  | take (side : Side) (h : ℕ)
  | drop (side : Side) (h : ℕ)
  | close (h : ℕ) (e : ε)

/-- The channel takes the step `e`. -/
def Config.advance (c : Config κ) (K : Kind κ ε) (e : ε) : Option (Config κ) :=
  (K.system.step c.channel e).map fun channel => { c with channel := channel }

/-- A branch of a `select!` over a detached handle is completed and a disabled entry here. -/
def Config.selectable (c : Config κ) (K : Kind κ ε) : Option (Side × ℕ) → Bool
  | none => true
  | some (side, h) => c.handle? side h == some .attached && !c.mutBorrowed K side h

/-- Operations on a detached handle return at once and are no steps, but for its clone and drop. -/
def Config.step (K : Kind κ ε) (c : Config κ) : Event ε → Option (Config κ)
  | .call side h e =>
    if K.role e = .call side ∧ c.handle? side h = some .attached ∧ c.borrowed K side h = false then
      (c.advance K e).map fun d => d.use (K.created c.channel) (some (.call side h))
    else none
  | .select branches e =>
    if K.role e = .select (branches.map fun branch => branch.map Prod.fst) ∧
        branches.all (c.selectable K) = true then
      (c.advance K e).map fun d => d.use (K.created c.channel)
        (some (.select branches ((K.picks c.channel e).map Prod.snd)))
    else none
  | .inner e =>
    if K.role e = .inner then
      (c.advance K e).map fun d =>
        match K.picks c.channel e with
        | none => d
        | some (i, index) =>
          match c.uses i with
          | some (.select branches _) => d.use i (some (.select branches (some index)))
          | _ => d
    else none
  | .consume i e =>
    if K.role e = .consume i then
      match c.uses i >>= Use.handle, K.stage c.channel i with
      | some (side, h), .permitted permit =>
        if c.borrowed K side h then none
        else
          match c.handle? side h, permit with
          -- Permit::Closed clears the handle without remove_sender or remove_receiver
          | some .attached, .closed => (c.advance K e).map fun d =>
              (d.use i none).setTally side ((c.tally side).set h .detached)
          | some .attached, .consume => c.advance K e
          | some .detached, _ => some (c.use i none)
          | _, _ => none
      | _, _ => none
    else none
  | .leave i =>
    match c.uses i >>= Use.handle, K.stage c.channel i with
    | some (side, h), .returned true =>
      -- borrowed since the call began
      if c.handle? side h = some .attached then
        some ((c.use i none).setTally side ((c.tally side).remove h .refused))
      else none
    | _, _ => none
  | .settle i => if K.stage c.channel i = .returned false then some (c.use i none) else none
  | .shut side h =>
    match c.handle? side h with
    | some (.leaving way) =>
      if K.poisoned c.channel then some (c.setTally side ((c.tally side).set h way.unwound))
      else (c.advance K K.close).map fun d => d.setTally side ((c.tally side).set h way.after)
    | _ => none
  | .clone side h =>
    if c.mutBorrowed K side h then none
    else
      match c.handle? side h with
      | some .attached => some (c.setTally side (c.tally side).add)
      | some .detached => some (c.setTally side (c.tally side).addEmpty)
      | _ => none
  | .take side h =>
    if c.handle? side h = some .attached ∧ c.borrowed K side h = false then
      some (c.setTally side ((c.tally side).remove h .taken))
    else none
  | .drop side h =>
    if c.borrowed K side h then none
    else
      match c.handle? side h with
      | some .attached => some (c.setTally side ((c.tally side).remove h .dropped))
      | some .detached => some (c.setTally side ((c.tally side).set h .dropped))
      | _ => none
  | .close h e =>
    if K.role e = .close ∧ c.handle? .recv h = some .attached ∧ c.borrowed K .recv h = false then
      (c.advance K e).map fun d => { d with closeCalled := true }
    else none

/-- `bounded` and `unbounded`: one sender and one receiver. -/
def handled (K : Kind κ ε) : System (Config κ) (Event ε) where
  init := ⟨K.system.init, fun _ => ⟨1, [.attached]⟩, fun _ => none, false⟩
  step := Config.step K

/-- What the handles rely on: only `close` closes the channel, it fails to only when the mutex is
poisoned, and `Permit::Closed` is granted by a closed channel. -/
structure Kind.Lawful (K : Kind κ ε) : Prop where
  opened : K.closed K.system.init = false
  stays : ∀ c e d, Reachable K.system c → K.system.step c e = some d → K.role e ≠ .close →
    K.closed d = K.closed c
  role_close : K.role K.close = .close
  closes : ∀ c e d, K.system.step c e = some d → K.role e = .close → K.closed d = true
  closable : ∀ c, K.poisoned c = false → (K.system.step c K.close).isSome
  promised : ∀ c i, Reachable K.system c → K.stage c i = .permitted .closed → K.closed c = true

/-- The counters cover the attached handles, a side without handles has closed the channel, and
nothing else has but `Receiver::close`. -/
structure Counted (K : Kind κ ε) (c : Config κ) : Prop where
  covered : ∀ side, 0 ≤ (c.tally side).count ∧ ((c.tally side).attached : ℤ) ≤ (c.tally side).count
  closed : ∀ side, (∀ handle ∈ (c.tally side).handles, handle.held = false) →
    K.closed c.channel = true
  reason : K.closed c.channel = true →
    c.closeCalled = true ∨ ∃ side, (c.tally side).count = 0

/-- The last handle of a side finds the mutex poisoned when it is to close the channel. -/
def Config.poisons (K : Kind κ ε) (c : Config κ) : Event ε → Prop
  | .shut side h => K.poisoned c.channel = true ∧
      (c.handle? side h = some (.leaving .refused) ∨ K.closed c.channel = false)
  | _ => False

/-- The invariant of one side: a counter at zero belongs to the one handle that is about to close
the channel, and only a closed channel lets a handle go without counting it. -/
structure Tally.Sound (t : Tally) (closed : Bool) : Prop where
  covered : (t.attached : ℤ) ≤ t.count
  exact : closed = false → t.count = t.attached
  leaving : ∀ way, Handle.leaving way ∈ t.handles → t.count = 0
  single : ∀ (h k : ℕ) (a b : Departure), t.handles[h]? = some (.leaving a) →
    t.handles[k]? = some (.leaving b) → h = k
  zero : t.count = 0 → closed = true ∨ ∃ way, Handle.leaving way ∈ t.handles

variable {t : Tally} {closed : Bool} {h : ℕ} {handle : Handle} {way : Departure}

theorem attached_set (hh : t.handles[h]? = some handle) (other : Handle) :
    (t.set h other).attached + (if handle = .attached then 1 else 0) =
      t.attached + if other = .attached then 1 else 0 := by
  obtain ⟨hlt, hget⟩ := List.getElem?_eq_some_iff.mp hh
  have hpos : handle = .attached → 0 < t.attached := fun he =>
    List.count_pos_iff.mpr (he ▸ hget ▸ List.getElem_mem hlt)
  unfold Tally.attached Tally.set at *
  rw [List.count_set hlt, hget]
  by_cases ha : handle = .attached
  · have := hpos ha
    simp only [ha, beq_self_eq_true, if_true, beq_iff_eq]
    omega
  · simp only [ha, beq_iff_eq, if_false]
    omega

theorem leaving_of_set {a : Departure} {k : ℕ}
    (hk : (t.set h handle).handles[k]? = some (.leaving a)) :
    (k = h ∧ handle = .leaving a) ∨ (k ≠ h ∧ t.handles[k]? = some (.leaving a)) := by
  unfold Tally.set at hk
  dsimp only at hk
  by_cases he : h = k
  · subst he
    rw [List.getElem?_set_self'] at hk
    obtain ⟨_, _, hk⟩ := Option.map_eq_some_iff.mp hk
    exact Or.inl ⟨rfl, by simpa using hk⟩
  · rw [List.getElem?_set_ne he] at hk
    exact Or.inr ⟨Ne.symm he, hk⟩

theorem Tally.Sound.close (ht : t.Sound closed) : t.Sound true :=
  ⟨ht.covered, nofun, ht.leaving, ht.single, fun _ => Or.inl rfl⟩

/-- While a handle is attached nobody is leaving. -/
theorem Tally.Sound.none_leaving (ht : t.Sound closed) (hh : t.handles[h]? = some .attached) :
    0 < t.attached ∧ 0 < t.count ∧ ∀ way, Handle.leaving way ∉ t.handles := by
  have hpos : 0 < t.attached := List.count_pos_iff.mpr (List.mem_of_getElem? hh)
  have hcount := ht.covered
  refine ⟨hpos, by omega, fun way hm => ?_⟩
  have := ht.leaving way hm
  omega

theorem Tally.Sound.append (ht : t.Sound closed) {n : ℤ} (hnot : ∀ way, handle ≠ .leaving way)
    (hn : n = if handle = .attached then t.count + 1 else t.count)
    (hz : handle = .attached → 0 < t.count) : Tally.Sound ⟨n, t.handles ++ [handle]⟩ closed := by
  have hat : (⟨n, t.handles ++ [handle]⟩ : Tally).attached =
      t.attached + if handle = .attached then 1 else 0 := by
    unfold Tally.attached
    rw [List.count_append]
    by_cases ha : handle = .attached <;> simp [ha]
  have hold : ∀ a, Handle.leaving a ∈ t.handles ++ [handle] → Handle.leaving a ∈ t.handles := by
    intro a hm
    rcases List.mem_append.mp hm with hm | hm
    · exact hm
    · exact absurd (List.mem_singleton.mp hm).symm (hnot a)
  have hidx : ∀ (k : ℕ) (a : Departure), (t.handles ++ [handle])[k]? = some (.leaving a) →
      t.handles[k]? = some (.leaving a) := by
    intro k a hk
    by_cases hlt : k < t.handles.length
    · rwa [List.getElem?_append_left hlt] at hk
    · rw [List.getElem?_append_right (by omega)] at hk
      have hmem : Handle.leaving a ∈ [handle] := List.mem_of_getElem? hk
      exact absurd (List.mem_singleton.mp hmem).symm (hnot a)
  have hcovered := ht.covered
  refine ⟨?_, fun ho => ?_, fun a hm => ?_, fun j k a b hj hk => ?_, fun h0 => ?_⟩
  · rw [hat]
    dsimp only
    split at hn <;> rename_i ha <;> simp only [ha, if_true, if_false] <;> omega
  · have := ht.exact ho
    rw [hat]
    dsimp only
    split at hn <;> rename_i ha <;> simp only [ha, if_true, if_false] <;> omega
  · have h0 := ht.leaving a (hold a hm)
    by_cases ha : handle = .attached
    · have := hz ha
      omega
    · rw [if_neg ha] at hn
      exact hn.trans h0
  · exact ht.single j k a b (hidx j a hj) (hidx k b hk)
  · by_cases ha : handle = .attached
    · have := hz ha
      rw [if_pos ha] at hn
      dsimp only at h0
      omega
    · rw [if_neg ha] at hn
      rcases ht.zero (hn.symm.trans h0) with hc | ⟨a, hm⟩
      · exact Or.inl hc
      · exact Or.inr ⟨a, List.mem_append_left _ hm⟩

theorem Tally.Sound.remove (ht : t.Sound closed) (hh : t.handles[h]? = some .attached)
    (way : Departure) : (t.remove h way).Sound closed := by
  obtain ⟨hpos, hcount, hnone⟩ := ht.none_leaving hh
  have hcovered := ht.covered
  let next : Handle := if t.count = 1 then .leaving way else way.after
  have hnext : next ≠ .attached := by
    dsimp only [next]
    split
    · nofun
    · cases way <;> nofun
  have hat := attached_set hh next
  rw [if_pos rfl, if_neg hnext] at hat
  have hremove : (t.remove h way).attached + 1 = t.attached := hat
  have hn : (t.remove h way).count = t.count - 1 := rfl
  have hlast : ∀ (k : ℕ) (a : Departure), (t.remove h way).handles[k]? = some (.leaving a) → k = h ∧ t.count = 1 := by
    intro k a hk
    have hk : (t.set h next).handles[k]? = some (.leaving a) := hk
    rcases leaving_of_set hk with ⟨he, ha⟩ | ⟨_, hk⟩
    · refine ⟨he, ?_⟩
      by_contra hne
      dsimp only [next] at ha
      rw [if_neg hne] at ha
      cases way <;> cases ha
    · exact absurd (List.mem_of_getElem? hk) (hnone a)
  refine ⟨by omega, fun ho => ?_, fun a hm => ?_, fun j k a b hj hk => ?_, fun h0 => ?_⟩
  · have := ht.exact ho
    omega
  · obtain ⟨k, hk⟩ := List.mem_iff_getElem?.mp hm
    have := (hlast k a hk).2
    omega
  · exact (hlast j a hj).1.trans (hlast k b hk).1.symm
  · refine Or.inr ⟨way, ?_⟩
    have h1 : t.count = 1 := by omega
    have hlt := (List.getElem?_eq_some_iff.mp hh).1
    have hset : (t.remove h way).handles = t.handles.set h (.leaving way) := by
      unfold Tally.remove Tally.set
      rw [if_pos h1]
    rw [hset]
    exact List.mem_set hlt _

/-- A handle that is not counted goes, or one whose place a closed channel need not count. -/
theorem Tally.Sound.discard (ht : t.Sound closed) (hh : t.handles[h]? = some handle)
    {other : Handle} (ho : other = .detached ∨ other = .dropped)
    (hc : closed = false → handle = .detached) : (t.set h other).Sound closed := by
  have hne : other ≠ .attached := by rcases ho with rfl | rfl <;> nofun
  have hleaving : ∀ (k : ℕ) (a : Departure), (t.set h other).handles[k]? = some (.leaving a) →
      t.handles[k]? = some (.leaving a) := by
    intro k a hk
    rcases leaving_of_set hk with ⟨_, ha⟩ | ⟨_, hk⟩
    · rcases ho with rfl | rfl <;> cases ha
    · exact hk
  have hat := attached_set hh other
  rw [if_neg hne] at hat
  have hcovered := ht.covered
  have hcount : (t.set h other).count = t.count := rfl
  refine ⟨by omega, fun ho => ?_, fun a hm => ?_, fun j k a b hj hk => ?_, fun h0 => ?_⟩
  · have hexact := ht.exact ho
    rw [hc ho] at hat
    simp only [reduceCtorEq, if_false] at hat
    omega
  · obtain ⟨k, hk⟩ := List.mem_iff_getElem?.mp hm
    exact ht.leaving a (List.mem_of_getElem? (hleaving k a hk))
  · exact ht.single j k a b (hleaving j a hj) (hleaving k b hk)
  · cases closed with
    | true => exact Or.inl rfl
    | false =>
      rcases ht.zero h0 with hcl | ⟨a, hm⟩
      · cases hcl
      · obtain ⟨k, hk⟩ := List.mem_iff_getElem?.mp hm
        refine Or.inr ⟨a, List.mem_of_getElem? (i := k) ?_⟩
        have hkh : h ≠ k := by
          rintro rfl
          rw [hh, hc rfl] at hk
          cases hk
        unfold Tally.set
        dsimp only
        rw [List.getElem?_set_ne hkh]
        exact hk

variable {K : Kind κ ε} {c d : Config κ} {ev : Event ε} {side : Side}

/-- The channel stays as it is, or takes a step that is not a `close`. -/
def Follows (K : Kind κ ε) (c d : Config κ) : Prop :=
  d.channel = c.channel ∨
    ∃ e, K.system.step c.channel e = some d.channel ∧ K.role e ≠ .close

def Event.isShut : Event ε → Bool
  | .shut _ _ => true
  | _ => false

/-- What a step does to the channel, the counters and the handles. -/
inductive Moves (K : Kind κ ε) (c d : Config κ) : Event ε → Prop where
  | follows {ev : Event ε} : ev.isShut = false → Follows K c d → d.tally = c.tally →
      d.closeCalled = c.closeCalled → Moves K c d ev
  | counted {ev : Event ε} {side : Side} {h : ℕ} {way : Departure} : ev.isShut = false → c.handle? side h = some .attached →
      d.channel = c.channel →
      d.tally = Function.update c.tally side ((c.tally side).remove h way) →
      d.closeCalled = c.closeCalled → Moves K c d ev
  | uncounted {ev : Event ε} {side : Side} {h i : ℕ} : ev.isShut = false →
      c.handle? side h = some .attached → K.stage c.channel i = .permitted .closed →
      Follows K c d → d.tally = Function.update c.tally side ((c.tally side).set h .detached) →
      d.closeCalled = c.closeCalled → Moves K c d ev
  | cleared {ev : Event ε} {side : Side} {h : ℕ} : ev.isShut = false → c.handle? side h = some .detached →
      d.channel = c.channel →
      d.tally = Function.update c.tally side ((c.tally side).set h .dropped) →
      d.closeCalled = c.closeCalled → Moves K c d ev
  | cloned {ev : Event ε} {side : Side} {h : ℕ} {handle : Handle} : ev.isShut = false →
      c.handle? side h = some handle → (∀ way, handle ≠ .leaving way) →
      d.channel = c.channel →
      d.tally = Function.update c.tally side
        ⟨if handle = .attached then (c.tally side).count + 1 else (c.tally side).count,
          (c.tally side).handles ++ [handle]⟩ →
      d.closeCalled = c.closeCalled → Moves K c d ev
  | closed {ev : Event ε} {e : ε} : ev.isShut = false → K.role e = .close →
      K.system.step c.channel e = some d.channel → d.tally = c.tally → d.closeCalled = true →
      Moves K c d ev
  | shut {side : Side} {h : ℕ} {way : Departure} : c.handle? side h = some (.leaving way) → K.poisoned c.channel = false →
      K.system.step c.channel K.close = some d.channel →
      d.tally = Function.update c.tally side ((c.tally side).set h way.after) →
      d.closeCalled = c.closeCalled → Moves K c d (.shut side h)
  | unwound {side : Side} {h : ℕ} {way : Departure} : c.handle? side h = some (.leaving way) →
      K.poisoned c.channel = true → d.channel = c.channel →
      d.tally = Function.update c.tally side ((c.tally side).set h way.unwound) →
      d.closeCalled = c.closeCalled → Moves K c d (.shut side h)

theorem advance_eq {e : ε} (h : c.advance K e = some d) :
    ∃ channel, K.system.step c.channel e = some channel ∧ d = { c with channel := channel } := by
  obtain ⟨channel, hs, rfl⟩ := Option.map_eq_some_iff.mp h
  exact ⟨channel, hs, rfl⟩

/-- A step that only moves the channel on, and perhaps the record of its calls. -/
theorem moves_advance {e : ε} {f : Config κ → Config κ} (h : (c.advance K e).map f = some d)
    (hr : K.role e ≠ .close) (hev : ev.isShut = false)
    (hf : ∀ m, (f m).channel = m.channel ∧ (f m).tally = m.tally ∧
      (f m).closeCalled = m.closeCalled) : Moves K c d ev := by
  obtain ⟨m, hm, rfl⟩ := Option.map_eq_some_iff.mp h
  obtain ⟨channel, hs, rfl⟩ := advance_eq hm
  obtain ⟨hchannel, htally, hclose⟩ := hf { c with channel := channel }
  exact .follows hev (Or.inr ⟨e, by rw [hchannel]; exact hs, hr⟩) htally hclose

theorem moves_of_step (h : (handled K).step c ev = some d) : Moves K c d ev := by
  change Config.step K c ev = some d at h
  cases ev with
  | call side k e =>
    simp only [Config.step] at h
    split at h
    next hg => exact moves_advance h (by rw [hg.1]; nofun) rfl fun m => ⟨rfl, rfl, rfl⟩
    next => cases h
  | select branches e =>
    simp only [Config.step] at h
    split at h
    next hg => exact moves_advance h (by rw [hg.1]; nofun) rfl fun m => ⟨rfl, rfl, rfl⟩
    next => cases h
  | inner e =>
    simp only [Config.step] at h
    split at h
    next hg =>
      refine moves_advance h (by rw [hg]; nofun) rfl fun m => ?_
      split
      · exact ⟨rfl, rfl, rfl⟩
      · split <;> exact ⟨rfl, rfl, rfl⟩
    next => cases h
  | consume i e =>
    simp only [Config.step] at h
    split at h
    next hg =>
      have hrole : K.role e ≠ .close := by rw [hg]; nofun
      split at h
      next side k permit _ hstage =>
        split at h
        next => cases h
        next =>
          split at h
          next ha =>
            obtain ⟨m, hm, rfl⟩ := Option.map_eq_some_iff.mp h
            obtain ⟨channel, hs, rfl⟩ := advance_eq hm
            exact .uncounted rfl ha hstage (Or.inr ⟨e, hs, hrole⟩) rfl rfl
          next =>
            obtain ⟨channel, hs, rfl⟩ := advance_eq h
            exact .follows rfl (Or.inr ⟨e, hs, hrole⟩) rfl rfl
          next =>
            cases h
            exact .follows rfl (Or.inl rfl) rfl rfl
          next => cases h
      next => cases h
    next => cases h
  | leave i =>
    simp only [Config.step] at h
    split at h
    next side k _ _ =>
      split at h
      next ha =>
        cases h
        exact .counted rfl ha rfl rfl rfl
      next => cases h
    next => cases h
  | settle i =>
    simp only [Config.step] at h
    split at h
    next =>
      cases h
      exact .follows rfl (Or.inl rfl) rfl rfl
    next => cases h
  | shut side k =>
    simp only [Config.step] at h
    split at h
    next way hw =>
      split at h
      next hp =>
        cases h
        exact .unwound hw hp rfl rfl rfl
      next hp =>
        obtain ⟨m, hm, rfl⟩ := Option.map_eq_some_iff.mp h
        obtain ⟨channel, hs, rfl⟩ := advance_eq hm
        exact .shut hw ((Bool.not_eq_true _).mp hp) hs rfl rfl
    next => cases h
  | clone side k =>
    simp only [Config.step] at h
    split at h
    next => cases h
    next =>
      split at h
      next ha =>
        cases h
        exact .cloned rfl ha nofun rfl rfl rfl
      next ha =>
        cases h
        exact .cloned rfl ha nofun rfl rfl rfl
      next => cases h
  | take side k =>
    simp only [Config.step] at h
    split at h
    next ha =>
      cases h
      exact .counted rfl ha.1 rfl rfl rfl
    next => cases h
  | drop side k =>
    simp only [Config.step] at h
    split at h
    next => cases h
    next =>
      split at h
      next ha =>
        cases h
        exact .counted rfl ha rfl rfl rfl
      next ha =>
        cases h
        exact .cleared rfl ha rfl rfl rfl
      next => cases h
  | close k e =>
    simp only [Config.step] at h
    split at h
    next hg =>
      obtain ⟨m, hm, rfl⟩ := Option.map_eq_some_iff.mp h
      obtain ⟨channel, hs, rfl⟩ := advance_eq hm
      exact .closed rfl hg.1 hs rfl rfl
    next => cases h

theorem channel_reachable (hc : Reachable (handled K) c) : Reachable K.system c.channel := by
  induction hc with
  | init => exact .init
  | step _ hs ih =>
    cases moves_of_step hs with
    | follows _ hf _ _ | uncounted _ _ _ hf _ _ =>
      rcases hf with he | ⟨e, he, _⟩
      · rw [he]
        exact ih
      · exact .step ih he
    | counted _ _ he _ _ | cleared _ _ he _ _ | cloned _ _ _ he _ _ | unwound _ _ he _ _ =>
      rw [he]
      exact ih
    | closed _ _ he _ _ | shut _ _ he _ _ => exact .step ih he

structure Sound (K : Kind κ ε) (c : Config κ) : Prop where
  tally : ∀ side, (c.tally side).Sound (K.closed c.channel)
  reason : K.closed c.channel = true →
    c.closeCalled = true ∨ ∃ side, (c.tally side).count = 0

theorem Sound.counted (hc : Sound K c) : Counted K c := by
  refine ⟨fun side => ?_, fun side hh => ?_, hc.reason⟩
  · have := (hc.tally side).covered
    omega
  · have hzero : (c.tally side).attached = 0 := by
      refine List.count_eq_zero.mpr fun hm => ?_
      have := hh _ hm
      cases this
    cases ho : K.closed c.channel with
    | true => rfl
    | false =>
      have hexact := (hc.tally side).exact ho
      rcases (hc.tally side).zero (by omega) with ht | ⟨way, hm⟩
      · exact ho.symm.trans ht
      · cases hh _ hm

/-- The counters change on one side, in a channel that is as closed as before. -/
theorem Sound.update (hc : Sound K c) {t : Tally} (ho : K.closed d.channel = K.closed c.channel)
    (ht : d.tally = Function.update c.tally side t) (hs : t.Sound (K.closed c.channel))
    (hz : (c.tally side).count = 0 → t.count = 0)
    (hcalled : d.closeCalled = c.closeCalled) : Sound K d := by
  refine ⟨fun other => ?_, fun hclosed => ?_⟩
  · rw [ht, ho]
    by_cases he : other = side
    · subst he
      rw [Function.update_self]
      exact hs
    · rw [Function.update_of_ne he]
      exact hc.tally other
  · rw [hcalled, ht]
    rcases hc.reason (ho ▸ hclosed) with hr | ⟨other, hr⟩
    · exact Or.inl hr
    · refine Or.inr ⟨other, ?_⟩
      by_cases he : other = side
      · subst he
        rw [Function.update_self]
        exact hz hr
      · rw [Function.update_of_ne he]
        exact hr

theorem Kind.Lawful.follows (hK : K.Lawful) (hr : Reachable K.system c.channel)
    (hf : Follows K c d) : K.closed d.channel = K.closed c.channel := by
  rcases hf with he | ⟨e, he, hrole⟩
  · rw [he]
  · exact hK.stays _ _ _ hr he hrole

theorem Sound.moves (hK : K.Lawful) (hr : Reachable K.system c.channel) (hc : Sound K c)
    (hm : Moves K c d ev) (hp : ¬ c.poisons K ev) : Sound K d := by
  cases hm with
  | follows _ hf ht hcalled =>
    have ho := hK.follows hr hf
    refine ⟨fun side => ?_, fun hclosed => ?_⟩
    · rw [ho, ht]
      exact hc.tally side
    · rw [ht, hcalled]
      exact hc.reason (ho ▸ hclosed)
  | @counted _ side h way _ ha he ht hcalled =>
    have hs := hc.tally side
    refine hc.update (by rw [he]) ht (hs.remove ha way) (fun h0 => ?_) hcalled
    have := (hs.none_leaving ha).2.1
    omega
  | @uncounted _ side h i _ ha hstage hf ht hcalled =>
    have hclosed := hK.promised _ i hr hstage
    have hs := hc.tally side
    rw [hclosed] at hs
    refine hc.update (hK.follows hr hf) ht ?_ id hcalled
    rw [hclosed]
    exact hs.discard ha (Or.inl rfl) nofun
  | @cleared _ side h _ ha he ht hcalled =>
    exact hc.update (by rw [he]) ht ((hc.tally side).discard ha (Or.inr rfl) fun _ => rfl) id
      hcalled
  | @cloned _ side h handle _ ha hnot he ht hcalled =>
    have hs := hc.tally side
    have hpos : handle = .attached → 0 < (c.tally side).count := by
      rintro rfl
      exact (hs.none_leaving ha).2.1
    refine hc.update (by rw [he]) ht (hs.append hnot rfl hpos) (fun h0 => ?_) hcalled
    dsimp only
    split
    next heq =>
      have := hpos heq
      omega
    next => exact h0
  | closed _ hrole he ht hcalled =>
    have hclosed := hK.closes _ _ _ he hrole
    refine ⟨fun side => ?_, fun _ => Or.inl hcalled⟩
    rw [hclosed, ht]
    exact (hc.tally side).close
  | @shut side h way ha _ he ht hcalled =>
    have hclosed := hK.closes _ _ _ he hK.role_close
    have hs := (hc.tally side).close
    have hafter : ((c.tally side).set h way.after).Sound true :=
      hs.discard ha (by cases way <;> simp [Departure.after]) nofun
    refine ⟨fun other => ?_, fun _ => Or.inr ⟨side, ?_⟩⟩
    · rw [hclosed, ht]
      by_cases hside : other = side
      · subst hside
        rw [Function.update_self]
        exact hafter
      · rw [Function.update_of_ne hside]
        exact (hc.tally other).close
    · rw [ht, Function.update_self]
      exact hs.leaving way (List.mem_of_getElem? ha)
  | @unwound side h way ha hpoisoned he ht hcalled =>
    have hclosed : K.closed c.channel = true := by
      by_contra ho
      exact hp ⟨hpoisoned, Or.inr ((Bool.not_eq_true _).mp ho)⟩
    have hway : way ≠ .refused := by
      rintro rfl
      exact hp ⟨hpoisoned, Or.inl ha⟩
    refine hc.update (by rw [he]) ht ?_ id hcalled
    rw [hclosed]
    refine (hclosed ▸ hc.tally side).discard ha ?_ nofun
    cases way with
    | refused => exact absurd rfl hway
    | taken => exact Or.inl rfl
    | dropped => exact Or.inr rfl

/-- A handle that fails to close the channel stays counted down, or leaves it open. -/
theorem Sound.broken (hc : Sound K c) (hm : Moves K c d ev) (hp : c.poisons K ev) :
    ¬ Counted K d := by
  intro hd
  cases hm with
  | follows hev _ _ _ | counted hev _ _ _ _ | uncounted hev _ _ _ _ _ | cleared hev _ _ _ _
  | cloned hev _ _ _ _ _ | closed hev _ _ _ _ =>
    cases ev with
    | shut side h => cases hev
    | _ => exact hp
  | shut _ hn _ _ _ =>
    have hpoisoned : K.poisoned c.channel = true := hp.1
    rw [hn] at hpoisoned
    cases hpoisoned
  | @unwound side h way ha _ he ht _ =>
    have hs := hc.tally side
    have hcount := hs.leaving way (List.mem_of_getElem? ha)
    have hcovered := hs.covered
    have hat := attached_set ha way.unwound
    have hset : ((c.tally side).set h way.unwound).count = (c.tally side).count := rfl
    have hdt : d.tally side = (c.tally side).set h way.unwound := by
      rw [ht, Function.update_self]
    have hbad := (hd.covered side).2
    rw [hdt] at hbad
    have hway : way.unwound ≠ .attached := by
      intro hw
      rw [if_pos hw] at hat
      simp only [reduceCtorEq, if_false] at hat
      omega
    have hopen : K.closed c.channel = false := by
      rcases hp.2 with hr | ho
      · rw [ha] at hr
        cases hr
        exact absurd rfl hway
      · exact ho
    rw [if_neg hway] at hat
    simp only [reduceCtorEq, if_false] at hat
    have hclosed := hd.closed side fun handle hm => ?_
    · rw [he, hopen] at hclosed
      cases hclosed
    · rw [hdt] at hm
      cases handle with
      | detached | dropped => rfl
      | attached =>
        have hpos : 0 < ((c.tally side).set h way.unwound).attached := List.count_pos_iff.mpr hm
        omega
      | leaving a =>
        obtain ⟨k, hk⟩ := List.mem_iff_getElem?.mp hm
        rcases leaving_of_set hk with ⟨_, hw⟩ | ⟨hne, hk⟩
        · cases way <;> cases hw
        · exact absurd (hs.single k h a way hk ha) hne

theorem initial_sound (hK : K.Lawful) : Sound K (handled K).init := by
  refine ⟨fun side => ?_, fun hc => ?_⟩
  · refine ⟨Int.le_refl _, fun _ => rfl, fun way hm => ?_, fun j k a b hj _ => ?_, fun h0 => ?_⟩
    · cases List.mem_singleton.mp hm
    · cases List.mem_singleton.mp (List.mem_of_getElem? hj)
    · change (1 : ℤ) = 0 at h0
      omega
  · rw [show K.closed (handled K).init.channel = false from hK.opened] at hc
    cases hc

/-- The counters are right in all states of a run without a poisoned `shut`, and in no other run. -/
theorem counted_iff (hK : K.Lawful) (ρ : Execution (handled K)) :
    (∀ c, ρ.Visits c → Counted K c) ↔ ∀ c ev, ρ.Takes c ev → ¬ c.poisons K ev :=
  ρ.exact_under (fun _ => channel_reachable) (initial_sound hK) (fun _ => Sound.counted)
    (fun _ _ _ hr hc hp hs => hc.moves hK hr (moves_of_step hs) hp)
    (fun _ _ _ _ hc hp hs => hc.broken (moves_of_step hs) hp)

end HandleCounting
