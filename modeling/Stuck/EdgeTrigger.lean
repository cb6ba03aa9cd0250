import Stuck.TransitionSystem

/-! A source that reports edges, a courier that collects them and delivers signals to a mailbox, and
a consumer that waits for a signal once it has found the source empty. A full mailbox drops a
signal, and a signal may come for nothing. -/
namespace EdgeTrigger

open TransitionSystem

/-- From the source to the mailbox: an edge to collect, signals on their way, signals there. -/
structure Line where
  edge : Bool
  transit : ℕ
  signals : ℕ
  deriving DecidableEq, Repr

def Line.new : Line := ⟨false, 0, 0⟩

def Line.raise (l : Line) : Line := { l with edge := true }

def Line.collect (l : Line) (n : ℕ) : Line := { l with edge := false, transit := l.transit + n }

def Line.deliver (bound : ℕ) (l : Line) : Line where
  edge := l.edge
  transit := l.transit - 1
  signals := if l.signals < bound then l.signals + 1 else l.signals

def Line.take (l : Line) : Line := { l with signals := l.signals - 1 }

/-- Something of the line is still to reach the consumer. -/
def Line.Live (l : Line) : Prop := l.edge = true ∨ 0 < l.transit ∨ 0 < l.signals

variable {l : Line} {bound : ℕ}

theorem Line.live_raise (l : Line) : l.raise.Live := .inl rfl

theorem Line.live_collect {n : ℕ} (hn : 0 < n) : (l.collect n).Live :=
  .inr (.inl (Nat.add_pos_right _ hn))

theorem Line.live_deliver (hb : 0 < bound) : (l.deliver bound).Live := by
  refine .inr (.inr ?_)
  unfold deliver
  dsimp only
  split <;> omega

/-- How much the courier has still to do. -/
def Line.rank (l : Line) : ℕ := 3 * l.edge.toNat + 2 * l.transit + l.signals

theorem Line.rank_raise (l : Line) : l.raise.rank ≤ l.rank + 3 := by
  change 3 * 1 + 2 * l.transit + l.signals ≤ 3 * l.edge.toNat + 2 * l.transit + l.signals + 3
  omega

theorem Line.rank_collect {n : ℕ} (he : l.edge = true) (hn : n ≤ 1) :
    (l.collect n).rank < l.rank := by
  change 3 * 0 + 2 * (l.transit + n) + l.signals < 3 * l.edge.toNat + 2 * l.transit + l.signals
  rw [he, Bool.toNat_true]
  omega

theorem Line.rank_deliver (bound : ℕ) (ht : 0 < l.transit) : (l.deliver bound).rank < l.rank := by
  have hs : (l.deliver bound).signals ≤ l.signals + 1 := by
    unfold deliver
    dsimp only
    split <;> omega
  change 3 * l.edge.toNat + 2 * (l.transit - 1) + (l.deliver bound).signals <
    3 * l.edge.toNat + 2 * l.transit + l.signals
  omega

theorem Line.rank_take (hs : 0 < l.signals) : l.take.rank < l.rank := by
  change 3 * l.edge.toNat + 2 * l.transit + (l.signals - 1) <
    3 * l.edge.toNat + 2 * l.transit + l.signals
  omega

/-- A consumer at the end of a line. -/
structure Watch where
  ready : Bool
  waiting : Bool
  line : Line
  deriving DecidableEq, Repr

inductive State where
  | off (ready : Bool)
  | on (watch : Watch)
  | halted
  deriving DecidableEq, Repr

/-- `spurious` is an edge without news, `quit` a consumer that gives up, and `halt` the end of the
courier or of the mailbox. -/
inductive Event where
  | arrive
  | exhaust
  | spurious
  | watch (waiting edge : Bool)
  | unwatch
  | collect (n : ℕ)
  | deliver
  | block
  | take
  | quit
  | halt
  deriving DecidableEq, Repr

/-- Whoever collects an edge of a source that is ready sends a signal. -/
def step (bound : ℕ) : State → Event → Option State
  | .off _, .arrive => some (.off true)
  | .off _, .exhaust => some (.off false)
  | .off ready, .watch waiting edge =>
    if ready = true ∧ edge = false then none
    else some (.on ⟨ready, waiting, { Line.new with edge }⟩)
  | .on w, .arrive => some (.on { w with ready := true, line := w.line.raise })
  | .on w, .exhaust => some (.on { w with ready := false })
  | .on w, .spurious => some (.on { w with line := w.line.raise })
  | .on w, .unwatch => some (.off w.ready)
  | .on w, .collect n =>
    if w.ready = true ∧ n = 0 then none else some (.on { w with line := w.line.collect n })
  | .on w, .deliver =>
    if 0 < w.line.transit then some (.on { w with line := w.line.deliver bound }) else none
  | .on w, .block =>
    if w.waiting = false ∧ w.ready = false then some (.on { w with waiting := true }) else none
  | .on w, .take =>
    if w.waiting = true ∧ 0 < w.line.signals then
      some (.on { w with waiting := false, line := w.line.take })
    else none
  | .on w, .quit => some (.on { w with waiting := false })
  | _, .halt => some .halted
  | _, _ => none

def system (bound : ℕ) : System State Event := ⟨.off false, step bound⟩

/-- Nobody waits in vain, and the mailbox keeps its bound. -/
structure Watch.Served (bound : ℕ) (w : Watch) : Prop where
  live : w.waiting = true → w.ready = true → w.line.Live
  bounded : w.line.signals ≤ bound

def State.Served (bound : ℕ) : State → Prop
  | .on w => w.Served bound
  | .off _ | .halted => True

variable {s t : State} {w : Watch}

theorem deliver_bounded (h : l.signals ≤ bound) : (l.deliver bound).signals ≤ bound := by
  unfold Line.deliver
  dsimp only
  split <;> omega

theorem served_collect {n : ℕ} (h : w.Served bound) (hn : w.ready = true → 0 < n) :
    Watch.Served bound { w with line := w.line.collect n } :=
  ⟨fun _ hr => Line.live_collect (hn hr), h.bounded⟩

theorem served_step (hb : 0 < bound) {e : Event} (h : s.Served bound)
    (hs : step bound s e = some t) : t.Served bound := by
  cases s with
  | off ready =>
    cases e with
    | watch waiting edge =>
      obtain ⟨he, ⟨⟩⟩ := Option.ite_none_left_eq_some.mp hs
      refine ⟨fun _ hr => .inl ?_, Nat.zero_le _⟩
      simp only [not_and, Bool.not_eq_false] at he
      exact he hr
    | arrive | exhaust | halt => cases hs; trivial
    | _ => cases hs
  | halted =>
    cases e with
    | halt => cases hs; trivial
    | _ => cases hs
  | on w =>
    cases e with
    | arrive | spurious => cases hs; exact ⟨fun _ _ => Line.live_raise _, h.bounded⟩
    | exhaust => cases hs; exact ⟨fun _ hr => (Bool.false_ne_true hr).elim, h.bounded⟩
    | unwatch | halt => cases hs; trivial
    | collect n =>
      obtain ⟨hn, ⟨⟩⟩ := Option.ite_none_left_eq_some.mp hs
      exact served_collect h fun hr => Nat.pos_of_ne_zero fun h0 => hn ⟨hr, h0⟩
    | deliver =>
      obtain ⟨_, ⟨⟩⟩ := Option.ite_none_right_eq_some.mp hs
      exact ⟨fun _ _ => Line.live_deliver hb, deliver_bounded h.bounded⟩
    | block =>
      obtain ⟨⟨_, hr⟩, ⟨⟩⟩ := Option.ite_none_right_eq_some.mp hs
      refine ⟨fun _ hr' => ?_, h.bounded⟩
      rw [hr] at hr'
      cases hr'
    | take =>
      obtain ⟨_, ⟨⟩⟩ := Option.ite_none_right_eq_some.mp hs
      exact ⟨fun hw => (Bool.false_ne_true hw).elim, Nat.le_trans (Nat.sub_le _ _) h.bounded⟩
    | quit => cases hs; exact ⟨fun hw => (Bool.false_ne_true hw).elim, h.bounded⟩
    | watch => cases hs

theorem served_run (hb : 0 < bound) {es : List Event} (h : s.Served bound)
    (hr : (system bound).runFrom s es = some t) : t.Served bound :=
  run_invariant (fun _ _ _ => served_step hb) h hr

end EdgeTrigger
