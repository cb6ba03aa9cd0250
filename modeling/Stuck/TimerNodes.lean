import Stuck.LinkedLists
import Stuck.TimeStable

/-! The nodes of the timer as they lie in memory (src/time.rs): boxes linked by their `next`, the
raw pointer `last` of each list, the list of spare nodes that `new_node` reuses, and the session of
a node, which only `expire` tells from an uninitialized one once the timer is dropped. `none` is a
panic, or an access that the unsafe code must never make. -/
namespace TimerNodes

open TransitionSystem LinkedLists Time

variable {σ : Type*}

/-- What a `Node` has beside its `next`; `session` is `none` while nothing is written there, and
after it has been read out. -/
structure Content (σ : Type*) where
  expire : UInt64
  session : Option σ
  deriving DecidableEq, Repr

/-- `Node::default`, and what `Node::wake` leaves. -/
def Content.spare : Content σ := ⟨0, none⟩

/-- What `List::last` points to. -/
inductive Place where
  | first (slot : Slot)
  | next (node : ℕ)
  deriving DecidableEq, Repr

/-- `first` and `last` are those of the lists in the two arrays. Nothing compares addresses, so a
new box gets the next number. `woken` and `dropped` record what becomes of the sessions. -/
structure Memory (σ : Type*) where
  time : UInt64
  first : Slot → Option ℕ
  last : Slot → Place
  nodes : Option ℕ
  heap : Heap (Content σ)
  created : ℕ
  woken : List (UInt64 × σ)
  dropped : List σ

/-- `Timer::new`. -/
def Memory.new (σ : Type*) : Memory σ where
  time := 0
  first _ := none
  last := .first
  nodes := none
  heap _ := none
  created := 0
  woken := []
  dropped := []

def Memory.setCell (m : Memory σ) (node : ℕ) (cell : Cell (Content σ)) : Memory σ :=
  { m with heap := Function.update m.heap node (some cell) }

/-- `node.next.take()`. -/
def Memory.takeNext (m : Memory σ) (node : ℕ) : Option (Option ℕ × Memory σ) :=
  (m.heap node).map fun cell => (cell.next, m.setCell node { cell with next := none })

/-- `*last = Some(node)`, which would drop a list that is there already. -/
def Memory.link (m : Memory σ) (place : Place) (node : ℕ) : Option (Memory σ) :=
  match place with
  | .first slot =>
    match m.first slot with
    | none => some { m with first := Function.update m.first slot (some node) }
    | some _ => none
  | .next last =>
    match m.heap last with
    | some ⟨none, content⟩ => some (m.setCell last ⟨some node, content⟩)
    | _ => none

/-- `List::insert`. -/
def Memory.insert (m : Memory σ) (slot : Slot) (node : ℕ) : Option (Memory σ) :=
  if slot.inRange then
    (m.link (m.last slot) node).map fun m =>
      { m with last := Function.update m.last slot (.next node) }
  else none

/-- `List::clear`. -/
def Memory.clear (m : Memory σ) (slot : Slot) : Option (Option ℕ × Memory σ) :=
  if slot.inRange then
    some (m.first slot, { m with
      last := Function.update m.last slot (.first slot)
      first := Function.update m.first slot none })
  else none

def Memory.newNode (m : Memory σ) : Option (ℕ × Memory σ) :=
  match m.nodes with
  | some node => (m.takeNext node).map fun (next, m) => (node, { m with nodes := next })
  | none => some (m.created, { m.setCell m.created ⟨none, .spare⟩ with created := m.created + 1 })

/-- `node.next = self.nodes.take()` would drop what `next` holds. -/
def Memory.freeNode (m : Memory σ) (node : ℕ) : Option (Memory σ) :=
  match m.heap node with
  | some ⟨none, content⟩ => some { m.setCell node ⟨m.nodes, content⟩ with nodes := some node }
  | _ => none

/-- `Node::wake`. -/
def Memory.wakeNode (m : Memory σ) (node : ℕ) : Option (Memory σ) :=
  match m.heap node with
  | some ⟨next, _, some session⟩ =>
    some { m.setCell node ⟨next, .spare⟩ with woken := m.woken ++ [(m.time, session)] }
  | _ => none

/-- The loop of `Timer::wake`; the rounds it can take are counted down. -/
def Memory.wake : ℕ → Memory σ → Option ℕ → Option (Memory σ)
  | _, m, none => some m
  | 0, _, some _ => none
  | rounds + 1, m, some node =>
    (m.takeNext node).bind fun (list, m) =>
      ((m.wakeNode node).bind fun m => m.freeNode node).bind fun m => Memory.wake rounds m list

def Memory.queueNode (m : Memory σ) (node : ℕ) : Option (Memory σ) :=
  (m.heap node).bind fun cell =>
    if cell.value.expire - m.time < timeLeastValue then
      m.insert (.least (cell.value.expire &&& timeLeastMask).toNat) node
    else
      (farSlot cell.value.expire m.time timeLevelCount 0 (1 <<< timeLeastShift)).bind
        fun slot => m.insert slot node

/-- The loop of `Timer::queue_list`, counted in the same way. -/
def Memory.queueList : ℕ → Memory σ → Option ℕ → Option (Memory σ)
  | _, m, none => some m
  | 0, _, some _ => none
  | rounds + 1, m, some node =>
    (m.takeNext node).bind fun (list, m) =>
      (m.queueNode node).bind fun m => Memory.queueList rounds m list

def Memory.cascade (m : Memory σ) : Option (Memory σ) :=
  if m.time &&& timeLeastMask = 0 then
    (turnedSlot timeLevelCount 0 (m.time >>> timeLeastShift)).bind fun slot =>
      (m.clear slot).bind fun (list, m) => m.queueList m.created list
  else some m

def Memory.tick (m : Memory σ) : Option (Memory σ) :=
  { m with time := m.time + 1 }.cascade.bind fun m =>
    (m.clear (.least (m.time &&& timeLeastMask).toNat)).bind fun (list, m) =>
      m.wake m.created list

/-- The loop of `Timer::update`, as in the model of the lists. -/
def Memory.tickTo (time : UInt64) : ℕ → Memory σ → Option (Memory σ)
  | 0, m => some m
  | ticks + 1, m => if m.time < time then m.tick.bind (Memory.tickTo time ticks) else some m

def Memory.update (m : Memory σ) (time : UInt64) : Option (Memory σ) :=
  m.tickTo time (time.toNat - m.time.toNat)

/-- `node.expire = ..; node.session.write(session)`, which does not drop what was written before. -/
def Memory.arm (m : Memory σ) (node : ℕ) (content : Content σ) : Option (Memory σ) :=
  (m.heap node).map fun cell => m.setCell node { cell with value := content }

def Memory.timeout (m : Memory σ) (timeout : UInt64) (session : σ) : Option (Memory σ) :=
  m.newNode.bind fun (node, m) =>
    (m.arm node ⟨m.time + timeout, some session⟩).bind fun m => m.queueNode node

def Memory.step (m : Memory σ) : Op σ → Option (Memory σ)
  | .timeout timeout session => m.timeout timeout session
  | .update time => m.update time

def system (σ : Type*) : System (Memory σ) (Op σ) where
  init := .new σ
  step := Memory.step

/-- `Node::drop` and the box itself; the session is read out if `expire` is set. -/
def Memory.dropNode (m : Memory σ) (node : ℕ) : Option (Option ℕ × Memory σ) :=
  match m.heap node with
  | some ⟨next, expire, session⟩ =>
    let freed := { m with heap := Function.update m.heap node none }
    if expire = 0 then some (next, freed)
    else session.map fun session => (next, { freed with dropped := m.dropped ++ [session] })
  | none => none

/-- A box drops the one it links to, and so on to the end of the list. The code recurses where this
goes on: how deep the stack gets is left out. -/
def Memory.dropList : ℕ → Memory σ → Option ℕ → Option (Memory σ)
  | _, m, none => some m
  | 0, _, some _ => none
  | rounds + 1, m, some node =>
    (m.dropNode node).bind fun (next, m) => Memory.dropList rounds m next

/-- The lists in the order of the two arrays. -/
def arraySlots : List Slot :=
  (List.range timeLeastValue.toNat).map .least ++
    (List.range timeLevelCount).flatMap fun i =>
      (List.range timeLevelValue.toNat).map (.level i)

def Memory.dropSlot (m : Memory σ) (slot : Slot) : Option (Memory σ) :=
  { m with first := Function.update m.first slot none }.dropList m.created (m.first slot)

/-- The timer is dropped, its fields in their order. -/
def Memory.drop (m : Memory σ) : Option (Memory σ) :=
  (arraySlots.foldlM Memory.dropSlot m).bind fun m =>
    { m with nodes := none }.dropList m.created m.nodes

/-- The timer that the memory holds: in each list what is found along its links. -/
def Memory.timer (m : Memory σ) : Timer σ where
  time := m.time
  least index := nodesOf (m.first (.least index))
  level i index := nodesOf (m.first (.level i index))
  woken := m.woken
where
  nodesOf (link : Option ℕ) : List (Node σ) :=
    (follow m.heap m.created link).filterMap fun content =>
      content.session.map (Node.mk content.expire)

end TimerNodes
