import Stuck.SerialChannel
import Stuck.Census

/-! The two waiter queues of a serial channel. Sending and receiving mirror each other: a call on
one side uses up what that side has in stock, adds to the other one's, and wakes in its queue. -/
namespace SerialChannel

open TransitionSystem OneShot SharedTypes

variable {T : Type*} {c d : Config T} {i : ℕ} {side : Side}

def opposite : Side → Side
  | .send => .recv
  | .recv => .send

def State.queue (s : State T) : Side → List Waker
  | .send => s.senders
  | .recv => s.receivers

/-- How many calls the channel could serve on a side. -/
def State.stock (s : State T) : Side → ℕ
  | .send => s.bound - s.deque.length
  | .recv => s.deque.length

def Config.setQueue (c : Config T) : Side → List Waker → Config T
  | .send, queue => { c with senders := queue }
  | .recv, queue => { c with receivers := queue }

/-- `wake_sender` and `wake_receiver` are one loop. -/
def Config.wakeQueue (c : Config T) (side : Side) : List Waker → Config T
  | [] => c.setQueue side []
  | waker :: rest =>
    let (d, woke) := (c.setQueue side rest).wake waker
    if woke then d else c.wakeQueue side rest

theorem wakeSender_eq (c : Config T) : c.wakeSender = c.wakeQueue .send (c.queue .send) := by
  have heq : ∀ queue, c.wakeSenders queue = c.wakeQueue .send queue := by
    intro queue
    induction queue with
    | nil => rfl
    | cons waker rest ih =>
      rw [Config.wakeSenders, ih]
      rfl
  exact heq c.senders

theorem wakeReceiver_eq (c : Config T) : c.wakeReceiver = c.wakeQueue .recv (c.queue .recv) := by
  have heq : ∀ queue, c.wakeReceivers queue = c.wakeQueue .recv queue := by
    intro queue
    induction queue with
    | nil => rfl
    | cons waker rest ih =>
      rw [Config.wakeReceivers, ih]
      rfl
  exact heq c.receivers

@[simp] theorem setQueue_calls (c : Config T) (side : Side) (queue : List Waker) :
    (c.setQueue side queue).calls = c.calls := by
  cases side <;> rfl

@[simp] theorem setQueue_created (c : Config T) (side : Side) (queue : List Waker) :
    (c.setQueue side queue).created = c.created := by
  cases side <;> rfl

@[simp] theorem setQueue_deque (c : Config T) (side : Side) (queue : List Waker) :
    (c.setQueue side queue).deque = c.deque := by
  cases side <;> rfl

@[simp] theorem setQueue_bound (c : Config T) (side : Side) (queue : List Waker) :
    (c.setQueue side queue).bound = c.bound := by
  cases side <;> rfl

@[simp] theorem setQueue_closed (c : Config T) (side : Side) (queue : List Waker) :
    (c.setQueue side queue).closed = c.closed := by
  cases side <;> rfl

@[simp] theorem setQueue_queue (c : Config T) (side : Side) (queue : List Waker) :
    (c.setQueue side queue).queue side = queue := by
  cases side <;> rfl

theorem setQueue_opposite (c : Config T) {side other : Side} (queue : List Waker)
    (h : other ≠ side) : (c.setQueue side queue).queue other = c.queue other := by
  cases side <;> cases other <;> first | rfl | exact absurd rfl h

theorem stock_congr (hb : d.bound = c.bound) (hd : d.deque = c.deque) (side : Side) :
    d.stock side = c.stock side := by
  cases side <;> simp only [State.stock, hb, hd]

/-- What `Waker::wake` answers. -/
def Waker.wakes (calls : ℕ → Call T) : Waker → Bool
  | .selector s => (calls s.waker).applies
  | .resumption _ => true

theorem wake_snd (c : Config T) (w : Waker) : (c.wake w).2 = w.wakes c.calls := by
  cases w with
  | selector s =>
    unfold Config.wake Waker.wakes
    dsimp only
    split
    next h => exact h.symm
    next h => exact (Bool.eq_false_of_not_eq_true h).symm
  | resumption call => rfl

/-- The loop drops the wakers that refuse, up to the first one that accepts. -/
theorem wakeQueue_cases (c : Config T) (side : Side) (queue : List Waker) :
    (∀ w ∈ queue, w.wakes c.calls = false) ∧ c.wakeQueue side queue = c.setQueue side [] ∨
      ∃ refused w rest, queue = refused ++ w :: rest ∧ w.wakes c.calls = true ∧
        c.wakeQueue side queue = ((c.setQueue side rest).wake w).1 := by
  induction queue with
  | nil => exact Or.inl ⟨nofun, rfl⟩
  | cons w rest ih =>
    have hwake := wake_snd (c.setQueue side rest) w
    rw [setQueue_calls] at hwake
    unfold Config.wakeQueue
    dsimp only
    split
    next h => exact Or.inr ⟨[], w, rest, rfl, hwake.symm.trans h, rfl⟩
    next h =>
      have hw : w.wakes c.calls = false := by
        rw [← hwake]
        exact Bool.eq_false_of_not_eq_true h
      rcases ih with ⟨hall, heq⟩ | ⟨refused, v, rest', rfl, hv, heq⟩
      · exact Or.inl ⟨List.forall_mem_cons.mpr ⟨hw, hall⟩, heq⟩
      · exact Or.inr ⟨w :: refused, v, rest', rfl, hv, heq⟩

def Call.slice : Call T → Option Slice
  | .selecting slice .. => some slice
  | _ => none

/-- A selector in the queue of this side stands for a branch of this side. -/
def Waker.Valid (created : ℕ) (calls : ℕ → Call T) (side : Side) : Waker → Prop
  | .selector s => s.waker < created ∧
      ∀ slice, (calls s.waker).slice = some slice → slice[s.index]?.join = some side
  | .resumption _ => True

structure WellFormed (c : Config T) : Prop where
  fresh : ∀ i, c.created ≤ i → c.calls i = .unused
  valid : ∀ side, ∀ w ∈ c.queue side, w.Valid c.created c.calls side

theorem WellFormed.created_of (h : WellFormed c) (hc : c.calls i ≠ .unused) : i < c.created :=
  Nat.lt_of_not_le fun hi => hc (h.fresh i hi)

/-- No call gets a new slice or a panic. -/
structure Frame (c d : Config T) : Prop where
  created : d.created = c.created
  slices : ∀ i slice, (d.calls i).slice = some slice → (c.calls i).slice = some slice
  calm : ∀ i reason, d.calls i = .panicked reason → c.calls i = .panicked reason
  fresh : ∀ i, c.created ≤ i → d.calls i = c.calls i

theorem Frame.of_eq (hd : d.calls = c.calls) (hn : d.created = c.created) : Frame c d :=
  ⟨hn, by rw [hd]; exact fun _ _ => id, by rw [hd]; exact fun _ _ => id, by rw [hd]; exact fun _ _ => rfl⟩

theorem Frame.trans {m : Config T} (h : Frame c m) (k : Frame m d) : Frame c d :=
  ⟨k.created.trans h.created, fun i slice hs => h.slices i slice (k.slices i slice hs),
    fun i reason hr => h.calm i reason (k.calm i reason hr),
    fun i hi => (k.fresh i (by rw [h.created]; exact hi)).trans (h.fresh i hi)⟩

theorem Waker.Valid.frame {w : Waker} (h : w.Valid c.created c.calls side) (hf : Frame c d) :
    w.Valid d.created d.calls side := by
  cases w with
  | selector s => exact ⟨hf.created ▸ h.1, fun slice hs => h.2 slice (hf.slices _ _ hs)⟩
  | resumption => trivial

theorem WellFormed.frame (h : WellFormed c) (hf : Frame c d)
    (hq : ∀ side, ∀ w ∈ d.queue side, w ∈ c.queue side) : WellFormed d where
  fresh i hi := by
    rw [hf.created] at hi
    exact (hf.fresh i hi).trans (h.fresh i hi)
  valid side w hw := (h.valid side w (hq side w hw)).frame hf

theorem Frame.of_update {call : Call T} (hd : d.calls = Function.update c.calls i call)
    (hn : d.created = c.created) (hi : i < c.created)
    (hs : ∀ slice, call.slice = some slice → (c.calls i).slice = some slice)
    (hp : ∀ reason, call = .panicked reason → c.calls i = .panicked reason) : Frame c d := by
  refine ⟨hn, fun j slice hj => ?_, fun j reason hj => ?_, fun j hj => ?_⟩ <;> rw [hd] at *
  · by_cases hji : j = i
    · subst hji
      exact hs slice (by simpa using hj)
    · simpa [hji] using hj
  · by_cases hji : j = i
    · subst hji
      exact hp reason (by simpa using hj)
    · simpa [hji] using hj
  · have hji : j ≠ i := by omega
    simp [hji]

theorem WellFormed.update (h : WellFormed c) {call : Call T}
    (hd : d.calls = Function.update c.calls i call) (hn : d.created = c.created)
    (hi : i < c.created)
    (hs : ∀ slice, call.slice = some slice → (c.calls i).slice = some slice)
    (hq : ∀ side, ∀ w ∈ d.queue side, w ∈ c.queue side) : WellFormed d where
  fresh j hj := by
    rw [hn] at hj
    have hji : j ≠ i := by omega
    rw [hd]
    simpa [hji] using h.fresh j hj
  valid side w hw := by
    have hold := h.valid side w (hq side w hw)
    rw [hd, hn]
    cases w with
    | selector s =>
      refine ⟨hold.1, fun slice hslice => hold.2 slice ?_⟩
      by_cases hsi : s.waker = i
      · rw [hsi] at hslice ⊢
        exact hs slice (by simpa using hslice)
      · simpa [hsi] using hslice
    | resumption => trivial

theorem Call.applies_iff {call : Call T} : call.applies = true ↔
    ∃ slice identifier counted, call = .selecting slice identifier counted .pending := by
  cases call <;> simp [Call.applies]

/-- Waking changes one call: a `select!` gets its branch, or a suspended coroutine may run. -/
inductive WakeCase (c : Config T) (side : Side) (w : Waker) : Prop where
  | refused (h : w.wakes c.calls = false) (eq : (c.wake w).1 = c)
  | selector (s : Selector) (slice : Slice) (identifier : ℕ) (counted : List ℕ)
      (waker : w = .selector s) (created : s.waker < c.created)
      (call : c.calls s.waker = .selecting slice identifier counted .pending)
      (branch : slice[s.index]?.join = some side)
      (eq : (c.wake w).1 =
        c.finish s.waker (.selecting slice identifier counted (.fired (some s.index))))
  | resumption (j : ℕ) (waker : w = .resumption j)
      (eq : (c.wake w).1 = c.finish j (c.calls j).resume)

theorem wake_cases {w : Waker} (hw : w.Valid c.created c.calls side) : WakeCase c side w := by
  cases w with
  | selector s =>
    obtain ⟨hlt, hslice⟩ := hw
    by_cases ha : (c.calls s.waker).applies = true
    · obtain ⟨slice, identifier, counted, hc⟩ := Call.applies_iff.mp ha
      refine .selector s slice identifier counted rfl hlt hc (hslice slice (by rw [hc]; rfl)) ?_
      simp [Config.wake, hc, Call.applies, Cell.isPending, Call.fire, Cell.fire]
    · exact .refused (Bool.eq_false_of_not_eq_true ha) (by simp [Config.wake, ha])
  | resumption j => exact .resumption j rfl rfl

theorem Call.slice_resume (call : Call T) : call.resume.slice = call.slice := by
  cases call <;> rfl

theorem finish_resume_unused {j : ℕ} (hj : c.calls j = .unused) :
    c.finish j (c.calls j).resume = c := by
  have hu : Function.update c.calls j .unused = c.calls :=
    Function.update_eq_self_iff.mpr hj.symm
  rw [hj]
  simp [Config.finish, Call.resume, hu]

theorem wake_frame (hf : ∀ i, c.created ≤ i → c.calls i = .unused) {w : Waker}
    (hw : w.Valid c.created c.calls side) : Frame c (c.wake w).1 := by
  cases wake_cases hw with
  | refused _ heq => exact .of_eq (by rw [heq]) (by rw [heq])
  | selector s slice identifier counted _ hlt hc _ heq =>
    rw [heq]
    exact .of_update rfl rfl hlt (by rw [hc]; exact fun _ => id) nofun
  | resumption j _ heq =>
    rw [heq]
    by_cases hj : j < c.created
    · refine .of_update rfl rfl hj (fun slice hs => by rwa [Call.slice_resume] at hs) ?_
      intro reason hr
      cases hc : c.calls j <;> rw [hc] at hr <;> first | exact hr | cases hr
    · rw [finish_resume_unused (hf j (Nat.le_of_not_lt hj))]
      exact .of_eq rfl rfl

theorem wake_state (c : Config T) (w : Waker) : (c.wake w).1.toState = c.toState := by
  cases w with
  | selector s =>
    unfold Config.wake
    dsimp only
    split <;> rfl
  | resumption => rfl

theorem wake_queue (c : Config T) (w : Waker) (side : Side) :
    (c.wake w).1.queue side = c.queue side := by
  rw [wake_state]

/-- Waking everybody touches calls alone. -/
theorem wakeAll_frame (h : WellFormed c) {wakers : List Waker}
    (hq : ∀ w ∈ wakers, w.Valid c.created c.calls side) :
    Frame c (c.wakeAll wakers) ∧ (c.wakeAll wakers).toState = c.toState := by
  induction wakers generalizing c with
  | nil => exact ⟨.of_eq rfl rfl, rfl⟩
  | cons w rest ih =>
    have hw := wake_frame h.fresh (hq w List.mem_cons_self)
    have hwell : WellFormed (c.wake w).1 :=
      h.frame hw fun side v hv => by rwa [wake_queue] at hv
    obtain ⟨hf, hs⟩ := ih hwell fun v hv => (hq v (List.mem_cons_of_mem w hv)).frame hw
    exact ⟨hw.trans hf, hs.trans (wake_state c w)⟩

theorem WellFormed.wakeQueue (h : WellFormed c) (side : Side) :
    Frame c (c.wakeQueue side (c.queue side)) ∧
      (c.wakeQueue side (c.queue side)).deque = c.deque ∧
      (c.wakeQueue side (c.queue side)).bound = c.bound ∧
      (c.wakeQueue side (c.queue side)).closed = c.closed ∧
      ∀ other, (c.wakeQueue side (c.queue side)).queue other <:+ c.queue other := by
  have hset : ∀ {rest other}, rest <:+ c.queue side → (c.setQueue side rest).queue other <:+
      c.queue other := by
    intro rest other hr
    by_cases ho : other = side
    · subst ho
      rwa [setQueue_queue]
    · rw [setQueue_opposite c rest ho]
  rcases wakeQueue_cases c side (c.queue side) with ⟨_, heq⟩ | ⟨refused, w, rest, hq, _, heq⟩
  · rw [heq]
    exact ⟨.of_eq (by simp) (by simp), by simp, by simp, by simp,
      fun other => hset List.nil_suffix⟩
  · have hw : w.Valid c.created c.calls side := h.valid side w (by simp [hq])
    have hset' : Frame c (c.setQueue side rest) := .of_eq (by simp) (by simp)
    have hfresh : ∀ i, (c.setQueue side rest).created ≤ i →
        (c.setQueue side rest).calls i = .unused := by simpa using h.fresh
    have hsuffix : rest <:+ c.queue side :=
      hq ▸ (List.suffix_cons w rest).trans (List.suffix_append refused _)
    rw [heq, wake_state]
    exact ⟨hset'.trans (wake_frame hfresh (hw.frame hset')), by simp, by simp, by simp,
      fun other => hset hsuffix⟩

theorem WellFormed.close (h : WellFormed c) :
    Frame c c.close ∧ c.close.closed = true ∧ c.close.deque = c.deque ∧
      c.close.bound = c.bound ∧ ∀ side, c.close.queue side = [] := by
  have hstart : Frame c { c with closed := true, senders := [] } := .of_eq rfl rfl
  have hwell : WellFormed { c with closed := true, senders := [] } := by
    refine h.frame hstart fun side w hw => ?_
    cases side with
    | send => cases hw
    | recv => exact hw
  obtain ⟨hf, hs⟩ := wakeAll_frame hwell fun w hw => h.valid .send w hw
  obtain ⟨d, hd⟩ : ∃ d, d = { c with closed := true, senders := [] }.wakeAll (c.queue .send) :=
    ⟨_, rfl⟩
  rw [← hd] at hf hs
  have hfd : Frame c { d with receivers := [] } := hstart.trans (hf.trans (.of_eq rfl rfl))
  have hwell' : WellFormed { d with receivers := [] } := by
    refine h.frame hfd fun side w hw => ?_
    cases side with
    | send =>
      have hw : w ∈ d.senders := hw
      rw [hs] at hw
      cases hw
    | recv => cases hw
  obtain ⟨hf', hs'⟩ := wakeAll_frame hwell' fun w hw => (h.valid .recv w hw).frame hfd
  have heq : c.close = { d with receivers := [] }.wakeAll (c.queue .recv) := by
    rw [hd]
    rfl
  have hstate : d.toState = { c with closed := true, senders := [] }.toState := hs
  rw [heq]
  refine ⟨hfd.trans hf', ?_, ?_, ?_, fun side => ?_⟩ <;> rw [hs']
  · change d.closed = true
    rw [hstate]
  · change d.deque = c.deque
    rw [hstate]
  · change d.bound = c.bound
    rw [hstate]
  · cases side with
    | send => exact congrArg State.senders hs
    | recv => rfl

/-- `d` differs from `c` in its queues alone. -/
structure Requeue (c d : Config T) : Prop where
  calls : d.calls = c.calls
  created : d.created = c.created
  deque : d.deque = c.deque
  bound : d.bound = c.bound
  closed : d.closed = c.closed

theorem Requeue.refl (c : Config T) : Requeue c c := ⟨rfl, rfl, rfl, rfl, rfl⟩

theorem Requeue.trans {m : Config T} (h : Requeue c m) (k : Requeue m d) : Requeue c d :=
  ⟨k.calls.trans h.calls, k.created.trans h.created, k.deque.trans h.deque,
    k.bound.trans h.bound, k.closed.trans h.closed⟩

theorem requeue_setQueue (c : Config T) (side : Side) (queue : List Waker) :
    Requeue c (c.setQueue side queue) := by
  cases side <;> exact ⟨rfl, rfl, rfl, rfl, rfl⟩

theorem Requeue.stock (h : Requeue c d) (side : Side) : d.stock side = c.stock side :=
  stock_congr h.bound h.deque side

/-- A selector of the branches of this side that call `i` puts into its queue. -/
def Watches (slice : Slice) (i identifier : ℕ) (side : Side) (w : Waker) : Prop :=
  ∃ index, w = .selector ⟨index, i, identifier⟩ ∧ slice[index]?.join = some side

theorem watch_queue (c : Config T) (slice : Slice) (i identifier index : ℕ) :
    Requeue c (c.watch slice i identifier index) ∧ ∀ side, ∃ added,
      (c.watch slice i identifier index).queue side = c.queue side ++ added ∧
        ∀ w ∈ added, Watches slice i identifier side w := by
  have hnew : ∀ {side : Side}, slice[index]? = some (some side) →
      ∀ w ∈ [Waker.selector ⟨index, i, identifier⟩], Watches slice i identifier side w := by
    intro side hi w hw
    exact ⟨index, List.mem_singleton.mp hw, by rw [hi]; rfl⟩
  have hold : ∀ side, ∃ added, c.queue side = c.queue side ++ added ∧
      ∀ w ∈ added, Watches slice i identifier side w :=
    fun side => ⟨[], (List.append_nil _).symm, nofun⟩
  unfold Config.watch
  split
  next hi =>
    refine ⟨requeue_setQueue c .send _, fun side => ?_⟩
    cases side with
    | send => exact ⟨_, rfl, hnew hi⟩
    | recv => exact hold .recv
  next hi =>
    refine ⟨requeue_setQueue c .recv _, fun side => ?_⟩
    cases side with
    | send => exact hold .send
    | recv => exact ⟨_, rfl, hnew hi⟩
  next => exact ⟨.refl c, hold⟩

theorem watch_all_queues (slice : Slice) (i identifier : ℕ) (watched : List ℕ) (c : Config T) :
    Requeue c (watched.foldl (fun d index => d.watch slice i identifier index) c) ∧
      ∀ side, ∃ added,
        (watched.foldl (fun d index => d.watch slice i identifier index) c).queue side =
          c.queue side ++ added ∧ ∀ w ∈ added, Watches slice i identifier side w := by
  induction watched generalizing c with
  | nil => exact ⟨.refl c, fun side => ⟨[], (List.append_nil _).symm, nofun⟩⟩
  | cons index rest ih =>
    obtain ⟨hfirst, hadd⟩ := watch_queue c slice i identifier index
    obtain ⟨hrest, hadds⟩ := ih (c.watch slice i identifier index)
    refine ⟨hfirst.trans hrest, fun side => ?_⟩
    obtain ⟨added, heq, hw⟩ := hadd side
    obtain ⟨more, heq', hw'⟩ := hadds side
    refine ⟨added ++ more, by rw [List.foldl_cons, heq', heq, List.append_assoc], fun w hm => ?_⟩
    exact (List.mem_append.mp hm).elim (hw w) (hw' w)

theorem unwatch_queue (c : Config T) (slice : Slice) (identifier index : ℕ) :
    Requeue c (c.unwatch slice identifier index) ∧
      ∀ side, ((c.unwatch slice identifier index).queue side).Sublist (c.queue side) := by
  unfold Config.unwatch
  split
  next =>
    refine ⟨requeue_setQueue c .send _, fun side => ?_⟩
    cases side with
    | send => exact List.eraseP_sublist
    | recv => exact List.Sublist.refl _
  next =>
    refine ⟨requeue_setQueue c .recv _, fun side => ?_⟩
    cases side with
    | send => exact List.Sublist.refl _
    | recv => exact List.eraseP_sublist
  next => exact ⟨.refl c, fun side => List.Sublist.refl _⟩

theorem unwatch_all_queues (slice : Slice) (identifier : ℕ) (counted : List ℕ) (c : Config T) :
    Requeue c (counted.foldl (fun d index => d.unwatch slice identifier index) c) ∧
      ∀ side, ((counted.foldl (fun d index => d.unwatch slice identifier index) c).queue
        side).Sublist (c.queue side) := by
  induction counted generalizing c with
  | nil => exact ⟨.refl c, fun side => List.Sublist.refl _⟩
  | cons index rest ih =>
    obtain ⟨hfirst, hsub⟩ := unwatch_queue c slice identifier index
    obtain ⟨hrest, hsubs⟩ := ih (c.unwatch slice identifier index)
    exact ⟨hfirst.trans hrest, fun side => (hsubs side).trans (hsub side)⟩

theorem WellFormed.requeue (h : WellFormed c) (hd : Requeue c d)
    (hq : ∀ side, ∀ w ∈ d.queue side, w ∈ c.queue side) : WellFormed d :=
  h.frame (.of_eq hd.calls hd.created) hq

theorem begin_calls (c : Config T) (call : Call T) (hi : i = c.created) :
    (c.begin call).calls i = call := by
  subst hi
  exact Function.update_self ..

theorem WellFormed.begin (h : WellFormed c) (hd : Requeue c d) (call : Call T)
    (hq : ∀ side, ∀ w ∈ d.queue side, w ∈ c.queue side ∨
      w.Valid (c.created + 1) (d.begin call).calls side) : WellFormed (d.begin call) := by
  refine ⟨fun i hi => ?_, fun side w hw => ?_⟩
  · have hi : d.created + 1 ≤ i := hi
    have hne : i ≠ d.created := by omega
    rw [hd.created] at hi
    simpa [Config.begin, hne, hd.calls] using h.fresh i (by omega)
  · rw [show (d.begin call).created = c.created + 1 from congrArg (· + 1) hd.created]
    rcases hq side w hw with hold | hnew
    · cases w with
      | selector s =>
        obtain ⟨hlt, hslice⟩ := h.valid side _ hold
        refine ⟨Nat.lt_succ_of_lt hlt, fun slice hs => hslice slice ?_⟩
        simpa [Config.begin, hd.created, hd.calls, hlt.ne] using hs
      | resumption => trivial
    · exact hnew

/-- A `select!` that waits watches branches that are not ready, and holds no permit yet. -/
theorem select_begins {slice : Slice} {identifier start : ℕ} {broken : Option ℕ} {skipped : Bool}
    (hs : c.select slice identifier start broken skipped = some d) :
    (∀ endpoint ∈ slice, ∀ side ∈ endpoint, c.isReady side = false) ∧
      ∃ (watched counted : List ℕ) (cell : Cell (Option ℕ)),
        (∀ index, cell ≠ .fired (some index)) ∧
        d = (watched.foldl (fun d index => d.watch slice c.created identifier index) c).begin
          (.selecting slice identifier counted cell) := by
  unfold Config.select at hs
  split at hs
  next => cases hs
  next h =>
    refine ⟨fun endpoint he side hside => ?_, _, _, _, fun index => ?_, (Option.some.inj hs).symm⟩
    · by_contra hr
      refine h (Bool.or_eq_true_iff.mpr (Or.inl (List.any_eq_true.mpr ⟨endpoint, he, ?_⟩)))
      rw [Option.mem_def.mp hside]
      simpa using hr
    · cases broken <;> simp

theorem selecting_well_formed (h : WellFormed c) {slice : Slice} {identifier : ℕ}
    (watched counted : List ℕ) (cell : Cell (Option ℕ)) :
    WellFormed ((watched.foldl (fun d index => d.watch slice c.created identifier index) c).begin
      (.selecting slice identifier counted cell)) := by
  obtain ⟨hd, hadded⟩ := watch_all_queues slice c.created identifier watched c
  refine h.begin hd _ fun side w hw => ?_
  obtain ⟨added, heq, hw'⟩ := hadded side
  rw [heq] at hw
  rcases List.mem_append.mp hw with hold | hnew
  · exact Or.inl hold
  · obtain ⟨index, rfl, hi⟩ := hw' w hnew
    refine Or.inr ⟨Nat.lt_succ_self _, fun other ho => ?_⟩
    rw [begin_calls _ _ hd.created.symm] at ho
    cases ho
    exact hi

end SerialChannel
