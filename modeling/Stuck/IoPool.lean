import Stuck.Settling
import Stuck.Uring
import Mathlib.Data.List.Basic
import Mathlib.Tactic.Tauto

/-! The pool of threads for file operations (src/io/poller/pool.rs). The threads share the channel
of requests, each has a receiver of `closing` of its own, and each performs one system call at a
time. -/
namespace IoPool

open TransitionSystem
open Uring (Request Operation OpCode Answer)

inductive Os where
  | linux
  | unix
  deriving DecidableEq, Repr

/-- An `isize` as an `i32`. -/
def asI32 (x : ℤ) : ℤ := (BitVec.ofInt 32 x).toInt

/-- What a system call gives back: `rc`, and `errno` where `rc` is negative. -/
structure Syscall where
  rc : ℤ
  errno : ℤ
  deriving DecidableEq, Repr

def Syscall.result (call : Syscall) : Answer :=
  if call.rc < 0 then .error call.errno else .ok (asI32 call.rc)

/-- `rc.map(|_| 0)`. -/
def Syscall.done (call : Syscall) : Answer := call.result.map fun _ => 0

/-- `EINTR`. -/
def eintr : ℤ := 4

/-- `File::sync_data`, `sync_all` and `set_len` of the standard library make their system call again
when a signal interrupts it; the other calls are made once. -/
def repeats (operation : Operation) (call : Syscall) : Bool :=
  match operation with
  | .fsync _ _ | .truncate _ _ => decide (call.rc < 0) && call.errno == eintr
  | _ => false

/-- `process` up to the answer to a system call that is not made again; `unreachable!` is `none`. -/
def process (os : Os) (operation : Operation) (call : Syscall) : Option Answer :=
  match operation with
  | .open _ _ _ | .read _ _ _ _ | .write _ _ _ _ => some call.result
  | .fsync _ _ | .truncate _ _ => some call.done
  | .stat _ _ _ => if os = .linux then none else some call.result
  | .cancel _ => none

/-- A thread is in `select!`, in a system call, or gone. -/
inductive Phase where
  | selecting
  | processing (request : Request)
  | ended
  deriving DecidableEq, Repr

/-- `heard` is `is_drained` of the receiver of `closing`. -/
structure Worker where
  phase : Phase
  heard : Bool
  deriving DecidableEq, Repr

def Worker.new : Worker := ⟨.selecting, false⟩

/-- `accepted` and `started` record the requests that were sent to the pool and those that a thread
took up, `woken` the answers; no operation reads them. -/
structure State where
  channel : List Request
  closed : Bool
  stopping : Bool
  workers : List Worker
  crash : Bool
  accepted : List Request
  started : List Request
  woken : List (ℕ × Answer)

/-- `Poller::start`. -/
def State.start (parallelism : ℕ) : State where
  channel := []
  closed := false
  stopping := false
  workers := List.replicate parallelism .new
  crash := false
  accepted := []
  started := []
  woken := []

/-- The bound of the channel that `Poller::new` makes. -/
def channelBound : ℕ := 4096

/-- What the requester brings here: on Linux the ring serves the rest, and elsewhere the pool serves
everything but a cancel. -/
def Routed (os : Os) (operation : Operation) : Prop :=
  if os = .linux then operation.opCode = .truncate else operation.opCode ≠ .cancel

instance (os : Os) (operation : Operation) : Decidable (Routed os operation) :=
  inferInstanceAs (Decidable (if os = .linux then operation.opCode = .truncate
    else operation.opCode ≠ .cancel))

/-- `send`, `leave` (the last requester is dropped) and `stop` come from outside; `take` and `hear`
are the branches of `select!` of thread `i`, and `finish` is the end of its system call, or of the
last one where it is made again. -/
inductive Event where
  | send (request : Request)
  | leave
  | stop
  | take (i : ℕ)
  | hear (i : ℕ)
  | finish (i : ℕ) (call : Syscall)
  deriving DecidableEq, Repr

def Event.Own : Event → Prop
  | .take _ | .hear _ | .finish _ _ => True
  | _ => False

def State.set (s : State) (i : ℕ) (worker : Worker) : State :=
  { s with workers := s.workers.set i worker }

/-- Every request has a session of its own. -/
def State.step (os : Os) (s : State) : Event → Option State
  | .send request =>
    if s.closed = false ∧ s.channel.length < channelBound ∧ Routed os request.operation ∧
        ∀ q ∈ s.accepted, q.result.id ≠ request.result.id then
      some { s with channel := s.channel ++ [request], accepted := s.accepted ++ [request] }
    else none
  | .leave => some { s with closed := true }
  | .stop => some { s with stopping := true }
  | .take i =>
    match s.workers[i]? with
    | some ⟨.selecting, heard⟩ =>
      match s.channel with
      | request :: rest =>
        some ({ s with channel := rest, started := s.started ++ [request] }.set i
          ⟨.processing request, heard⟩)
      | [] => if s.closed then some (s.set i ⟨.ended, heard⟩) else none
    | _ => none
  | .hear i =>
    match s.workers[i]? with
    | some ⟨.selecting, false⟩ =>
      if s.stopping then some ({ s with closed := true }.set i ⟨.selecting, true⟩) else none
    | _ => none
  | .finish i call =>
    match s.workers[i]? with
    | some ⟨.processing request, heard⟩ =>
      if repeats request.operation call then none
      else
        match process os request.operation call with
        | some answer =>
          some ({ s with woken := s.woken ++ [(request.result.id, answer)] }.set i
            ⟨.selecting, heard⟩)
        | none => some { s with crash := true }
    | _ => none

def system (os : Os) (parallelism : ℕ) : System State Event where
  init := .start parallelism
  step := State.step os

variable {os : Os} {parallelism : ℕ} {s t : State}

def Worker.job : Worker → Option Request
  | ⟨.processing request, _⟩ => some request
  | _ => none

/-- The requests that the threads are at work on. -/
def State.jobs (s : State) : List Request := s.workers.filterMap Worker.job

def State.wokenIds (s : State) : List ℕ := s.woken.map Prod.fst

/-- What an event does: a step of a thread concerns the state and nobody but that thread. -/
inductive Acts (os : Os) (s : State) : Event → State → Prop where
  | sent {request : Request} (opened : s.closed = false) (routed : Routed os request.operation)
    (fresh : ∀ q ∈ s.accepted, q.result.id ≠ request.result.id) : Acts os s (.send request)
      { s with channel := s.channel ++ [request], accepted := s.accepted ++ [request] }
  | left : Acts os s .leave { s with closed := true }
  | stopped : Acts os s .stop { s with stopping := true }
  | taken {i : ℕ} {front back : List Worker} {heard : Bool} {request : Request}
    {rest : List Request} (workers : s.workers = front ++ ⟨.selecting, heard⟩ :: back)
    (head : s.channel = request :: rest) : Acts os s (.take i)
      { s with channel := rest, started := s.started ++ [request],
               workers := front ++ ⟨.processing request, heard⟩ :: back }
  | ended {i : ℕ} {front back : List Worker} {heard : Bool}
    (workers : s.workers = front ++ ⟨.selecting, heard⟩ :: back) (empty : s.channel = [])
    (closed : s.closed = true) :
    Acts os s (.take i) { s with workers := front ++ ⟨.ended, heard⟩ :: back }
  | heard {i : ℕ} {front back : List Worker}
    (workers : s.workers = front ++ ⟨.selecting, false⟩ :: back) (stopping : s.stopping = true) :
    Acts os s (.hear i)
      { s with closed := true, workers := front ++ ⟨.selecting, true⟩ :: back }
  | finished {i : ℕ} {call : Syscall} {front back : List Worker} {heard : Bool}
    {request : Request} {answer : Answer}
    (workers : s.workers = front ++ ⟨.processing request, heard⟩ :: back)
    (answered : process os request.operation call = some answer) : Acts os s (.finish i call)
      { s with woken := s.woken ++ [(request.result.id, answer)],
               workers := front ++ ⟨.selecting, heard⟩ :: back }
  | crashed {i : ℕ} {call : Syscall} {front back : List Worker} {heard : Bool}
    {request : Request} (workers : s.workers = front ++ ⟨.processing request, heard⟩ :: back)
    (unreachable : process os request.operation call = none) :
    Acts os s (.finish i call) { s with crash := true }

theorem set_workers {i : ℕ} {worker : Worker} (hw : s.workers[i]? = some worker) :
    ∃ front back, s.workers = front ++ worker :: back ∧
      ∀ other, s.workers.set i other = front ++ other :: back := by
  obtain ⟨hi, rfl⟩ := List.getElem?_eq_some_iff.mp hw
  refine ⟨s.workers.take i, s.workers.drop (i + 1), ?_, fun other => ?_⟩
  · rw [List.getElem_cons_drop, List.take_append_drop]
  · exact List.set_eq_take_append_cons_drop.trans (if_pos hi)

theorem step_acts {e : Event} (h : (system os parallelism).step s e = some t) :
    Acts os s e t := by
  change s.step os e = some t at h
  cases e with
  | send request =>
    obtain ⟨⟨hc, _, hr, hf⟩, ⟨⟩⟩ := Option.ite_none_right_eq_some.mp h
    exact .sent hc hr hf
  | leave => cases h; exact .left
  | stop => cases h; exact .stopped
  | take i =>
    simp only [State.step] at h
    split at h
    case h_1 heard hw =>
      obtain ⟨front, back, hworkers, hset⟩ := set_workers hw
      split at h
      case h_1 request rest hc =>
        cases h
        simp only [State.set, hset]
        exact .taken hworkers hc
      case h_2 hc =>
        obtain ⟨hclosed, ⟨⟩⟩ := Option.ite_none_right_eq_some.mp h
        simp only [State.set, hset]
        exact .ended hworkers hc hclosed
    · cases h
  | hear i =>
    simp only [State.step] at h
    split at h
    case h_1 hw =>
      obtain ⟨front, back, hworkers, hset⟩ := set_workers hw
      obtain ⟨hs, ⟨⟩⟩ := Option.ite_none_right_eq_some.mp h
      simp only [State.set, hset]
      exact .heard hworkers hs
    · cases h
  | finish i call =>
    simp only [State.step] at h
    split at h
    case h_1 request heard hw =>
      obtain ⟨front, back, hworkers, hset⟩ := set_workers hw
      split at h
      · cases h
      · split at h
        case h_1 answer ha =>
          cases h
          simp only [State.set, hset]
          exact .finished hworkers ha
        case h_2 hn =>
          cases h
          exact .crashed hworkers hn
    · cases h

/-- Nobody is asked for what it cannot do. -/
theorem process_isSome {operation : Operation} (hr : Routed os operation) (call : Syscall) :
    (process os operation call).isSome := by
  unfold Routed at hr
  cases operation with
  | cancel target =>
    split at hr
    · cases hr
    · exact absurd rfl hr
  | stat fd path metadata =>
    split at hr
    · cases hr
    case isFalse hos =>
      unfold process
      rw [if_neg hos]
      rfl
  | «open» | read | write | fsync | truncate => rfl

/-- Where the requests are, and what a thread that is gone or has heard the end relies on. -/
structure Inv (os : Os) (s : State) : Prop where
  ids : (s.accepted.map fun q => q.result.id).Nodup
  order : s.accepted = s.started ++ s.channel
  served : (s.started.map fun q => q.result.id).Perm
    (s.wokenIds ++ s.jobs.map fun q => q.result.id)
  routed : ∀ q ∈ s.accepted, Routed os q.operation
  working : ∀ q ∈ s.jobs, q ∈ s.started
  ended : ∀ w ∈ s.workers, w.phase = .ended → s.closed = true ∧ s.channel = []
  heard : ∀ w ∈ s.workers, w.heard = true → s.closed = true
  sound : s.crash = false

theorem start_jobs : (State.start parallelism).jobs = [] := by
  refine List.filterMap_eq_nil_iff.mpr fun w hw => ?_
  rw [List.eq_of_mem_replicate hw]
  rfl

theorem start_inv : Inv os (.start parallelism) where
  ids := List.nodup_nil
  order := rfl
  served := by
    rw [start_jobs]
    exact List.Perm.refl _
  routed q hq := by cases hq
  working q hq := by
    rw [start_jobs] at hq
    cases hq
  ended w hw he := by
    rw [List.eq_of_mem_replicate hw] at he
    cases he
  heard w hw hh := by
    rw [List.eq_of_mem_replicate hw] at hh
    cases hh
  sound := rfl

theorem jobs_append {front back : List Worker} {w : Worker}
    (hw : s.workers = front ++ w :: back) :
    s.jobs = front.filterMap Worker.job ++ w.job.toList ++ back.filterMap Worker.job := by
  rw [State.jobs, hw, List.filterMap_append, List.append_assoc]
  cases hj : w.job with
  | none => rw [List.filterMap_cons_none hj]; rfl
  | some request => rw [List.filterMap_cons_some hj]; rfl

theorem mem_replaced {front back : List Worker} {w w' v : Worker}
    (hw : s.workers = front ++ w :: back) (hv : v ∈ front ++ w' :: back) :
    v = w' ∨ v ∈ s.workers := by
  rw [hw]
  rcases List.mem_append.mp hv with hv | hv
  · exact .inr (List.mem_append_left _ hv)
  · rcases List.mem_cons.mp hv with rfl | hv
    · exact .inl rfl
    · exact .inr (List.mem_append_right _ (List.mem_cons_of_mem _ hv))

variable {front back : List Worker} {heard : Bool} {request : Request}

/-- A thread takes up the request at the head of the channel. -/
theorem Inv.taken (h : Inv os s) (workers : s.workers = front ++ ⟨.selecting, heard⟩ :: back)
    {rest : List Request} (head : s.channel = request :: rest) :
    Inv os { s with channel := rest, started := s.started ++ [request],
                    workers := front ++ ⟨.processing request, heard⟩ :: back } := by
  have hold := jobs_append workers
  have hnew := jobs_append
    (s := { s with channel := rest, started := s.started ++ [request],
                   workers := front ++ ⟨.processing request, heard⟩ :: back }) rfl
  constructor
  · exact h.ids
  · rw [h.order, head, List.append_assoc]
    rfl
  · have hserved := h.served.append_right [request.result.id]
    rw [hold] at hserved
    rw [hnew, List.map_append]
    refine hserved.trans ?_
    simp only [List.map_append, List.append_assoc, Worker.job, Option.toList_none,
      List.nil_append]
    exact List.Perm.append_left _ (List.Perm.append_left _ List.perm_append_comm)
  · exact h.routed
  · intro q hq
    rw [hnew] at hq
    have hworking := h.working q
    rw [hold] at hworking
    simp only [Worker.job, Option.toList_some, Option.toList_none, List.mem_append,
      List.mem_singleton, List.not_mem_nil, or_false] at hq hworking ⊢
    tauto
  · intro w hw he
    rcases mem_replaced workers hw with rfl | hw
    · cases he
    · have hempty := (h.ended w hw he).2
      rw [head] at hempty
      cases hempty
  · intro w hw hh
    rcases mem_replaced workers hw with rfl | hw
    · exact h.heard ⟨.selecting, heard⟩ (by simp [workers]) hh
    · exact h.heard w hw hh
  · exact h.sound

/-- A thread answers the request that it is at work on. -/
theorem Inv.finished (h : Inv os s)
    (workers : s.workers = front ++ ⟨.processing request, heard⟩ :: back) (answer : Answer) :
    Inv os { s with woken := s.woken ++ [(request.result.id, answer)],
                    workers := front ++ ⟨.selecting, heard⟩ :: back } := by
  have hold := jobs_append workers
  have hnew := jobs_append
    (s := { s with woken := s.woken ++ [(request.result.id, answer)],
                   workers := front ++ ⟨.selecting, heard⟩ :: back }) rfl
  constructor
  · exact h.ids
  · exact h.order
  · have hserved := h.served
    rw [hold] at hserved
    rw [hnew]
    refine hserved.trans ?_
    simp only [State.wokenIds, List.map_append, List.append_assoc]
    refine List.Perm.append_left _ ?_
    exact List.perm_append_comm_assoc _ _ _
  · exact h.routed
  · intro q hq
    refine h.working q ?_
    rw [hnew] at hq
    rw [hold]
    simp only [Worker.job, Option.toList_some, Option.toList_none, List.mem_append,
      List.mem_singleton, List.not_mem_nil, or_false] at hq ⊢
    tauto
  · intro w hw he
    rcases mem_replaced workers hw with rfl | hw
    · cases he
    · exact h.ended w hw he
  · intro w hw hh
    rcases mem_replaced workers hw with rfl | hw
    · exact h.heard ⟨.processing request, heard⟩ (by simp [workers]) hh
    · exact h.heard w hw hh
  · exact h.sound

/-- A thread in `select!` goes on without a request, or ends. -/
theorem Inv.changed (h : Inv os s) {w' : Worker} {closed : Bool}
    (workers : s.workers = front ++ ⟨.selecting, heard⟩ :: back) (hjob : w'.job = none)
    (hclosed : s.closed = true → closed = true)
    (hended : w'.phase = .ended → closed = true ∧ s.channel = [])
    (hheard : w'.heard = true → closed = true) :
    Inv os { s with closed, workers := front ++ w' :: back } := by
  have hjobs : State.jobs { s with closed, workers := front ++ w' :: back } = s.jobs := by
    rw [jobs_append workers, jobs_append (s := { s with closed, workers := front ++ w' :: back })
      rfl, hjob]
    rfl
  constructor
  · exact h.ids
  · exact h.order
  · rw [hjobs]
    exact h.served
  · exact h.routed
  · rw [hjobs]
    exact h.working
  · intro w hw he
    rcases mem_replaced workers hw with rfl | hw
    · exact hended he
    · exact (h.ended w hw he).imp_left hclosed
  · intro w hw hh
    rcases mem_replaced workers hw with rfl | hw
    · exact hheard hh
    · exact hclosed (h.heard w hw hh)
  · exact h.sound

/-- What a thread is at work on is among what the pool can do. -/
theorem Inv.reachable_job (h : Inv os s)
    (workers : s.workers = front ++ ⟨.processing request, heard⟩ :: back) (call : Syscall) :
    (process os request.operation call).isSome := by
  refine process_isSome (h.routed request ?_) call
  rw [h.order]
  refine List.mem_append_left _ (h.working request ?_)
  rw [jobs_append workers]
  simp [Worker.job]

theorem Inv.step (h : Inv os s) {e : Event} (hs : Acts os s e t) : Inv os t := by
  cases hs with
  | @sent request opened routed fresh =>
    constructor
    · rw [List.map_append, List.map_singleton]
      refine h.ids.append (List.nodup_singleton _) ?_
      intro id hm hs
      obtain ⟨q, hq, rfl⟩ := List.mem_map.mp hm
      exact fresh q hq (List.mem_singleton.mp hs)
    · rw [h.order, List.append_assoc]
    · exact h.served
    · intro q hq
      rcases List.mem_append.mp hq with hq | hq
      · exact h.routed q hq
      · rw [List.mem_singleton.mp hq]
        exact routed
    · exact h.working
    · intro w hw he
      cases opened.symm.trans (h.ended w hw he).1
    · exact h.heard
    · exact h.sound
  | left => exact { h with ended := fun w hw he => ⟨rfl, (h.ended w hw he).2⟩
                           heard := fun _ _ _ => rfl }
  | stopped => exact { h with }
  | taken workers head => exact h.taken workers head
  | ended workers empty closed =>
    exact h.changed workers rfl id (fun _ => ⟨closed, empty⟩) (fun _ => closed)
  | heard workers stopping =>
    refine h.changed workers rfl (fun _ => rfl) (fun he => ?_) (fun _ => rfl)
    cases he
  | finished workers answered => exact h.finished workers _
  | @crashed i call front back heard request workers unreachable =>
    have hsome := h.reachable_job workers call
    rw [unreachable] at hsome
    cases hsome

theorem reachable_inv (h : Reachable (system os parallelism) s) : Inv os s :=
  h.invariant start_inv fun _ _ _ hi hs => hi.step (step_acts hs)

def Phase.weight : Phase → ℕ
  | .selecting => 1
  | .processing _ => 2
  | .ended => 0

def Worker.weight (w : Worker) : ℕ := w.phase.weight + (!w.heard).toNat

def weightOf : List Worker → ℕ
  | [] => 0
  | w :: rest => w.weight + weightOf rest

theorem weightOf_append (front back : List Worker) :
    weightOf (front ++ back) = weightOf front + weightOf back := by
  induction front with
  | nil => exact (Nat.zero_add _).symm
  | cons w rest ih =>
    rw [List.cons_append, weightOf, weightOf, ih]
    omega

/-- How many steps of the threads are left, at most. -/
def State.load (s : State) : ℕ := 3 * s.channel.length + weightOf s.workers

theorem load_replaced {w : Worker} (w' : Worker) (workers : s.workers = front ++ w :: back) :
    weightOf s.workers + w'.weight = weightOf (front ++ w' :: back) + w.weight := by
  rw [workers, weightOf_append, weightOf_append, weightOf, weightOf]
  omega

theorem Inv.lowers (h : Inv os s) {e : Event} (he : e.Own) (hs : Acts os s e t) :
    t.load < s.load := by
  cases hs with
  | sent | left | stopped => exact he.elim
  | @taken i front back heard request rest workers head =>
    have hsum := load_replaced ⟨.processing request, heard⟩ workers
    simp only [State.load, head, List.length_cons, Worker.weight, Phase.weight] at hsum ⊢
    omega
  | @ended i front back heard workers =>
    have hsum := load_replaced ⟨.ended, heard⟩ workers
    simp only [State.load, Worker.weight, Phase.weight] at hsum ⊢
    omega
  | @heard i front back workers =>
    have hsum := load_replaced ⟨.selecting, true⟩ workers
    simp only [State.load, Worker.weight, Phase.weight, Bool.not_true, Bool.not_false,
      Bool.toNat_true, Bool.toNat_false] at hsum ⊢
    omega
  | @finished i call front back heard request answer workers =>
    have hsum := load_replaced ⟨.selecting, heard⟩ workers
    simp only [State.load, Worker.weight, Phase.weight] at hsum ⊢
    omega
  | @crashed i call front back heard request workers unreachable =>
    have hsome := h.reachable_job workers call
    rw [unreachable] at hsome
    cases hsome

theorem system_descends : Descends (system os parallelism) Event.Own (Inv os) State.load where
  keeps _ _ _ h hs := h.step (step_acts hs)
  lowers _ _ _ h he hs := h.lowers he (step_acts hs)

/-- Every request that was accepted has been answered exactly once. -/
def State.Answered (s : State) : Prop := ∀ q ∈ s.accepted, s.wokenIds.count q.result.id = 1

def State.Ended (s : State) : Prop := ∀ w ∈ s.workers, w.phase = .ended

/-- The session of a request is woken once the request has been taken up and is not at work. -/
theorem Inv.answered (h : Inv os s) (hc : s.channel = []) (hj : s.jobs = []) : s.Answered := by
  intro q hq
  have horder := h.order
  rw [hc, List.append_nil] at horder
  have hperm := h.served
  rw [hj, List.map_nil, List.append_nil, ← horder] at hperm
  rw [← hperm.count_eq]
  exact List.count_eq_one_of_mem h.ids (List.mem_map_of_mem hq)

theorem jobs_eq_nil (h : ∀ w ∈ s.workers, w.job = none) : s.jobs = [] :=
  List.filterMap_eq_nil_iff.mpr h

theorem Inv.ended_answered (h : Inv os s) (hw : s.workers ≠ []) (he : s.Ended) : s.Answered := by
  obtain ⟨w, rest, hs⟩ := List.exists_cons_of_ne_nil hw
  have hmem : w ∈ s.workers := by simp [hs]
  refine h.answered (h.ended w hmem (he w hmem)).2 (jobs_eq_nil fun v hv => ?_)
  rcases v with ⟨phase, heard⟩
  have hp : phase = .ended := he _ hv
  rw [hp]
  rfl

/-- When no thread can go on, they wait for an open channel with nothing in it, or have ended. -/
theorem Inv.rests (h : Inv os s) (hr : (system os parallelism).Rests Event.Own s) {w : Worker}
    (hw : w ∈ s.workers) : w.phase = .ended ∨
      (w.phase = .selecting ∧ s.channel = [] ∧ s.closed = false ∧ s.stopping = false) := by
  obtain ⟨i, hi⟩ := List.mem_iff_getElem?.mp hw
  rcases w with ⟨phase, heard⟩
  cases phase with
  | ended => exact .inl rfl
  | processing request =>
    have hn := hr (.finish i ⟨0, 0⟩) trivial
    have hlast : repeats request.operation ⟨0, 0⟩ = false := by
      cases request.operation <;> rfl
    simp only [system, State.step, hi, hlast, Bool.false_eq_true, if_false] at hn
    split at hn <;> cases hn
  | selecting =>
    right
    have hn := hr (.take i) trivial
    simp only [system, State.step, hi] at hn
    split at hn
    · cases hn
    case h_2 hc =>
      have hopen : s.closed = false := by
        refine Bool.eq_false_iff.mpr fun hclosed => ?_
        rw [if_pos hclosed] at hn
        cases hn
      have hheard : heard = false := by
        refine Bool.eq_false_iff.mpr fun hh => ?_
        cases hopen.symm.trans (h.heard _ hw hh)
      subst hheard
      have hn := hr (.hear i) trivial
      simp only [system, State.step, hi] at hn
      refine ⟨rfl, hc, hopen, Bool.eq_false_iff.mpr fun hs => ?_⟩
      rw [if_pos hs] at hn
      cases hn

theorem workers_length (h : Reachable (system os parallelism) s) :
    s.workers.length = parallelism := by
  refine h.invariant (I := fun s => s.workers.length = parallelism) List.length_replicate
    fun s e t hl hs => ?_
  cases step_acts hs with
  | sent | left | stopped | crashed => exact hl
  | taken workers | ended workers | heard workers | finished workers =>
    rw [workers] at hl
    simpa using hl

/-- However the threads take turns, they come to rest within `load` steps; then every request that
was accepted has been answered once, and all threads have ended if they were told to stop or have no
callers left. -/
theorem pool_settles (hn : 0 < parallelism) (h : Reachable (system os parallelism) s) :
    (system os parallelism).Settles Event.Own s.load
      (fun t => t.Answered ∧ (t.stopping = true ∨ t.closed = true → t.Ended)) s := by
  intro es t ho hr
  have ht : Reachable (system os parallelism) t := h.run hr
  have hi := reachable_inv ht
  obtain ⟨hle, _⟩ := system_descends.settles (P := fun _ => True) (fun _ _ _ => trivial)
    (reachable_inv h) es t ho hr
  refine ⟨hle, fun hrests => ?_⟩
  by_cases hall : t.Ended
  · have hne : t.workers ≠ [] := by
      rw [← List.length_pos_iff, workers_length ht]
      exact hn
    exact ⟨hi.ended_answered hne hall, fun _ => hall⟩
  · simp only [State.Ended, not_forall] at hall
    obtain ⟨w, hw, hne⟩ := hall
    obtain ⟨_, hchannel, hclosed, hstopping⟩ := (hi.rests hrests hw).resolve_left hne
    have hjobs : t.jobs = [] := by
      refine jobs_eq_nil fun v hv => ?_
      rcases v with ⟨phase, heard⟩
      rcases hi.rests hrests hv with he | ⟨hs, _⟩
      · cases he
        rfl
      · cases hs
        rfl
    refine ⟨hi.answered hchannel hjobs, fun hs => ?_⟩
    rw [hclosed, hstopping] at hs
    simp at hs

/-- One request is in the channel and another at work when the runtime stops. -/
def closingRun : Execution (system .linux 2) where
  events := [.send ⟨⟨1, 0⟩, .truncate 3 64⟩, .send ⟨⟨2, 1⟩, .truncate 4 0⟩, .take 1, .stop]
  fires := by decide +kernel

theorem pool_closing : closingRun.final.load = 8 ∧
    (system .linux 2).Settles Event.Own closingRun.final.load
      (fun t => t.Answered ∧ (t.stopping = true ∨ t.closed = true → t.Ended)) closingRun.final :=
  ⟨by decide +kernel, pool_settles (by decide) closingRun.final_reachable⟩

/-- The threads take up the requests in the order in which they were accepted, and answer each at
most once; none of them meets an operation that it cannot do, and none ends before the channel is
closed and empty. -/
theorem pool_safe (h : Reachable (system os parallelism) s) :
    s.crash = false ∧ s.accepted = s.started ++ s.channel ∧
    (s.wokenIds ++ s.jobs.map fun q => q.result.id).Nodup ∧
    (∀ id, id ∈ s.wokenIds ∨ id ∈ s.jobs.map (fun q => q.result.id) ↔
      ∃ q ∈ s.started, q.result.id = id) ∧
    ∀ w ∈ s.workers, w.phase = .ended → s.closed = true ∧ s.channel = [] := by
  have hi := reachable_inv h
  refine ⟨hi.sound, hi.order, ?_, fun id => ?_, hi.ended⟩
  · have hids := hi.ids
    rw [hi.order, List.map_append] at hids
    exact hi.served.nodup_iff.mp hids.of_append_left
  · rw [← List.mem_append, ← hi.served.mem_iff, List.mem_map]

/-- The second request is answered first. -/
def overtakenRun : Execution (system .linux 2) where
  events := [.send ⟨⟨1, 0⟩, .truncate 3 64⟩, .send ⟨⟨2, 1⟩, .truncate 4 0⟩, .take 0, .take 1,
    .finish 1 ⟨-1, 27⟩]
  fires := by decide +kernel

theorem pool_overtaken : overtakenRun.final.wokenIds = [1] ∧
    overtakenRun.final.accepted = overtakenRun.final.started ++ overtakenRun.final.channel :=
  ⟨by decide +kernel, (pool_safe overtakenRun.final_reachable).2.1⟩

end IoPool
