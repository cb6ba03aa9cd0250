import Stuck.Select
import Mathlib.Data.List.Basic

/-! The expansion of `select!` (src/select_macro.rs): its clauses, the stages that the rules of
`select_internal!` form, and the code that they leave. Conditions, endpoints, expressions and bodies
are the caller's. The rules are nested in one another, and the compiler nests expansions up to its
recursion limit only. -/
namespace SelectMacro

open Select (Permit TrySelectError Slice)

inductive Operation (E X : Type*) where
  | recv (reader : E)
  | send (writer : E) (value : X)
  deriving DecidableEq, Repr

variable {C X B : Type*} {E : Type}

def Operation.endpoint : Operation E X → E
  | .recv reader => reader
  | .send writer _ => writer

inductive Head (C E X : Type*) where
  | operation (op : Operation E X) (pred : Option C)
  | default
  | complete
  deriving DecidableEq, Repr

/-- A body is a block, an expression that begins with a block and goes on with what begins no
clause, or any other expression. -/
inductive Form where
  | block
  | leading
  | plain
  deriving DecidableEq, Repr

/-- A clause as it is written: the form of its body, and whether a comma follows. -/
structure Clause (C E X B : Type*) where
  head : Head C E X
  body : B
  form : Form
  comma : Bool
  deriving DecidableEq, Repr

/-- A clause after `@list`. -/
structure Case (C E X B : Type*) where
  head : Head C E X
  body : B
  deriving DecidableEq, Repr

structure Branch (C E X B : Type*) where
  op : Operation E X
  pred : Option C
  body : B
  deriving DecidableEq, Repr

/-- A branch after `@add`, with its label. -/
structure Candidate (E X B : Type*) where
  index : ℕ
  op : Operation E X
  body : B
  deriving DecidableEq, Repr

inductive CompileError where
  | missingComma
  | unlisted
  | manyDefaults
  | manyCompletes
  | manyCases
  | recursionLimit
  deriving DecidableEq, Repr

/-- What the recursion limit leaves where `select!` stands (the crate sets none of its own), and how
deep `unreachable!` of the standard library expands. -/
structure Compiler where
  limit : ℕ
  unreachable : ℕ
  deriving DecidableEq, Repr

/-- `compile_error!` is one more expansion. Here and below `limit` is what the compiler still
nests. -/
def complain (limit : ℕ) (e : CompileError) : CompileError :=
  if limit = 0 then .recursionLimit else e

def Clause.case (clause : Clause C E X B) : Case C E X B := ⟨clause.head, clause.body⟩

def Clause.isOperation (clause : Clause C E X B) : Bool :=
  match clause.head with
  | .operation _ _ => true
  | .default | .complete => false

/-- Another clause may follow. -/
def Clause.separated (clause : Clause C E X B) : Bool :=
  clause.comma || (clause.isOperation && clause.form == .block)

/-- The rules that receive or send look for a block first, and take one off an expression. -/
def Clause.torn (clause : Clause C E X B) : Bool := clause.isOperation && clause.form == .leading

/-- `@list`. Only the clauses that receive or send complain of their comma. What is left of a torn
clause goes through `@list` once more. -/
def list : ℕ → List (Clause C E X B) → List (Case C E X B) →
    Except CompileError (ℕ × List (Case C E X B))
  | 0, _, _ => .error .recursionLimit
  | limit + 1, [], cases => .ok (limit, cases)
  | limit + 1, clause :: rest, cases =>
    if clause.torn then .error (complain (limit - 1) .unlisted)
    else if clause.separated || rest.isEmpty then list limit rest (cases ++ [clause.case])
    else if clause.isOperation then .error (complain limit .missingComma)
    else .error (complain limit .unlisted)

/-- What `@case` hands to `@init`. -/
structure Sorted (C E X B : Type*) where
  branches : List (Branch C E X B)
  default : Option B
  complete : Option B

/-- `@case`. -/
def sort : ℕ → List (Case C E X B) → Sorted C E X B → Except CompileError (ℕ × Sorted C E X B)
  | 0, _, _ => .error .recursionLimit
  | limit + 1, [], sorted => .ok (limit, sorted)
  | limit + 1, ⟨.default, body⟩ :: rest, sorted =>
    match sorted.default with
    | none => sort limit rest { sorted with default := some body }
    | some _ => .error (complain limit .manyDefaults)
  | limit + 1, ⟨.complete, body⟩ :: rest, sorted =>
    match sorted.complete with
    | none => sort limit rest { sorted with complete := some body }
    | some _ => .error (complain limit .manyCompletes)
  | limit + 1, ⟨.operation op pred, body⟩ :: rest, sorted =>
    sort limit rest { sorted with branches := sorted.branches ++ [⟨op, pred, body⟩] }

/-- The code that the macro leaves. `select` with its `else`, and `tryBoth` for a `default` beside a
`complete`; each is followed by the chain of comparisons that `@match` makes of the candidates. -/
inductive Code (C E X B : Type*) where
  | enable (index : ℕ) (pred : Option C) (endpoint : E) (next : Code C E X B)
  | select (candidates : List (Candidate E X B)) (otherwise : Option B)
  | trySelect (candidates : List (Candidate E X B)) (otherwise : B)
  | tryBoth (candidates : List (Candidate E X B)) (default complete : B)

/-- The expansion of `@match`, whose comparisons are nested and end in `unreachable!`. -/
def chain (compiler : Compiler) : ℕ → List (Candidate E X B) → Except CompileError Unit
  | 0, _ => .error .recursionLimit
  | limit + 1, [] => if compiler.unreachable ≤ limit then .ok () else .error .recursionLimit
  | limit + 1, _ :: rest => chain compiler limit rest

/-- `@add`, with the labels that are left. -/
def add (compiler : Compiler) : ℕ → List (Branch C E X B) → Option B → Option B → List ℕ →
    List (Candidate E X B) → Except CompileError (Code C E X B)
  | 0, _, _, _, _, _ => .error .recursionLimit
  | limit + 1, [], none, complete, _, candidates =>
    (chain compiler limit candidates).map fun _ => .select candidates complete
  | limit + 1, [], some default, none, _, candidates =>
    (chain compiler limit candidates).map fun _ => .trySelect candidates default
  | limit + 1, [], some default, some complete, _, candidates =>
    (chain compiler limit candidates).map fun _ => .tryBoth candidates default complete
  | limit + 1, _ :: _, _, _, [], _ => .error (complain limit .manyCases)
  | limit + 1, branch :: rest, default, complete, index :: labels, candidates =>
    (add compiler limit rest default complete labels
      (candidates ++ [⟨index, branch.op, branch.body⟩])).map
        (.enable index branch.pred branch.op.endpoint)

def labels : List ℕ := List.range 32

/-- `@count`. -/
def count : ℕ → List (Branch C E X B) → Except CompileError ℕ
  | 0, _ => .error .recursionLimit
  | _ + 1, [] => .ok 0
  | limit + 1, _ :: rest => (count limit rest).map (1 + ·)

/-- `_LEN` and the code. -/
structure Program (C E X B : Type*) where
  len : ℕ
  code : Code C E X B

/-- `@init`. -/
def init (compiler : Compiler) : ℕ → Sorted C E X B → Except CompileError (Program C E X B)
  | 0, _ => .error .recursionLimit
  | limit + 1, sorted =>
    (count limit sorted.branches).bind fun len =>
      (add compiler limit sorted.branches sorted.default sorted.complete labels []).map (⟨len, ·⟩)

/-- `select!`. -/
def expand (compiler : Compiler) (clauses : List (Clause C E X B)) :
    Except CompileError (Program C E X B) :=
  match compiler.limit with
  | 0 => .error .recursionLimit
  | limit + 1 => do
    let (limit, cases) ← list limit clauses []
    let (limit, sorted) ← sort limit cases ⟨[], none, none⟩
    init compiler limit sorted

/-- What the code runs on: the caller's pieces, `try_select`, the part of `select` that waits
(src/select.rs), and `consume_permit` of a reader and of a writer. -/
structure Host (m : Type → Type*) (C : Type*) (E : Type) (X B : Type*) (V W R : Type) where
  condition : C → m Bool
  value : X → m W
  trySelect : Slice E → m (Except TrySelectError (ℕ × Permit))
  wait : Slice E → m (ℕ × Permit)
  recv : E → Permit → m V
  send : E → Permit → W → m V
  body : B → Option V → m R
  panic : m R

section Run

variable {m : Type → Type*} [Monad m] {V W R : Type} (host : Host m C E X B V W R)

/-- `Select::select`. -/
def Host.select (slice : Slice E) : m (Option (ℕ × Permit)) := do
  match ← host.trySelect slice with
  | .ok selection => pure (some selection)
  | .error .completed => pure none
  | .error .wouldBlock =>
    let selection ← host.wait slice
    pure (some selection)

/-- The body of a matched branch; the expression of a writer is evaluated here. -/
def perform (op : Operation E X) (body : B) (permit : Permit) : m R :=
  match op with
  | .recv reader => do
    let bound ← host.recv reader permit
    host.body body (some bound)
  | .send writer value => do
    let value ← host.value value
    let bound ← host.send writer permit value
    host.body body (some bound)

/-- `@match`; the end of the chain is `unreachable!`. -/
def pick : List (Candidate E X B) → ℕ × Permit → m R
  | [], _ => host.panic
  | candidate :: rest, selection =>
    if selection.1 = candidate.index then perform host candidate.op candidate.body selection.2
    else pick rest selection

def enabled (pred : Option C) : m Bool :=
  match pred with
  | none => pure true
  | some condition => host.condition condition

/-- The code, with `_selector`. An index beyond its end panics. -/
def Code.run : Code C E X B → Slice E → m R
  | .enable index pred endpoint next, slice => do
    if ← enabled host pred then
      if index < slice.length then next.run (slice.set index (some endpoint)) else host.panic
    else next.run slice
  | .select candidates otherwise, slice => do
    match ← host.select slice, otherwise with
    | some selection, _ => pick host candidates selection
    | none, some body => host.body body none
    | none, none => host.panic
  | .trySelect candidates otherwise, slice => do
    match ← host.trySelect slice with
    | .error _ => host.body otherwise none
    | .ok selection => pick host candidates selection
  | .tryBoth candidates default complete, slice => do
    match ← host.trySelect slice with
    | .error .completed => host.body complete none
    | .error .wouldBlock => host.body default none
    | .ok selection => pick host candidates selection

def Program.run (program : Program C E X B) : m R :=
  program.code.run host (List.replicate program.len none)

end Run

/-! What the documentation of `select!` says. -/

def Case.branch? : Case C E X B → Option (Branch C E X B)
  | ⟨.operation op pred, body⟩ => some ⟨op, pred, body⟩
  | _ => none

def Case.default? : Case C E X B → Option B
  | ⟨.default, body⟩ => some body
  | _ => none

def Case.complete? : Case C E X B → Option B
  | ⟨.complete, body⟩ => some body
  | _ => none

def branches (clauses : List (Clause C E X B)) : List (Branch C E X B) :=
  clauses.filterMap fun clause => clause.case.branch?

def defaults (clauses : List (Clause C E X B)) : List B :=
  clauses.filterMap fun clause => clause.case.default?

def completes (clauses : List (Clause C E X B)) : List B :=
  clauses.filterMap fun clause => clause.case.complete?

/-- A clause that another one follows lacks its comma. -/
def Unseparated (clauses : List (Clause C E X B)) (operation : Bool) : Prop :=
  ∃ clause ∈ clauses.dropLast, clause.isOperation = operation ∧ clause.separated = false

/-- How deep the rules are nested: `select!`, `@list` and `@case` for each clause and the end of
the list, `@init`, `@add` and `@match` for each branch and the end, and `unreachable!`. -/
def nesting (compiler : Compiler) (clauses : List (Clause C E X B)) : ℕ :=
  1 + (clauses.length + 1) + (clauses.length + 1) + 1 + ((branches clauses).length + 1) +
    ((branches clauses).length + 1) + compiler.unreachable

/-- What each error complains of. -/
def CompileError.Concerns (compiler : Compiler) (clauses : List (Clause C E X B)) :
    CompileError → Prop
  | .missingComma => Unseparated clauses true
  | .unlisted => Unseparated clauses false ∨ ∃ clause ∈ clauses, clause.torn = true
  | .manyDefaults => 1 < (defaults clauses).length
  | .manyCompletes => 1 < (completes clauses).length
  | .manyCases => 32 < (branches clauses).length
  | .recursionLimit => compiler.limit < nesting compiler clauses

section Meaning

variable {m : Type → Type*} [Monad m] {V W R : Type} (host : Host m C E X B V W R)

/-- The selectables of the branches, in their order; a branch whose condition is false has none. -/
def slice : List (Branch C E X B) → m (Slice E)
  | [] => pure []
  | branch :: rest => do
    let enabled ← enabled host branch.pred
    let others ← slice rest
    pure ((if enabled then some branch.op.endpoint else none) :: others)

def performAt (branches : List (Branch C E X B)) (selection : ℕ × Permit) : m R :=
  match branches[selection.1]? with
  | some branch => perform host branch.op branch.body selection.2
  | none => host.panic

/-- The body of a clause that the macro has. -/
def alone (body : Option B) : m R :=
  match body with
  | some body => host.body body none
  | none => host.panic

def runArm (branches : List (Branch C E X B)) (default complete : Option B) (slice : Slice E) :
    Select.Arm → m R
  | .branch index permit => performAt host branches (index, permit)
  | .default => alone host default
  | .complete => alone host complete
  | .waits => do
    let selection ← host.wait slice
    performAt host branches selection
  | .panicked => host.panic

/-- All conditions first, then one selection, then one body. -/
def meaning (clauses : List (Clause C E X B)) : m R := do
  let default := (defaults clauses).head?
  let complete := (completes clauses).head?
  let slice ← slice host (branches clauses)
  let result ← host.trySelect slice
  runArm host (branches clauses) default complete slice
    (Select.arm default.isSome complete.isSome result)

end Meaning

end SelectMacro
