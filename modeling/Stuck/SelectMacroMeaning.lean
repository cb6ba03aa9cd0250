import Stuck.SelectMacro

/-! `select!` accepts what its documentation describes, and the code that it leaves does what the
documentation says. -/
namespace SelectMacro

open Select (Permit TrySelectError Slice)

variable {C X B : Type*} {E : Type}

/-- Only a clause that another one follows needs to be separated. -/
theorem mem_dropLast_cons {clause c : Clause C E X B} {rest : List (Clause C E X B)} :
    c ∈ (clause :: rest).dropLast ↔ rest ≠ [] ∧ (c = clause ∨ c ∈ rest.dropLast) := by
  cases rest <;> simp

theorem complain_zero (e : CompileError) : complain 0 e = .recursionLimit := rfl

theorem complain_succ (limit : ℕ) (e : CompileError) : complain (limit + 1) e = e := rfl

theorem Unseparated.cons {rest : List (Clause C E X B)} {operation : Bool}
    (h : Unseparated rest operation) (clause : Clause C E X B) :
    Unseparated (clause :: rest) operation := by
  obtain ⟨c, hc, hbad⟩ := h
  have hne : rest ≠ [] := by
    rintro rfl
    cases hc
  exact ⟨c, mem_dropLast_cons.mpr ⟨hne, .inr hc⟩, hbad⟩

/-- What `@list` needs of the clauses. -/
def Listed (clauses : List (Clause C E X B)) : Prop :=
  (∀ c ∈ clauses.dropLast, c.separated = true) ∧ ∀ c ∈ clauses, c.torn = false

/-- What `@list` makes of the clauses: they keep their order, or it complains of one of them. -/
inductive Lists (limit : ℕ) (clauses : List (Clause C E X B)) (cases : List (Case C E X B)) :
    Except CompileError (ℕ × List (Case C E X B)) → Prop where
  | listed {left : ℕ} : limit = left + clauses.length + 1 → Listed clauses →
      Lists limit clauses cases (.ok (left, cases ++ clauses.map Clause.case))
  | tooDeep : limit < clauses.length + 2 → Lists limit clauses cases (.error .recursionLimit)
  | missingComma : Unseparated clauses true → Lists limit clauses cases (.error .missingComma)
  | unlisted : Unseparated clauses false ∨ (∃ c ∈ clauses, c.torn = true) →
      Lists limit clauses cases (.error .unlisted)

theorem listed_nil : Listed ([] : List (Clause C E X B)) := by
  constructor
  · intro c hc
    cases hc
  · intro c hc
    cases hc

theorem Listed.cons {clause : Clause C E X B} {rest : List (Clause C E X B)} (h : Listed rest)
    (htorn : clause.torn = false) (hsep : (clause.separated || rest.isEmpty) = true) :
    Listed (clause :: rest) := by
  constructor
  · intro c hc
    obtain ⟨hne, hc⟩ := mem_dropLast_cons.mp hc
    rcases hc with rfl | hc
    · exact (Bool.or_eq_true_iff.mp hsep).resolve_right fun he => hne (List.isEmpty_iff.mp he)
    · exact h.1 c hc
  · intro c hc
    rcases List.mem_cons.mp hc with rfl | hc
    · exact htorn
    · exact h.2 c hc

/-- One more clause in front, with its level. -/
theorem Lists.cons {limit : ℕ} {clause : Clause C E X B} {rest : List (Clause C E X B)}
    {cases : List (Case C E X B)} {result : Except CompileError (ℕ × List (Case C E X B))}
    (h : Lists limit rest (cases ++ [clause.case]) result) (htorn : clause.torn = false)
    (hsep : (clause.separated || rest.isEmpty) = true) :
    Lists (limit + 1) (clause :: rest) cases result := by
  cases h with
  | listed hlimit hlisted =>
    rw [List.append_assoc]
    exact .listed (by rw [List.length_cons]; omega) (hlisted.cons htorn hsep)
  | tooDeep hlt => exact .tooDeep (by rw [List.length_cons]; omega)
  | missingComma hbad => exact .missingComma (hbad.cons clause)
  | unlisted hbad =>
    refine .unlisted ?_
    rcases hbad with hbad | ⟨c, hc, hc'⟩
    · exact .inl (hbad.cons clause)
    · exact .inr ⟨c, List.mem_cons_of_mem _ hc, hc'⟩

/-- What is left of a torn clause goes through `@list` once more before the complaint. -/
theorem lists_torn {limit : ℕ} {clause : Clause C E X B} {rest : List (Clause C E X B)}
    {cases : List (Case C E X B)} (htorn : clause.torn = true) :
    Lists (limit + 1) (clause :: rest) cases (.error (complain (limit - 1) .unlisted)) := by
  rcases Nat.lt_or_ge limit 2 with hlt | hge
  · have hzero : limit - 1 = 0 := by omega
    rw [hzero, complain_zero]
    exact .tooDeep (by rw [List.length_cons]; omega)
  · obtain ⟨left, hleft⟩ : ∃ left, limit - 1 = left + 1 := ⟨limit - 2, by omega⟩
    rw [hleft, complain_succ]
    exact .unlisted (.inr ⟨clause, List.mem_cons_self, htorn⟩)

theorem list_lists (limit : ℕ) (clauses : List (Clause C E X B)) (cases : List (Case C E X B)) :
    Lists limit clauses cases (list limit clauses cases) := by
  induction clauses generalizing limit cases with
  | nil =>
    cases limit with
    | zero => exact .tooDeep (Nat.succ_pos _)
    | succ limit =>
      have hlisted : Lists (limit + 1) ([] : List (Clause C E X B)) cases
          (.ok (limit, cases ++ [].map Clause.case)) :=
        .listed rfl listed_nil
      rw [List.map_nil, List.append_nil] at hlisted
      exact hlisted
  | cons clause rest ih =>
    cases limit with
    | zero => exact .tooDeep (Nat.succ_pos _)
    | succ limit =>
      rw [list]
      by_cases htorn : clause.torn = true
      · rw [if_pos htorn]
        exact lists_torn htorn
      rw [if_neg htorn]
      by_cases hsep : (clause.separated || rest.isEmpty) = true
      · rw [if_pos hsep]
        exact (ih limit (cases ++ [clause.case])).cons (eq_false_of_ne_true htorn) hsep
      rw [if_neg hsep]
      have hboth := Bool.or_eq_false_iff.mp (Bool.eq_false_iff.mpr hsep)
      have hne : rest ≠ [] := by
        rintro rfl
        cases hboth.2
      have hmem : clause ∈ (clause :: rest).dropLast := mem_dropLast_cons.mpr ⟨hne, .inl rfl⟩
      cases limit with
      | zero =>
        have hdeep : Lists 1 (clause :: rest) cases (.error .recursionLimit) :=
          .tooDeep (by rw [List.length_cons]; omega)
        split <;> exact hdeep
      | succ limit =>
        cases hop : clause.isOperation with
        | true => exact .missingComma ⟨clause, hmem, hop, hboth.1⟩
        | false => exact .unlisted (.inl ⟨clause, hmem, hop, hboth.1⟩)

/-- What `@case` makes of clauses with these branches and bodies: it takes them apart by their
kind, at most one of two kinds. -/
inductive Sorts (limit length : ℕ) (bs : List (Branch C E X B)) (ds cs : List B) :
    Except CompileError (ℕ × Sorted C E X B) → Prop where
  | sorted {left : ℕ} {t : Sorted C E X B} : limit = left + length + 1 → t.branches = bs →
      t.default.toList = ds → t.complete.toList = cs → Sorts limit length bs ds cs (.ok (left, t))
  | tooDeep : limit < length + 1 → Sorts limit length bs ds cs (.error .recursionLimit)
  | manyDefaults : 1 < ds.length → Sorts limit length bs ds cs (.error .manyDefaults)
  | manyCompletes : 1 < cs.length → Sorts limit length bs ds cs (.error .manyCompletes)

/-- The limit and the clauses that are left go down together. -/
theorem Sorts.succ {limit length : ℕ} {bs : List (Branch C E X B)} {ds cs : List B}
    {result : Except CompileError (ℕ × Sorted C E X B)} (h : Sorts limit length bs ds cs result) :
    Sorts (limit + 1) (length + 1) bs ds cs result := by
  cases h with
  | sorted hlimit hb hd hc => exact .sorted (by omega) hb hd hc
  | tooDeep hlt => exact .tooDeep (Nat.succ_lt_succ hlt)
  | manyDefaults hd => exact .manyDefaults hd
  | manyCompletes hc => exact .manyCompletes hc

theorem sort_sorts (limit : ℕ) (cases : List (Case C E X B)) (sorted : Sorted C E X B) :
    Sorts limit cases.length (sorted.branches ++ cases.filterMap Case.branch?)
      (sorted.default.toList ++ cases.filterMap Case.default?)
      (sorted.complete.toList ++ cases.filterMap Case.complete?) (sort limit cases sorted) := by
  induction cases generalizing limit sorted with
  | nil =>
    cases limit with
    | zero => exact .tooDeep (Nat.succ_pos _)
    | succ limit => exact .sorted rfl (by simp) (by simp) (by simp)
  | cons c rest ih =>
    cases limit with
    | zero => exact .tooDeep (Nat.succ_pos _)
    | succ limit =>
      obtain ⟨head, body⟩ := c
      rw [List.length_cons]
      cases head with
      | operation op pred =>
        have hb : (⟨.operation op pred, body⟩ :: rest).filterMap Case.branch? =
            ⟨op, pred, body⟩ :: rest.filterMap Case.branch? := List.filterMap_cons_some rfl
        have hd : (⟨.operation op pred, body⟩ :: rest).filterMap Case.default? =
            rest.filterMap Case.default? := List.filterMap_cons_none rfl
        have hc : (⟨.operation op pred, body⟩ :: rest).filterMap Case.complete? =
            rest.filterMap Case.complete? := List.filterMap_cons_none rfl
        rw [hb, hd, hc, List.append_cons, sort]
        exact (ih limit { sorted with branches := sorted.branches ++ [⟨op, pred, body⟩] }).succ
      | default =>
        have hb : (⟨.default, body⟩ :: rest).filterMap Case.branch? =
            rest.filterMap Case.branch? := List.filterMap_cons_none rfl
        have hd : (⟨.default, body⟩ :: rest).filterMap Case.default? =
            body :: rest.filterMap Case.default? := List.filterMap_cons_some rfl
        have hc : (⟨.default, body⟩ :: rest).filterMap Case.complete? =
            rest.filterMap Case.complete? := List.filterMap_cons_none rfl
        rw [hb, hd, hc]
        cases hs : sorted.default with
        | none =>
          simp only [sort, hs]
          exact (ih limit { sorted with default := some body }).succ
        | some other =>
          simp only [sort, hs]
          cases limit with
          | zero => exact .tooDeep (Nat.succ_lt_succ (Nat.succ_pos _))
          | succ limit => exact .manyDefaults (by simp)
      | complete =>
        have hb : (⟨.complete, body⟩ :: rest).filterMap Case.branch? =
            rest.filterMap Case.branch? := List.filterMap_cons_none rfl
        have hd : (⟨.complete, body⟩ :: rest).filterMap Case.default? =
            rest.filterMap Case.default? := List.filterMap_cons_none rfl
        have hc : (⟨.complete, body⟩ :: rest).filterMap Case.complete? =
            body :: rest.filterMap Case.complete? := List.filterMap_cons_some rfl
        rw [hb, hd, hc]
        cases hs : sorted.complete with
        | none =>
          simp only [sort, hs]
          exact (ih limit { sorted with complete := some body }).succ
        | some other =>
          simp only [sort, hs]
          cases limit with
          | zero => exact .tooDeep (Nat.succ_lt_succ (Nat.succ_pos _))
          | succ limit => exact .manyCompletes (by simp)

theorem count_spec (limit : ℕ) (bs : List (Branch C E X B)) :
    (bs.length < limit ∧ count limit bs = .ok bs.length) ∨
      (limit ≤ bs.length ∧ count limit bs = .error .recursionLimit) := by
  induction bs generalizing limit with
  | nil =>
    cases limit with
    | zero => exact .inr ⟨le_rfl, rfl⟩
    | succ limit => exact .inl ⟨Nat.succ_pos _, rfl⟩
  | cons branch rest ih =>
    cases limit with
    | zero => exact .inr ⟨Nat.zero_le _, rfl⟩
    | succ limit =>
      rcases ih limit with ⟨hlt, hok⟩ | ⟨hle, herr⟩
      · left
        refine ⟨Nat.succ_lt_succ hlt, ?_⟩
        rw [count, hok, List.length_cons, Nat.add_comm]
        rfl
      · right
        refine ⟨Nat.succ_le_succ hle, ?_⟩
        rw [count, herr]
        rfl

theorem chain_spec (compiler : Compiler) (limit : ℕ) (candidates : List (Candidate E X B)) :
    (candidates.length + compiler.unreachable < limit ∧
        chain compiler limit candidates = .ok ()) ∨
      (limit ≤ candidates.length + compiler.unreachable ∧
        chain compiler limit candidates = .error .recursionLimit) := by
  induction candidates generalizing limit with
  | nil =>
    cases limit with
    | zero => exact .inr ⟨Nat.zero_le _, rfl⟩
    | succ limit =>
      rw [List.length_nil, Nat.zero_add, chain]
      by_cases hfits : compiler.unreachable ≤ limit
      · exact .inl ⟨Nat.lt_succ_of_le hfits, if_pos hfits⟩
      · exact .inr ⟨Nat.succ_le_of_lt (Nat.lt_of_not_le hfits), if_neg hfits⟩
  | cons candidate rest ih =>
    cases limit with
    | zero => exact .inr ⟨Nat.zero_le _, rfl⟩
    | succ limit =>
      rw [List.length_cons, chain]
      rcases ih limit with ⟨hlt, hok⟩ | ⟨hle, herr⟩
      · exact .inl ⟨by omega, hok⟩
      · exact .inr ⟨by omega, herr⟩

/-- The code after the last branch. -/
def selection (d c : Option B) (candidates : List (Candidate E X B)) : Code C E X B :=
  match d, c with
  | none, c => .select candidates c
  | some d, none => .trySelect candidates d
  | some d, some c => .tryBoth candidates d c

theorem add_nil (compiler : Compiler) (limit : ℕ) (d c : Option B) (labels : List ℕ)
    (candidates : List (Candidate E X B)) :
    add compiler (limit + 1) ([] : List (Branch C E X B)) d c labels candidates =
      (chain compiler limit candidates).map fun _ => selection d c candidates := by
  cases d <;> cases c <;> rfl

/-- `@add` stops when it runs out of labels or of expansions, and at nothing else. -/
theorem add_spec (compiler : Compiler) (limit : ℕ) (bs : List (Branch C E X B)) (d c : Option B)
    (labels : List ℕ) (candidates : List (Candidate E X B)) :
    (bs.length ≤ labels.length ∧
        bs.length + 1 + (candidates.length + bs.length + 1) + compiler.unreachable ≤ limit ∧
        ∃ code, add compiler limit bs d c labels candidates = .ok code) ∨
      (labels.length < bs.length ∧
        add compiler limit bs d c labels candidates = .error .manyCases) ∨
      (limit < bs.length + 1 + (candidates.length + bs.length + 1) + compiler.unreachable ∧
        add compiler limit bs d c labels candidates = .error .recursionLimit) := by
  induction bs generalizing limit labels candidates with
  | nil =>
    cases limit with
    | zero => exact .inr (.inr ⟨by omega, rfl⟩)
    | succ limit =>
      rw [List.length_nil, add_nil]
      rcases chain_spec compiler limit candidates with ⟨hlt, hok⟩ | ⟨hle, herr⟩
      · left
        rw [hok]
        exact ⟨Nat.zero_le _, by omega, _, rfl⟩
      · right
        right
        rw [herr]
        exact ⟨by omega, rfl⟩
  | cons branch rest ih =>
    cases limit with
    | zero => exact .inr (.inr ⟨by omega, rfl⟩)
    | succ limit =>
      rw [List.length_cons]
      cases labels with
      | nil =>
        right
        cases limit with
        | zero => exact .inr ⟨by omega, rfl⟩
        | succ limit => exact .inl ⟨Nat.succ_pos _, rfl⟩
      | cons index labels =>
        have hih := ih limit labels (candidates ++ [⟨index, branch.op, branch.body⟩])
        rw [List.length_append, List.length_singleton] at hih
        rw [List.length_cons, add]
        rcases hih with ⟨hle, hfits, code, hok⟩ | ⟨hlt, herr⟩ | ⟨hlt, herr⟩
        · left
          rw [hok]
          exact ⟨Nat.succ_le_succ hle, by omega, _, rfl⟩
        · right
          left
          rw [herr]
          exact ⟨Nat.succ_lt_succ hlt, rfl⟩
        · right
          right
          rw [herr]
          exact ⟨by omega, rfl⟩

theorem toList_eq {α : Type*} {o : Option α} {l : List α} (h : o.toList = l) :
    o = l.head? ∧ l.length ≤ 1 := by
  subst h
  cases o <;> simp

/-- `@init` on sorted clauses. -/
theorem init_spec (compiler : Compiler) (limit : ℕ) (sorted : Sorted C E X B) :
    (sorted.branches.length ≤ 32 ∧
        1 + (sorted.branches.length + 1) + (sorted.branches.length + 1) + compiler.unreachable ≤
          limit ∧
        ∃ code left, init compiler limit sorted = .ok ⟨sorted.branches.length, code⟩ ∧
          add compiler left sorted.branches sorted.default sorted.complete labels [] = .ok code) ∨
      (32 < sorted.branches.length ∧ init compiler limit sorted = .error .manyCases) ∨
      (limit < 1 + (sorted.branches.length + 1) + (sorted.branches.length + 1) +
          compiler.unreachable ∧
        init compiler limit sorted = .error .recursionLimit) := by
  have hlabels : labels.length = 32 := List.length_range
  cases limit with
  | zero => exact .inr (.inr ⟨by omega, rfl⟩)
  | succ limit =>
    rcases count_spec limit sorted.branches with ⟨_, hcount⟩ | ⟨hle, hcount⟩
    · rcases add_spec compiler limit sorted.branches sorted.default sorted.complete labels []
        with ⟨hle, hfits, code, hadd⟩ | ⟨hlt, hadd⟩ | ⟨hlt, hadd⟩
      · left
        rw [hlabels] at hle
        rw [List.length_nil, Nat.zero_add] at hfits
        refine ⟨hle, by omega, code, limit, ?_, hadd⟩
        rw [init, hcount, hadd]
        rfl
      · right
        left
        rw [hlabels] at hlt
        refine ⟨hlt, ?_⟩
        rw [init, hcount, hadd]
        rfl
      · right
        right
        rw [List.length_nil, Nat.zero_add] at hlt
        refine ⟨by omega, ?_⟩
        rw [init, hcount, hadd]
        rfl
    · right
      right
      refine ⟨by omega, ?_⟩
      rw [init, hcount]
      rfl

theorem expand_of_list {compiler : Compiler} {limit left : ℕ} {clauses : List (Clause C E X B)}
    {cases : List (Case C E X B)} (hc : compiler.limit = limit + 1)
    (hl : list limit clauses [] = .ok (left, cases)) :
    expand compiler clauses =
      (sort left cases ⟨[], none, none⟩).bind fun sorted => init compiler sorted.1 sorted.2 := by
  unfold expand
  rw [hc]
  dsimp only
  rw [hl]
  rfl

theorem expand_of_error {compiler : Compiler} {limit : ℕ} {clauses : List (Clause C E X B)}
    {e : CompileError} (hc : compiler.limit = limit + 1) (hl : list limit clauses [] = .error e) :
    expand compiler clauses = .error e := by
  unfold expand
  rw [hc]
  dsimp only
  rw [hl]
  rfl

/-- What an accepted list of clauses is like. -/
theorem concerns_nothing {compiler : Compiler} {clauses : List (Clause C E X B)}
    (hlisted : Listed clauses) (hdefaults : (defaults clauses).length ≤ 1)
    (hcompletes : (completes clauses).length ≤ 1) (hcases : (branches clauses).length ≤ 32)
    (hnesting : nesting compiler clauses ≤ compiler.limit) (e : CompileError) :
    ¬ e.Concerns compiler clauses := by
  have hseparated : ∀ operation, ¬ Unseparated clauses operation := by
    rintro operation ⟨c, hc, _, hbad⟩
    rw [hlisted.1 c hc] at hbad
    cases hbad
  intro he
  cases e with
  | missingComma => exact hseparated true he
  | unlisted =>
    rcases he with hbad | ⟨c, hc, htorn⟩
    · exact hseparated false hbad
    · rw [hlisted.2 c hc] at htorn
      cases htorn
  | manyDefaults => exact Nat.not_lt.mpr hdefaults he
  | manyCompletes => exact Nat.not_lt.mpr hcompletes he
  | manyCases => exact Nat.not_lt.mpr hcases he
  | recursionLimit => exact Nat.not_lt.mpr hnesting he

/-- The stages together. -/
theorem expand_spec (compiler : Compiler) (clauses : List (Clause C E X B)) :
    (∃ code left, expand compiler clauses = .ok ⟨(branches clauses).length, code⟩ ∧
      add compiler left (branches clauses) (defaults clauses).head? (completes clauses).head?
        labels [] = .ok code ∧ ∀ e : CompileError, ¬ e.Concerns compiler clauses) ∨
    ∃ e, expand compiler clauses = .error e ∧ e.Concerns compiler clauses := by
  -- an expansion that is not reached is one of those that `nesting` counts
  have hshort : ∀ {limit}, compiler.limit = limit + 1 →
      limit < (clauses.length + 1) + (clauses.length + 1) + 1 + ((branches clauses).length + 1) +
        ((branches clauses).length + 1) + compiler.unreachable →
      CompileError.Concerns compiler clauses .recursionLimit := by
    intro limit hc hlt
    unfold CompileError.Concerns nesting
    omega
  cases hc : compiler.limit with
  | zero =>
    right
    refine ⟨.recursionLimit, by unfold expand; rw [hc], ?_⟩
    unfold CompileError.Concerns nesting
    omega
  | succ limit =>
    have hlists := list_lists limit clauses []
    generalize hlist : list limit clauses [] = result at hlists
    cases hlists with
    | tooDeep hlt => exact .inr ⟨_, expand_of_error hc hlist, hshort hc (by omega)⟩
    | missingComma hbad => exact .inr ⟨_, expand_of_error hc hlist, hbad⟩
    | unlisted hbad => exact .inr ⟨_, expand_of_error hc hlist, hbad⟩
    | @listed left hleft hlisted =>
      rw [List.nil_append] at hlist
      have hexpand := expand_of_list hc hlist
      have hsorts := sort_sorts left (clauses.map Clause.case) ⟨[], none, none⟩
      rw [List.length_map, List.filterMap_map, List.filterMap_map, List.filterMap_map] at hsorts
      generalize hsort : sort left (clauses.map Clause.case) ⟨[], none, none⟩ = result at hsorts
      rw [hsort] at hexpand
      cases hsorts with
      | tooDeep hlt => exact .inr ⟨_, hexpand, hshort hc (by omega)⟩
      | manyDefaults hmany => exact .inr ⟨_, hexpand, hmany⟩
      | manyCompletes hmany => exact .inr ⟨_, hexpand, hmany⟩
      | @sorted rest t hrest hb hd hcs =>
        have hbranches : t.branches = branches clauses := hb
        obtain ⟨hdefault, hone⟩ : t.default = (defaults clauses).head? ∧ _ := toList_eq hd
        obtain ⟨hcomplete, hone'⟩ : t.complete = (completes clauses).head? ∧ _ := toList_eq hcs
        have hinit : expand compiler clauses = init compiler rest t := hexpand
        have hspec := init_spec compiler rest t
        rw [hbranches, hdefault, hcomplete] at hspec
        rcases hspec with ⟨hcases, hfits, code, last, hok, hadd⟩ | ⟨hmany, herr⟩ | ⟨hlt, herr⟩
        · left
          refine ⟨code, last, hinit.trans hok, hadd,
            concerns_nothing hlisted hone hone' hcases ?_⟩
          unfold nesting
          omega
        · exact .inr ⟨.manyCases, hinit.trans herr, hmany⟩
        · exact .inr ⟨.recursionLimit, hinit.trans herr, hshort hc (by omega)⟩

/-- The macro accepts its clauses exactly when there is nothing to complain of: at most one
`default` and one `complete`, at most 32 branches, commas where they are needed, no body that is
torn, and a recursion limit that its rules keep to. What it complains of is so. -/
theorem select_accepts (compiler : Compiler) (clauses : List (Clause C E X B)) :
    ((∃ program, expand compiler clauses = .ok program) ↔
        ∀ e : CompileError, ¬ e.Concerns compiler clauses) ∧
      ∀ e, expand compiler clauses = .error e → e.Concerns compiler clauses := by
  rcases expand_spec compiler clauses with ⟨code, left, hok, _, hnone⟩ | ⟨e, herr, hconcerns⟩
  · refine ⟨iff_of_true ⟨_, hok⟩ hnone, fun e he => ?_⟩
    cases hok.symm.trans he
  · refine ⟨iff_of_false ?_ fun hnone => hnone e hconcerns, fun e' he' => ?_⟩
    · rintro ⟨program, hok⟩
      cases herr.symm.trans hok
    · cases herr.symm.trans he'
      exact hconcerns

/-- Receiving branches and a `default`. -/
def receivers (k : ℕ) : List (Clause ℕ ℕ ℕ ℕ) :=
  List.replicate k ⟨.operation (.recv 0) none, 0, .plain, true⟩ ++ [⟨.default, 0, .plain, false⟩]

-- with 128 levels, five of them for `unreachable!`, the labels never run out
example : (expand ⟨128, 5⟩ (receivers 28)).isOk = true ∧
    expand ⟨128, 5⟩ (receivers 29) = .error .recursionLimit := ⟨rfl, rfl⟩

section Run

variable {m : Type → Type*} [Monad m] {V W R : Type} (host : Host m C E X B V W R)

/-- The branches with their labels, from `k` on. -/
def numbered : ℕ → List (Branch C E X B) → List (Candidate E X B)
  | _, [] => []
  | k, branch :: rest => ⟨k, branch.op, branch.body⟩ :: numbered (k + 1) rest

/-- The chain of comparisons finds the branch by its place. -/
theorem pick_numbered (k : ℕ) (bs : List (Branch C E X B)) (permit : Permit) (i : ℕ) :
    pick host (numbered k bs) (k + i, permit) = performAt host bs (i, permit) := by
  induction bs generalizing k i with
  | nil => rfl
  | cons branch rest ih =>
    rw [numbered, pick]
    dsimp only
    cases i with
    | zero => exact if_pos rfl
    | succ i =>
      have hi : k + (i + 1) = k + 1 + i := by omega
      rw [if_neg (by omega), hi, ih (k + 1) i]
      rfl

variable [LawfulMonad m]

/-- The code of the branches fills the slice and goes on with the candidates. -/
theorem run_add {compiler : Compiler} {limit : ℕ} (bs : List (Branch C E X B)) (d c : Option B)
    (n : ℕ) (candidates : List (Candidate E X B)) (done : Slice E) {code : Code C E X B}
    (h : add compiler limit bs d c (List.range' done.length n) candidates = .ok code) :
    code.run host (done ++ List.replicate bs.length none) =
      slice host bs >>= fun s =>
        (selection d c (candidates ++ numbered done.length bs)).run host (done ++ s) := by
  induction bs generalizing limit n candidates done code with
  | nil =>
    cases limit with
    | zero => cases h
    | succ limit =>
      rw [add_nil] at h
      rcases chain_spec compiler limit candidates with ⟨_, hok⟩ | ⟨_, herr⟩
      · rw [hok] at h
        cases h
        simp [slice, numbered]
      · rw [herr] at h
        cases h
  | cons branch rest ih =>
    cases limit with
    | zero => cases h
    | succ limit =>
    cases n with
    | zero => cases h
    | succ n =>
      rw [List.range'_succ, add] at h
      obtain ⟨next, hnext, rfl⟩ : ∃ next, add compiler limit rest d c
          (List.range' (done.length + 1) n)
          (candidates ++ [⟨done.length, branch.op, branch.body⟩]) = .ok next ∧
            code = .enable done.length branch.pred branch.op.endpoint next := by
        cases hadd : add compiler limit rest d c (List.range' (done.length + 1) n)
            (candidates ++ [⟨done.length, branch.op, branch.body⟩]) with
        | error e =>
          rw [hadd] at h
          cases h
        | ok next =>
          rw [hadd] at h
          cases h
          exact ⟨next, rfl, rfl⟩
      rw [Code.run, slice, numbered]
      simp only [bind_assoc, pure_bind]
      congr 1
      funext on
      -- either way one more place of the slice is settled
      have hplace : ∀ entry : Option E,
          next.run host (done ++ entry :: List.replicate rest.length none) =
            slice host rest >>= fun s =>
              (selection d c (candidates ++ ⟨done.length, branch.op, branch.body⟩ ::
                numbered (done.length + 1) rest)).run host (done ++ entry :: s) := by
        intro entry
        have hlength : (done ++ [entry]).length = done.length + 1 := List.length_append
        have hih := ih n (candidates ++ [⟨done.length, branch.op, branch.body⟩]) (done ++ [entry])
          (by rw [hlength]; exact hnext)
        rw [hlength] at hih
        simpa [List.append_assoc] using hih
      cases on with
      | true =>
        have hlt : done.length <
            (done ++ List.replicate (rest.length + 1) (none : Option E)).length := by
          simp
        rw [List.length_cons, if_pos rfl, if_pos hlt, ← hplace]
        simp [List.replicate_succ]
      | false => exact hplace none

/-- The three shapes of the last stage are the table of arms. -/
theorem run_selection (d c : Option B) {candidates : List (Candidate E X B)}
    {bs : List (Branch C E X B)}
    (hp : ∀ selection, pick host candidates selection = performAt host bs selection)
    (s : Slice E) :
    (selection (C := C) d c candidates).run host s = host.trySelect s >>= fun result =>
      runArm host bs d c s (Select.arm d.isSome c.isSome result) := by
  have hselect : ∀ otherwise : Option B,
      (Code.select (C := C) candidates otherwise).run host s = host.trySelect s >>= fun result =>
        runArm host bs none otherwise s (Select.arm false otherwise.isSome result) := by
    intro otherwise
    rw [Code.run, Host.select, bind_assoc]
    congr 1
    funext result
    rcases result with (_ | _) | ⟨index, permit⟩
    · simp [Select.arm, runArm, hp]
    · cases otherwise <;> simp [Select.arm, runArm, alone]
    · simp [Select.arm, runArm, hp]
  cases d with
  | none => exact hselect c
  | some d =>
    cases c with
    | none =>
      rw [selection, Code.run]
      congr 1
      funext result
      rcases result with (_ | _) | ⟨index, permit⟩
      · rfl
      · rfl
      · exact hp _
    | some c =>
      rw [selection, Code.run]
      congr 1
      funext result
      rcases result with (_ | _) | ⟨index, permit⟩
      · rfl
      · rfl
      · exact hp _

/-- The code that `select!` leaves evaluates every condition once, in the order of the clauses and
before the selection, asks for one permit among the enabled branches, and runs one body, with the
expression of a writer evaluated only for the branch that was selected. -/
theorem expand_meaning {compiler : Compiler} {clauses : List (Clause C E X B)}
    {program : Program C E X B} (h : expand compiler clauses = .ok program) :
    program.run host = meaning host clauses := by
  rcases expand_spec compiler clauses with ⟨code, left, hok, hadd, _⟩ | ⟨e, herr, _⟩
  · cases hok.symm.trans h
    rw [labels, List.range_eq_range'] at hadd
    have hrun := run_add host (branches clauses) _ _ 32 [] [] hadd
    rw [Program.run, meaning]
    refine hrun.trans ?_
    congr 1
    funext s
    refine run_selection host _ _ (fun selection => ?_) s
    have hpick := pick_numbered host 0 (branches clauses) selection.2 selection.1
    rw [Nat.zero_add] at hpick
    exact hpick
  · cases herr.symm.trans h

end Run

/-- A reader behind a condition, a writer, and a `default`, without a comma after the block. -/
def threeClauses : List (Clause ℕ ℕ ℕ ℕ) :=
  [⟨.operation (.recv 0) (some 0), 0, .block, false⟩,
    ⟨.operation (.send 1 7) none, 1, .plain, true⟩, ⟨.default, 2, .plain, false⟩]

/-- A host that keeps a log of what it is asked. The condition is false and the writer is ready. -/
def logHost : Host (StateM (List String)) ℕ ℕ ℕ ℕ ℕ ℕ ℕ where
  condition _ := modifyGet fun log => (false, log ++ ["condition"])
  value x := modifyGet fun log => (x, log ++ ["value"])
  trySelect _ := modifyGet fun log => (.ok (1, ⟨0, none⟩), log ++ ["trySelect"])
  wait _ := modifyGet fun log => ((0, ⟨0, none⟩), log ++ ["wait"])
  recv _ _ := modifyGet fun log => (0, log ++ ["recv"])
  send _ _ x := modifyGet fun log => (x, log ++ ["send"])
  body b _ := modifyGet fun log => (b, log ++ ["body"])
  panic := modifyGet fun log => (0, log ++ ["panic"])

theorem threeClauses_meaning : ∃ program, expand ⟨128, 5⟩ threeClauses = .ok program ∧
    program.run logHost = meaning logHost threeClauses ∧
    meaning logHost threeClauses [] =
      (1, ["condition", "trySelect", "value", "send", "body"]) := by
  obtain ⟨program, hprogram⟩ : ∃ program, expand ⟨128, 5⟩ threeClauses = .ok program := ⟨_, rfl⟩
  exact ⟨program, hprogram, expand_meaning logHost hprogram, rfl⟩

end SelectMacro
