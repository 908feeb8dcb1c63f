import SmallLisp.Form.Basic

/-!
Analysis: from forms to expressions. All shape checks of a form come before the analysis of its
parts, and the parts are analyzed from left to right.
-/

namespace SmallLisp

namespace Form

/-- Only literals, variables and lists have a category. -/
theorem eq_list_of_classify {form : Value} {c : Category} (h : classify form = .ok c)
    (hl : c ≠ .literal) (hv : c ≠ .var) : ∃ id vs, form = .list id vs := by
  unfold classify at h
  split at h <;> simp_all

theorem sizeOf_items_lt {form : Value} (hf : ∃ id vs, form = .list id vs) :
    sizeOf (items form) < sizeOf form := by
  obtain ⟨id, vs, rfl⟩ := hf
  simp only [items]
  decreasing_tactic

theorem sizeOf_lt_of_mem_items {form v : Value} (hf : ∃ id vs, form = .list id vs)
    (h : v ∈ items form) : sizeOf v < sizeOf form :=
  Nat.lt_trans (List.sizeOf_lt_of_mem h) (sizeOf_items_lt hf)

theorem sizeOf_drop_le (n : Nat) (vs : List Value) : sizeOf (vs.drop n) ≤ sizeOf vs := by
  induction n generalizing vs with
  | zero => simp
  | succ n ih =>
    cases vs with
    | nil => simp
    | cons v vs => have := ih vs; simp; omega

/-- What is left of the items of a list is smaller than it, also together. -/
theorem sizeOf_drop_lt {form : Value} {vs : List Value} {n : Nat}
    (hf : ∃ id vs, form = .list id vs) (h : vs = (items form).drop n) :
    sizeOf vs < sizeOf form := by
  subst h
  exact Nat.lt_of_le_of_lt (sizeOf_drop_le n (items form)) (sizeOf_items_lt hf)

theorem mem_items_of_assignment {form target value : Value}
    (h : assignment form = .ok (target, value)) : value ∈ items form := by
  unfold assignment at h
  split at h
  · next heq =>
    split at h
    · cases h; simp [heq]
    · simp [refuse] at h
  · simp [refuse] at h

theorem mem_items_of_definiens {form value : Value} (h : definiens form = .ok (.value value)) :
    value ∈ items form := by
  unfold definiens at h
  split at h
  · cases hd : defineTarget form <;> simp [hd, bind, Except.bind] at h
    split at h
    · simp at h
    · split at h <;> simp [refuse] at h
  · next heq => cases h; simp [heq]
  · simp [refuse] at h

theorem body_of_definiens {form : Value} {ps body : List Value}
    (h : definiens form = .ok (.procedure ps body)) : body = (items form).drop 2 := by
  unfold definiens at h
  split at h
  · next heq =>
    cases hd : defineTarget form <;> simp [hd, bind, Except.bind] at h
    split at h
    · simp at h
    · split at h
      · simp [refuse] at h
      · simp at h; obtain ⟨-, rfl⟩ := h; simp [heq]
  · simp at h
  · simp [refuse] at h

theorem mem_items_of_branch {form test consequent : Value} {alternative : Option Value}
    (h : branch form = .ok (test, consequent, alternative)) :
    test ∈ items form ∧ consequent ∈ items form ∧ ∀ a ∈ alternative, a ∈ items form := by
  unfold branch at h
  split at h
  · next heq => cases h; simp [heq]
  · next heq => cases h; simp [heq]
  · simp [refuse] at h

theorem body_of_lambdaBody {form : Value} {body : List Value} (h : lambdaBody form = .ok body) :
    body = (items form).drop 2 := by
  unfold lambdaBody at h
  split at h
  · next heq => cases h; simp [heq]
  · simp [refuse] at h

theorem body_of_sequenceBody {form : Value} {body : List Value}
    (h : sequenceBody form = .ok body) : body = (items form).drop 1 := by
  unfold sequenceBody at h
  split at h
  · simp at h
  · simp [refuse] at h
  · next heq => cases h; simp [heq]

theorem clauses_of_orderedClauses {form : Value} {clauses : List Value}
    (h : orderedClauses form = .ok clauses) : clauses = (items form).drop 1 := by
  unfold orderedClauses condClauses at h
  split at h
  · simp [refuse, bind, Except.bind] at h
  · simp [bind, Except.bind] at h
    split at h
    · simp [refuse] at h
    · simpa [pure, Except.pure] using h.symm

end Form

open Form in
mutual

/-- The expression that a form stands for. -/
def analyze (form : Value) : Except Failure Expr :=
  match _hc : classify form with
  | .error e => .error e
  | .ok .literal => .ok (.literal form)
  | .ok .var => .ok (.var form)
  | .ok .quote => do return .quote (← quoteDatum form)
  | .ok .assignment =>
    match _h : assignment form with
    | .error e => .error e
    | .ok (target, value) => do return .assign target (← analyze value)
  | .ok .definition => do
    let target ← defineTarget form
    match _h : definiens form with
    | .error e => .error e
    | .ok (.value value) => return .define target (← analyze value)
    | .ok (.procedure ps body) => return .define target (.lambda ps (← analyzeAll body))
  | .ok .branch =>
    match _h : branch form with
    | .error e => .error e
    | .ok (test, consequent, none) => do
      return .branch (← analyze test) (← analyze consequent) (.literal (.bool false))
    | .ok (test, consequent, some alternative) => do
      return .branch (← analyze test) (← analyze consequent) (← analyze alternative)
  | .ok .lambda => do
    let ps ← lambdaParams form
    match _h : lambdaBody form with
    | .error e => .error e
    | .ok body => return .lambda ps (← analyzeAll body)
  | .ok .sequence =>
    match _h : sequenceBody form with
    | .error e => .error e
    | .ok body => do return .sequence (← analyzeAll body)
  | .ok .cond =>
    match _h : orderedClauses form with
    | .error e => .error e
    | .ok clauses => do return .cond (← analyzeClauses clauses)
  | .ok .application =>
    match _h : items form with
    | [] => .error (Error.unknownExpression form).raise
    | operator :: operands => do return .apply (← analyze operator) (← analyzeAll operands)
termination_by sizeOf form
decreasing_by
  all_goals have hf := eq_list_of_classify _hc (by decide) (by decide)
  · exact sizeOf_lt_of_mem_items hf (mem_items_of_assignment _h)
  · exact sizeOf_lt_of_mem_items hf (mem_items_of_definiens _h)
  · exact sizeOf_drop_lt hf (body_of_definiens _h)
  · exact sizeOf_lt_of_mem_items hf (mem_items_of_branch _h).1
  · exact sizeOf_lt_of_mem_items hf (mem_items_of_branch _h).2.1
  · exact sizeOf_lt_of_mem_items hf (mem_items_of_branch _h).1
  · exact sizeOf_lt_of_mem_items hf (mem_items_of_branch _h).2.1
  · exact sizeOf_lt_of_mem_items hf ((mem_items_of_branch _h).2.2 _ rfl)
  · exact sizeOf_drop_lt hf (body_of_lambdaBody _h)
  · exact sizeOf_drop_lt hf (body_of_sequenceBody _h)
  · exact sizeOf_drop_lt hf (clauses_of_orderedClauses _h)
  · exact sizeOf_lt_of_mem_items hf (by simp [_h])
  · exact sizeOf_drop_lt (n := 1) hf (by simp [_h])

/-- The expressions of forms in a row. -/
def analyzeAll (forms : List Value) : Except Failure (List Expr) :=
  match forms with
  | [] => .ok []
  | form :: rest => do return (← analyze form) :: (← analyzeAll rest)
termination_by sizeOf forms

/-- The clause that a list with at least one item stands for. -/
def analyzeClause (clause : Value) : Except Failure Clause :=
  match clause with
  | .list _ (.symbol "else" :: actions) => do return .otherwise (← analyzeAll actions)
  | .list _ (test :: actions) => do return .test (← analyze test) (← analyzeAll actions)
  | _ => .error (.fault .noElement)
termination_by sizeOf clause

/-- The clauses of a `cond` form. -/
def analyzeClauses (clauses : List Value) : Except Failure (List Clause) :=
  match clauses with
  | [] => .ok []
  | clause :: rest => do return (← analyzeClause clause) :: (← analyzeClauses rest)
termination_by sizeOf clauses

end

end SmallLisp
