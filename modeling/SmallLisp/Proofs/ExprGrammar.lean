import SmallLisp.Proofs.Analysis

/-!
# Analysis and the grammar of expressions

Analysis accepts every form of the grammar (`analyze_of_analyzes`). It refuses a form for the shape
of the form itself or because it fails on one of its items (`refuses_or_failsWithin`), so what an
error blames is a part of the form that is refused on its own (`exists_refused_of_analyze`). The
short form of a definition is that of a `lambda` (`analyze_of_definition`).
-/

namespace SmallLisp

/-! ## Definitions -/

namespace Form

theorem params_eq_ok {ps : List Value} (h : DistinctSymbols ps) (form : Value) (id : Nat) :
    params form (.list id ps) = .ok ps := by
  obtain ⟨names, hnodup, rfl⟩ := h
  have hsymbols : (names.map Value.symbol).find? (!·.isSymbol) = none := by
    simp [Value.isSymbol]
  simp [params, hsymbols, names_of_hasDuplicate.mpr hnodup]

end Form

open Form in
theorem analyze_lambda {ps body : List Value} (hps : DistinctSymbols ps) (hne : body ≠ [])
    (id id' : Nat) : analyze (.list id (.symbol "lambda" :: .list id' ps :: body)) = do
      return .lambda ps (← analyzeAll body) := by
  obtain ⟨b, rest, rfl⟩ := List.exists_cons_of_ne_nil hne
  rw [analyze_eq]
  change (params _ (.list id' ps) >>= _) = _
  rw [params_eq_ok hps]
  rfl

open Form in
/-- **A definition is analyzed by way of what it binds.** The short form for procedures is the
definition of the `lambda` form that it stands for, and the analysis of this form gives its value.
-/
theorem analyze_of_definition {form : Value} (h : classify form = .ok .definition) :
    analyze form = do
      let target ← defineTarget form
      let d ← definiens form
      return .define target (← analyze d.toForm) := by
  obtain ⟨id, head, rest, rfl, -⟩ := classify_eq_list h nofun nofun
  rw [analyze_eq, h]
  cases ht : defineTarget (.list id (head :: rest)) with
  | error => rfl
  | ok target =>
    cases hd : definiens (.list id (head :: rest)) with
    | error => rfl
    | ok d =>
      rcases of_define ht hd with ⟨_, _, rfl, rfl, -⟩ | ⟨_, name, ps, body, rfl, rfl, hps, hne, -⟩
      · rfl
      · change (analyzeAll body >>= _) = (analyze (.list 0 _) >>= _)
        rw [analyze_lambda hps hne]
        cases analyzeAll body <;> rfl

/-! ## What is in the grammar is analyzed -/

theorem AnalyzesClauses.isNonEmptyList : ∀ {clauses : List Value} {cs : List Clause},
    AnalyzesClauses clauses cs → ∀ clause ∈ clauses, Form.isNonEmptyList clause
  | _, _, .otherwise _, _, .head _ => rfl
  | _, _, .test .., _, .head _ => rfl
  | _, _, .test _ _ _ h, clause, .tail _ hmem => h.isNonEmptyList clause hmem

theorem AnalyzesClauses.any_isElse : ∀ {clauses : List Value} {cs : List Clause},
    AnalyzesClauses clauses cs → clauses.dropLast.any Form.isElse = false
  | _, _, .nil | _, _, .otherwise _ => rfl
  | [_], _, .test .. => rfl
  | _ :: _ :: _, _, .test hne _ _ h => by
    rw [List.dropLast_cons_cons, List.any_cons, h.any_isElse]
    simp [Form.isElse, hne]

theorem AnalyzesClauses.orderedClauses_eq {clauses : List Value} {cs : List Clause}
    (h : AnalyzesClauses clauses cs) (id : Nat) (head : Value) :
    Form.orderedClauses (.list id (head :: clauses)) = .ok clauses := by
  have hshape : clauses.find? (!Form.isNonEmptyList ·) = none := by
    simpa using h.isNonEmptyList
  simp [Form.orderedClauses, Form.condClauses, Form.items, hshape, h.any_isElse, bind, Except.bind,
    pure, Except.pure]

open Form in
mutual

theorem analyze_of_analyzes {form : Value} {e : Expr} (h : Analyzes form e) :
    analyze form = .ok e := by
  match h with
  | .literal h => rw [analyze_eq, classify_eq_literal_iff.mpr h]
  | .var => rw [analyze_eq]; rfl
  | .quote => rw [analyze_eq]; rfl
  | .assign h =>
    rw [analyze_eq]
    change (analyze _ >>= fun e => Except.ok (Expr.assign _ e)) = _
    rw [analyze_of_analyzes h]
    rfl
  | .define h =>
    rw [analyze_eq]
    change (analyze _ >>= fun e => Except.ok (Expr.define _ e)) = _
    rw [analyze_of_analyzes h]
    rfl
  | @Analyzes.procedure id id' name ps body es hps hne h =>
    have hd : definiens (.list id (.symbol "define" :: .list id' (.symbol name :: ps) :: body)) =
        .ok (.procedure ps body) := by
      simp [definiens, defineTarget, items, Value.isSymbol, params_eq_ok hps, hne, bind,
        Except.bind]
    rw [analyze_eq]
    change (definiens _ >>= _) = _
    rw [hd]
    change (analyzeAll body >>= fun es => Except.ok (Expr.define _ (.lambda ps es))) = _
    rw [analyzeAll_of_analyzes h]
    rfl
  | .branch ht hc =>
    rw [analyze_eq]
    change (analyze _ >>= fun e => analyze _ >>= fun e' => Except.ok (Expr.branch e e' .false)) = _
    rw [analyze_of_analyzes ht, analyze_of_analyzes hc]
    rfl
  | .branchElse ht hc ha =>
    rw [analyze_eq]
    change (analyze _ >>= fun e => analyze _ >>= fun e' => analyze _ >>= fun e'' =>
      Except.ok (Expr.branch e e' e'')) = _
    rw [analyze_of_analyzes ht, analyze_of_analyzes hc, analyze_of_analyzes ha]
    rfl
  | @Analyzes.lambda id id' ps body es hps hne h =>
    rw [analyze_lambda hps hne, analyzeAll_of_analyzes h]
    rfl
  | @Analyzes.sequence id tag body es htag hne h =>
    obtain ⟨b, rest, rfl⟩ := List.exists_cons_of_ne_nil hne
    have htag : Category.ofHead (.symbol tag) = .sequence := by rcases htag with rfl | rfl <;> rfl
    have hclass : classify (.list id (.symbol tag :: b :: rest)) = .ok .sequence :=
      congrArg Except.ok htag
    rw [analyze_eq, hclass]
    change (analyzeAll (b :: rest) >>= fun es => Except.ok (Expr.sequence es)) = _
    rw [analyzeAll_of_analyzes h]
    rfl
  | .cond h =>
    rw [analyze_eq]
    change (orderedClauses _ >>= fun clauses => analyzeClauses clauses >>= fun cs =>
      Except.ok (Expr.cond cs)) = _
    rw [h.orderedClauses_eq]
    change (analyzeClauses _ >>= fun cs => Except.ok (Expr.cond cs)) = _
    rw [analyzeClauses_of_analyzes h]
    rfl
  | @Analyzes.apply id operator operands e es hhead ho h =>
    have hclass : classify (.list id (operator :: operands)) = .ok .application :=
      congrArg Except.ok (Category.ofHead_eq_application_iff.mpr hhead)
    rw [analyze_eq, hclass]
    change (analyze operator >>= fun e => analyzeAll operands >>= fun es =>
      Except.ok (Expr.apply e es)) = _
    rw [analyze_of_analyzes ho, analyzeAll_of_analyzes h]
    rfl

theorem analyzeAll_of_analyzes {forms : List Value} {es : List Expr} (h : AnalyzesAll forms es) :
    analyzeAll forms = .ok es := by
  match h with
  | .nil => rw [analyzeAll]
  | .cons h hs =>
    rw [analyzeAll, analyze_of_analyzes h, analyzeAll_of_analyzes hs]
    rfl

theorem analyzeClauses_of_analyzes {clauses : List Value} {cs : List Clause}
    (h : AnalyzesClauses clauses cs) : analyzeClauses clauses = .ok cs := by
  match h with
  | .nil => rw [analyzeClauses]
  | .otherwise h =>
    rw [analyzeClauses, analyzeClause, analyzeAll_of_analyzes h, analyzeClauses]
    rfl
  | .test hne ht ha h =>
    rw [analyzeClauses, analyzeClause.eq_2 _ _ _ hne, analyze_of_analyzes ht,
      analyzeAll_of_analyzes ha, analyzeClauses_of_analyzes h]
    rfl

end

/-! ## Parts of a form -/

namespace Value

/-- The form or a form that stands in it, at any depth. -/
inductive IsSubForm (v : Value) : Value → Prop
  | refl : IsSubForm v v
  | item {id : Nat} {vs : List Value} {w : Value} : w ∈ vs → IsSubForm v w →
    IsSubForm v (.list id vs)

variable {u v w : Value} {id : Nat} {vs : List Value}

theorem IsSubForm.of_mem (h : v ∈ vs) : v.IsSubForm (.list id vs) := .item h .refl

theorem IsSubForm.of_list (h : v.IsSubForm (.list id vs)) :
    v = .list id vs ∨ ∃ w ∈ vs, v.IsSubForm w := by
  cases h with
  | refl => exact .inl rfl
  | item hmem h => exact .inr ⟨_, hmem, h⟩

theorem IsSubForm.trans (huv : u.IsSubForm v) (hvw : v.IsSubForm w) : u.IsSubForm w := by
  induction hvw with
  | refl => exact huv
  | item hmem _ ih => exact .item hmem ih

theorem sizeOf_lt_list (h : v ∈ vs) : sizeOf v < sizeOf (Value.list id vs) :=
  Nat.lt_trans (List.sizeOf_lt_of_mem h) (Form.sizeOf_items_lt ⟨id, vs, rfl⟩)

theorem IsSubForm.sizeOf_le (h : v.IsSubForm w) : sizeOf v ≤ sizeOf w := by
  induction h with
  | refl => exact Nat.le_refl _
  | item hmem _ ih => exact Nat.le_of_lt (Nat.lt_of_le_of_lt ih (sizeOf_lt_list hmem))

theorem allFit_iff : allFit vs ↔ ∀ v ∈ vs, v.fits := by
  induction vs with
  | nil => simp [allFit]
  | cons v vs ih => simp [allFit, ih]

theorem IsSubForm.fits (h : v.IsSubForm w) (hw : w.fits) : v.fits := by
  induction h with
  | refl => exact hw
  | item hmem _ ih => exact ih (allFit_iff.mp hw _ hmem)

/-- A procedure of a definition is no part of the definition. -/
theorem not_isSubForm_define {id id' i j : Nat} {name : String} {ps body : List Value} :
    ¬ (Value.list i (.symbol "lambda" :: .list j ps :: body)).IsSubForm
      (.list id (.symbol "define" :: .list id' (.symbol name :: ps) :: body)) := by
  -- what stands in the parameters or in the body is too small to hold them both
  have hsize : sizeOf ps + sizeOf body <
      sizeOf (Value.list i (.symbol "lambda" :: .list j ps :: body)) := by
    simp only [list.sizeOf_spec, List.cons.sizeOf_spec]
    omega
  intro h
  obtain heq | ⟨w, hmem, h⟩ := h.of_list
  · simp at heq
  rcases List.mem_cons.mp hmem with rfl | hmem
  · cases h
  rcases List.mem_cons.mp hmem with rfl | hmem
  · obtain heq | ⟨w, hmem, h⟩ := h.of_list
    · have hps : sizeOf (.list j ps :: body) = sizeOf ps := by
        injection heq with _ hitems
        injection hitems with _ hitems
        rw [hitems]
      simp only [list.sizeOf_spec, List.cons.sizeOf_spec] at hps
      omega
    rcases List.mem_cons.mp hmem with rfl | hmem
    · cases h
    · have hle := h.sizeOf_le
      have hlt := List.sizeOf_lt_of_mem hmem
      omega
  · have hle := h.sizeOf_le
    have hlt := List.sizeOf_lt_of_mem hmem
    omega

end Value

/-! ## What is refused -/

/-- The kinds of error by which analysis refuses a form. -/
def ErrorKind.ofAnalysis : List ErrorKind :=
  [.unknownExpression, .malformedForm, .emptyBody, .misplacedElse]

/-- The failure refuses a form for its own shape, and shows no more than a part of it. -/
def Refuses (f : Failure) (form : Value) : Prop :=
  ∃ e : Error, f = e.raise ∧ e.subject = form ∧ e.kind ∈ ErrorKind.ofAnalysis ∧
    ∀ v ∈ e.shown?, v.IsSubForm form

/-- What a computation that fails must have failed in. -/
theorem Except.of_bind_eq_error {ε α β : Type} {m : Except ε α} {k : α → Except ε β} {e : ε}
    (h : (m >>= k) = .error e) : m = .error e ∨ ∃ a, m = .ok a ∧ k a = .error e := by
  cases m with
  | error e' => cases h; exact .inl rfl
  | ok a => exact .inr ⟨a, rfl, h⟩

theorem Except.of_bind_ok_eq_error {ε α β : Type} {m : Except ε α} {g : α → β} {e : ε}
    (h : (m >>= fun a => .ok (g a)) = .error e) : m = .error e := by
  rcases of_bind_eq_error h with hm | ⟨a, -, ha⟩
  · exact hm
  · cases ha

namespace Form

variable {α : Type} {form head v : Value} {id : Nat} {rest vs : List Value} {f : Failure}

theorem refuses_unknown (form : Value) : Refuses (Error.unknownExpression form).raise form :=
  ⟨.unknownExpression form, rfl, rfl, .head _, by rintro v ⟨⟩; exact .refl⟩

theorem of_refuse {fault : ShapeFault} (h : (refuse form fault : Except Failure α) = .error f)
    (hs : ∀ v ∈ fault.shown?, v.IsSubForm form) : Refuses f form := by
  have hkind : fault.kind ∈ ErrorKind.ofAnalysis := by
    cases fault <;> simp [ShapeFault.kind, ErrorKind.ofAnalysis]
  cases h
  exact ⟨.shape fault form, rfl, rfl, hkind, hs⟩

theorem mem_of_items_eq (h : items (.list id vs) = head :: v :: rest) : v ∈ vs := by
  change vs = _ at h
  rw [h]
  exact .tail _ (.head _)

theorem of_params_error {ps : List Value} (h : params form (.list id ps) = .error f)
    (hps : ∀ p ∈ ps, p.IsSubForm form) : Refuses f form := by
  simp only [params] at h
  split at h
  · next p hp =>
    refine of_refuse h ?_
    rintro v ⟨⟩
    exact hps p (List.mem_of_find?_eq_some hp)
  · split at h
    · exact of_refuse h nofun
    · cases h

theorem of_quoteDatum_error (h : quoteDatum form = .error f) : Refuses f form := by
  unfold quoteDatum at h
  split at h
  · cases h
  · exact of_refuse h nofun

theorem of_assignment_error (h : assignment (.list id vs) = .error f) :
    Refuses f (.list id vs) := by
  unfold assignment at h
  split at h
  · next heq =>
    split at h
    · cases h
    · refine of_refuse h ?_
      rintro v ⟨⟩
      exact .of_mem (mem_of_items_eq heq)
  · exact of_refuse h nofun

theorem of_defineTarget_error (h : defineTarget (.list id vs) = .error f) :
    Refuses f (.list id vs) := by
  unfold defineTarget at h
  split at h
  · split at h
    · cases h
    · exact of_refuse h nofun
  · exact of_refuse h nofun
  · next heq =>
    split at h
    · cases h
    · refine of_refuse h ?_
      rintro v ⟨⟩
      exact .of_mem (mem_of_items_eq heq)
  · exact of_refuse h nofun

theorem of_definiens_error (h : definiens (.list id vs) = .error f) : Refuses f (.list id vs) := by
  unfold definiens at h
  split at h
  · next id' header body heq =>
    rcases Except.of_bind_eq_error h with ht | ⟨_, -, h⟩
    · exact of_defineTarget_error ht
    rcases Except.of_bind_eq_error h with hps | ⟨_, -, h⟩
    · refine of_params_error hps fun p hp => ?_
      have hheader : Value.list id' header ∈ vs := mem_of_items_eq heq
      exact .item hheader (.of_mem (List.mem_of_mem_drop hp))
    split at h
    · exact of_refuse h nofun
    · cases h
  · cases h
  · exact of_refuse h nofun

theorem of_branch_error (h : branch form = .error f) : Refuses f form := by
  unfold branch at h
  split at h
  · cases h
  · cases h
  · exact of_refuse h nofun

theorem of_lambdaParams_error (h : lambdaParams (.list id vs) = .error f) :
    Refuses f (.list id vs) := by
  unfold lambdaParams at h
  split at h
  · next ps _ heq =>
    have hps : ps ∈ vs := mem_of_items_eq heq
    cases ps with
    | list => exact of_params_error h fun p hp => .item hps (.of_mem hp)
    | _ =>
      refine of_refuse h ?_
      rintro v ⟨⟩
      exact .of_mem hps
  · exact of_refuse h nofun

theorem of_lambdaBody_error (h : lambdaBody form = .error f) : Refuses f form := by
  unfold lambdaBody at h
  split at h
  · cases h
  · exact of_refuse h nofun

theorem of_sequenceBody_error (h : sequenceBody (.list id (head :: rest)) = .error f) :
    Refuses f (.list id (head :: rest)) := by
  unfold sequenceBody at h
  split at h
  · next heq => cases heq
  · next heq =>
    cases heq
    refine of_refuse h ?_
    rintro v ⟨⟩
    exact .of_mem (.head _)
  · cases h

theorem of_orderedClauses_error (h : orderedClauses (.list id vs) = .error f) :
    Refuses f (.list id vs) := by
  rcases Except.of_bind_eq_error h with h | ⟨clauses, -, h⟩
  · unfold condClauses at h
    split at h
    · next clause hfind =>
      refine of_refuse h ?_
      rintro v ⟨⟩
      exact .of_mem (List.mem_of_mem_drop (List.mem_of_find?_eq_some hfind))
    · cases h
  · split at h
    · exact of_refuse h nofun
    · cases h

theorem eq_of_isNonEmptyList (h : isNonEmptyList form) :
    ∃ id head rest, form = .list id (head :: rest) := by
  unfold isNonEmptyList at h
  split at h
  · exact ⟨_, _, _, rfl⟩
  · cases h

theorem isNonEmptyList_of_orderedClauses {clauses : List Value}
    (h : orderedClauses form = .ok clauses) : ∀ clause ∈ clauses, isNonEmptyList clause := by
  obtain ⟨_, hclauses, h⟩ := Except.of_bind_eq_ok h
  unfold condClauses at hclauses
  split at hclauses
  · cases hclauses
  · next hfind =>
    cases hclauses
    split at h
    · cases h
    · cases h
      simpa using hfind

end Form

/-- Analysis fails in this way on a part of one of the forms. -/
def FailsWithin (f : Failure) (forms : List Value) : Prop :=
  ∃ form ∈ forms, ∃ part : Value, part.IsSubForm form ∧ analyze part = .error f

variable {f : Failure} {form clause : Value} {forms clauses : List Value}

theorem FailsWithin.of_mem (hmem : form ∈ forms) (h : analyze form = .error f) :
    FailsWithin f forms :=
  ⟨form, hmem, form, .refl, h⟩

theorem FailsWithin.mono {forms' : List Value} (h : FailsWithin f forms) (hs : forms ⊆ forms') :
    FailsWithin f forms' := by
  obtain ⟨form, hmem, hpart⟩ := h
  exact ⟨form, hs hmem, hpart⟩

theorem FailsWithin.exists_part {vs : List Value} (h : FailsWithin f vs) (id : Nat) :
    ∃ part : Value, part.IsSubForm (.list id vs) ∧ analyze part = .error f := by
  obtain ⟨form, hmem, part, hpart, h⟩ := h
  exact ⟨part, .item hmem hpart, h⟩

theorem failsWithin_of_analyzeAll (h : analyzeAll forms = .error f) : FailsWithin f forms := by
  induction forms with
  | nil => rw [analyzeAll] at h; cases h
  | cons form forms ih =>
    rw [analyzeAll] at h
    rcases Except.of_bind_eq_error h with h | ⟨_, -, h⟩
    · exact .of_mem (.head _) h
    · exact (ih (Except.of_bind_ok_eq_error h)).mono (List.subset_cons_self _ _)

/-- A failure in the body of a form, which is all that is left to analyze. -/
theorem failsWithin_of_body {β : Type} {g : List Expr → β} {vs : List Value}
    (h : (analyzeAll forms >>= fun es => .ok (g es)) = .error f) (hs : forms ⊆ vs) :
    FailsWithin f vs :=
  (failsWithin_of_analyzeAll (Except.of_bind_ok_eq_error h)).mono hs

theorem failsWithin_of_analyzeClause {id : Nat} {test : Value} {actions : List Value}
    (h : analyzeClause (.list id (test :: actions)) = .error f) :
    FailsWithin f (test :: actions) := by
  by_cases htest : test = .symbol "else"
  · subst htest
    rw [analyzeClause] at h
    exact failsWithin_of_body h (List.subset_cons_self _ _)
  · rw [analyzeClause.eq_2 _ _ _ htest] at h
    rcases Except.of_bind_eq_error h with h | ⟨_, -, h⟩
    · exact .of_mem (.head _) h
    · exact failsWithin_of_body h (List.subset_cons_self _ _)

theorem failsWithin_of_analyzeClauses (hc : ∀ clause ∈ clauses, Form.isNonEmptyList clause)
    (h : analyzeClauses clauses = .error f) : FailsWithin f clauses := by
  induction clauses with
  | nil => rw [analyzeClauses] at h; cases h
  | cons clause clauses ih =>
    rw [analyzeClauses] at h
    rcases Except.of_bind_eq_error h with h | ⟨_, -, h⟩
    · obtain ⟨id, test, actions, rfl⟩ := Form.eq_of_isNonEmptyList (hc clause (.head _))
      exact ⟨_, .head _, (failsWithin_of_analyzeClause h).exists_part id⟩
    · exact (ih (fun c hmem => hc c (.tail _ hmem)) (Except.of_bind_ok_eq_error h)).mono
        (List.subset_cons_self _ _)

open Form in
/-- Analysis refuses a list for its own shape or fails on one of its items. -/
theorem refuses_or_failsWithin {id : Nat} {vs : List Value}
    (h : analyze (.list id vs) = .error f) : Refuses f (.list id vs) ∨ FailsWithin f vs := by
  cases vs with
  | nil =>
    rw [analyze_eq] at h
    cases h
    exact .inl (refuses_unknown _)
  | cons head rest =>
    have hclass : classify (.list id (head :: rest)) = .ok (.ofHead head) := rfl
    rw [analyze_eq, hclass] at h
    cases hc : Category.ofHead head with
    | literal | var => rw [hc] at h; cases h
    | quote =>
      rw [hc] at h
      exact .inl (of_quoteDatum_error (Except.of_bind_ok_eq_error h))
    | assignment =>
      rw [hc] at h
      rcases Except.of_bind_eq_error h with h | ⟨⟨target, value⟩, ha, h⟩
      · exact .inl (of_assignment_error h)
      · exact .inr (.of_mem (mem_items_of_assignment ha) (Except.of_bind_ok_eq_error h))
    | definition =>
      rw [hc] at h
      rcases Except.of_bind_eq_error h with h | ⟨target, -, h⟩
      · exact .inl (of_defineTarget_error h)
      rcases Except.of_bind_eq_error h with h | ⟨value | ⟨ps, body⟩, hd, h⟩
      · exact .inl (of_definiens_error h)
      · exact .inr (.of_mem (mem_items_of_definiens hd) (Except.of_bind_ok_eq_error h))
      · exact .inr (failsWithin_of_body h (body_of_definiens hd ▸ List.drop_subset _ _))
    | branch =>
      rw [hc] at h
      rcases Except.of_bind_eq_error h with h | ⟨⟨test, consequent, _ | alternative⟩, hb, h⟩
      · exact .inl (of_branch_error h)
      · obtain ⟨hmemt, hmemc, -⟩ := mem_items_of_branch hb
        rcases Except.of_bind_eq_error h with h | ⟨_, -, h⟩
        · exact .inr (.of_mem hmemt h)
        · exact .inr (.of_mem hmemc (Except.of_bind_ok_eq_error h))
      · obtain ⟨hmemt, hmemc, hmema⟩ := mem_items_of_branch hb
        rcases Except.of_bind_eq_error h with h | ⟨_, -, h⟩
        · exact .inr (.of_mem hmemt h)
        rcases Except.of_bind_eq_error h with h | ⟨_, -, h⟩
        · exact .inr (.of_mem hmemc h)
        · exact .inr (.of_mem (hmema _ rfl) (Except.of_bind_ok_eq_error h))
    | lambda =>
      rw [hc] at h
      rcases Except.of_bind_eq_error h with h | ⟨ps, -, h⟩
      · exact .inl (of_lambdaParams_error h)
      rcases Except.of_bind_eq_error h with h | ⟨body, hb, h⟩
      · exact .inl (of_lambdaBody_error h)
      · exact .inr (failsWithin_of_body h (body_of_lambdaBody hb ▸ List.drop_subset _ _))
    | sequence =>
      rw [hc] at h
      rcases Except.of_bind_eq_error h with h | ⟨body, hb, h⟩
      · exact .inl (of_sequenceBody_error h)
      · exact .inr (failsWithin_of_body h (body_of_sequenceBody hb ▸ List.drop_subset _ _))
    | cond =>
      rw [hc] at h
      rcases Except.of_bind_eq_error h with h | ⟨clauses, hcl, h⟩
      · exact .inl (of_orderedClauses_error h)
      · refine .inr ((failsWithin_of_analyzeClauses (isNonEmptyList_of_orderedClauses hcl)
          (Except.of_bind_ok_eq_error h)).mono ?_)
        rw [clauses_of_orderedClauses hcl]
        exact List.drop_subset _ _
    | application =>
      rw [hc] at h
      rcases Except.of_bind_eq_error h with h | ⟨_, -, h⟩
      · exact .inr (.of_mem (.head _) h)
      · exact .inr (failsWithin_of_body h (List.subset_cons_self _ _))

/-- What analysis fails on is a part of the form that it refuses for its own shape. -/
theorem exists_refused_of_analyze (form : Value) (h : analyze form = .error f) :
    ∃ part : Value, part.IsSubForm form ∧ Refuses f part ∧ analyze part = .error f := by
  match form with
  | .list id vs =>
    rcases refuses_or_failsWithin h with hrefuses | ⟨v, hmem, part, hpart, hfail⟩
    · exact ⟨_, .refl, hrefuses, h⟩
    · obtain ⟨part', hpart', hrefuses, hfail'⟩ := exists_refused_of_analyze part hfail
      exact ⟨part', .item hmem (hpart'.trans hpart), hrefuses, hfail'⟩
  | .bool _ | .int _ | .float .. | .text _ | .symbol _ =>
    rw [analyze_eq] at h
    cases h
  | .nothing | .unspecified | .primitive .. | .closure .. | .elseMark | .node _ | .clause _ =>
    have hform := h
    rw [analyze_eq] at h
    cases h
    exact ⟨_, .refl, Form.refuses_unknown _, hform⟩
termination_by sizeOf form
decreasing_by exact Nat.lt_of_le_of_lt hpart.sizeOf_le (Value.sizeOf_lt_list hmem)

/-- **Analysis accepts exactly the grammar and blames a part of the form**, as long as its integers
have a text. It gives a form the expressions that the grammar does. A form that is not in the
grammar is refused by one of four kinds of error, and the error is about a part of the form that is
refused in the same way on its own. It is never about the `lambda` form that a definition around
that part abbreviates. -/
theorem analyze_accepts_grammar (form : Value) (hfits : form.fits) :
    (∀ e, analyze form = .ok e ↔ Analyzes form e) ∧
    ((¬ ∃ e, Analyzes form e) → ∃ err : Error, analyze form = .error (.error err) ∧
      err.kind ∈ ErrorKind.ofAnalysis ∧ err.subject.IsSubForm form ∧
      analyze err.subject = .error (.error err) ∧
      ∀ (id id' i j : Nat) (name : String) (ps body : List Value),
        err.subject.IsSubForm
          (.list id (.symbol "define" :: .list id' (.symbol name :: ps) :: body)) →
        err.subject ≠ .list i (.symbol "lambda" :: .list j ps :: body)) := by
  refine ⟨fun e => ⟨analyzes_of_analyze, analyze_of_analyzes⟩, fun hno => ?_⟩
  cases h : analyze form with
  | ok e => exact absurd ⟨e, analyzes_of_analyze h⟩ hno
  | error f =>
    obtain ⟨part, hpart, ⟨err, rfl, rfl, hkind, hshown⟩, hfail⟩ := exists_refused_of_analyze form h
    have hraise : err.raise = .error err := by
      rw [Error.raise, Error.fits]
      cases hv : err.shown? with
      | none => rfl
      | some v => exact if_pos (((hshown v hv).trans hpart).fits hfits)
    rw [hraise] at hfail
    refine ⟨err, by rw [hraise], hkind, hpart, hfail, ?_⟩
    rintro id id' i j name ps body hsub heq
    rw [heq] at hsub
    exact Value.not_isSubForm_define hsub

/-- A definition inside a sequence with one parameter twice. -/
theorem analyze_accepts_grammar_duplicate :
    let define := Value.list 1 [.symbol "define", .list 2 [.symbol "f", .symbol "x", .symbol "x"],
      .symbol "x"]
    (Value.list 3 [.symbol "begin", define]).fits ∧
      (¬ ∃ e, Analyzes (.list 3 [.symbol "begin", define]) e) ∧
      ∃ err : Error, analyze (.list 3 [.symbol "begin", define]) = .error (.error err) ∧
        err.subject = define ∧ err.kind = .malformedForm := by
  intro define
  have hfits : (Value.list 3 [.symbol "begin", define]).fits := rfl
  have hdefine : analyze define = .error (.error (.shape .duplicateParam define)) := by
    rw [analyze_eq]
    rfl
  have hform : analyze (.list 3 [.symbol "begin", define]) =
      .error (.error (.shape .duplicateParam define)) := by
    rw [analyze_eq]
    change (analyzeAll [define] >>= fun es => Except.ok (Expr.sequence es)) = _
    rw [analyzeAll, hdefine]
    rfl
  obtain ⟨haccepts, hblames⟩ := analyze_accepts_grammar _ hfits
  have hno : ¬ ∃ e, Analyzes (.list 3 [.symbol "begin", define]) e := by
    rintro ⟨e, he⟩
    cases hform.symm.trans ((haccepts e).mpr he)
  obtain ⟨err, herr, -⟩ := hblames hno
  cases hform.symm.trans herr
  exact ⟨hfits, hno, _, hform, rfl, rfl⟩

end SmallLisp
