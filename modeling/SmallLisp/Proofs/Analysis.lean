import SmallLisp.Form.Analysis
import SmallLisp.Form.Cond

/-!
# The grammar of expressions

`Analyzes form e` says that `form` is in the grammar of the language and stands for the expression
`e`, production by production. What analysis accepts is in the grammar (`analyzes_of_analyze`), so
facts about analyzed code go by induction over derivations and never look into `analyze` again. The
category that decides about the production is the first one in a table whose predicate holds of the
form (`classify_eq_find?`).
-/

namespace SmallLisp

/-- Parameters of a procedure: pairwise distinct symbols. -/
def DistinctSymbols (vs : List Value) : Prop :=
  ∃ names : List String, names.Nodup ∧ vs = names.map .symbol

/-- The names that begin the special forms. -/
def specialForms : List String :=
  ["quote", "set!", "define", "if", "lambda", "progn", "begin", "cond"]

/-- Values that stand for themselves. -/
def Value.isLiteral : Value → Bool
  | .bool _ | .int _ | .float .. | .text _ => true
  | _ => false

def Clause.isElse : Clause → Bool
  | .otherwise _ => true
  | .test .. => false

mutual

/-- The form `form` stands for the expression `e`. -/
inductive Analyzes : Value → Expr → Prop
  | literal {v : Value} : v.isLiteral → Analyzes v (.literal v)
  | var {name : String} : Analyzes (.symbol name) (.var (.symbol name))
  | quote {id : Nat} {datum : Value} :
    Analyzes (.list id [.symbol "quote", datum]) (.quote datum)
  | assign {id : Nat} {name : String} {value : Value} {e : Expr} : Analyzes value e →
    Analyzes (.list id [.symbol "set!", .symbol name, value]) (.assign (.symbol name) e)
  | define {id : Nat} {name : String} {value : Value} {e : Expr} : Analyzes value e →
    Analyzes (.list id [.symbol "define", .symbol name, value]) (.define (.symbol name) e)
  | procedure {id id' : Nat} {name : String} {params body : List Value} {es : List Expr} :
    DistinctSymbols params → body ≠ [] → AnalyzesAll body es →
    Analyzes (.list id (.symbol "define" :: .list id' (.symbol name :: params) :: body))
      (.define (.symbol name) (.lambda params es))
  | branch {id : Nat} {test consequent : Value} {e e' : Expr} : Analyzes test e →
    Analyzes consequent e' →
    Analyzes (.list id [.symbol "if", test, consequent]) (.branch e e' .false)
  | branchElse {id : Nat} {test consequent alternative : Value} {e e' e'' : Expr} :
    Analyzes test e → Analyzes consequent e' → Analyzes alternative e'' →
    Analyzes (.list id [.symbol "if", test, consequent, alternative]) (.branch e e' e'')
  | lambda {id id' : Nat} {params body : List Value} {es : List Expr} :
    DistinctSymbols params → body ≠ [] → AnalyzesAll body es →
    Analyzes (.list id (.symbol "lambda" :: .list id' params :: body)) (.lambda params es)
  | sequence {id : Nat} {tag : String} {body : List Value} {es : List Expr} :
    tag = "begin" ∨ tag = "progn" → body ≠ [] → AnalyzesAll body es →
    Analyzes (.list id (.symbol tag :: body)) (.sequence es)
  | cond {id : Nat} {clauses : List Value} {cs : List Clause} : AnalyzesClauses clauses cs →
    Analyzes (.list id (.symbol "cond" :: clauses)) (.cond cs)
  | apply {id : Nat} {operator : Value} {operands : List Value} {e : Expr} {es : List Expr} :
    (∀ tag ∈ specialForms, operator ≠ .symbol tag) → Analyzes operator e →
    AnalyzesAll operands es →
    Analyzes (.list id (operator :: operands)) (.apply e es)

/-- The forms stand for the expressions, one by one. -/
inductive AnalyzesAll : List Value → List Expr → Prop
  | nil : AnalyzesAll [] []
  | cons {form : Value} {forms : List Value} {e : Expr} {es : List Expr} : Analyzes form e →
    AnalyzesAll forms es → AnalyzesAll (form :: forms) (e :: es)

/-- The forms stand for the clauses of a `cond`, of which only the last may be an `else` clause. -/
inductive AnalyzesClauses : List Value → List Clause → Prop
  | nil : AnalyzesClauses [] []
  | otherwise {id : Nat} {actions : List Value} {es : List Expr} : AnalyzesAll actions es →
    AnalyzesClauses [.list id (.symbol "else" :: actions)] [.otherwise es]
  | test {id : Nat} {test : Value} {actions clauses : List Value} {e : Expr} {es : List Expr}
      {cs : List Clause} : test ≠ .symbol "else" → Analyzes test e → AnalyzesAll actions es →
    AnalyzesClauses clauses cs →
    AnalyzesClauses (.list id (test :: actions) :: clauses) (.test e es :: cs)

end

/-! ## Parts of forms -/

/-- What a step of a computation that can fail must have given. -/
theorem Except.of_bind_eq_ok {ε α β : Type} {m : Except ε α} {f : α → Except ε β} {b : β}
    (h : (m >>= f) = .ok b) : ∃ a, m = .ok a ∧ f a = .ok b := by
  cases m with
  | error e => cases h
  | ok a => exact ⟨a, rfl, h⟩

/-- The names that begin the forms of a category. -/
def Category.tags : Category → List String
  | .quote => ["quote"]
  | .assignment => ["set!"]
  | .definition => ["define"]
  | .branch => ["if"]
  | .lambda => ["lambda"]
  | .sequence => ["progn", "begin"]
  | .cond => ["cond"]
  | _ => []

theorem Category.mem_tags_of_ofHead {head : Value} {c : Category} (h : ofHead head = c)
    (hc : c ≠ .application) : ∃ tag ∈ c.tags, head = .symbol tag := by
  unfold ofHead at h
  split at h <;> subst h <;> first | exact absurd rfl hc | exact ⟨_, by simp [tags], rfl⟩

/-- Whether a form is a list that begins with one of the tags. -/
def Form.isTagged (tags : List String) : Value → Bool
  | .list _ (.symbol name :: _) => tags.contains name
  | _ => false

/-- The categories with their predicates, in the order in which they are tried. An application has
no tag, so it comes behind all forms that have one. -/
def Category.classifiers : List (Category × (Value → Bool)) :=
  [
    (.literal, Value.isLiteral),
    (.var, Value.isSymbol),
    (.quote, Form.isTagged quote.tags),
    (.assignment, Form.isTagged assignment.tags),
    (.definition, Form.isTagged definition.tags),
    (.branch, Form.isTagged branch.tags),
    (.lambda, Form.isTagged lambda.tags),
    (.sequence, Form.isTagged sequence.tags),
    (.cond, Form.isTagged cond.tags),
    (.application, Form.isNonEmptyList)
  ]

theorem Category.tags_subset (c : Category) : c.tags ⊆ specialForms := by
  cases c <;> decide

theorem Category.ofHead_eq_application_iff {head : Value} :
    ofHead head = .application ↔ ∀ tag ∈ specialForms, head ≠ .symbol tag := by
  constructor
  · rintro h tag htag rfl
    simp only [specialForms, List.mem_cons, List.not_mem_nil, or_false] at htag
    rcases htag with rfl | rfl | rfl | rfl | rfl | rfl | rfl | rfl <;> cases h
  · intro h
    refine Decidable.byContradiction fun hc => ?_
    obtain ⟨tag, htag, hhead⟩ := mem_tags_of_ofHead rfl hc
    exact h tag (tags_subset _ htag) hhead

theorem Form.isTagged_iff {tags : List String} {id : Nat} {head : Value} {rest : List Value} :
    isTagged tags (.list id (head :: rest)) ↔ ∃ tag ∈ tags, head = .symbol tag := by
  cases head <;> simp [isTagged]

/-- **A form belongs to the first category whose predicate holds of it.** If none does, the form is
an unknown expression. -/
theorem classify_eq_find? (form : Value) : classify form =
    match Category.classifiers.find? (·.2 form) with
    | some (c, _) => .ok c
    | none => .error (Error.unknownExpression form).raise := by
  cases form with
  | list id vs =>
    cases vs with
    | nil => rfl
    | cons head rest =>
      by_cases happ : Category.ofHead head = .application
      · have huntagged (c : Category) : Form.isTagged c.tags (.list id (head :: rest)) = false := by
          refine Bool.eq_false_iff.mpr fun htagged => ?_
          obtain ⟨tag, htag, hhead⟩ := Form.isTagged_iff.mp htagged
          exact Category.ofHead_eq_application_iff.mp happ tag (c.tags_subset htag) hhead
        simp [classify, happ, Category.classifiers, huntagged, Value.isLiteral, Value.isSymbol,
          Form.isNonEmptyList]
      · obtain ⟨tag, htag, rfl⟩ := Category.mem_tags_of_ofHead rfl happ
        have hspecial := Category.tags_subset _ htag
        simp only [specialForms, List.mem_cons, List.not_mem_nil, or_false] at hspecial
        rcases hspecial with rfl | rfl | rfl | rfl | rfl | rfl | rfl | rfl <;> rfl
  | _ => rfl

namespace Form

variable {form v : Value} {id : Nat} {rest vs : List Value}

theorem eq_symbol_of_isSymbol (h : v.isSymbol) : ∃ name, v = .symbol name := by
  cases v with
  | symbol name => exact ⟨name, rfl⟩
  | _ => cases h

theorem classify_eq_list {c : Category} (h : classify form = .ok c) (hl : c ≠ .literal)
    (hv : c ≠ .var) :
    ∃ id head rest, form = .list id (head :: rest) ∧ Category.ofHead head = c := by
  obtain ⟨id, vs, rfl⟩ := eq_list_of_classify h hl hv
  cases vs with
  | nil => cases h
  | cons head rest =>
    cases h
    exact ⟨id, head, rest, rfl, rfl⟩

/-- A form of a category with tags is a list that begins with one of them. -/
theorem classify_eq_tagged {c : Category} (h : classify form = .ok c) (hc : c.tags ≠ []) :
    ∃ id tag rest, form = .list id (.symbol tag :: rest) ∧ tag ∈ c.tags := by
  obtain ⟨id, head, rest, rfl, hh⟩ := classify_eq_list h (fun he => hc (he ▸ rfl))
    fun he => hc (he ▸ rfl)
  obtain ⟨tag, htag, rfl⟩ := Category.mem_tags_of_ofHead hh fun he => hc (he ▸ rfl)
  exact ⟨id, tag, rest, rfl, htag⟩

/-- Only an application and a special form are lists. -/
theorem classify_list_ne {c : Category} (hc : c.tags = []) (ha : c ≠ .application) :
    classify (.list id vs) ≠ .ok c := by
  intro h
  cases vs with
  | nil => cases h
  | cons head rest =>
    obtain ⟨tag, htag, -⟩ := Category.mem_tags_of_ofHead (Except.ok.inj h) ha
    rw [hc] at htag
    cases htag

theorem eq_symbol_of_classify (h : classify form = .ok .var) : ∃ name, form = .symbol name := by
  cases form with
  | symbol name => exact ⟨name, rfl⟩
  | list => exact absurd h (classify_list_ne rfl nofun)
  | _ => cases h

theorem classify_eq_literal_iff : classify form = .ok .literal ↔ form.isLiteral := by
  cases form with
  | list => exact ⟨fun h => absurd h (classify_list_ne rfl nofun), nofun⟩
  | bool | int | float | text => exact ⟨fun _ => rfl, fun _ => rfl⟩
  | _ => exact ⟨nofun, nofun⟩

theorem names_of_hasDuplicate {names : List String} :
    hasDuplicate (names.map .symbol) = false ↔ names.Nodup := by
  induction names with
  | nil => simp [hasDuplicate]
  | cons n names ih =>
    simp only [List.map_cons, hasDuplicate, Bool.or_eq_false_iff, List.any_map, List.nodup_cons, ih]
    refine and_congr_left fun _ => ?_
    simp only [List.any_eq_false, Function.comp_apply, beq_iff_eq]
    exact ⟨fun h hn => h n hn rfl, fun h m hm heq => h (heq ▸ hm)⟩

theorem all_symbols {ps : List Value} (h : ∀ p ∈ ps, p.isSymbol) :
    ∃ names : List String, ps = names.map .symbol := by
  induction ps with
  | nil => exact ⟨[], rfl⟩
  | cons p ps ih =>
    obtain ⟨name, rfl⟩ := eq_symbol_of_isSymbol (h p (.head _))
    obtain ⟨names, rfl⟩ := ih fun q hq => h q (.tail _ hq)
    exact ⟨name :: names, rfl⟩

theorem of_params {ps : List Value} (h : params form v = .ok ps) :
    DistinctSymbols ps ∧ ∃ id, v = .list id ps := by
  unfold params at h
  split at h
  · next id qs =>
    split at h
    · cases h
    · next hfind =>
      split at h
      · cases h
      · next hdup =>
        cases h
        obtain ⟨names, rfl⟩ := all_symbols fun p hp => by
          simpa using List.find?_eq_none.mp hfind p hp
        exact ⟨⟨names, names_of_hasDuplicate.mp (by simpa using hdup), rfl⟩, id, rfl⟩
  · cases h

theorem of_quoteDatum (h : quoteDatum (.list id vs) = .ok v) : ∃ head, vs = [head, v] := by
  unfold quoteDatum at h
  split at h
  · next heq =>
    cases h
    exact ⟨_, heq⟩
  · cases h

theorem of_assignment {target value : Value}
    (h : assignment (.list id vs) = .ok (target, value)) :
    ∃ head name, target = .symbol name ∧ vs = [head, target, value] := by
  unfold assignment at h
  split at h
  · next heq =>
    split at h
    · next hsym =>
      cases h
      obtain ⟨name, rfl⟩ := eq_symbol_of_isSymbol hsym
      exact ⟨_, name, rfl, heq⟩
    · cases h
  · cases h

/-- The two shapes of a `define` form. -/
theorem of_define {head target : Value} {d : Definiens}
    (ht : defineTarget (.list id (head :: rest)) = .ok target)
    (hd : definiens (.list id (head :: rest)) = .ok d) :
    (∃ name value, target = .symbol name ∧ d = .value value ∧ rest = [.symbol name, value]) ∨
      ∃ id' name ps body, target = .symbol name ∧ d = .procedure ps body ∧
        DistinctSymbols ps ∧ body ≠ [] ∧ rest = .list id' (.symbol name :: ps) :: body := by
  cases rest with
  | nil => cases ht
  | cons t body =>
    cases t with
    | symbol name =>
      cases ht
      rcases body with _ | ⟨value, _ | ⟨_, _⟩⟩
      · cases hd
      · cases hd
        exact .inl ⟨name, value, rfl, rfl, rfl⟩
      · cases hd
    | list id' header =>
      cases header with
      | nil => cases ht
      | cons t ps =>
        simp only [definiens, items, List.drop_succ_cons, List.drop_zero] at hd
        obtain ⟨_, -, hd⟩ := Except.of_bind_eq_ok hd
        obtain ⟨qs, hps, hd⟩ := Except.of_bind_eq_ok hd
        obtain ⟨hdist, _, heq⟩ := of_params hps
        cases heq
        simp only [defineTarget, items] at ht
        split at ht
        · next hsym =>
          obtain ⟨name, rfl⟩ := eq_symbol_of_isSymbol hsym
          cases ht
          cases body with
          | nil => cases hd
          | cons b body =>
            cases hd
            exact .inr ⟨id', name, ps, _, rfl, rfl, hdist, List.cons_ne_nil _ _, rfl⟩
        · cases ht
    | _ => cases ht

theorem of_branch {test consequent : Value} {alternative : Option Value}
    (h : branch (.list id vs) = .ok (test, consequent, alternative)) :
    ∃ head, vs = head :: test :: consequent :: alternative.toList := by
  unfold branch at h
  split at h
  · next heq => cases h; exact ⟨_, heq⟩
  · next heq => cases h; exact ⟨_, heq⟩
  · cases h

theorem of_lambda {head : Value} {ps body : List Value}
    (hps : lambdaParams (.list id (head :: rest)) = .ok ps)
    (hb : lambdaBody (.list id (head :: rest)) = .ok body) :
    DistinctSymbols ps ∧ body ≠ [] ∧ ∃ id', rest = .list id' ps :: body := by
  unfold lambdaBody at hb
  split at hb
  · next heq =>
    cases hb
    cases heq
    obtain ⟨hdist, id', rfl⟩ := of_params hps
    exact ⟨hdist, nofun, id', rfl⟩
  · cases hb

theorem of_sequenceBody {head : Value} {body : List Value}
    (h : sequenceBody (.list id (head :: rest)) = .ok body) : body ≠ [] ∧ rest = body := by
  cases rest with
  | nil => cases h
  | cons b rest => cases h; exact ⟨nofun, rfl⟩

theorem of_orderedClauses {head : Value} {clauses : List Value}
    (h : orderedClauses (.list id (head :: rest)) = .ok clauses) :
    rest = clauses ∧ rest.dropLast.any isElse = false := by
  obtain rfl : clauses = rest := clauses_of_orderedClauses h
  obtain ⟨cs, hcs, h⟩ := Except.of_bind_eq_ok h
  split at h
  · cases h
  · next hany =>
    cases h
    exact ⟨rfl, by simpa using hany⟩

end Form

/-! ## Analysis stays within the grammar -/

open Form in
/-- The recursion of analysis, without what makes it terminate. -/
theorem analyze_eq (form : Value) : analyze form =
    match classify form with
    | .error e => .error e
    | .ok .literal => .ok (.literal form)
    | .ok .var => .ok (.var form)
    | .ok .quote => do return .quote (← quoteDatum form)
    | .ok .assignment => do
      let (target, value) ← assignment form
      return .assign target (← analyze value)
    | .ok .definition => do
      let target ← defineTarget form
      match ← definiens form with
      | .value value => return .define target (← analyze value)
      | .procedure ps body => return .define target (.lambda ps (← analyzeAll body))
    | .ok .branch => do
      match ← branch form with
      | (test, consequent, none) =>
        return .branch (← analyze test) (← analyze consequent) (.literal (.bool false))
      | (test, consequent, some alternative) =>
        return .branch (← analyze test) (← analyze consequent) (← analyze alternative)
    | .ok .lambda => do
      let ps ← lambdaParams form
      let body ← lambdaBody form
      return .lambda ps (← analyzeAll body)
    | .ok .sequence => do
      let body ← sequenceBody form
      return .sequence (← analyzeAll body)
    | .ok .cond => do
      let clauses ← orderedClauses form
      return .cond (← analyzeClauses clauses)
    | .ok .application =>
      match items form with
      | [] => .error (Error.unknownExpression form).raise
      | operator :: operands => do return .apply (← analyze operator) (← analyzeAll operands) := by
  rw [analyze]
  split <;> rename_i hc <;> simp only [hc]
  · split <;> rename_i h <;> simp only [h] <;> rfl
  · cases defineTarget form with
    | error => rfl
    | ok target =>
      simp only [bind, Except.bind]
      split <;> rename_i h <;> simp only [h]
  · split <;> rename_i h <;> simp only [h] <;> rfl
  · cases lambdaParams form with
    | error => rfl
    | ok ps =>
      simp only [bind, Except.bind]
      split <;> rename_i h <;> simp only [h]
  · split <;> rename_i h <;> simp only [h] <;> rfl
  · split <;> rename_i h <;> simp only [h] <;> rfl
  · split <;> rename_i h <;> simp only [h]

open Form in
/-- What analysis accepts is in the grammar. -/
theorem analyzes_of_analyze {form : Value} {e : Expr} (h : analyze form = .ok e) :
    Analyzes form e := by
  -- The motives follow the four functions; a clause is placed in front of clauses that come after.
  refine analyze.induct
    (fun form => ∀ {e}, analyze form = .ok e → Analyzes form e)
    (fun clauses => ∀ {cs}, clauses.dropLast.any isElse = false →
      analyzeClauses clauses = .ok cs → AnalyzesClauses clauses cs)
    (fun clause => ∀ {c rest cs}, analyzeClause clause = .ok c →
      (isElse clause → rest = []) → AnalyzesClauses rest cs →
      AnalyzesClauses (clause :: rest) (c :: cs))
    (fun forms => ∀ {es}, analyzeAll forms = .ok es → AnalyzesAll forms es)
    ?unknown ?literal ?var ?quote ?assignError ?assign ?define ?branchError ?branch ?branchElse
    ?lambda ?sequenceError ?sequence ?condError ?cond ?empty ?apply ?clausesNil ?clausesCons
    ?otherwise ?test ?noClause ?nil ?cons form h
  case unknown =>
    intro form f hc e h
    rw [analyze_eq, hc] at h
    cases h
  case literal =>
    intro form hc e h
    rw [analyze_eq, hc] at h
    cases h
    exact .literal (classify_eq_literal_iff.mp hc)
  case var =>
    intro form hc e h
    rw [analyze_eq, hc] at h
    cases h
    obtain ⟨name, rfl⟩ := eq_symbol_of_classify hc
    exact .var
  case quote =>
    intro form hc e h
    obtain ⟨id, tag, rest, rfl, htag⟩ := classify_eq_tagged hc (by decide)
    rw [analyze_eq, hc] at h
    obtain ⟨datum, hd, h⟩ := Except.of_bind_eq_ok h
    cases h
    obtain ⟨_, heq⟩ := of_quoteDatum hd
    cases heq
    cases List.mem_singleton.mp htag
    exact .quote
  case assignError =>
    intro form hc f hf e h
    rw [analyze_eq, hc] at h
    obtain ⟨_, h, -⟩ := Except.of_bind_eq_ok h
    cases hf.symm.trans h
  case assign =>
    intro form hc target value hv ih e h
    obtain ⟨id, tag, rest, rfl, htag⟩ := classify_eq_tagged hc (by decide)
    rw [analyze_eq, hc] at h
    obtain ⟨_, h', h⟩ := Except.of_bind_eq_ok h
    cases hv.symm.trans h'
    obtain ⟨e', he, h⟩ := Except.of_bind_eq_ok h
    cases h
    obtain ⟨_, name, rfl, heq⟩ := of_assignment hv
    cases heq
    cases List.mem_singleton.mp htag
    exact .assign (ih he)
  case define =>
    intro form hc ihv ihp e h
    obtain ⟨id, tag, rest, rfl, htag⟩ := classify_eq_tagged hc (by decide)
    cases List.mem_singleton.mp htag
    rw [analyze_eq, hc] at h
    obtain ⟨target, ht, h₁⟩ := Except.of_bind_eq_ok h
    obtain ⟨d, hd, h₂⟩ := Except.of_bind_eq_ok h₁
    obtain ⟨name, value, rfl, rfl, rfl⟩ | ⟨id', name, ps, body, rfl, rfl, hps, hne, rfl⟩ :=
      of_define ht hd
    · obtain ⟨e', he, h₃⟩ := Except.of_bind_eq_ok h₂
      cases h₃
      exact .define (ihv _ hd he)
    · obtain ⟨es, hes, h₃⟩ := Except.of_bind_eq_ok h₂
      cases h₃
      exact .procedure hps hne (ihp _ _ hd hes)
  case branchError =>
    intro form hc f hf e h
    rw [analyze_eq, hc] at h
    obtain ⟨_, h, -⟩ := Except.of_bind_eq_ok h
    cases hf.symm.trans h
  case branch =>
    intro form hc test consequent hb iht ihc e h
    obtain ⟨id, tag, rest, rfl, htag⟩ := classify_eq_tagged hc (by decide)
    rw [analyze_eq, hc] at h
    obtain ⟨_, h', h⟩ := Except.of_bind_eq_ok h
    cases hb.symm.trans h'
    obtain ⟨et, ht, h⟩ := Except.of_bind_eq_ok h
    obtain ⟨ec, hc', h⟩ := Except.of_bind_eq_ok h
    cases h
    obtain ⟨_, heq⟩ := of_branch hb
    cases heq
    cases List.mem_singleton.mp htag
    exact .branch (iht ht) (ihc hc')
  case branchElse =>
    intro form hc test consequent alternative hb iht ihc iha e h
    obtain ⟨id, tag, rest, rfl, htag⟩ := classify_eq_tagged hc (by decide)
    rw [analyze_eq, hc] at h
    obtain ⟨_, h', h⟩ := Except.of_bind_eq_ok h
    cases hb.symm.trans h'
    obtain ⟨et, ht, h⟩ := Except.of_bind_eq_ok h
    obtain ⟨ec, hc', h⟩ := Except.of_bind_eq_ok h
    obtain ⟨ea, ha, h⟩ := Except.of_bind_eq_ok h
    cases h
    obtain ⟨_, heq⟩ := of_branch hb
    cases heq
    cases List.mem_singleton.mp htag
    exact .branchElse (iht ht) (ihc hc') (iha ha)
  case lambda =>
    intro form hc ih e h
    obtain ⟨id, tag, rest, rfl, htag⟩ := classify_eq_tagged hc (by decide)
    cases List.mem_singleton.mp htag
    rw [analyze_eq, hc] at h
    obtain ⟨ps, hps, h⟩ := Except.of_bind_eq_ok h
    obtain ⟨body, hb, h⟩ := Except.of_bind_eq_ok h
    obtain ⟨es, hes, h⟩ := Except.of_bind_eq_ok h
    cases h
    obtain ⟨hdist, hne, id', rfl⟩ := of_lambda hps hb
    exact .lambda hdist hne (ih _ hb hes)
  case sequenceError =>
    intro form hc f hf e h
    rw [analyze_eq, hc] at h
    obtain ⟨_, h, -⟩ := Except.of_bind_eq_ok h
    cases hf.symm.trans h
  case sequence =>
    intro form hc body hb ih e h
    obtain ⟨id, tag, rest, rfl, htag⟩ := classify_eq_tagged hc (by decide)
    rw [analyze_eq, hc] at h
    obtain ⟨_, h', h⟩ := Except.of_bind_eq_ok h
    cases hb.symm.trans h'
    obtain ⟨es, hes, h⟩ := Except.of_bind_eq_ok h
    cases h
    obtain ⟨hne, rfl⟩ := of_sequenceBody hb
    exact .sequence (by simpa [Category.tags, or_comm] using htag) hne (ih hes)
  case condError =>
    intro form hc f hf e h
    rw [analyze_eq, hc] at h
    obtain ⟨_, h, -⟩ := Except.of_bind_eq_ok h
    cases hf.symm.trans h
  case cond =>
    intro form hc clauses hcl ih e h
    obtain ⟨id, tag, rest, rfl, htag⟩ := classify_eq_tagged hc (by decide)
    cases List.mem_singleton.mp htag
    rw [analyze_eq, hc] at h
    obtain ⟨_, h', h⟩ := Except.of_bind_eq_ok h
    cases hcl.symm.trans h'
    obtain ⟨cs, hcs, h⟩ := Except.of_bind_eq_ok h
    cases h
    obtain ⟨rfl, hlast⟩ := of_orderedClauses hcl
    exact .cond (ih hlast hcs)
  case empty =>
    intro form hc hi e h
    rw [analyze_eq, hc] at h
    simp only [hi] at h
    cases h
  case apply =>
    intro form hc operator operands hi ihf iha e h
    obtain ⟨id, head, rest, rfl, hh⟩ := classify_eq_list hc nofun nofun
    rw [analyze_eq, hc] at h
    cases hi
    obtain ⟨ef, hf, h⟩ := Except.of_bind_eq_ok h
    obtain ⟨es, hes, h⟩ := Except.of_bind_eq_ok h
    cases h
    exact .apply (Category.ofHead_eq_application_iff.mp hh) (ihf hf) (iha hes)
  case clausesNil =>
    intro cs _ h
    rw [analyzeClauses] at h
    cases h
    exact .nil
  case clausesCons =>
    intro clause rest ihc ihr cs hlast h
    rw [analyzeClauses] at h
    obtain ⟨c, hc, h⟩ := Except.of_bind_eq_ok h
    obtain ⟨cs', hcs, h⟩ := Except.of_bind_eq_ok h
    cases h
    cases rest with
    | nil => exact ihc hc (fun _ => rfl) (ihr rfl hcs)
    | cons clause' rest =>
      rw [List.dropLast_cons_cons, List.any_cons, Bool.or_eq_false_iff] at hlast
      exact ihc hc (fun h => by rw [hlast.1] at h; cases h) (ihr hlast.2 hcs)
  case otherwise =>
    intro id actions ih c rest cs h hlast hrest
    rw [analyzeClause] at h
    obtain ⟨es, hes, h⟩ := Except.of_bind_eq_ok h
    cases h
    cases hlast rfl
    cases hrest
    exact .otherwise (ih hes)
  case test =>
    intro id test actions hne iht iha c rest cs h _ hrest
    rw [analyzeClause.eq_2 _ _ _ hne] at h
    obtain ⟨e, he, h⟩ := Except.of_bind_eq_ok h
    obtain ⟨es, hes, h⟩ := Except.of_bind_eq_ok h
    cases h
    exact .test hne (iht he) (iha hes) hrest
  case noClause =>
    intro clause h₁ h₂ c rest cs h
    rw [analyzeClause.eq_3 _ h₁ h₂] at h
    cases h
  case nil =>
    intro es h
    rw [analyzeAll] at h
    cases h
    exact .nil
  case cons =>
    intro form rest ihf ihr es h
    rw [analyzeAll] at h
    obtain ⟨e, he, h⟩ := Except.of_bind_eq_ok h
    obtain ⟨es', hes, h⟩ := Except.of_bind_eq_ok h
    cases h
    exact .cons (ihf he) (ihr hes)

/-! ## The place of `else` -/

theorem Clause.toBranches_misplaced {clauses : List Clause}
    (h : clauses.dropLast.any Clause.isElse) : Clause.toBranches clauses =
      .error (.error (.elseNotLast (clauses.dropWhile (!·.isElse)))) := by
  induction clauses with
  | nil => cases h
  | cons c rest ih =>
    cases rest with
    | nil => cases h
    | cons c' rest =>
      cases c with
      | otherwise actions => rfl
      | test e actions =>
        rw [List.dropLast_cons_cons, List.any_cons, Bool.or_eq_true] at h
        rw [Clause.toBranches, ih (h.resolve_left nofun)]
        rfl

theorem Clause.toBranches_ordered {clauses : List Clause}
    (h : clauses.dropLast.any Clause.isElse = false) : ∃ e, Clause.toBranches clauses = .ok e := by
  induction clauses with
  | nil => exact ⟨_, rfl⟩
  | cons c rest ih =>
    cases rest with
    | nil =>
      cases c with
      | otherwise actions => exact ⟨_, rfl⟩
      | test e actions => exact ⟨_, rfl⟩
    | cons c' rest =>
      rw [List.dropLast_cons_cons, List.any_cons, Bool.or_eq_false_iff] at h
      cases c with
      | otherwise actions => cases h.1
      | test e actions =>
        obtain ⟨e', he⟩ := ih h.2
        exact ⟨_, by rw [Clause.toBranches, he]; rfl⟩

end SmallLisp
