import SmallLisp.Form.Cond

/-!
# Names in code

The names in an expression are its variables, the targets of its assignments and definitions and the
parameters of its procedures, but not the symbols in its quoted data. `Expr.mapNames` puts other
names in their places, and the conditionals that a `cond` stands for change with it
(`Clause.toBranches_mapAllNames`).
-/

namespace SmallLisp

/-- A symbol under another name. -/
def Value.mapName (ρ : String → String) : Value → Value
  | .symbol name => .symbol (ρ name)
  | v => v

mutual

/-- An expression under other names; quoted data are left alone. -/
def Expr.mapNames (ρ : String → String) : Expr → Expr
  | .literal v => .literal v
  | .var name => .var (name.mapName ρ)
  | .quote datum => .quote datum
  | .assign target value => .assign (target.mapName ρ) (value.mapNames ρ)
  | .define target value => .define (target.mapName ρ) (value.mapNames ρ)
  | .branch test consequent alternative =>
    .branch (test.mapNames ρ) (consequent.mapNames ρ) (alternative.mapNames ρ)
  | .lambda params body => .lambda (params.map (Value.mapName ρ)) (Expr.mapAllNames ρ body)
  | .sequence body => .sequence (Expr.mapAllNames ρ body)
  | .cond clauses => .cond (Clause.mapAllNames ρ clauses)
  | .apply operator operands => .apply (operator.mapNames ρ) (Expr.mapAllNames ρ operands)
  | .foreign id => .foreign id
  | .raw form => .raw form

def Expr.mapAllNames (ρ : String → String) : List Expr → List Expr
  | [] => []
  | e :: es => e.mapNames ρ :: Expr.mapAllNames ρ es

def Clause.mapNames (ρ : String → String) : Clause → Clause
  | .test test actions => .test (test.mapNames ρ) (Expr.mapAllNames ρ actions)
  | .otherwise actions => .otherwise (Expr.mapAllNames ρ actions)

def Clause.mapAllNames (ρ : String → String) : List Clause → List Clause
  | [] => []
  | c :: cs => c.mapNames ρ :: Clause.mapAllNames ρ cs

end

mutual

/-- The names in an expression, quoted data apart: variables, targets and parameters. -/
def Expr.names : Expr → List Value
  | .literal _ | .quote _ | .foreign _ | .raw _ => []
  | .var name => [name]
  | .assign target value | .define target value => target :: value.names
  | .branch test consequent alternative => test.names ++ consequent.names ++ alternative.names
  | .lambda params body => params ++ Expr.allNames body
  | .sequence body => Expr.allNames body
  | .cond clauses => Clause.allNames clauses
  | .apply operator operands => operator.names ++ Expr.allNames operands

def Expr.allNames : List Expr → List Value
  | [] => []
  | e :: es => e.names ++ Expr.allNames es

def Clause.names : Clause → List Value
  | .test test actions => test.names ++ Expr.allNames actions
  | .otherwise actions => Expr.allNames actions

def Clause.allNames : List Clause → List Value
  | [] => []
  | c :: cs => c.names ++ Clause.allNames cs

end

/-! ## The same names -/

theorem Value.mapName_id (v : Value) : v.mapName id = v := by
  cases v <;> rfl

mutual

theorem Expr.mapNames_id : ∀ e : Expr, e.mapNames id = e
  | .literal _ | .quote _ | .foreign _ | .raw _ => rfl
  | .var name => by rw [Expr.mapNames, name.mapName_id]
  | .assign target value | .define target value => by
    rw [Expr.mapNames, target.mapName_id, value.mapNames_id]
  | .branch test consequent alternative => by
    rw [Expr.mapNames, test.mapNames_id, consequent.mapNames_id, alternative.mapNames_id]
  | .lambda params body => by
    rw [Expr.mapNames, Expr.mapAllNames_id body, funext Value.mapName_id, List.map_id']
  | .sequence body => by rw [Expr.mapNames, Expr.mapAllNames_id body]
  | .cond clauses => by rw [Expr.mapNames, Clause.mapAllNames_id clauses]
  | .apply operator operands => by
    rw [Expr.mapNames, operator.mapNames_id, Expr.mapAllNames_id operands]

theorem Expr.mapAllNames_id : ∀ es : List Expr, Expr.mapAllNames id es = es
  | [] => rfl
  | e :: es => by rw [Expr.mapAllNames, e.mapNames_id, Expr.mapAllNames_id es]

theorem Clause.mapNames_id : ∀ c : Clause, c.mapNames id = c
  | .test test actions => by rw [Clause.mapNames, test.mapNames_id, Expr.mapAllNames_id actions]
  | .otherwise actions => by rw [Clause.mapNames, Expr.mapAllNames_id actions]

theorem Clause.mapAllNames_id : ∀ cs : List Clause, Clause.mapAllNames id cs = cs
  | [] => rfl
  | c :: cs => by rw [Clause.mapAllNames, c.mapNames_id, Clause.mapAllNames_id cs]

end

/-! ## The meaning of a `cond` -/

variable {ρ : String → String}

theorem Expr.ofActions_mapAllNames (actions : List Expr) :
    Expr.ofActions (Expr.mapAllNames ρ actions) = (Expr.ofActions actions).mapNames ρ := by
  match actions with
  | [] | [_] | _ :: _ :: _ => rfl

theorem Expr.names_ofActions (actions : List Expr) :
    (Expr.ofActions actions).names ⊆ Expr.allNames actions := by
  match actions with
  | [] => exact List.nil_subset _
  | [e] => exact List.subset_append_left ..
  | _ :: _ :: _ => exact List.Subset.refl _

/-- The conditionals that a `cond` stands for. -/
theorem Clause.toBranches_mapAllNames {clauses : List Clause} {e : Expr}
    (h : Clause.toBranches clauses = .ok e) :
    Clause.toBranches (Clause.mapAllNames ρ clauses) = .ok (e.mapNames ρ) ∧
      e.names ⊆ Clause.allNames clauses := by
  induction clauses generalizing e with
  | nil =>
    cases h
    exact ⟨rfl, List.nil_subset _⟩
  | cons c rest ih =>
    cases c with
    | otherwise actions =>
      cases rest with
      | nil =>
        cases h
        refine ⟨congrArg Except.ok (Expr.ofActions_mapAllNames actions), ?_⟩
        simpa [Clause.allNames, Clause.names] using Expr.names_ofActions actions
      | cons => cases h
    | test t actions =>
      cases hr : Clause.toBranches rest with
      | error => rw [Clause.toBranches, hr] at h; cases h
      | ok e' =>
        rw [Clause.toBranches, hr] at h
        cases h
        obtain ⟨hmap, hnames⟩ := ih hr
        constructor
        · rw [Clause.mapAllNames, Clause.mapNames, Clause.toBranches, hmap,
            Expr.ofActions_mapAllNames]
          rfl
        · have hactions := Expr.names_ofActions actions
          simp only [Expr.names, Clause.allNames, Clause.names]
          grind

end SmallLisp
