import SmallLisp.Proofs.Analysis
import SmallLisp.Proofs.Law

/-!
# The shape of analyzed code

Analysis gives every expression a shape (`Expr.IsShaped`): names are symbols, parameters are
distinct, bodies are not empty, `else` comes last and nothing is left unanalyzed. So an expression
obeys a law that permits these shapes if the form that it was made from obeys the law
(`Analyzes.obeys`).
-/

namespace SmallLisp

/-- The shape that analysis gives to an expression, apart from its parts. -/
def Expr.IsShaped : Expr → Prop
  | .literal _ | .quote _ | .branch .. | .apply .. => True
  | .var name | .assign name _ | .define name _ => name.isSymbol
  | .lambda params body => DistinctSymbols params ∧ body ≠ []
  | .sequence body => body ≠ []
  | .cond clauses => clauses.dropLast.any Clause.isElse = Bool.false
  | .foreign _ | .raw _ => False

/-- The law permits what analysis and the reader make. -/
structure Law.PermitsPrograms (L : Law) : Prop where
  shaped : ∀ {e : Expr}, e.IsShaped → L.expr e
  text : ∀ (x : Extent) (s : String), L.value x (.text s)
  symbol : ∀ (x : Extent) (name : String), L.value x (.symbol name)

variable {L : Law} {x : Extent}

theorem AnalyzesAll.ne_nil {forms : List Value} {es : List Expr} (h : AnalyzesAll forms es)
    (hne : forms ≠ []) : es ≠ [] := by
  cases h with
  | nil => exact absurd rfl hne
  | cons => exact nofun

theorem AnalyzesClauses.elseLast : ∀ {clauses : List Value} {cs : List Clause},
    AnalyzesClauses clauses cs → cs.dropLast.any Clause.isElse = false
  | _, _, .nil | _, _, .otherwise _ => rfl
  | _, [_], .test .. => rfl
  | _, _ :: _ :: _, .test _ _ _ h => by
    rw [List.dropLast_cons_cons, List.any_cons, h.elseLast]
    rfl

mutual

/-- An expression obeys a law if it was made from a form that does. -/
theorem Analyzes.obeys (hL : L.PermitsPrograms) (hb : L.value x (.bool false)) {form : Value}
    {e : Expr} (h : Analyzes form e) (hf : form.Obeys L x) : e.Obeys L x := by
  match h with
  | .literal _ => exact ⟨hL.shaped trivial, hf⟩
  | .var => exact hL.shaped (e := .var _) rfl
  | .quote => exact ⟨hL.shaped trivial, hf.2.2.1⟩
  | .assign h => exact ⟨hL.shaped (e := .assign _ _) rfl, h.obeys hL hb hf.2.2.2.1⟩
  | .define h => exact ⟨hL.shaped (e := .define _ _) rfl, h.obeys hL hb hf.2.2.2.1⟩
  | .procedure hps hne h =>
    exact ⟨hL.shaped (e := .define _ _) rfl, hL.shaped ⟨hps, h.ne_nil hne⟩,
      h.obeys hL hb hf.2.2.2⟩
  | .branch ht hc =>
    exact ⟨hL.shaped trivial, ht.obeys hL hb hf.2.2.1, hc.obeys hL hb hf.2.2.2.1,
      hL.shaped trivial, hb⟩
  | .branchElse ht hc ha =>
    exact ⟨hL.shaped trivial, ht.obeys hL hb hf.2.2.1, hc.obeys hL hb hf.2.2.2.1,
      ha.obeys hL hb hf.2.2.2.2.1⟩
  | .lambda hps hne h => exact ⟨hL.shaped ⟨hps, h.ne_nil hne⟩, h.obeys hL hb hf.2.2.2⟩
  | .sequence _ hne h => exact ⟨hL.shaped (e := .sequence _) (h.ne_nil hne), h.obeys hL hb hf.2.2⟩
  | .cond h => exact ⟨hL.shaped (e := .cond _) h.elseLast, h.obeys hL hb hf.2.2⟩
  | .apply _ ho h => exact ⟨hL.shaped trivial, ho.obeys hL hb hf.2.1, h.obeys hL hb hf.2.2⟩

theorem AnalyzesAll.obeys (hL : L.PermitsPrograms) (hb : L.value x (.bool false))
    {forms : List Value} {es : List Expr} (h : AnalyzesAll forms es)
    (hf : Value.AllObey L x forms) : Expr.AllObey L x es := by
  match h with
  | .nil => trivial
  | .cons h hs => exact ⟨h.obeys hL hb hf.1, hs.obeys hL hb hf.2⟩

theorem AnalyzesClauses.obeys (hL : L.PermitsPrograms) (hb : L.value x (.bool false))
    {clauses : List Value} {cs : List Clause} (h : AnalyzesClauses clauses cs)
    (hf : Value.AllObey L x clauses) : Clause.AllObey L x cs := by
  match h with
  | .nil => trivial
  | .otherwise h => exact ⟨h.obeys hL hb hf.1.2.2, trivial⟩
  | .test _ ht ha h =>
    exact ⟨⟨ht.obeys hL hb hf.1.2.1, ha.obeys hL hb hf.1.2.2⟩, h.obeys hL hb hf.2⟩

end

end SmallLisp
