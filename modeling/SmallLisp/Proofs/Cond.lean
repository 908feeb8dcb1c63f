import SmallLisp.Proofs.Analysis
import SmallLisp.Proofs.Perform

/-!
# The direct reading of `cond`

`Clause.select` does what a `cond` says, clause by clause, without nested conditionals. Given enough
depth, the conditionals that `Clause.toBranches` makes come to the same
(`Clause.toBranches_of_select` and `Clause.select_of_toBranches`): the predicates are evaluated in
the same order in the same stores, and nothing else is.
-/

namespace SmallLisp

variable {clauses : List Clause} {env : FrameId} {e : Expr} {s s' : Store}
  {r : Except Failure Value}

/-- Evaluate actions in order; the last one gives the value, and without actions it is `#f`. -/
def Clause.act (p : Task → Action Value) (env : FrameId) : List Expr → Action Value
  | [] => pure (.bool false)
  | [e] => p (.eval e env)
  | e :: es => do
    let _ ← p (.eval e env)
    Clause.act p env es

/-- Evaluate predicates in written order up to the first whose value is not `#f`, or to an `else`,
and then the actions of that clause; the value is `#f` when no clause is selected. -/
def Clause.select (p : Task → Action Value) (env : FrameId) : List Clause → Action Value
  | [] => pure (.bool false)
  | .otherwise actions :: _ => Clause.act p env actions
  | .test e actions :: rest => do
    let v ← p (.eval e env)
    if v.isFalse then Clause.select p env rest else Clause.act p env actions

/-- What an action comes to in a store when the tasks in it may nest as deep as they need. -/
def ComesTo (m : Nat → Action Value) (s : Store) (r : Except Failure Value) (s' : Store) : Prop :=
  r ≠ .error (.fault .tooDeep) ∧ ∃ depth, m depth s = (r, s')

namespace Clause

theorem act_eq_evalBody (p : Task → Action Value) (env : FrameId) (e : Expr) (es : List Expr) :
    act p env (e :: es) = evalBody p env (e :: es) := by
  induction es generalizing e with
  | nil => rfl
  | cons e' es ih => rw [act, evalBody, ih] <;> simp

/-- One more level of depth than the actions need does for the expression that they make. -/
theorem ofActions_of_act {depth : Nat} {actions : List Expr}
    (hr : r ≠ .error (.fault .tooDeep)) (h : act (perform depth) env actions s = (r, s')) :
    perform (depth + 1) (.eval (.ofActions actions) env) s = (r, s') := by
  match actions with
  | [] => exact h
  | [e] => exact perform_le (Nat.le_succ depth) h hr
  | e :: e' :: es =>
    rw [act_eq_evalBody] at h
    exact h

theorem act_of_ofActions {depth : Nat} {actions : List Expr} (hr : r ≠ .error (.fault .tooDeep))
    (h : perform depth (.eval (.ofActions actions) env) s = (r, s')) :
    act (perform depth) env actions s = (r, s') := by
  have hnext := perform_le (Nat.le_succ depth) h hr
  match actions with
  | [] => exact hnext
  | [e] => exact h
  | e :: e' :: es =>
    rw [act_eq_evalBody]
    exact hnext

theorem toBranches_test {test : Expr} {actions : List Expr} {rest : List Clause}
    (h : toBranches (.test test actions :: rest) = .ok e) :
    ∃ e', toBranches rest = .ok e' ∧ e = .branch test (.ofActions actions) e' := by
  rw [toBranches] at h
  obtain ⟨e', he', h⟩ := Except.of_bind_eq_ok h
  cases h
  exact ⟨e', he', rfl⟩

theorem toBranches_otherwise {actions : List Expr} {rest : List Clause}
    (h : toBranches (.otherwise actions :: rest) = .ok e) : e = .ofActions actions := by
  cases rest with
  | nil => cases h; rfl
  | cons => cases h

/-- The conditionals do at any depth what the direct reading does. -/
theorem select_of_toBranches {depth : Nat} (he : toBranches clauses = .ok e)
    (hr : r ≠ .error (.fault .tooDeep)) (h : perform depth (.eval e env) s = (r, s')) :
    select (perform depth) env clauses s = (r, s') := by
  induction clauses generalizing e s with
  | nil =>
    cases he
    exact perform_le (Nat.le_succ depth) h hr
  | cons c rest ih =>
    cases c with
    | otherwise actions =>
      obtain rfl := toBranches_otherwise he
      exact act_of_ofActions hr h
    | test t actions =>
      obtain ⟨e', he', rfl⟩ := toBranches_test he
      rw [select]
      rcases Action.of_bind_eq (perform_le (Nat.le_succ depth) h hr) with
        ⟨v, s₁, htest, hrest⟩ | ⟨f, htest, rfl⟩
      · rw [Action.bind_of_ok htest]
        cases hv : v.isFalse with
        | true =>
          rw [hv] at hrest
          exact ih he' hrest
        | false =>
          rw [hv] at hrest
          exact act_of_ofActions hr hrest
      · exact Action.bind_of_error htest

/-- Each clause takes one level of depth. -/
theorem toBranches_of_select {depth : Nat} (he : toBranches clauses = .ok e)
    (hr : r ≠ .error (.fault .tooDeep)) (h : select (perform depth) env clauses s = (r, s')) :
    perform (depth + clauses.length + 1) (.eval e env) s = (r, s') := by
  induction clauses generalizing e s with
  | nil =>
    cases he
    exact h
  | cons c rest ih =>
    cases c with
    | otherwise actions =>
      obtain rfl := toBranches_otherwise he
      exact perform_le (by simp) (ofActions_of_act hr h) hr
    | test t actions =>
      obtain ⟨e', he', rfl⟩ := toBranches_test he
      have hle : depth ≤ depth + (rest.length + 1) := Nat.le_add_right ..
      rw [select] at h
      rcases Action.of_bind_eq h with ⟨v, s₁, htest, hrest⟩ | ⟨f, htest, rfl⟩
      · refine (Action.bind_of_ok (perform_le hle htest nofun)).trans ?_
        cases hv : v.isFalse with
        | true =>
          rw [hv] at hrest
          exact ih he' hrest
        | false =>
          rw [hv] at hrest
          have hone : depth + 1 ≤ depth + (rest.length + 1) := by omega
          exact perform_le hone (ofActions_of_act hr hrest) hr
      · exact Action.bind_of_error (perform_le hle htest hr)

end Clause

/-- The meaning of `cond`. With an `else` before the last clause it is an error about the clauses
from the first `else` on, and nothing has happened. Otherwise it comes to what the direct reading of
the clauses comes to: the same value or failure, the same store and the same output. -/
theorem cond_comesTo_select (clauses : List Clause) (env : FrameId) (s : Store) :
    if clauses.dropLast.any Clause.isElse then
      ∀ depth, ∃ e, perform (depth + 1) (.eval (.cond clauses) env) s = (.error (.error e), s) ∧
        e.kind = .misplacedElse ∧
        e.subject = .list 0 ((clauses.dropWhile (!·.isElse)).map .clause)
    else
      ∀ r s', ComesTo (fun depth => perform depth (.eval (.cond clauses) env)) s r s' ↔
        ComesTo (fun depth => Clause.select (perform depth) env clauses) s r s' := by
  split
  · next helse =>
    intro depth
    refine ⟨.elseNotLast (clauses.dropWhile (!·.isElse)), Action.bind_of_error ?_, rfl, rfl⟩
    rw [Action.ofExcept, Clause.toBranches_misplaced helse]
  · next helse =>
    obtain ⟨e, he⟩ := Clause.toBranches_ordered (Bool.eq_false_iff.mpr helse)
    have hstep : ∀ depth, perform (depth + 1) (.eval (.cond clauses) env) s =
        perform depth (.eval e env) s :=
      fun depth => Action.bind_of_ok (by rw [Action.ofExcept, he])
    refine fun r s' => and_congr_right fun hr => ⟨?_, ?_⟩
    · rintro ⟨_ | depth, h⟩
      · cases h
        exact absurd rfl hr
      · exact ⟨depth, Clause.select_of_toBranches he hr ((hstep depth).symm.trans h)⟩
    · rintro ⟨depth, h⟩
      exact ⟨_, (hstep _).trans (Clause.toBranches_of_select he hr h)⟩

end SmallLisp
