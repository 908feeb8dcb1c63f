import SmallLisp.Error

/-!
The meaning of `cond` is that of nested conditionals:

    (cond (p a) (q b c) (else d))  means  (if p a (if q (begin b c) d))
-/

namespace SmallLisp

/-- The expression that is always `#f`. -/
def Expr.false : Expr := .literal (.bool Bool.false)

/-- The actions of a clause as one expression. -/
def Expr.ofActions : List Expr → Expr
  | [] => .false
  | [e] => e
  | es => .sequence es

/-- Nested conditionals for clauses in written order. An `else` clause ends them and must be the
last; without one, running out of clauses gives `#f`. -/
def Clause.toBranches : List Clause → Except Failure Expr
  | [] => .ok .false
  | [.otherwise actions] => .ok (.ofActions actions)
  | .otherwise actions :: rest => .error (Error.elseNotLast (.otherwise actions :: rest)).raise
  | .test e actions :: rest => do
    return .branch e (.ofActions actions) (← Clause.toBranches rest)

end SmallLisp
