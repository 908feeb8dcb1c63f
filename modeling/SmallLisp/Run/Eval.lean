import SmallLisp.Form.Analysis
import SmallLisp.Form.Cond
import SmallLisp.Run.Primitive

/-!
Evaluation. There are two kinds of task: to evaluate an expression in a frame, and to call a
procedure with arguments. A task may give rise to further tasks; `step` says what one task does when
it can have others done, and `perform` ties the knot with a bound on how deeply tasks may nest.
-/

namespace SmallLisp

inductive Task where
  | eval (e : Expr) (env : FrameId)
  | call (procedure : Value) (args : List Value)

/-- Evaluate operands from left to right. -/
def evalAll (perform : Task → Action Value) (env : FrameId) : List Expr → Action (List Value)
  | [] => pure []
  | e :: es => do
    let v ← perform (.eval e env)
    let vs ← evalAll perform env es
    return v :: vs

/-- Evaluate the expressions of a body in order; the last one gives the value. -/
def evalBody (perform : Task → Action Value) (env : FrameId) : List Expr → Action Value
  | [] => Action.raise .emptySequence
  | [e] => perform (.eval e env)
  | e :: es => do
    let _ ← perform (.eval e env)
    evalBody perform env es

/-- Evaluate an expression, where `perform` evaluates its parts. -/
def evalStep (perform : Task → Action Value) (env : FrameId) : Expr → Action Value
  | .literal v => pure v
  | .var name => Action.lookup env name
  | .quote datum => pure datum
  | .assign target value => do
    let v ← perform (.eval value env)
    Action.change (·.assign env target v)
    return .unspecified
  | .define target value => do
    let v ← perform (.eval value env)
    Action.change (·.define env target v)
    return .unspecified
  | .branch test consequent alternative => do
    let v ← perform (.eval test env)
    if v.isFalse then perform (.eval alternative env) else perform (.eval consequent env)
  | .lambda params body => do return .closure (← Action.fresh) params body env
  | .sequence body => evalBody perform env body
  | .cond clauses => do
    let e ← Action.ofExcept (Clause.toBranches clauses)
    perform (.eval e env)
  | .apply operator operands => do
    let procedure ← perform (.eval operator env)
    let args ← evalAll perform env operands
    perform (.call procedure args)
  | .foreign id => Action.raise (.unknownExpression (.node (.foreign id)))
  | .raw form => do
    let e ← Action.ofExcept (analyze form)
    perform (.eval e env)

/-- Call a procedure, where `perform` evaluates its body. The body of a closure runs in a new frame
inside the one that the closure was made in. -/
def callStep (perform : Task → Action Value) (procedure : Value) (args : List Value) :
    Action Value :=
  match procedure with
  | .closure _ params body env =>
    if args.length = params.length then do
      let frame ← Action.extend env params args
      evalBody perform frame body
    else Action.raise (.closureArity procedure params.length args)
  | .primitive op _ => op.run (fun p vs => perform (.call p vs)) args
  | v => Action.raise (.notApplicable v)

/-- Do one task, where `perform` does the tasks that it gives rise to. -/
def step (perform : Task → Action Value) : Task → Action Value
  | .eval e env => evalStep perform env e
  | .call procedure args => callStep perform procedure args

/-- Do a task whose tasks nest at most `depth` deep. -/
def perform : (depth : Nat) → Task → Action Value
  | 0, _ => Action.fail (.fault .tooDeep)
  | depth + 1, task => step (perform depth) task

end SmallLisp
