import SmallLisp.Error

/-!
Forms: the categories that analysis tells apart and the parts of each special form. The part of a
form is only handed out when what it belongs to has the right shape. Analysis asks for the parts of
lists only; a host may also ask for those of a text, which is a sequence of characters.
-/

namespace SmallLisp

/-- The category of a form. -/
inductive Category where
  | literal
  | var
  | quote
  | assignment
  | definition
  | branch
  | lambda
  | sequence
  | cond
  | application
deriving DecidableEq

namespace Category

def name : Category → String
  | .literal => "literal"
  | .var => "variable"
  | .quote => "quote"
  | .assignment => "assignment"
  | .definition => "definition"
  | .branch => "if"
  | .lambda => "lambda"
  | .sequence => "sequence"
  | .cond => "cond"
  | .application => "application"

/-- The category of a list form by its first item: the tags are the names of the special forms,
anything else begins an application. -/
def ofHead : Value → Category
  | .symbol "quote" => .quote
  | .symbol "set!" => .assignment
  | .symbol "define" => .definition
  | .symbol "if" => .branch
  | .symbol "lambda" => .lambda
  | .symbol "progn" => .sequence
  | .symbol "begin" => .sequence
  | .symbol "cond" => .cond
  | _ => .application

end Category

/-- The category of a form. -/
def classify : Value → Except Failure Category
  | .bool _ | .int _ | .float .. | .text _ => .ok .literal
  | .symbol _ => .ok .var
  | .list _ (head :: _) => .ok (.ofHead head)
  | form => .error (Error.unknownExpression form).raise

namespace Form

/-- The items of a list form, or the characters of a text, each as a text. -/
def items : Value → List Value
  | .list _ vs => vs
  | .text s => s.toList.map fun c => .text (String.singleton c)
  | _ => []

/-- A form without its first `n` items. -/
def drop (n : Nat) : Value → Value
  | .list _ vs => .list 0 (vs.drop n)
  | .text s => .text (String.ofList (s.toList.drop n))
  | v => v

/-- The fault of asking for an item of a form that has none. -/
def noItem : Value → Failure
  | .text _ => .fault .noCharacter
  | _ => .fault .noElement

/-- Refuse a form for its shape. -/
def refuse {α : Type} (form : Value) (fault : ShapeFault) : Except Failure α :=
  .error (Error.shape fault form).raise

/-- Whether some symbol stands twice in a list. -/
def hasDuplicate : List Value → Bool
  | [] => false
  | v :: vs => vs.any (fun w => match v, w with
      | .symbol s, .symbol t => s == t
      | _, _ => false) || hasDuplicate vs

/-- The parameters in a parameter list, which must be distinct symbols. -/
def params (form list : Value) : Except Failure (List Value) :=
  match list with
  | .list _ ps =>
    match ps.find? (!·.isSymbol) with
    | some p => refuse form (.param p)
    | none => if hasDuplicate ps then refuse form .duplicateParam else .ok ps
  | v => refuse form (.paramList v)

/-! ### Quotation -/

/-- The datum of a `quote` form. -/
def quoteDatum (form : Value) : Except Failure Value :=
  match items form with
  | [_, datum] => .ok datum
  | _ => refuse form .quoteArity

/-! ### Assignment -/

/-- The target and the value of a `set!` form. -/
def assignment (form : Value) : Except Failure (Value × Value) :=
  match items form with
  | [_, target, value] =>
    if target.isSymbol then .ok (target, value) else refuse form (.assignTarget target)
  | _ => refuse form .assignArity

/-! ### Definition -/

/-- The name that a `define` form defines. -/
def defineTarget (form : Value) : Except Failure Value :=
  match items form with
  | _ :: .list _ (name :: _) :: _ =>
    if name.isSymbol then .ok name else refuse form .defineProcedureName
  | _ :: .list _ [] :: _ => refuse form .defineProcedureName
  | _ :: target :: _ => if target.isSymbol then .ok target else refuse form (.defineTarget target)
  | _ => refuse form .defineName

/-- What a `define` form binds its name to. -/
inductive Definiens where
  | value (form : Value)
  /-- A procedure, from the form whose second item lists its name and parameters. -/
  | procedure (params body : List Value)

def definiens (form : Value) : Except Failure Definiens :=
  match items form with
  | _ :: .list _ header :: body => do
    let _ ← defineTarget form
    let ps ← params form (.list 0 (header.drop 1))
    if body.isEmpty then refuse form .defineBody else .ok (.procedure ps body)
  | [_, _, value] => .ok (.value value)
  | _ => refuse form .defineArity

/-- A definiens as a form, where a procedure is a `lambda`. -/
def Definiens.toForm : Definiens → Value
  | .value form => form
  | .procedure params body => .list 0 (.symbol "lambda" :: .list 0 params :: body)

/-! ### Conditional -/

/-- The test, the consequent and, if there is one, the alternative of an `if` form. -/
def branch (form : Value) : Except Failure (Value × Value × Option Value) :=
  match items form with
  | [_, test, consequent] => .ok (test, consequent, none)
  | [_, test, consequent, alternative] => .ok (test, consequent, some alternative)
  | _ => refuse form .branchArity

/-! ### Procedures -/

def lambdaParams (form : Value) : Except Failure (List Value) :=
  match items form with
  | _ :: ps :: _ => params form ps
  | _ => refuse form .lambdaParams

def lambdaBody (form : Value) : Except Failure (List Value) :=
  match items form with
  | _ :: _ :: e :: body => .ok (e :: body)
  | _ => refuse form .lambdaBody

/-! ### Sequences -/

/-- The body of a `begin` or `progn` form. -/
def sequenceBody (form : Value) : Except Failure (List Value) :=
  match items form with
  | [] => .error (noItem form)
  | [head] => refuse form (.sequenceBody head)
  | _ :: body => .ok body

/-! ### Case distinction -/

/-- Whether a form is a list with at least one item. -/
def isNonEmptyList : Value → Bool
  | .list _ (_ :: _) => true
  | _ => false

/-- The clauses of a `cond` form. -/
def condClauses (form : Value) : Except Failure (List Value) :=
  match ((items form).drop 1).find? (!isNonEmptyList ·) with
  | some clause => refuse form (.clauseShape clause)
  | none => .ok ((items form).drop 1)

/-- The test of a clause. -/
def clauseTest (clause : Value) : Except Failure Value :=
  match items clause with
  | [] => .error (noItem clause)
  | test :: _ => .ok test

/-- The actions of a clause. -/
def clauseActions (clause : Value) : List Value := (items clause).drop 1

/-- Whether a clause starts with the symbol `else`. -/
def isElse : Value → Bool
  | .list _ (.symbol "else" :: _) => true
  | _ => false

def isElseClause (clause : Value) : Except Failure Bool := do
  let _ ← clauseTest clause
  return isElse clause

/-- The clauses of a `cond` form, of which only the last may be an `else` clause. -/
def orderedClauses (form : Value) : Except Failure (List Value) := do
  let clauses ← condClauses form
  if clauses.dropLast.any isElse then refuse form .elseNotLast else return clauses

end Form

end SmallLisp
