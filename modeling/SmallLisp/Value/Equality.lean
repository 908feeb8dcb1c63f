import SmallLisp.Value.Basic

/-!
The two equalities of the language. `eq?` compares lists and procedures by identity and everything
else by content, within one kind. `equal?` compares lists item by item and numbers across kinds; a
double is always equal to itself, also when it is not a number.

Expressions that a host has put into the data compare part by part, and by identity where they have
no parts to compare. Inside them a boolean counts as the number zero or one.
-/

namespace SmallLisp

namespace Value

/-- The number that a value is when booleans count as numbers. -/
def numeric? : Value → Option Number
  | .bool b => some (.int (if b then 1 else 0))
  | .int n => some (.int n)
  | .float x _ => some (.float x)
  | _ => none

/-- Whether two values that hold no parts are alike. -/
def alikeAtom (a b : Value) : Bool :=
  match a, b with
  | .float x i, .float y j => i == j || x == y
  | .text s, .text t => s == t
  | .symbol s, .symbol t => s == t
  | .primitive _ i, .primitive _ j => i == j
  | .closure i .., .closure j .. => i == j
  | .nothing, .nothing | .unspecified, .unspecified | .elseMark, .elseMark => true
  | a, b =>
    match a.numeric?, b.numeric? with
    | some m, some n => m.same n
    | _, _ => false

end Value

mutual

/-- Whether two values agree in every part. -/
def Value.alike : Value → Value → Bool
  | .list i xs, .list j ys => i == j || Value.alikeAll xs ys
  | .node e, .node f => e.alike f
  | .clause c, .clause d => c.alike d
  | a, b => a.alikeAtom b

def Value.alikeAll : List Value → List Value → Bool
  | [], [] => true
  | x :: xs, y :: ys => x.alike y && Value.alikeAll xs ys
  | _, _ => false

/-- Whether two expressions agree in every part. -/
def Expr.alike : Expr → Expr → Bool
  | .literal v, .literal w | .var v, .var w | .quote v, .quote w | .raw v, .raw w => v.alike w
  | .assign t e, .assign u f | .define t e, .define u f => t.alike u && e.alike f
  | .branch p c a, .branch q d b => p.alike q && c.alike d && a.alike b
  | .lambda ps body, .lambda qs body' => Value.alikeAll ps qs && Expr.alikeAll body body'
  | .sequence body, .sequence body' => Expr.alikeAll body body'
  | .cond cs, .cond ds => Clause.alikeAll cs ds
  | .apply f args, .apply g args' => f.alike g && Expr.alikeAll args args'
  | .foreign i, .foreign j => i == j
  | _, _ => false

def Expr.alikeAll : List Expr → List Expr → Bool
  | [], [] => true
  | e :: es, f :: fs => e.alike f && Expr.alikeAll es fs
  | _, _ => false

def Clause.alike : Clause → Clause → Bool
  | .test t as, .test u bs => t.alike u && Expr.alikeAll as bs
  | .otherwise as, .otherwise bs => Expr.alikeAll as bs
  | _, _ => false

def Clause.alikeAll : List Clause → List Clause → Bool
  | [], [] => true
  | c :: cs, d :: ds => c.alike d && Clause.alikeAll cs ds
  | _, _ => false

end

namespace Value

/-- The predicate `eq?`. -/
def eq : Value → Value → Bool
  | .bool b, .bool c => b == c
  | .int m, .int n => m == n
  | .float x _, .float y _ => x == y
  | .text s, .text t => s == t
  | .symbol s, .symbol t => s == t
  | .list i _, .list j _ => i == j
  | .primitive _ i, .primitive _ j => i == j
  | .closure i .., .closure j .. => i == j
  | .nothing, .nothing | .unspecified, .unspecified | .elseMark, .elseMark => true
  | .node e, .node f => e.alike f
  | .clause c, .clause d => c.alike d
  | _, _ => false

/-- Whether two values without items are `equal?`. -/
def equalAtom (a b : Value) : Bool :=
  match a, b with
  | .float x i, .float y j => i == j || x == y
  | a, b =>
    match a.number?, b.number? with
    | some m, some n => m.same n
    | _, _ => a.eq b

end Value

mutual

/-- The predicate `equal?`. -/
def Value.equal : Value → Value → Bool
  | .list i xs, .list j ys => i == j || Value.equalAll xs ys
  | a, b => a.equalAtom b

def Value.equalAll : List Value → List Value → Bool
  | [], [] => true
  | x :: xs, y :: ys => x.equal y && Value.equalAll xs ys
  | _, _ => false

end

end SmallLisp
