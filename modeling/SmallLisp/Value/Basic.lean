import SmallLisp.Number
import SmallLisp.Primitive
import SmallLisp.Reader.Datum

/-!
Values and expressions. The language has one kind of data for programs and for what they compute:
a form is a value, and an expression is what analysis makes of a form. Expressions hold values
(literals, quoted data), closures hold expressions, and an expression that a host hands over as
data is itself a value.

Lists, procedures, doubles and foreign expressions have an identity, a number that is drawn anew
whenever one of them is made. Lists never change, so a list value carries its items along.
-/

namespace SmallLisp

/-- The number of an environment frame. -/
abbrev FrameId := Nat

mutual

inductive Value where
  /-- The absence of a value. Programs cannot make it, a host can. -/
  | nothing
  | bool (b : Bool)
  | int (n : Int)
  | float (x : Float) (id : Nat)
  | text (s : String)
  | symbol (name : String)
  | list (id : Nat) (items : List Value)
  /-- The result of a definition, an assignment or an output. -/
  | unspecified
  | primitive (op : Primitive) (id : Nat)
  /-- A procedure made by a `lambda`, with the frame that it was made in. -/
  | closure (id : Nat) (params : List Value) (body : List Expr) (env : FrameId)
  /-- The mark that stands for the test of an `else` clause. -/
  | elseMark
  | node (e : Expr)
  | clause (c : Clause)

/-- An expression. Names are symbols wherever analysis made the expression; a host may put any value
in their place. -/
inductive Expr where
  | literal (value : Value)
  | var (name : Value)
  | quote (datum : Value)
  | assign (target : Value) (value : Expr)
  | define (target : Value) (value : Expr)
  | branch (test consequent alternative : Expr)
  | lambda (params : List Value) (body : List Expr)
  | sequence (body : List Expr)
  | cond (clauses : List Clause)
  | apply (operator : Expr) (operands : List Expr)
  /-- An expression of a kind that has no evaluation rule and no parts, only an identity. -/
  | foreign (id : Nat)
  /-- A form that is analyzed when evaluation reaches it. -/
  | raw (form : Value)

/-- A clause of a `cond`. -/
inductive Clause where
  | test (test : Expr) (actions : List Expr)
  | otherwise (actions : List Expr)

end

instance : Inhabited Value := ⟨.nothing⟩

instance : Inhabited Expr := ⟨.foreign 0⟩

instance : Inhabited Clause := ⟨.otherwise []⟩

/-- A value in the place of an expression: an expression is taken as it is, anything else is a form
yet to be analyzed. -/
def Expr.ofValue : Value → Expr
  | .node e => e
  | v => .raw v

/-- An expression as a value. -/
def Expr.toValue : Expr → Value
  | .raw v => v
  | e => .node e

namespace Value

def isSymbol : Value → Bool
  | .symbol _ => true
  | _ => false

/-- Only the boolean `#f` counts as false. -/
def isFalse : Value → Bool
  | .bool false => true
  | _ => false

/-- The number that a value is; booleans are no numbers. -/
def number? : Value → Option Number
  | .int n => some (.int n)
  | .float x _ => some (.float x)
  | _ => none

end Value

mutual

/-- A datum as a value, without identities of its own. -/
def Datum.toValue : Datum → Value
  | .nothing => .nothing
  | .bool b => .bool b
  | .int n => .int n
  | .float x => .float x 0
  | .text s => .text s
  | .symbol name => .symbol name
  | .list items => .list 0 (Datum.toValues items)

def Datum.toValues : List Datum → List Value
  | [] => []
  | d :: ds => d.toValue :: Datum.toValues ds

end

mutual

/-- A datum as a new value: each list and double of it takes the next identity from `next` on.
Returns the first identity not taken. -/
def Datum.label (next : Nat) : Datum → Value × Nat
  | .nothing => (.nothing, next)
  | .bool b => (.bool b, next)
  | .int n => (.int n, next)
  | .float x => (.float x next, next + 1)
  | .text s => (.text s, next)
  | .symbol name => (.symbol name, next)
  | .list items =>
    let (vs, next') := Datum.labels (next + 1) items
    (.list next vs, next')

def Datum.labels (next : Nat) : List Datum → List Value × Nat
  | [] => ([], next)
  | d :: ds =>
    let (v, next') := d.label next
    let (vs, next'') := Datum.labels next' ds
    (v :: vs, next'')

end

end SmallLisp
