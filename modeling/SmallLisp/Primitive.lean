/-!
The primitive procedures and their names, in the order in which they are bound in a new global
frame.
-/

namespace SmallLisp

inductive Primitive where
  | add
  | sub
  | mul
  | div
  | numEq
  | numLt
  | numLe
  | numGt
  | numGe
  | not
  | eq
  | equal
  | isNumber
  | isSymbol
  | isProcedure
  | cons
  | car
  | cdr
  | list
  | isNull
  | isPair
  | apply
  | display
  | newline
deriving DecidableEq

namespace Primitive

def name : Primitive → String
  | add => "+"
  | sub => "-"
  | mul => "*"
  | div => "/"
  | numEq => "="
  | numLt => "<"
  | numLe => "<="
  | numGt => ">"
  | numGe => ">="
  | not => "not"
  | eq => "eq?"
  | equal => "equal?"
  | isNumber => "number?"
  | isSymbol => "symbol?"
  | isProcedure => "procedure?"
  | cons => "cons"
  | car => "car"
  | cdr => "cdr"
  | list => "list"
  | isNull => "null?"
  | isPair => "pair?"
  | apply => "apply"
  | display => "display"
  | newline => "newline"

/-- Every primitive, in the order of binding. -/
def all : List Primitive :=
  [add, sub, mul, div, numEq, numLt, numLe, numGt, numGe, not, eq, equal, isNumber, isSymbol,
    isProcedure, cons, car, cdr, list, isNull, isPair, apply, display, newline]

def ofName? (s : String) : Option Primitive := all.find? (·.name == s)

end Primitive

end SmallLisp
