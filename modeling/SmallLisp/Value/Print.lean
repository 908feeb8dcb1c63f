import SmallLisp.Text.Quoted
import SmallLisp.Value.Basic

/-!
The texts of a value. *Inspecting* a value shows its structure, for messages and logs; its *plain*
text is the inspected one except that symbols, strings and procedures stand for themselves.
*Printing* gives the notation of the language, in which *written* strings are quoted and *displayed*
ones are not.

Integers beyond the size limit of integer texts have no text, and neither has a value that shows
one; `Value.fits` says which values do.
-/

namespace SmallLisp

/-- Items between parentheses, where a comma marks a single item. -/
def tupleText (items : List String) : String :=
  match items with
  | [item] => "(" ++ item ++ ",)"
  | _ => "(" ++ ", ".intercalate items ++ ")"

def Primitive.text (op : Primitive) : String := "#<procedure " ++ op.name ++ ">"

/-- The plain text of a value, given its inspected one. -/
def Value.plainText (inspected : String) : Value → String
  | .text s => s
  | .symbol name => name
  | .primitive op _ => op.text
  | _ => inspected

mutual

/-- The inspected text of a value. -/
def Value.inspect : Value → String
  | .nothing => "None"
  | .bool true => "True"
  | .bool false => "False"
  | .int n => Numeral.writeInt n
  | .float x _ => Numeral.writeFloat x
  | .text s => Text.inspect s
  | .symbol name => "Symbol(" ++ Text.inspect name ++ ")"
  | .list _ items => "[" ++ ", ".intercalate (Value.inspectAll items) ++ "]"
  | .unspecified => "ok"
  | .primitive op _ => "Primitive(" ++ Text.inspect op.name ++ ")"
  | .closure _ params _ _ => "#<lambda (" ++ " ".intercalate (Value.plainAll params) ++ ")>"
  | .elseMark => "ELSE"
  | .node e => e.inspect
  | .clause c => c.inspect

def Value.inspectAll : List Value → List String
  | [] => []
  | v :: vs => v.inspect :: Value.inspectAll vs

/-- The plain texts of some values. -/
def Value.plainAll : List Value → List String
  | [] => []
  | v :: vs => v.plainText v.inspect :: Value.plainAll vs

/-- The inspected text of an expression. -/
def Expr.inspect : Expr → String
  | .literal v => "Literal(value=" ++ v.inspect ++ ")"
  | .var name => "Variable(name=" ++ name.inspect ++ ")"
  | .quote datum => "Quote(datum=" ++ datum.inspect ++ ")"
  | .assign target value =>
    "Assignment(target=" ++ target.inspect ++ ", value=" ++ value.inspect ++ ")"
  | .define target value =>
    "Definition(target=" ++ target.inspect ++ ", value=" ++ value.inspect ++ ")"
  | .branch test consequent alternative =>
    "If(predicate=" ++ test.inspect ++ ", consequent=" ++ consequent.inspect ++
      ", alternative=" ++ alternative.inspect ++ ")"
  | .lambda params body =>
    "LambdaExpr(params=" ++ tupleText (Value.inspectAll params) ++
      ", body=" ++ tupleText (Expr.inspectAll body) ++ ")"
  | .sequence body => "Sequence(body=" ++ tupleText (Expr.inspectAll body) ++ ")"
  | .cond clauses => "Cond(clauses=" ++ tupleText (Clause.inspectAll clauses) ++ ")"
  | .apply operator operands =>
    "Application(operator=" ++ operator.inspect ++
      ", operands=" ++ tupleText (Expr.inspectAll operands) ++ ")"
  | .foreign _ => "Odd()"
  | .raw form => form.inspect

def Expr.inspectAll : List Expr → List String
  | [] => []
  | e :: es => e.inspect :: Expr.inspectAll es

/-- The inspected text of a clause. -/
def Clause.inspect : Clause → String
  | .test test actions =>
    "Clause(predicate=" ++ test.inspect ++ ", actions=" ++ tupleText (Expr.inspectAll actions) ++
      ")"
  | .otherwise actions =>
    "Clause(predicate=ELSE, actions=" ++ tupleText (Expr.inspectAll actions) ++ ")"

def Clause.inspectAll : List Clause → List String
  | [] => []
  | c :: cs => c.inspect :: Clause.inspectAll cs

end

/-- The plain text of a value. -/
def Value.plain (v : Value) : String := v.plainText v.inspect

mutual

/-- The printed text of a value; the flag says whether strings are quoted. -/
def Value.print (quoted : Bool) : Value → String
  | .bool true => "#t"
  | .bool false => "#f"
  | .text s => if quoted then Text.write s else s
  | .list _ items => "(" ++ " ".intercalate (Value.printAll quoted items) ++ ")"
  | .symbol name => name
  | .primitive op _ => op.text
  | v => v.inspect

def Value.printAll (quoted : Bool) : List Value → List String
  | [] => []
  | v :: vs => v.print quoted :: Value.printAll quoted vs

end

/-- The text from which the reader gets a value back. -/
def Value.write (v : Value) : String := v.print true

/-- The text shown to the user of a program. -/
def Value.display (v : Value) : String := v.print false

mutual

/-- Whether no integer that the texts of a value show is too long. -/
def Value.fits : Value → Bool
  | .int n => Numeral.fits n
  | .list _ items => Value.allFit items
  | .closure _ params _ _ => Value.allFit params
  | .node e => e.fits
  | .clause c => c.fits
  | _ => true

def Value.allFit : List Value → Bool
  | [] => true
  | v :: vs => v.fits && Value.allFit vs

def Expr.fits : Expr → Bool
  | .literal v | .var v | .quote v | .raw v => v.fits
  | .assign target value | .define target value => target.fits && value.fits
  | .branch test consequent alternative => test.fits && consequent.fits && alternative.fits
  | .lambda params body => Value.allFit params && Expr.allFit body
  | .sequence body => Expr.allFit body
  | .cond clauses => Clause.allFit clauses
  | .apply operator operands => operator.fits && Expr.allFit operands
  | .foreign _ => true

def Expr.allFit : List Expr → Bool
  | [] => true
  | e :: es => e.fits && Expr.allFit es

def Clause.fits : Clause → Bool
  | .test test actions => test.fits && Expr.allFit actions
  | .otherwise actions => Expr.allFit actions

def Clause.allFit : List Clause → Bool
  | [] => true
  | c :: cs => c.fits && Clause.allFit cs

end

end SmallLisp
