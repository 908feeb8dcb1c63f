import SmallLisp.Reader.Stream
import SmallLisp.Value.Print

/-!
Errors. An error is a cause, from which its kind, its message and the value that it is about are
computed. A failure is an error, or a fault that no part of the language can report: it ends the
host's operation.
-/

namespace SmallLisp

/-- The kinds of error; the first six are faults of the program text, the others of its run. -/
inductive ErrorKind where
  | unreadable
  | incompleteInput
  | unknownExpression
  | malformedForm
  | emptyBody
  | misplacedElse
  | unboundVariable
  | notApplicable
  | wrongArity
  | wrongType
  | depthExceeded
deriving DecidableEq

/-- Whether an error of this kind is one of the program text. -/
def ErrorKind.isTextual : ErrorKind → Bool
  | .unreadable | .incompleteInput | .unknownExpression | .malformedForm | .emptyBody
  | .misplacedElse => true
  | _ => false

/-- What is wrong with the shape of a form. -/
inductive ShapeFault where
  | quoteArity
  | assignArity
  | assignTarget (target : Value)
  | defineName
  | defineProcedureName
  | defineTarget (target : Value)
  | defineArity
  | defineBody
  | branchArity
  | lambdaParams
  | lambdaBody
  | paramList (params : Value)
  | param (p : Value)
  | duplicateParam
  | sequenceBody (head : Value)
  | clauseShape (clause : Value)
  | elseNotLast

namespace ShapeFault

def kind : ShapeFault → ErrorKind
  | .defineBody | .lambdaBody | .sequenceBody _ => .emptyBody
  | .elseNotLast => .misplacedElse
  | _ => .malformedForm

def message : ShapeFault → String
  | .quoteArity => "quote expects exactly 1 argument"
  | .assignArity => "set! requires exactly 2 arguments: (set! var value)"
  | .assignTarget target => "set! first argument must be a Symbol, got " ++ target.inspect
  | .defineName => "define requires a name"
  | .defineProcedureName => "define requires a procedure name"
  | .defineTarget target => "Cannot define " ++ target.inspect ++ " as a symbol"
  | .defineArity => "define requires exactly 2 arguments"
  | .defineBody => "define requires at least one body expression"
  | .branchArity => "if requires a condition, a then-expression and an optional else-expression"
  | .lambdaParams => "lambda requires a parameter list"
  | .lambdaBody => "lambda requires at least one body expression"
  | .paramList params => "Parameter list must be a list, got " ++ params.inspect
  | .param p => "Parameter must be a Symbol, got " ++ p.inspect
  | .duplicateParam => "Duplicate parameter in lambda list"
  | .sequenceBody head => head.plain ++ " requires at least one expression"
  | .clauseShape clause => "cond clause must be a non-empty list, got " ++ clause.inspect
  | .elseNotLast => "else clause must be the last clause of cond"

/-- The value that a message shows. -/
def shown? : ShapeFault → Option Value
  | .assignTarget v | .defineTarget v | .paramList v | .param v | .sequenceBody v
  | .clauseShape v => some v
  | _ => none

end ShapeFault

inductive Error where
  | read (e : ReadError)
  /-- A form or an expression that nothing can be made of. -/
  | unknownExpression (form : Value)
  | shape (fault : ShapeFault) (form : Value)
  | emptySequence
  /-- An `else` clause before others, of which `clauses` are the rest from it on. -/
  | elseNotLast (clauses : List Clause)
  /-- A definition of something else than a symbol. -/
  | undefinable (name : Value)
  | unbound (name : Value)
  /-- An assignment to a name that is not bound. -/
  | unassignable (name : Value)
  | notApplicable (value : Value)
  /-- A closure called with the wrong number of arguments. -/
  | closureArity (procedure : Value) (expected : Nat) (args : List Value)
  /-- A primitive called with another number of arguments than it takes. -/
  | primitiveArity (op : Primitive) (expected : Nat) (args : List Value)
  /-- A primitive called with no argument that needs one. -/
  | noArgument (op : Primitive)
  | notNumber (op : Primitive) (value : Value)
  | notList (op : Primitive) (value : Value)
  | emptyList (op : Primitive) (value : Value)
  | divisionByZero
  | depthExceeded (form : Value)

namespace Error

def kind : Error → ErrorKind
  | .read e => if e.isIncomplete then .incompleteInput else .unreadable
  | .unknownExpression _ => .unknownExpression
  | .shape fault _ => fault.kind
  | .emptySequence => .emptyBody
  | .elseNotLast _ => .misplacedElse
  | .undefinable _ => .malformedForm
  | .unbound _ | .unassignable _ => .unboundVariable
  | .notApplicable _ => .notApplicable
  | .closureArity .. | .primitiveArity .. | .noArgument _ => .wrongArity
  | .notNumber .. | .notList .. | .emptyList .. | .divisionByZero => .wrongType
  | .depthExceeded _ => .depthExceeded

def message : Error → String
  | .read e => e.message
  | .unknownExpression form => "Unknown expression type: " ++ form.inspect
  | .shape fault _ => fault.message
  | .emptySequence => "Cannot evaluate an empty sequence"
  | .elseNotLast _ => ShapeFault.elseNotLast.message
  | .undefinable name => (ShapeFault.defineTarget name).message
  | .unbound name => "Unbound variable " ++ name.plain
  | .unassignable name => "Cannot set unbound variable " ++ name.plain
  | .notApplicable value => "Cannot apply non-procedure " ++ value.inspect
  | .closureArity procedure expected args =>
    procedure.plain ++ " expects " ++ Numeral.writeInt expected ++ " argument(s), got " ++
      Numeral.writeInt args.length
  | .primitiveArity op expected _ =>
    op.name ++ " requires exactly " ++ Numeral.writeInt expected ++ " argument(s)"
  | .noArgument op => op.name ++ " requires at least 1 argument"
  | .notNumber op value => "All arguments to " ++ op.name ++ " must be numbers, got " ++ value.write
  | .notList op value => op.name ++ " expects a list, got " ++ value.write
  | .emptyList op _ => op.name ++ " of empty list"
  | .divisionByZero => RangeError.zeroDivisor.message
  | .depthExceeded _ => "Maximum evaluation depth exceeded"

/-- The value that an error is about. -/
def subject : Error → Value
  | .read e => match e.excerpt? with
    | some text => .text text
    | none => .nothing
  | .unknownExpression v | .shape _ v | .undefinable v | .unbound v | .unassignable v
  | .notApplicable v | .closureArity v _ _ | .notNumber _ v | .notList _ v | .emptyList _ v
  | .depthExceeded v => v
  | .emptySequence => .list 0 []
  | .elseNotLast clauses => .list 0 (clauses.map .clause)
  | .primitiveArity op _ _ | .noArgument op => .symbol op.name
  | .divisionByZero => .int 0

/-- The arguments that an error of arity complains about. -/
def args? : Error → Option (List Value)
  | .closureArity _ _ args | .primitiveArity _ _ args => some args
  | .noArgument _ => some []
  | _ => none

/-- The value that a message shows. -/
def shown? : Error → Option Value
  | .unknownExpression v | .undefinable v | .unbound v | .unassignable v | .notApplicable v
  | .closureArity v _ _ | .notNumber _ v | .notList _ v => some v
  | .shape fault _ => fault.shown?
  | _ => none

/-- Whether the error has a message. -/
def fits (e : Error) : Bool :=
  match e.shown? with
  | some v => v.fits
  | none => true

end Error

/-- What ends an operation of the host without being an error of the program. -/
inductive Fault where
  | integerTooLarge
  | quotientTooLarge
  /-- An integer has too many digits for a text. -/
  | numeralTooLong
  /-- The nesting of forms or of evaluations exceeds the limit. -/
  | tooDeep
  /-- A part of an empty list was asked for. -/
  | noElement
  /-- A part of an empty text was asked for. -/
  | noCharacter
  | missingFile
  | unknownLevel (name : String)
  | limitTooLarge

/-- The message of a fault, for those that have one. -/
def Fault.message? : Fault → Option String
  | .integerTooLarge => some RangeError.integerTooLarge.message
  | .quotientTooLarge => some RangeError.quotientTooLarge.message
  | .numeralTooLong =>
    some ("Exceeds the limit (" ++ Numeral.writeInt Numeral.maxDigits ++ " digits) for integer " ++
      "string conversion; use sys.set_int_max_str_digits() to increase the limit")
  | .tooDeep => none
  | .noElement => some "list index out of range"
  | .noCharacter => some "string index out of range"
  | .missingFile => none
  | .unknownLevel name => some ("Unknown level: " ++ Text.inspect name)
  | .limitTooLarge => some "Python int too large to convert to C int"

inductive Failure where
  | error (e : Error)
  | fault (f : Fault)

/-- Raise an error. One whose message would show an integer without a text is a fault instead. -/
def Error.raise (e : Error) : Failure :=
  if e.fits then .error e else .fault .numeralTooLong

def ReadFailure.toFailure : ReadFailure → Failure
  | .error e => .error (.read e)
  | .tooDeep => .fault .tooDeep

def RangeError.toFailure : RangeError → Failure
  | .integerTooLarge => .fault .integerTooLarge
  | .quotientTooLarge => .fault .quotientTooLarge
  | .zeroDivisor => .error .divisionByZero

/-- The written text of a value, if it has one. -/
def Value.write? (v : Value) : Except Failure String :=
  if v.fits then .ok v.write else .error (.fault .numeralTooLong)

/-- The displayed text of a value, if it has one. -/
def Value.display? (v : Value) : Except Failure String :=
  if v.fits then .ok v.display else .error (.fault .numeralTooLong)

end SmallLisp
