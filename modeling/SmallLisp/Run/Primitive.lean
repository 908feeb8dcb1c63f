import SmallLisp.Run.Action

/-!
What the primitives do with evaluated arguments.
-/

namespace SmallLisp.Primitive

/-- The number of arguments of a primitive that takes a fixed number of them. -/
def arity : Primitive → Nat
  | eq | equal | cons | apply => 2
  | not | isNumber | isSymbol | isProcedure | car | cdr | isNull | isPair | display => 1
  | _ => 0

/-- All arguments as numbers; the first that is none is blamed. -/
def numbers (op : Primitive) : List Value → Except Failure (List Number)
  | [] => .ok []
  | v :: vs =>
    match v.number? with
    | some n => do return n :: (← numbers op vs)
    | none => .error (Error.notNumber op v).raise

/-- The items of an argument that must be a list. -/
def listItems (op : Primitive) : Value → Except Failure (List Value)
  | .list _ items => .ok items
  | v => .error (Error.notList op v).raise

/-- Combine numbers from left to right, starting with `start`. -/
def foldNumbers (combine : Number → Number → Except RangeError Number) (start : Number)
    (ns : List Number) : Except Failure Number :=
  match ns.foldlM combine start with
  | .ok n => .ok n
  | .error e => .error e.toFailure

/-- The difference of the first number and the others, or the negation of a single one. -/
def difference : List Number → Except Failure Number
  | [] => .ok (.int 0)
  | [n] => .ok n.neg
  | n :: ns => foldNumbers Number.sub n ns

/-- The quotient of the first number by the others, or the reciprocal of a single one. -/
def quotient : List Number → Except Failure Number
  | [] => .ok (.int 1)
  | [n] => foldNumbers Number.div (.int 1) [n]
  | n :: ns => foldNumbers Number.div n ns

/-- Whether a relation holds between each number and the next. -/
def chain (holds : Option Ordering → Bool) : List Number → Bool
  | m :: n :: ns => holds (m.order n) && chain holds (n :: ns)
  | _ => true

/-- A comparison of all arguments, after all of them have been found to be numbers. -/
def compareAll (op : Primitive) (holds : Option Ordering → Bool) (args : List Value) :
    Action Value := do
  let ns ← Action.ofExcept (numbers op args)
  return .bool (chain holds ns)

def isNumberValue (v : Value) : Bool := v.number?.isSome

def isProcedureValue : Value → Bool
  | .primitive .. | .closure .. => true
  | _ => false

/-- Call a primitive. Its `apply` goes through `call`. -/
def run (call : Value → List Value → Action Value) (op : Primitive) (args : List Value) :
    Action Value :=
  match op, args with
  | .add, args => do
    let ns ← Action.ofExcept (numbers .add args)
    Action.newNumber (← Action.ofExcept (foldNumbers Number.add (.int 0) ns))
  | .sub, [] => Action.raise (.noArgument .sub)
  | .sub, args => do
    let ns ← Action.ofExcept (numbers .sub args)
    Action.newNumber (← Action.ofExcept (difference ns))
  | .mul, args => do
    let ns ← Action.ofExcept (numbers .mul args)
    Action.newNumber (← Action.ofExcept (foldNumbers Number.mul (.int 1) ns))
  | .div, [] => Action.raise (.noArgument .div)
  | .div, args => do
    let ns ← Action.ofExcept (numbers .div args)
    Action.newNumber (← Action.ofExcept (quotient ns))
  | .numEq, args => compareAll .numEq (· == some .eq) args
  | .numLt, args => compareAll .numLt (· == some .lt) args
  | .numLe, args => compareAll .numLe (fun o => o == some .lt || o == some .eq) args
  | .numGt, args => compareAll .numGt (· == some .gt) args
  | .numGe, args => compareAll .numGe (fun o => o == some .gt || o == some .eq) args
  | .not, [v] => pure (.bool v.isFalse)
  | .eq, [a, b] => pure (.bool (a.eq b))
  | .equal, [a, b] => pure (.bool (a.equal b))
  | .isNumber, [v] => pure (.bool (isNumberValue v))
  | .isSymbol, [v] => pure (.bool v.isSymbol)
  | .isProcedure, [v] => pure (.bool (isProcedureValue v))
  | .cons, [head, tail] => do
    let items ← Action.ofExcept (listItems .cons tail)
    Action.newList (head :: items)
  | .car, [v] => do
    match ← Action.ofExcept (listItems .car v) with
    | [] => Action.raise (.emptyList .car v)
    | head :: _ => return head
  | .cdr, [v] => do
    match ← Action.ofExcept (listItems .cdr v) with
    | [] => Action.raise (.emptyList .cdr v)
    | _ :: tail => Action.newList tail
  | .list, args => Action.newList args
  | .isNull, [v] => pure (.bool (match v with | .list _ [] => true | _ => false))
  | .isPair, [v] => pure (.bool (match v with | .list _ (_ :: _) => true | _ => false))
  | .apply, [f, v] => do
    let items ← Action.ofExcept (listItems .apply v)
    call f items
  | .display, [v] => do
    let text ← Action.ofExcept v.display?
    Action.emit (.display text)
    return .unspecified
  | .newline, [] => do
    Action.emit (.display "\n")
    return .unspecified
  | op, args => Action.raise (.primitiveArity op op.arity args)

/-! ### Numbers of arguments -/

/-- A number of arguments is the one that the primitive takes, if it takes a fixed number. -/
def Fits (op : Primitive) (count : Nat) : Prop :=
  op.arity ≠ 0 ∨ op = .newline → count = op.arity

variable {op : Primitive} {args : List Value}

/-- A primitive that takes a fixed number of arguments complains about any other number. -/
theorem run_of_not_fits {call : Value → List Value → Action Value} (h : ¬ op.Fits args.length) :
    run call op args = Action.raise (.primitiveArity op op.arity args) := by
  rcases args with _ | ⟨a, _ | ⟨b, _ | ⟨c, rest⟩⟩⟩ <;> cases op <;> simp_all [Fits, arity, run]

theorem Fits.exists_one (h : op.Fits args.length) (hop : op.arity = 1) : ∃ v, args = [v] :=
  List.length_eq_one_iff.mp (hop ▸ h (.inl (by simp [hop])))

theorem Fits.exists_two (h : op.Fits args.length) (hop : op.arity = 2) : ∃ u v, args = [u, v] := by
  have hlen : args.length = 2 := hop ▸ h (.inl (by simp [hop]))
  match args, hlen with
  | [u, v], _ => exact ⟨u, v, rfl⟩

theorem Fits.eq_nil (h : newline.Fits args.length) : args = [] :=
  List.length_eq_zero_iff.mp (h (.inr rfl))

end SmallLisp.Primitive
