import SmallLisp.Error
import SmallLisp.Value.Equality

/-!
The store: environment frames, the supply of identities and the record of what has happened. A frame
binds names in the order of their first binding and may have an outer frame. Frames are numbered as
they are made, so the outer frame of a frame has a smaller number, and frame 0 is the global one.
-/

namespace SmallLisp

structure Frame where
  outer : Option FrameId
  bindings : List (Value × Value)

namespace Frame

/-- The value bound to a name. -/
def get? (f : Frame) (name : Value) : Option Value :=
  (f.bindings.find? fun b => b.1.alike name).map (·.2)

/-- Bind a name in a list of bindings. A name that is bound already keeps its place. -/
def putIn (name value : Value) : List (Value × Value) → List (Value × Value)
  | [] => [(name, value)]
  | b :: bs => if b.1.alike name then (b.1, value) :: bs else b :: putIn name value bs

/-- Bind a name. -/
def put (f : Frame) (name value : Value) : Frame :=
  { f with bindings := putIn name value f.bindings }

/-- A frame that binds parameters to arguments in turn; what is left over on either side is
ignored. -/
def ofArgs (outer : FrameId) (params args : List Value) : Frame :=
  ⟨some outer, (params.zip args).foldl (fun bs b => putIn b.1 b.2 bs) []⟩

end Frame

/-- Something that an observer of a run can see. -/
inductive Event where
  /-- The program wrote a text. -/
  | display (text : String)
  /-- The dialogue asks for a line. -/
  | prompt (text : String)
  /-- The dialogue shows the text of a value. -/
  | answer (text : String)
  /-- The dialogue reports an error. -/
  | report (e : Error)
  /-- The dialogue ends; the flag says whether in the middle of a form. -/
  | ending (incomplete : Bool)
  /-- A form is about to be evaluated. -/
  | evaluating (form : Value)
  /-- A file of definitions is about to be loaded. -/
  | loading (path : String)

structure Store where
  frames : Array Frame
  /-- The next identity. All identities in the store are smaller. -/
  nextId : Nat
  /-- What has happened so far. -/
  events : Array Event

namespace Store

/-- A store with an empty global frame. -/
def empty : Store := ⟨#[⟨none, []⟩], 0, #[]⟩

/-- The number of the global frame. -/
def global : FrameId := 0

/-- Bind a name in a frame. -/
def put (s : Store) (f : FrameId) (name value : Value) : Store :=
  { s with frames := s.frames.modify f (·.put name value) }

/-- The value that a frame itself binds to a name. -/
def get? (s : Store) (f : FrameId) (name : Value) : Option Value :=
  s.frames[f]?.bind (·.get? name)

/-- The nearest frame, from `f` outwards, that binds a name. -/
def find? (s : Store) (f : FrameId) (name : Value) : Option FrameId :=
  match s.frames[f]? with
  | none => none
  | some frame =>
    if (frame.get? name).isSome then some f
    else
      match frame.outer with
      | some g => if g < f then find? s g name else none
      | none => none
termination_by f

/-- The value of a name as seen from a frame. -/
def lookup (s : Store) (f : FrameId) (name : Value) : Except Failure Value :=
  match (s.find? f name).bind (s.get? · name) with
  | some v => .ok v
  | none => .error (Error.unbound name).raise

/-- Define a symbol in a frame. -/
def define (s : Store) (f : FrameId) (name value : Value) : Except Failure Store :=
  if name.isSymbol then .ok (s.put f name value) else .error (Error.undefinable name).raise

/-- Change the nearest binding of a name. -/
def assign (s : Store) (f : FrameId) (name value : Value) : Except Failure Store :=
  match s.find? f name with
  | some g => .ok (s.put g name value)
  | none => .error (Error.unassignable name).raise

/-- Add a frame inside `f` that binds parameters to arguments; the new frame is the last one. -/
def extend (s : Store) (f : FrameId) (params args : List Value) : Store :=
  { s with frames := s.frames.push (.ofArgs f params args) }

/-- Define names in a frame, one after the other up to the first that is no symbol. Returns the
failure, if any, and the store in any case. -/
def defineAll (s : Store) (f : FrameId) : List (Value × Value) → Option Failure × Store
  | [] => (none, s)
  | (name, value) :: rest =>
    match s.define f name value with
    | .ok s' => s'.defineAll f rest
    | .error e => (some e, s)

/-- Define the names of a mapping that is given by its pairs. Of pairs with one name the first gives
the place and the last the value. -/
def update (s : Store) (f : FrameId) (pairs : List (Value × Value)) : Option Failure × Store :=
  s.defineAll f (pairs.foldl (fun bs b => Frame.putIn b.1 b.2 bs) [])

/-- The store of a new interpreter: every primitive under its name, with its position as identity,
and the names of the two booleans. -/
def initial : Store :=
  let primitives := Primitive.all.zipIdx.map fun (op, id) =>
    (Value.symbol op.name, Value.primitive op id)
  let booleans := [(Value.symbol "true", Value.bool true), (Value.symbol "false", Value.bool false)]
  ⟨#[⟨none, primitives ++ booleans⟩], Primitive.all.length, #[]⟩

end Store

end SmallLisp
