import SmallLisp.Proofs.Reachable

/-!
# The history of a run

What values a run comes across, and when, cannot be told from its outcome. `Traced.perform` does
tasks as `perform` does and notes each moment at which a task begins or has ended with a value;
without the notes it is `perform` (`Traced.erase_perform`). A `Session` is what has happened to an
interpreter from its start on: the forms that it has read from texts, one after the other, each with
the moments of its evaluation. Every state that an interpreter reaches ends a session
(`Interpreter.Reachable.session`).
-/

namespace SmallLisp

/-- A moment of a run, with the store at that moment. -/
inductive Moment where
  /-- A form is read. -/
  | read (d : Datum) (s : Store)
  /-- A task begins. -/
  | task (t : Task) (s : Store)
  /-- A task has ended with a value. -/
  | value (v : Value) (s : Store)

/-- An action together with the moments that it goes through. -/
def Traced (α : Type) : Type := Store → (Except Failure α × Store) × List Moment

namespace Traced

variable {α β : Type}

protected def pure (a : α) : Traced α := fun s => ((.ok a, s), [])

protected def bind (m : Traced α) (f : α → Traced β) : Traced β := fun s =>
  match m s with
  | ((.ok a, s'), ms) => ((f a s').1, ms ++ (f a s').2)
  | ((.error e, s'), ms) => ((.error e, s'), ms)

instance : Monad Traced where
  pure := Traced.pure
  bind := Traced.bind

/-- An action of which no moment is noted. -/
def lift (m : Action α) : Traced α := fun s => (m s, [])

def note (moment : Store → Moment) : Traced Unit := fun s => ((.ok (), s), [moment s])

/-- The action without its notes. -/
def erase (m : Traced α) : Action α := fun s => (m s).1

/-! ## Evaluation -/

def evalAll (perform : Task → Traced Value) (env : FrameId) : List Expr → Traced (List Value)
  | [] => pure []
  | e :: es => do
    let v ← perform (.eval e env)
    let vs ← evalAll perform env es
    return v :: vs

def evalBody (perform : Task → Traced Value) (env : FrameId) : List Expr → Traced Value
  | [] => lift (Action.raise .emptySequence)
  | [e] => perform (.eval e env)
  | e :: es => do
    let _ ← perform (.eval e env)
    evalBody perform env es

/-- Evaluate an expression. One that has no parts to evaluate gives rise to no tasks. -/
def evalStep (perform : Task → Traced Value) (env : FrameId) : Expr → Traced Value
  | .assign target value => do
    let v ← perform (.eval value env)
    lift (Action.change (·.assign env target v))
    return .unspecified
  | .define target value => do
    let v ← perform (.eval value env)
    lift (Action.change (·.define env target v))
    return .unspecified
  | .branch test consequent alternative => do
    let v ← perform (.eval test env)
    if v.isFalse then perform (.eval alternative env) else perform (.eval consequent env)
  | .sequence body => evalBody perform env body
  | .cond clauses => do
    let e ← lift (Action.ofExcept (Clause.toBranches clauses))
    perform (.eval e env)
  | .apply operator operands => do
    let procedure ← perform (.eval operator env)
    let args ← evalAll perform env operands
    perform (.call procedure args)
  | .raw form => do
    let e ← lift (Action.ofExcept (analyze form))
    perform (.eval e env)
  | e => lift (SmallLisp.evalStep (fun task => (perform task).erase) env e)

/-- Call a procedure. Of the primitives, only `apply` gives rise to a task. -/
def callStep (perform : Task → Traced Value) (procedure : Value) (args : List Value) :
    Traced Value :=
  match procedure, args with
  | .closure id params body env, args =>
    if args.length = params.length then do
      let frame ← lift (Action.extend env params args)
      evalBody perform frame body
    else lift (Action.raise (.closureArity (.closure id params body env) params.length args))
  | .primitive .apply _, [f, .list _ items] => perform (.call f items)
  | procedure, args => lift (SmallLisp.callStep (fun task => (perform task).erase) procedure args)

def step (perform : Task → Traced Value) : Task → Traced Value
  | .eval e env => evalStep perform env e
  | .call procedure args => callStep perform procedure args

/-- Do a task whose tasks nest at most `depth` deep, and note when they begin and end. -/
def perform : (depth : Nat) → Task → Traced Value
  | 0, task => do
    note (.task task)
    lift (Action.fail (.fault .tooDeep))
  | depth + 1, task => do
    note (.task task)
    let v ← step (perform depth) task
    note (.value v)
    return v

/-- Read a datum as a form. -/
def read (d : Datum) : Traced Value := fun s => (Action.newDatum d s, [.read d s])

/-- Read a datum as a form and evaluate it in the global frame. -/
def evalDatum (limit : Nat) (d : Datum) : Traced Value := do
  let form ← read d
  lift (Action.emit (.evaluating form))
  perform limit (.eval (.ofValue form) Store.global)

/-! ## Erasure -/

@[simp]
theorem erase_pure (a : α) : (pure a : Traced α).erase = pure a := rfl

@[simp]
theorem erase_lift (m : Action α) : (lift m).erase = m := rfl

@[simp]
theorem erase_bind (m : Traced α) (f : α → Traced β) :
    (m >>= f).erase = m.erase >>= fun a => (f a).erase := by
  funext s
  change (Traced.bind m f s).1 = Action.bind m.erase _ s
  unfold Traced.bind Action.bind erase
  rcases m s with ⟨⟨_ | a, s'⟩, ms⟩ <;> rfl

variable {p : Task → Traced Value} {env : FrameId}

theorem erase_evalAll (es : List Expr) :
    (evalAll p env es).erase = SmallLisp.evalAll (fun task => (p task).erase) env es := by
  induction es with
  | nil => rfl
  | cons e es ih => simp only [evalAll, SmallLisp.evalAll, erase_bind, erase_pure, ih]

theorem erase_evalBody (body : List Expr) :
    (evalBody p env body).erase = SmallLisp.evalBody (fun task => (p task).erase) env body := by
  induction body with
  | nil => rfl
  | cons e es ih =>
    cases es with
    | nil => rfl
    | cons => simp only [evalBody, SmallLisp.evalBody, erase_bind, ih]

theorem erase_evalStep (e : Expr) :
    (evalStep p env e).erase = SmallLisp.evalStep (fun task => (p task).erase) env e := by
  cases e with
  | sequence body => exact erase_evalBody body
  | branch => simp only [evalStep, SmallLisp.evalStep, erase_bind, apply_ite erase]
  | _ => simp only [evalStep, SmallLisp.evalStep, erase_bind, erase_pure, erase_lift, erase_evalAll]

theorem erase_callStep (procedure : Value) (args : List Value) :
    (callStep p procedure args).erase =
      SmallLisp.callStep (fun task => (p task).erase) procedure args := by
  unfold callStep
  split
  · rw [SmallLisp.callStep]
    split
    · simp only [erase_bind, erase_lift, erase_evalBody]
    · rfl
  · rfl
  · rfl

theorem erase_step (task : Task) :
    (step p task).erase = SmallLisp.step (fun task => (p task).erase) task := by
  cases task with
  | eval e env => exact erase_evalStep e
  | call procedure args => exact erase_callStep procedure args

/-- Without its notes, doing a task is what it is. -/
theorem erase_perform (depth : Nat) (task : Task) :
    (perform depth task).erase = SmallLisp.perform depth task := by
  induction depth generalizing task with
  | zero => rfl
  | succ depth ih =>
    rw [SmallLisp.perform, ← funext ih, ← erase_step]
    funext s
    change (Traced.bind (step (perform depth) task) _ s).1 = (step (perform depth) task s).1
    unfold Traced.bind
    rcases step (perform depth) task s with ⟨⟨_ | v, s'⟩, ms⟩ <;> rfl

end Traced

/-! ## Sessions -/

/-- What has happened to an interpreter since its start, and the store that it has come to. -/
inductive Session : List Moment → Store → Prop
  | start : Session [] Store.initial
  | record {ms : List Moment} {s : Store} (e : Event) : Session ms s →
    Session ms { s with events := s.events.push e }
  | datum {ms : List Moment} {s : Store} (limit : Nat) {d : Datum} : d.IsRead → Session ms s →
    Session (ms ++ (Traced.evalDatum limit d s).2) (Traced.evalDatum limit d s).1.2

/-- The evaluation of a datum that is read leaves the store behind that the history says. -/
theorem Traced.evalDatum_store (limit : Nat) (d : Datum) (s : Store) :
    (Traced.evalDatum limit d s).1.2 =
      (Interpreter.evalForm limit (d.label s.nextId).1
        { s with nextId := (d.label s.nextId).2 }).2 := by
  rw [Interpreter.evalForm_eq, ← erase_perform]
  split
  · next s' heq => exact (congrArg Prod.snd heq : _ = s')
  · rfl

/-- Every state of an interpreter that is given nothing but texts ends a session. -/
theorem Interpreter.Reachable.session [CharacterNames] {s : Store}
    (h : Reachable (fun _ => False) s) : ∃ ms, Session ms s := by
  refine h.keeps (P := fun s => ∃ ms, Session ms s) ⟨?_, ?_⟩ ⟨[], .start⟩ fun _ _ => False.elim
  · rintro s e ⟨ms, hs⟩
    exact ⟨ms, hs.record e⟩
  · rintro s limit d hd ⟨ms, hs⟩
    rw [← Traced.evalDatum_store]
    exact ⟨_, hs.datum limit hd⟩

/-! ## Values at hand -/

mutual

/-- The value `u` is this value or is somewhere in it: among the items of a list or in the data of
the code of a closure. -/
def Value.IsIn (u : Value) : Value → Prop
  | .list id items => u = .list id items ∨ u.IsInAny items
  | .closure id params body env => u = .closure id params body env ∨ u.IsInBody body
  | v => u = v

def Value.IsInAny (u : Value) : List Value → Prop
  | [] => False
  | v :: vs => u.IsIn v ∨ u.IsInAny vs

/-- The value `u` is somewhere in the literals, quoted data and raw forms of the expression. -/
def Value.IsInExpr (u : Value) : Expr → Prop
  | .literal v | .quote v | .raw v => u.IsIn v
  | .var _ | .foreign _ => False
  | .assign _ value | .define _ value => u.IsInExpr value
  | .branch test consequent alternative =>
    u.IsInExpr test ∨ u.IsInExpr consequent ∨ u.IsInExpr alternative
  | .lambda _ body | .sequence body => u.IsInBody body
  | .cond clauses => u.IsInClauses clauses
  | .apply operator operands => u.IsInExpr operator ∨ u.IsInBody operands

def Value.IsInBody (u : Value) : List Expr → Prop
  | [] => False
  | e :: es => u.IsInExpr e ∨ u.IsInBody es

def Value.IsInClause (u : Value) : Clause → Prop
  | .test test actions => u.IsInExpr test ∨ u.IsInBody actions
  | .otherwise actions => u.IsInBody actions

def Value.IsInClauses (u : Value) : List Clause → Prop
  | [] => False
  | c :: cs => u.IsInClause c ∨ u.IsInClauses cs

end

def Value.IsInTask (u : Value) : Task → Prop
  | .eval e _ => u.IsInExpr e
  | .call procedure args => u.IsIn procedure ∨ u.IsInAny args

/-- The value is in some frame of the store. -/
def Value.IsInStore (u : Value) (s : Store) : Prop :=
  ∃ (f : FrameId) (frame : Frame), s.frames[f]? = some frame ∧ ∃ b ∈ frame.bindings, u.IsIn b.2

/-- The value is there at a moment: in a frame, or in the form, the task or the value that the
moment is about. -/
def Value.IsAt (u : Value) : Moment → Prop
  | .read d s => u.IsIn (d.label s.nextId).1 ∨ u.IsInStore s
  | .task t s => u.IsInTask t ∨ u.IsInStore s
  | .value v s => u.IsIn v ∨ u.IsInStore s

variable {L : Law} {x : Extent} {u : Value}

mutual

/-- A law that holds for a value holds for what is in it. -/
theorem Value.Obeys.of_isIn : ∀ {v : Value}, v.Obeys L x → u.IsIn v → u.Obeys L x
  | .list _ _, h, .inl hu | .closure _ _ _ _, h, .inl hu => hu ▸ h
  | .list _ _, h, .inr hu => Value.AllObey.of_isIn h.2 hu
  | .closure _ _ _ _, h, .inr hu => Expr.AllObey.of_isIn h.2 hu
  | .nothing, h, hu | .bool _, h, hu | .int _, h, hu | .float _ _, h, hu | .text _, h, hu
  | .symbol _, h, hu | .unspecified, h, hu | .primitive _ _, h, hu | .elseMark, h, hu
  | .node _, h, hu | .clause _, h, hu => by cases hu; exact h

theorem Value.AllObey.of_isIn :
    ∀ {vs : List Value}, Value.AllObey L x vs → u.IsInAny vs → u.Obeys L x
  | _ :: _, h, .inl hu => h.1.of_isIn hu
  | _ :: _, h, .inr hu => Value.AllObey.of_isIn h.2 hu

theorem Expr.Obeys.of_isIn : ∀ {e : Expr}, e.Obeys L x → u.IsInExpr e → u.Obeys L x
  | .literal _, h, hu | .quote _, h, hu | .raw _, h, hu => h.2.of_isIn hu
  | .assign _ _, h, hu | .define _ _, h, hu => Expr.Obeys.of_isIn h.2 hu
  | .branch _ _ _, h, .inl hu => Expr.Obeys.of_isIn h.2.1 hu
  | .branch _ _ _, h, .inr (.inl hu) => Expr.Obeys.of_isIn h.2.2.1 hu
  | .branch _ _ _, h, .inr (.inr hu) => Expr.Obeys.of_isIn h.2.2.2 hu
  | .lambda _ _, h, hu | .sequence _, h, hu => Expr.AllObey.of_isIn h.2 hu
  | .cond _, h, hu => Clause.AllObey.of_isIn h.2 hu
  | .apply _ _, h, .inl hu => Expr.Obeys.of_isIn h.2.1 hu
  | .apply _ _, h, .inr hu => Expr.AllObey.of_isIn h.2.2 hu

theorem Expr.AllObey.of_isIn : ∀ {es : List Expr}, Expr.AllObey L x es → u.IsInBody es → u.Obeys L x
  | _ :: _, h, .inl hu => h.1.of_isIn hu
  | _ :: _, h, .inr hu => Expr.AllObey.of_isIn h.2 hu

theorem Clause.Obeys.of_isIn : ∀ {c : Clause}, c.Obeys L x → u.IsInClause c → u.Obeys L x
  | .test _ _, h, .inl hu => h.1.of_isIn hu
  | .test _ _, h, .inr hu => Expr.AllObey.of_isIn h.2 hu
  | .otherwise _, h, hu => Expr.AllObey.of_isIn h hu

theorem Clause.AllObey.of_isIn :
    ∀ {cs : List Clause}, Clause.AllObey L x cs → u.IsInClauses cs → u.Obeys L x
  | _ :: _, h, .inl hu => h.1.of_isIn hu
  | _ :: _, h, .inr hu => Clause.AllObey.of_isIn h.2 hu

end

end SmallLisp
