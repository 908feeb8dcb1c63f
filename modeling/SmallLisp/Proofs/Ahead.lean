import SmallLisp.Proofs.Cond
import SmallLisp.Proofs.Matching

/-!
# Analysis on demand and ahead

An expression may hold raw forms where other expressions stand, and evaluation analyzes such a form
when it gets there, each time anew. `Expr.ahead` puts the analyses in the places of the forms
beforehand. The two expressions are related part by part (`Expr.Ahead`), a relation that evaluation
keeps between two runs: frames and values differ in the code of closures only.

Analysis on demand takes a level of depth that analysis ahead does not. The runs are therefore
compared in an evaluator that analyzes a form without going deeper (`performAnalyzed`), which comes
to the same as `perform` (`comesTo_performAnalyzed_iff`).
-/

namespace SmallLisp

/-! ## Code -/

mutual

/-- The expression with the analyses of the raw forms in it in their places. -/
def Expr.ahead : Expr → Except Failure Expr
  | .literal v => .ok (.literal v)
  | .var name => .ok (.var name)
  | .quote datum => .ok (.quote datum)
  | .assign target value => do return .assign target (← value.ahead)
  | .define target value => do return .define target (← value.ahead)
  | .branch test consequent alternative => do
    return .branch (← test.ahead) (← consequent.ahead) (← alternative.ahead)
  | .lambda params body => do return .lambda params (← Expr.allAhead body)
  | .sequence body => do return .sequence (← Expr.allAhead body)
  | .cond clauses => do return .cond (← Clause.allAhead clauses)
  | .apply operator operands => do
    return .apply (← operator.ahead) (← Expr.allAhead operands)
  | .foreign id => .ok (.foreign id)
  | .raw form => analyze form

def Expr.allAhead : List Expr → Except Failure (List Expr)
  | [] => .ok []
  | e :: es => do return (← e.ahead) :: (← Expr.allAhead es)

def Clause.ahead : Clause → Except Failure Clause
  | .test test actions => do return .test (← test.ahead) (← Expr.allAhead actions)
  | .otherwise actions => do return .otherwise (← Expr.allAhead actions)

def Clause.allAhead : List Clause → Except Failure (List Clause)
  | [] => .ok []
  | c :: cs => do return (← c.ahead) :: (← Clause.allAhead cs)

end

mutual

/-- The second expression is the first one with the analyses of some raw forms in their places. -/
inductive Expr.Ahead : Expr → Expr → Prop
  | literal (v : Value) : Expr.Ahead (.literal v) (.literal v)
  | var (name : Value) : Expr.Ahead (.var name) (.var name)
  | quote (datum : Value) : Expr.Ahead (.quote datum) (.quote datum)
  | assign {e e' : Expr} (target : Value) : e.Ahead e' →
    Expr.Ahead (.assign target e) (.assign target e')
  | define {e e' : Expr} (target : Value) : e.Ahead e' →
    Expr.Ahead (.define target e) (.define target e')
  | branch {e₁ e₂ e₃ e₁' e₂' e₃' : Expr} : e₁.Ahead e₁' → e₂.Ahead e₂' → e₃.Ahead e₃' →
    Expr.Ahead (.branch e₁ e₂ e₃) (.branch e₁' e₂' e₃')
  | lambda {body body' : List Expr} (params : List Value) : List.Forall₂ Expr.Ahead body body' →
    Expr.Ahead (.lambda params body) (.lambda params body')
  | sequence {body body' : List Expr} : List.Forall₂ Expr.Ahead body body' →
    Expr.Ahead (.sequence body) (.sequence body')
  | cond {clauses clauses' : List Clause} : List.Forall₂ Clause.Ahead clauses clauses' →
    Expr.Ahead (.cond clauses) (.cond clauses')
  | apply {e e' : Expr} {es es' : List Expr} : e.Ahead e' → List.Forall₂ Expr.Ahead es es' →
    Expr.Ahead (.apply e es) (.apply e' es')
  | «foreign» (id : Nat) : Expr.Ahead (.foreign id) (.foreign id)
  | raw (form : Value) : Expr.Ahead (.raw form) (.raw form)
  | analysis {form : Value} {e : Expr} : analyze form = .ok e → Expr.Ahead (.raw form) e

inductive Clause.Ahead : Clause → Clause → Prop
  | test {e e' : Expr} {es es' : List Expr} : e.Ahead e' → List.Forall₂ Expr.Ahead es es' →
    Clause.Ahead (.test e es) (.test e' es')
  | otherwise {es es' : List Expr} : List.Forall₂ Expr.Ahead es es' →
    Clause.Ahead (.otherwise es) (.otherwise es')

end

mutual

theorem Expr.Ahead.refl : ∀ e : Expr, e.Ahead e
  | .literal v => .literal v
  | .var name => .var name
  | .quote datum => .quote datum
  | .assign target value => .assign target (.refl value)
  | .define target value => .define target (.refl value)
  | .branch test consequent alternative =>
    .branch (.refl test) (.refl consequent) (.refl alternative)
  | .lambda params body => .lambda params (Expr.Ahead.refl_all body)
  | .sequence body => .sequence (Expr.Ahead.refl_all body)
  | .cond clauses => .cond (Clause.Ahead.refl_all clauses)
  | .apply operator operands => .apply (.refl operator) (Expr.Ahead.refl_all operands)
  | .foreign id => .foreign id
  | .raw form => .raw form

theorem Expr.Ahead.refl_all : ∀ es : List Expr, List.Forall₂ Expr.Ahead es es
  | [] => .nil
  | e :: es => .cons (.refl e) (Expr.Ahead.refl_all es)

theorem Clause.Ahead.refl : ∀ c : Clause, c.Ahead c
  | .test test actions => .test (.refl test) (Expr.Ahead.refl_all actions)
  | .otherwise actions => .otherwise (Expr.Ahead.refl_all actions)

theorem Clause.Ahead.refl_all : ∀ cs : List Clause, List.Forall₂ Clause.Ahead cs cs
  | [] => .nil
  | c :: cs => .cons (.refl c) (Clause.Ahead.refl_all cs)

end

mutual

theorem Expr.Ahead.of_ahead : ∀ {e e' : Expr}, e.ahead = .ok e' → e.Ahead e'
  | .literal _, _, rfl | .var _, _, rfl | .quote _, _, rfl | .foreign _, _, rfl => .refl _
  | .assign target value, _, h | .define target value, _, h => by
    obtain ⟨value', hvalue, h⟩ := Except.of_bind_eq_ok h
    cases h
    constructor
    exact .of_ahead hvalue
  | .branch test consequent alternative, _, h => by
    obtain ⟨test', htest, h⟩ := Except.of_bind_eq_ok h
    obtain ⟨consequent', hconsequent, h⟩ := Except.of_bind_eq_ok h
    obtain ⟨alternative', halternative, h⟩ := Except.of_bind_eq_ok h
    cases h
    exact .branch (.of_ahead htest) (.of_ahead hconsequent) (.of_ahead halternative)
  | .lambda params body, _, h | .sequence body, _, h => by
    obtain ⟨body', hbody, h⟩ := Except.of_bind_eq_ok h
    cases h
    constructor
    exact Expr.Ahead.of_allAhead hbody
  | .cond clauses, _, h => by
    obtain ⟨clauses', hclauses, h⟩ := Except.of_bind_eq_ok h
    cases h
    exact .cond (Clause.Ahead.of_allAhead hclauses)
  | .apply operator operands, _, h => by
    obtain ⟨operator', hoperator, h⟩ := Except.of_bind_eq_ok h
    obtain ⟨operands', hoperands, h⟩ := Except.of_bind_eq_ok h
    cases h
    exact .apply (.of_ahead hoperator) (Expr.Ahead.of_allAhead hoperands)
  | .raw _, _, h => .analysis h

theorem Expr.Ahead.of_allAhead : ∀ {es es' : List Expr}, Expr.allAhead es = .ok es' →
    List.Forall₂ Expr.Ahead es es'
  | [], _, rfl => .nil
  | e :: es, _, h => by
    obtain ⟨e', he, h⟩ := Except.of_bind_eq_ok h
    obtain ⟨es', hes, h⟩ := Except.of_bind_eq_ok h
    cases h
    exact .cons (.of_ahead he) (Expr.Ahead.of_allAhead hes)

theorem Clause.Ahead.of_ahead : ∀ {c c' : Clause}, c.ahead = .ok c' → c.Ahead c'
  | .test test actions, _, h => by
    obtain ⟨test', htest, h⟩ := Except.of_bind_eq_ok h
    obtain ⟨actions', hactions, h⟩ := Except.of_bind_eq_ok h
    cases h
    exact .test (.of_ahead htest) (Expr.Ahead.of_allAhead hactions)
  | .otherwise actions, _, h => by
    obtain ⟨actions', hactions, h⟩ := Except.of_bind_eq_ok h
    cases h
    exact .otherwise (Expr.Ahead.of_allAhead hactions)

theorem Clause.Ahead.of_allAhead : ∀ {cs cs' : List Clause}, Clause.allAhead cs = .ok cs' →
    List.Forall₂ Clause.Ahead cs cs'
  | [], _, rfl => .nil
  | c :: cs, _, h => by
    obtain ⟨c', hc, h⟩ := Except.of_bind_eq_ok h
    obtain ⟨cs', hcs, h⟩ := Except.of_bind_eq_ok h
    cases h
    exact .cons (.of_ahead hc) (Clause.Ahead.of_allAhead hcs)

end

/-! ## Failures and stores -/

/-- Errors of one kind with one message, or the same fault. -/
inductive Failure.Same : Failure → Failure → Prop
  | error {e e' : Error} : e'.kind = e.kind → e'.message = e.message → Same (.error e) (.error e')
  | fault (f : Fault) : Same (.fault f) (.fault f)

theorem Failure.Same.refl : ∀ f : Failure, f.Same f
  | .error _ => .error rfl rfl
  | .fault f => .fault f

theorem Error.raise_same {e e' : Error} (hkind : e'.kind = e.kind)
    (hmessage : e'.message = e.message) (hfits : e'.fits = e.fits) : e.raise.Same e'.raise := by
  rw [Error.raise, Error.raise, hfits]
  split
  · exact .error hkind hmessage
  · exact .fault _

/-- Closures that differ in raw forms and their analyses only. -/
structure Closure.Ahead (c c' : Closure) : Prop where
  params : c'.params = c.params
  body : List.Forall₂ Expr.Ahead c.body c'.body
  env : c'.env = c.env

/-- Values that differ in the code of closures only, and there in raw forms and their analyses. -/
abbrev Value.Ahead : Value → Value → Prop := Value.Matches Closure.Ahead

structure Binding.Ahead (b b' : Value × Value) : Prop where
  name : b'.1 = b.1
  value : b.2.Ahead b'.2

structure Frame.Ahead (a b : Frame) : Prop where
  outer : b.outer = a.outer
  bindings : List.Forall₂ Binding.Ahead a.bindings b.bindings

/-- Stores that differ in the code of closures only. -/
structure Store.Ahead (s t : Store) : Prop where
  size : t.frames.size = s.frames.size
  frame : ∀ f : FrameId, Option.Rel Frame.Ahead s.frames[f]? t.frames[f]?
  nextId : t.nextId = s.nextId
  events : t.events = s.events

mutual

theorem Value.Ahead.refl : ∀ v : Value, v.Ahead v
  | .list _ items => ⟨items, rfl, Value.Ahead.refl_all items⟩
  | .closure _ params body env => ⟨⟨params, body, env⟩, rfl, rfl, Expr.Ahead.refl_all body, rfl⟩
  | .nothing | .bool _ | .int _ | .float _ _ | .text _ | .symbol _ | .unspecified
  | .primitive _ _ | .elseMark | .node _ | .clause _ => rfl

theorem Value.Ahead.refl_all : ∀ vs : List Value, Value.AllMatch Closure.Ahead vs vs
  | [] => rfl
  | v :: vs => ⟨v, vs, rfl, Value.Ahead.refl v, Value.Ahead.refl_all vs⟩

end

variable {a b : Frame} {s t : Store} {v v' name : Value} {f : FrameId} {args args' : List Value}

theorem Frame.Ahead.refl (a : Frame) : a.Ahead a :=
  ⟨rfl, List.forall₂_same.mpr fun c _ => ⟨rfl, Value.Ahead.refl c.2⟩⟩

theorem Binding.Ahead.alike_eq {b b' : Value × Value} (h : Binding.Ahead b b') :
    b'.1.alike name = b.1.alike name := by
  rw [h.name]

theorem Frame.Ahead.get?_rel (h : a.Ahead b) (name : Value) :
    Option.Rel Value.Ahead (a.get? name) (b.get? name) :=
  bindings_find?_rel Binding.Ahead.alike_eq Binding.Ahead.value h.bindings

theorem Binding.Ahead.putIn {bs bs' : List (Value × Value)} (h : List.Forall₂ Binding.Ahead bs bs')
    (hv : v.Ahead v') :
    List.Forall₂ Binding.Ahead (Frame.putIn name v bs) (Frame.putIn name v' bs') :=
  bindings_putIn Binding.Ahead.alike_eq ⟨rfl, hv⟩ (fun hb => ⟨hb.name, hv⟩) h

theorem Frame.Ahead.put (h : a.Ahead b) (hv : v.Ahead v') :
    (a.put name v).Ahead (b.put name v') :=
  ⟨h.outer, Binding.Ahead.putIn h.bindings hv⟩

theorem Binding.Ahead.zip (params : List Value) (h : Value.AllMatch Closure.Ahead args args') :
    List.Forall₂ Binding.Ahead (params.zip args) (params.zip args') := by
  induction params generalizing args args' with
  | nil => exact .nil
  | cons p params ih =>
    cases args with
    | nil => cases h; exact .nil
    | cons arg args =>
      obtain ⟨arg', args', rfl, harg, hargs⟩ := h
      exact .cons ⟨rfl, harg⟩ (ih hargs)

theorem Frame.Ahead.ofArgs (params : List Value) (h : Value.AllMatch Closure.Ahead args args') :
    (Frame.ofArgs f params args).Ahead (.ofArgs f params args') := by
  have hfold : ∀ {pairs pairs' : List (Value × Value)}, List.Forall₂ Binding.Ahead pairs pairs' →
      ∀ {bs bs' : List (Value × Value)}, List.Forall₂ Binding.Ahead bs bs' →
      List.Forall₂ Binding.Ahead (pairs.foldl (fun bs b => Frame.putIn b.1 b.2 bs) bs)
        (pairs'.foldl (fun bs b => Frame.putIn b.1 b.2 bs) bs') := by
    intro pairs pairs' hpairs
    induction hpairs with
    | nil => exact id
    | cons hp _ ih =>
      intro bs bs' hbs
      rw [List.foldl_cons, List.foldl_cons, hp.name]
      exact ih (Binding.Ahead.putIn hbs hp.value)
  exact ⟨rfl, hfold (Binding.Ahead.zip params h) .nil⟩

namespace Store.Ahead

protected theorem refl (s : Store) : s.Ahead s := by
  refine ⟨rfl, fun f => ?_, rfl, rfl⟩
  cases s.frames[f]? with
  | none => exact .none
  | some a => exact .some (.refl a)

theorem get?_rel (h : s.Ahead t) (f : FrameId) (name : Value) :
    Option.Rel Value.Ahead (s.get? f name) (t.get? f name) := by
  have hframe := h.frame f
  rw [Store.get?, Store.get?]
  generalize s.frames[f]? = x at hframe
  generalize t.frames[f]? = y at hframe
  cases hframe with
  | none => exact .none
  | some hab => exact hab.get?_rel name

theorem find?_eq (h : s.Ahead t) : t.find? f name = s.find? f name := by
  induction f using Nat.strongRecOn with
  | ind f ih =>
    have hframe := h.frame f
    rw [Store.find?, Store.find?]
    generalize s.frames[f]? = x at hframe
    generalize t.frames[f]? = y at hframe
    cases hframe with
    | none => rfl
    | @some a b hab =>
      have hget := hab.get?_rel name
      dsimp only
      rw [hab.outer]
      generalize a.get? name = u at hget
      generalize b.get? name = w at hget
      cases hget with
      | some => rfl
      | none =>
        cases a.outer with
        | none => rfl
        | some g =>
          simp only [Option.isSome_none, Bool.false_eq_true, if_false]
          split
          · next hlt => exact ih g hlt
          · rfl

theorem lookup_match (h : s.Ahead t) :
    ResultsMatch Failure.Same Value.Ahead (s.lookup f name) (t.lookup f name) := by
  rw [Store.lookup, Store.lookup, h.find?_eq]
  cases s.find? f name with
  | none => exact .error (.refl _)
  | some g =>
    have hget := h.get?_rel g name
    dsimp only [Option.bind_some]
    generalize s.get? g name = x at hget
    generalize t.get? g name = y at hget
    cases hget with
    | none => exact .error (.refl _)
    | some hv => exact .ok hv

theorem put (h : s.Ahead t) (hv : v.Ahead v') : (s.put f name v).Ahead (t.put f name v') where
  size := by simp [Store.put, h.size]
  frame g := by
    have hframe := h.frame g
    simp only [Store.put, Array.getElem?_modify]
    split
    · generalize s.frames[g]? = x at hframe
      generalize t.frames[g]? = y at hframe
      cases hframe with
      | none => exact .none
      | some hab => exact .some (hab.put hv)
    · exact hframe
  nextId := h.nextId
  events := h.events

theorem extend (h : s.Ahead t) (params : List Value)
    (hargs : Value.AllMatch Closure.Ahead args args') :
    (s.extend f params args).Ahead (t.extend f params args') where
  size := by simp [Store.extend, h.size]
  frame g := by
    simp only [Store.extend, Array.getElem?_push, h.size]
    split
    · exact .some (.ofArgs params hargs)
    · exact h.frame g
  nextId := h.nextId
  events := h.events

end Store.Ahead

/-- Two runs that differ in which raw forms have been analyzed. -/
def aheadLink : Link Unit where
  le _ _ := True
  closure _ := Closure.Ahead
  store _ := Store.Ahead
  failure := Failure.Same
  le_refl _ := trivial
  le_trans _ _ := trivial
  closure_mono _ h := h
  failure_refl := .refl
  raise h := Error.raise_same h.kind_eq (h.message_eq Closure.Ahead.params)
    (h.fits_eq fun hc => by rw [hc.params])
  fits hc := by rw [hc.params]
  fresh h := ⟨h.nextId, h.size, h.frame, congrArg (· + 1) h.nextId, h.events⟩
  display h hv := by
    refine ⟨h.size, h.frame, h.nextId, ?_⟩
    rw [h.events, Value.display, Value.display, hv.print_eq Closure.Ahead.params]

/-! ## Depth -/

/-- The task, with the analysis of a raw form in its place if there is one. -/
def Task.analyzed : Task → Task
  | .eval (.raw form) env =>
    match analyze form with
    | .ok e => .eval e env
    | .error _ => .eval (.raw form) env
  | task => task

/-- Do a task whose tasks nest at most `depth` deep, the analysis of raw forms not counted. -/
def performAnalyzed : (depth : Nat) → Task → Action Value
  | 0, _ => Action.fail (.fault .tooDeep)
  | depth + 1, task => step (performAnalyzed depth) task.analyzed

theorem Task.analyzed_cases (task : Task) :
    task.analyzed = task ∨ ∃ form env e, task = .eval (.raw form) env ∧ analyze form = .ok e ∧
      task.analyzed = .eval e env := by
  fun_cases Task.analyzed task with
  | case1 form env e h => exact .inr ⟨form, env, e, rfl, h, rfl⟩
  | case2 => exact .inl rfl
  | case3 => exact .inl rfl

theorem step_raw {p : Task → Action Value} {form : Value} {e : Expr} (env : FrameId)
    (h : analyze form = .ok e) : step p (.eval (.raw form) env) = p (.eval e env) := by
  funext s
  rw [step, evalStep, h]
  rfl

theorem Similar.tooDeep {x : Extent} {m : Action Value} {Q : Extent → Value → Prop} :
    Similar .free (fun _ => True) .depth x (Action.fail (.fault .tooDeep)) m Q :=
  fun _ _ _ _ _ => ⟨.fail trivial, .inl ⟨trivial, rfl⟩⟩

/-- A run with analysis on demand, as far as its depth suffices. -/
theorem perform_together_analyzed {depth depth' : Nat} (h : depth ≤ depth') :
    Together .free (fun _ => True) .depth (perform depth) (performAnalyzed depth') := by
  induction depth using Nat.strongRecOn generalizing depth' with
  | ind depth ih =>
    cases depth with
    | zero => exact fun _ _ _ => .tooDeep
    | succ depth =>
      obtain ⟨depth', rfl⟩ : ∃ n, depth' = n + 1 := ⟨depth' - 1, by omega⟩
      have hle : depth ≤ depth' := Nat.le_of_succ_le_succ h
      intro task
      rw [perform, performAnalyzed]
      rcases task.analyzed_cases with heq | ⟨form, env, e, rfl, he, heq⟩
      · rw [heq]
        exact step_similar Law.free_admissible (ih depth (Nat.lt_succ_self _) hle) task
      · -- The first run is a level deeper where it evaluates the analysis.
        rw [heq, step_raw env he]
        cases depth with
        | zero => exact fun _ => .tooDeep
        | succ depth =>
          intro y _
          exact step_similar Law.free_admissible (ih depth (by omega) (by omega)) (.eval e env)
            (Task.obeys_free _)

/-- A run that does not count the analysis of raw forms, at twice its depth. -/
theorem analyzed_together_perform {depth depth' : Nat} (h : 2 * depth ≤ depth') :
    Together .free (fun _ => True) .depth (performAnalyzed depth) (perform depth') := by
  induction depth generalizing depth' with
  | zero => exact fun _ _ _ => .tooDeep
  | succ depth ih =>
    obtain ⟨depth', rfl⟩ : ∃ n, depth' = n + 2 := ⟨depth' - 2, by omega⟩
    intro task
    rw [perform, performAnalyzed]
    rcases task.analyzed_cases with heq | ⟨form, env, e, rfl, he, heq⟩
    · rw [heq]
      exact step_similar Law.free_admissible (ih (by omega)) task
    · rw [heq, step_raw env he]
      intro y _
      exact step_similar Law.free_admissible (ih (by omega)) (.eval e env) (Task.obeys_free _)

theorem Together.eq_of_ne {p q : Task → Action Value} {task : Task} {r : Except Failure Value}
    {s' : Store} (hpq : Together .free (fun _ => True) .depth p q)
    (h : p task s = (r, s')) (hr : r ≠ .error (.fault .tooDeep)) : q task s = (r, s') := by
  have hagree := (hpq task task.obeys_free s s rfl s.obeys_free (.of_frames rfl rfl rfl)).2
  rw [h] at hagree
  exact hagree.eq_of_ne hr

/-- When tasks may nest as deep as they need, it makes no difference whether analysis counts. -/
theorem comesTo_performAnalyzed_iff {task : Task} {r : Except Failure Value} {s' : Store} :
    ComesTo (fun depth => performAnalyzed depth task) s r s' ↔
      ComesTo (fun depth => perform depth task) s r s' := by
  constructor
  · rintro ⟨hr, depth, h⟩
    exact ⟨hr, 2 * depth, (analyzed_together_perform (Nat.le_refl _)).eq_of_ne h hr⟩
  · rintro ⟨hr, depth, h⟩
    exact ⟨hr, depth, (perform_together_analyzed (Nat.le_refl _)).eq_of_ne h hr⟩

/-! ## Runs -/

theorem Expr.Ahead.ofActions {es es' : List Expr} (h : List.Forall₂ Expr.Ahead es es') :
    (Expr.ofActions es).Ahead (.ofActions es') := by
  cases h with
  | nil => exact .refl _
  | cons he hes =>
    cases hes with
    | nil => exact he
    | cons he' hes => exact .sequence (.cons he (.cons he' hes))

/-- The conditionals that a `cond` stands for. -/
theorem Clause.Ahead.toBranches {cs cs' : List Clause} (h : List.Forall₂ Clause.Ahead cs cs') :
    ResultsMatch Failure.Same Expr.Ahead (Clause.toBranches cs) (Clause.toBranches cs') := by
  induction h with
  | nil => exact .ok (.refl _)
  | cons hc hcs ih =>
    cases hc with
    | test he hes =>
      exact ih.bind fun hrest => .ok (.branch he (.ofActions hes) hrest)
    | otherwise hes =>
      cases hcs with
      | nil => exact .ok (.ofActions hes)
      | cons => exact .error (Error.raise_same rfl (by unfold Error.message; dsimp only) rfl)

/-- Tasks of the two runs. -/
inductive Task.Ahead : Task → Task → Prop
  | eval {e e' : Expr} (env : FrameId) : e.Ahead e' → Task.Ahead (.eval e env) (.eval e' env)
  | call {f f' : Value} {args args' : List Value} : f.Ahead f' →
    Value.AllMatch Closure.Ahead args args' → Task.Ahead (.call f args) (.call f' args')

/-- Two ways to do tasks that come to the same for the two runs. -/
def AheadTogether (p q : Task → Action Value) : Prop :=
  ∀ {task task' : Task}, task.Ahead task' → aheadLink.Matched () (p task) (q task') aheadLink.value

variable {p q : Task → Action Value} {e e' : Expr} {env : FrameId}

/-- One step, where a raw form has not been replaced by its analysis. -/
theorem evalStep_ahead (hpq : AheadTogether p q) (he : e.Ahead e')
    (hraw : ∀ form, e = .raw form → e' = .raw form) :
    aheadLink.Matched () (evalStep p env e) (evalStep q env e') aheadLink.value := by
  have hpart : ∀ {w : Unit} {e e' : Expr}, aheadLink.le () w → e.Ahead e' →
      aheadLink.Matched w (p (.eval e env)) (q (.eval e' env)) aheadLink.value :=
    fun _ he => hpq (.eval env he)
  cases he with
  | literal v | quote v => exact .pure (Value.Ahead.refl v)
  | var name => exact .of_store fun _ _ hst => ⟨hst, hst.lookup_match⟩
  | assign target he =>
    refine .bind (hpart trivial he) fun {_ v v'} _ hv => ?_
    refine .bind (R := fun _ _ _ => True) (.of_store fun s t hst => ?_) fun _ _ => .pure rfl
    simp only [Action.change, Store.assign, hst.find?_eq]
    cases s.find? env target with
    | none => exact ⟨hst, .error (.refl _)⟩
    | some g => exact ⟨hst.put hv, .ok trivial⟩
  | define target he =>
    refine .bind (hpart trivial he) fun {_ v v'} _ hv => ?_
    refine .bind (R := fun _ _ _ => True) (.of_store fun s t hst => ?_) fun _ _ => .pure rfl
    simp only [Action.change, Store.define]
    cases target.isSymbol with
    | false => exact ⟨hst, .error (.refl _)⟩
    | true => exact ⟨hst.put hv, .ok trivial⟩
  | branch htest hconsequent halternative =>
    refine .bind (hpart trivial htest) fun {_ v v'} _ hv => ?_
    rw [hv.isFalse_eq]
    split
    · exact hpart trivial halternative
    · exact hpart trivial hconsequent
  | @lambda body body' params hbody =>
    exact .bind .fresh fun _ hid => .pure ⟨⟨params, body', env⟩, hid ▸ rfl, rfl, hbody, rfl⟩
  | sequence hbody => exact evalBody_matched hpart hbody
  | cond hclauses =>
    exact .bind (R := fun _ => Expr.Ahead) (.ofExcept (Clause.Ahead.toBranches hclauses))
      fun _ => hpart trivial
  | apply he hes =>
    refine .bind (hpart trivial he) fun _ hf => ?_
    refine .bind (evalAll_matched hpart hes) fun _ hargs => hpq (.call hf hargs)
  | «foreign» id => exact .raise (.same _)
  | raw form =>
    refine .bind (R := fun _ => Eq) (.ofExcept ?_) fun {_ a _} _ h => h ▸ hpart trivial (.refl a)
    cases analyze form with
    | ok e => exact .ok rfl
    | error f => exact .error (.refl f)
  | analysis h =>
    cases hraw _ rfl
    cases analyzes_of_analyze h

theorem callStep_ahead (hpq : AheadTogether p q) (hf : v.Ahead v')
    (hargs : Value.AllMatch Closure.Ahead args args') :
    aheadLink.Matched () (callStep p v args) (callStep q v' args') aheadLink.value := by
  cases v with
  | closure id params body env =>
    have hclosure := hf
    obtain ⟨⟨params', body', env'⟩, rfl, rfl, hbody, rfl⟩ := hf
    have hlen : args'.length = args.length := (Value.allMatch_iff.mp hargs).length_eq.symm
    dsimp only [callStep]
    rw [hlen]
    split
    · refine .bind (R := fun _ => Eq) (.of_store fun s t hst => ?_) fun {_ g _} _ hg => ?_
      · exact ⟨hst.extend params' hargs, .ok hst.size.symm⟩
      · subst hg
        exact evalBody_matched (fun _ he => hpq (.eval g he)) hbody
    · exact .raise (.closureArity _ hclosure hargs)
  | primitive op id =>
    cases hf
    exact op.run_matched (fun _ hf hvs => hpq (.call hf hvs)) hargs
  | list id items =>
    obtain ⟨items', rfl, hitems⟩ := hf
    exact .raise (.notApplicable ⟨items', rfl, hitems⟩)
  | _ =>
    cases hf
    exact .raise (.same _)

/-- After analysis a raw form stands on both sides or on none. -/
theorem Expr.Ahead.analyzed (h : e.Ahead e') (env : FrameId) :
    ∃ f f', (Task.eval e env).analyzed = .eval f env ∧ (Task.eval e' env).analyzed = .eval f' env ∧
      f.Ahead f' ∧ ∀ form, f = .raw form → f' = .raw form := by
  cases h with
  | raw form =>
    obtain ⟨f, hf⟩ : ∃ f, (Task.eval (.raw form) env).analyzed = .eval f env := by
      rcases (Task.eval (.raw form) env).analyzed_cases with h | ⟨_, _, e, h, -, heq⟩
      · exact ⟨_, h⟩
      · cases h
        exact ⟨e, heq⟩
    exact ⟨f, f, hf, hf, .refl f, fun _ => id⟩
  | analysis h =>
    have heq : (Task.eval e' env).analyzed = .eval e' env := by
      cases analyzes_of_analyze h <;> rfl
    exact ⟨e', e', by simp [Task.analyzed, h], heq, .refl e', fun _ => id⟩
  | literal | var | quote | «foreign» => exact ⟨_, _, rfl, rfl, .refl _, nofun⟩
  | assign _ h | define _ h | lambda _ h | sequence h | cond h =>
    exact ⟨_, _, rfl, rfl, by constructor; exact h, nofun⟩
  | branch h₁ h₂ h₃ => exact ⟨_, _, rfl, rfl, .branch h₁ h₂ h₃, nofun⟩
  | apply h hs => exact ⟨_, _, rfl, rfl, .apply h hs, nofun⟩

theorem performAnalyzed_ahead (depth : Nat) :
    AheadTogether (performAnalyzed depth) (performAnalyzed depth) := by
  induction depth with
  | zero => exact fun _ => .of_store fun _ _ hst => ⟨hst, .error (.fault _)⟩
  | succ depth ih =>
    intro task task' h
    rw [performAnalyzed, performAnalyzed]
    cases h with
    | eval env he =>
      obtain ⟨f, f', heq, heq', hf, hraw⟩ := he.analyzed env
      rw [heq, heq']
      exact evalStep_ahead ih hf hraw
    | call hf hargs => exact callStep_ahead ih hf hargs

/-- Two outcomes: values that differ in the code of closures only, or errors of one kind with one
message, or the same fault; and stores with the same record that differ in such code only. -/
structure Outcome.Ahead (x y : Except Failure Value × Store) : Prop where
  result : ResultsMatch Failure.Same Value.Ahead x.1 y.1
  store : x.2.Ahead y.2

theorem Outcome.Ahead.tooDeep_iff {x y : Except Failure Value × Store} (h : Outcome.Ahead x y) :
    x.1 = .error (.fault .tooDeep) ↔ y.1 = .error (.fault .tooDeep) := by
  obtain ⟨hresult, -⟩ := h
  generalize x.1 = r at hresult
  generalize y.1 = r' at hresult
  cases hresult with
  | ok => simp
  | error hf => cases hf <;> simp

theorem performAnalyzed_outcome (h : e.Ahead e') (env : FrameId) (s : Store) (depth : Nat) :
    Outcome.Ahead (performAnalyzed depth (.eval e env) s)
      (performAnalyzed depth (.eval e' env) s) := by
  obtain ⟨_, _, hstore, hresult⟩ := performAnalyzed_ahead depth (.eval env h) s s (.refl s)
  exact ⟨hresult, hstore⟩

/-- **Analysis on demand and analysis ahead come to the same.** Let an expression hold raw forms in
any places where expressions are evaluated, all of which can be analyzed. In every frame and every
store, the expression comes to an outcome exactly if the expression with the analyses in the places
of the forms does, and the two outcomes differ in nothing but the code of closures: the values
match or the errors are of one kind with one message, the output is the same, and so is the store.
How deep the evaluations nest is left out of account. -/
theorem ahead_comesTo_same (h : e.ahead = .ok e') (env : FrameId) (s : Store) :
    (∀ r s₁, ComesTo (fun depth => perform depth (.eval e env)) s r s₁ →
      ∃ r' s₂, ComesTo (fun depth => perform depth (.eval e' env)) s r' s₂ ∧
        Outcome.Ahead (r, s₁) (r', s₂)) ∧
    ∀ r' s₂, ComesTo (fun depth => perform depth (.eval e' env)) s r' s₂ →
      ∃ r s₁, ComesTo (fun depth => perform depth (.eval e env)) s r s₁ ∧
        Outcome.Ahead (r, s₁) (r', s₂) := by
  have houtcome := performAnalyzed_outcome (.of_ahead h) env s
  simp only [← comesTo_performAnalyzed_iff]
  constructor
  · rintro r s₁ ⟨hr, depth, hrun⟩
    have hsame := houtcome depth
    dsimp only at hrun
    rw [hrun] at hsame
    exact ⟨_, _, ⟨fun hdeep => hr (hsame.tooDeep_iff.mpr hdeep), depth, rfl⟩, hsame⟩
  · rintro r' s₂ ⟨hr, depth, hrun⟩
    have hsame := houtcome depth
    dsimp only at hrun
    rw [hrun] at hsame
    exact ⟨_, _, ⟨fun hdeep => hr (hsame.tooDeep_iff.mp hdeep), depth, rfl⟩, hsame⟩

/-- A procedure with a raw body, called by a raw operator with a raw operand. -/
theorem ahead_comesTo_same_call :
    let form : Value := .list 90 [.symbol "if", .symbol "x",
      .list 91 [.symbol "quote", .list 92 [.symbol "a"]], .int 0]
    let code (body operator operand : Expr) : Expr := .sequence [
      .define (.symbol "f") (.lambda [.symbol "x"] [body]), .apply operator [operand]]
    let e := code (.raw form) (.raw (.symbol "f")) (.raw (.bool true))
    let e' := code
      (.branch (.var (.symbol "x")) (.quote (.list 92 [.symbol "a"])) (.literal (.int 0)))
      (.var (.symbol "f")) (.literal (.bool true))
    let out := perform 9 (.eval e Store.global) Store.initial
    e.ahead = .ok e' ∧ out.1.isOk ∧
      ∃ r' s₂, ComesTo (fun depth => perform depth (.eval e' Store.global)) Store.initial r' s₂ ∧
        Outcome.Ahead out (r', s₂) := by
  intro form code e e' out
  have h : e.ahead = .ok e' := by cbv
  have hok : out.1.isOk := by
    unfold out e code form
    decide +kernel
  have hcomes : ComesTo (fun depth => perform depth (.eval e Store.global)) Store.initial
      out.1 out.2 := by
    refine ⟨fun hdeep => ?_, 9, rfl⟩
    rw [hdeep] at hok
    cases hok
  exact ⟨h, hok, (ahead_comesTo_same h Store.global Store.initial).1 _ _ hcomes⟩

end SmallLisp
