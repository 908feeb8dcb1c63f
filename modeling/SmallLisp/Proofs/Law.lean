import SmallLisp.Run.Eval

/-!
# Hereditary laws

A law is a condition on values and expressions, each taken by itself. A value *obeys* a law when it
and everything that a run can get at through it satisfies the condition: the items of a list, the
code of a closure, the data in that code. Expressions that are mere data (`Value.node`) are never
evaluated, so nothing is asked of their parts. A law also says which frames are in use; a store
obeys it when all values in these frames do.

The condition on a value may depend on how far the store reaches, because a closure refers to a
frame and lists and closures have identities; it must survive the growth of the store
(`Value.Obeys.mono`).
-/

namespace SmallLisp

/-- How far a store reaches: the number of its frames and its next identity. -/
structure Extent where
  frames : Nat
  ids : Nat

namespace Extent

instance : LE Extent := ⟨fun x y => x.frames ≤ y.frames ∧ x.ids ≤ y.ids⟩

theorem le_refl (x : Extent) : x ≤ x := ⟨Nat.le_refl _, Nat.le_refl _⟩

theorem le_trans {x y z : Extent} (h : x ≤ y) (h' : y ≤ z) : x ≤ z :=
  ⟨Nat.le_trans h.1 h'.1, Nat.le_trans h.2 h'.2⟩

/-- One more identity is taken. -/
def moreIds (x : Extent) : Extent := { x with ids := x.ids + 1 }

/-- One more frame is made. -/
def moreFrames (x : Extent) : Extent := { x with frames := x.frames + 1 }

theorem le_moreIds (x : Extent) : x ≤ x.moreIds := ⟨Nat.le_refl _, Nat.le_succ _⟩

theorem le_moreFrames (x : Extent) : x ≤ x.moreFrames := ⟨Nat.le_succ _, Nat.le_refl _⟩

end Extent

def Store.extent (s : Store) : Extent := ⟨s.frames.size, s.nextId⟩

/-- Conditions on single values and expressions, and on the frames that evaluation may go on in. -/
structure Law where
  value : Extent → Value → Prop
  expr : Expr → Prop
  frame : Extent → FrameId → Prop

mutual

/-- The value and all that a run can get at through it satisfy a law. -/
def Value.Obeys (L : Law) (x : Extent) : Value → Prop
  | .list id items => L.value x (.list id items) ∧ Value.AllObey L x items
  | .closure id params body env =>
    L.value x (.closure id params body env) ∧ Expr.AllObey L x body
  | v => L.value x v

def Value.AllObey (L : Law) (x : Extent) : List Value → Prop
  | [] => True
  | v :: vs => v.Obeys L x ∧ Value.AllObey L x vs

/-- The expression, its parts and the values in it satisfy a law. -/
def Expr.Obeys (L : Law) (x : Extent) : Expr → Prop
  | .literal v => L.expr (.literal v) ∧ v.Obeys L x
  | .var name => L.expr (.var name)
  | .quote datum => L.expr (.quote datum) ∧ datum.Obeys L x
  | .assign target value => L.expr (.assign target value) ∧ value.Obeys L x
  | .define target value => L.expr (.define target value) ∧ value.Obeys L x
  | .branch test consequent alternative =>
    L.expr (.branch test consequent alternative) ∧
      test.Obeys L x ∧ consequent.Obeys L x ∧ alternative.Obeys L x
  | .lambda params body => L.expr (.lambda params body) ∧ Expr.AllObey L x body
  | .sequence body => L.expr (.sequence body) ∧ Expr.AllObey L x body
  | .cond clauses => L.expr (.cond clauses) ∧ Clause.AllObey L x clauses
  | .apply operator operands =>
    L.expr (.apply operator operands) ∧ operator.Obeys L x ∧ Expr.AllObey L x operands
  | .foreign id => L.expr (.foreign id)
  | .raw form => L.expr (.raw form) ∧ form.Obeys L x

def Expr.AllObey (L : Law) (x : Extent) : List Expr → Prop
  | [] => True
  | e :: es => e.Obeys L x ∧ Expr.AllObey L x es

def Clause.Obeys (L : Law) (x : Extent) : Clause → Prop
  | .test test actions => test.Obeys L x ∧ Expr.AllObey L x actions
  | .otherwise actions => Expr.AllObey L x actions

def Clause.AllObey (L : Law) (x : Extent) : List Clause → Prop
  | [] => True
  | c :: cs => c.Obeys L x ∧ Clause.AllObey L x cs

end

variable {L M : Law} {x y : Extent}

theorem Value.allObey_iff {vs : List Value} : Value.AllObey L x vs ↔ ∀ v ∈ vs, v.Obeys L x := by
  induction vs with
  | nil => simp [Value.AllObey]
  | cons v vs ih => simp [Value.AllObey, ih]

/-! ## Weaker laws -/

/-- What satisfies a law at one extent satisfies another law at another. -/
structure Law.Implies (L : Law) (x : Extent) (M : Law) (y : Extent) : Prop where
  value : ∀ {v : Value}, L.value x v → M.value y v
  expr : ∀ {e : Expr}, L.expr e → M.expr e

mutual

theorem Value.Obeys.imp (hLM : L.Implies x M y) : ∀ {v : Value}, v.Obeys L x → v.Obeys M y
  | .list _ _, h => ⟨hLM.value h.1, Value.AllObey.imp hLM h.2⟩
  | .closure _ _ _ _, h => ⟨hLM.value h.1, Expr.AllObey.imp hLM h.2⟩
  | .nothing, h | .bool _, h | .int _, h | .float _ _, h | .text _, h | .symbol _, h
  | .unspecified, h | .primitive _ _, h | .elseMark, h | .node _, h | .clause _, h => hLM.value h

theorem Value.AllObey.imp (hLM : L.Implies x M y) :
    ∀ {vs : List Value}, Value.AllObey L x vs → Value.AllObey M y vs
  | [], _ => trivial
  | _ :: _, h => ⟨h.1.imp hLM, Value.AllObey.imp hLM h.2⟩

theorem Expr.Obeys.imp (hLM : L.Implies x M y) : ∀ {e : Expr}, e.Obeys L x → e.Obeys M y
  | .literal _, h | .quote _, h | .raw _, h => ⟨hLM.expr h.1, h.2.imp hLM⟩
  | .var _, h | .foreign _, h => hLM.expr h
  | .assign _ _, h | .define _ _, h => ⟨hLM.expr h.1, Expr.Obeys.imp hLM h.2⟩
  | .branch _ _ _, h =>
    ⟨hLM.expr h.1, Expr.Obeys.imp hLM h.2.1, Expr.Obeys.imp hLM h.2.2.1,
      Expr.Obeys.imp hLM h.2.2.2⟩
  | .lambda _ _, h | .sequence _, h => ⟨hLM.expr h.1, Expr.AllObey.imp hLM h.2⟩
  | .cond _, h => ⟨hLM.expr h.1, Clause.AllObey.imp hLM h.2⟩
  | .apply _ _, h => ⟨hLM.expr h.1, Expr.Obeys.imp hLM h.2.1, Expr.AllObey.imp hLM h.2.2⟩

theorem Expr.AllObey.imp (hLM : L.Implies x M y) :
    ∀ {es : List Expr}, Expr.AllObey L x es → Expr.AllObey M y es
  | [], _ => trivial
  | _ :: _, h => ⟨h.1.imp hLM, Expr.AllObey.imp hLM h.2⟩

theorem Clause.Obeys.imp (hLM : L.Implies x M y) : ∀ {c : Clause}, c.Obeys L x → c.Obeys M y
  | .test _ _, h => ⟨h.1.imp hLM, Expr.AllObey.imp hLM h.2⟩
  | .otherwise _, h => Expr.AllObey.imp hLM h

theorem Clause.AllObey.imp (hLM : L.Implies x M y) :
    ∀ {cs : List Clause}, Clause.AllObey L x cs → Clause.AllObey M y cs
  | [], _ => trivial
  | _ :: _, h => ⟨h.1.imp hLM, Clause.AllObey.imp hLM h.2⟩

end

/-! ## Growth -/

section

variable (hg : ∀ {v : Value}, L.value x v → L.value y v)
include hg

/-- A value that obeys a law still does after the store has grown. -/
theorem Value.Obeys.mono {v : Value} (h : v.Obeys L x) : v.Obeys L y := h.imp ⟨hg, id⟩

theorem Value.AllObey.mono {vs : List Value} (h : Value.AllObey L x vs) : Value.AllObey L y vs :=
  h.imp ⟨hg, id⟩

theorem Expr.Obeys.mono {e : Expr} (h : e.Obeys L x) : e.Obeys L y := h.imp ⟨hg, id⟩

theorem Expr.AllObey.mono {es : List Expr} (h : Expr.AllObey L x es) : Expr.AllObey L y es :=
  h.imp ⟨hg, id⟩

end

end SmallLisp
