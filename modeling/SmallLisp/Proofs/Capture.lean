import SmallLisp.Proofs.Lawful
import SmallLisp.Proofs.Shape

/-!
# Frames that values hold on to

A closure holds on to the frame that it was made in, a list to what its items hold on to, and code
to what the data in it hold on to (`Value.Captures`). A law that only confines evaluation to some
frames (`Law.confined`) is obeyed by every value that holds on to none but these.
-/

namespace SmallLisp

mutual

/-- In the value, at any depth of lists and of code, is a closure that was made in a frame. -/
def Value.Captures (g : FrameId) : Value → Prop
  | .list _ items => Value.AnyCaptures g items
  | .closure _ _ body env => env = g ∨ Expr.AnyCaptures g body
  | _ => False

def Value.AnyCaptures (g : FrameId) : List Value → Prop
  | [] => False
  | v :: vs => v.Captures g ∨ Value.AnyCaptures g vs

/-- In the data of the expression is a closure that was made in a frame. Code that was read from a
text has none. -/
def Expr.Captures (g : FrameId) : Expr → Prop
  | .literal v | .quote v | .raw v => v.Captures g
  | .var _ | .foreign _ => False
  | .assign _ value | .define _ value => value.Captures g
  | .branch test consequent alternative =>
    test.Captures g ∨ consequent.Captures g ∨ alternative.Captures g
  | .lambda _ body | .sequence body => Expr.AnyCaptures g body
  | .cond clauses => Clause.AnyCaptures g clauses
  | .apply operator operands => operator.Captures g ∨ Expr.AnyCaptures g operands

def Expr.AnyCaptures (g : FrameId) : List Expr → Prop
  | [] => False
  | e :: es => e.Captures g ∨ Expr.AnyCaptures g es

def Clause.Captures (g : FrameId) : Clause → Prop
  | .test test actions => test.Captures g ∨ Expr.AnyCaptures g actions
  | .otherwise actions => Expr.AnyCaptures g actions

def Clause.AnyCaptures (g : FrameId) : List Clause → Prop
  | [] => False
  | c :: cs => c.Captures g ∨ Clause.AnyCaptures g cs

end

/-- Evaluation goes on in some frames only, and closures hold on to these only. -/
def Law.confined (P : Extent → FrameId → Prop) : Law where
  value x v := match v with
    | .closure _ _ _ env => P x env
    | _ => True
  expr _ := True
  frame := P

variable {P : Extent → FrameId → Prop} {x : Extent}

mutual

theorem Value.obeys_confined : ∀ {v : Value}, (∀ g, v.Captures g → P x g) →
    v.Obeys (.confined P) x
  | .list _ _, h => ⟨trivial, Value.allObey_confined h⟩
  | .closure _ _ _ env, h => ⟨h env (.inl rfl), Expr.allObey_confined fun g hg => h g (.inr hg)⟩
  | .nothing, _ | .bool _, _ | .int _, _ | .float _ _, _ | .text _, _ | .symbol _, _
  | .unspecified, _ | .primitive _ _, _ | .elseMark, _ | .node _, _ | .clause _, _ => trivial

theorem Value.allObey_confined : ∀ {vs : List Value}, (∀ g, Value.AnyCaptures g vs → P x g) →
    Value.AllObey (.confined P) x vs
  | [], _ => trivial
  | _ :: _, h => ⟨Value.obeys_confined fun g hg => h g (.inl hg),
      Value.allObey_confined fun g hg => h g (.inr hg)⟩

theorem Expr.obeys_confined : ∀ {e : Expr}, (∀ g, e.Captures g → P x g) →
    e.Obeys (.confined P) x
  | .literal _, h | .quote _, h | .raw _, h => ⟨trivial, Value.obeys_confined h⟩
  | .var _, _ | .foreign _, _ => trivial
  | .assign _ _, h | .define _ _, h => ⟨trivial, Expr.obeys_confined h⟩
  | .branch _ _ _, h => ⟨trivial, Expr.obeys_confined fun g hg => h g (.inl hg),
      Expr.obeys_confined fun g hg => h g (.inr (.inl hg)),
      Expr.obeys_confined fun g hg => h g (.inr (.inr hg))⟩
  | .lambda _ _, h | .sequence _, h => ⟨trivial, Expr.allObey_confined h⟩
  | .cond _, h => ⟨trivial, Clause.allObey_confined h⟩
  | .apply _ _, h => ⟨trivial, Expr.obeys_confined fun g hg => h g (.inl hg),
      Expr.allObey_confined fun g hg => h g (.inr hg)⟩

theorem Expr.allObey_confined : ∀ {es : List Expr}, (∀ g, Expr.AnyCaptures g es → P x g) →
    Expr.AllObey (.confined P) x es
  | [], _ => trivial
  | _ :: _, h => ⟨Expr.obeys_confined fun g hg => h g (.inl hg),
      Expr.allObey_confined fun g hg => h g (.inr hg)⟩

theorem Clause.obeys_confined : ∀ {c : Clause}, (∀ g, c.Captures g → P x g) →
    c.Obeys (.confined P) x
  | .test _ _, h => ⟨Expr.obeys_confined fun g hg => h g (.inl hg),
      Expr.allObey_confined fun g hg => h g (.inr hg)⟩
  | .otherwise _, h => Expr.allObey_confined h

theorem Clause.allObey_confined : ∀ {cs : List Clause}, (∀ g, Clause.AnyCaptures g cs → P x g) →
    Clause.AllObey (.confined P) x cs
  | [], _ => trivial
  | _ :: _, h => ⟨Clause.obeys_confined fun g hg => h g (.inl hg),
      Clause.allObey_confined fun g hg => h g (.inr hg)⟩

end

theorem Law.confined_permitsPrograms : (Law.confined P).PermitsPrograms where
  shaped _ := trivial
  text _ _ := trivial
  symbol _ _ := trivial

/-- Evaluation can be confined to frames that take in every frame made inside one of them. -/
theorem Law.confined_admissible
    (mono : ∀ {x y : Extent} {f : FrameId}, x.frames ≤ y.frames → P x f → P y f)
    (newFrame : ∀ {x : Extent} {env : FrameId}, P x env →
      ∀ f, P x.moreFrames f ↔ P x f ∨ f = x.frames) :
    (Law.confined P).Admissible fun _ => True where
  value_mono {x y v} h hv := by
    cases v with
    | closure => exact mono h.1 hv
    | _ => trivial
  frame_mono := mono
  bool _ _ := trivial
  int _ _ := trivial
  unspecified _ := trivial
  float _ _ := trivial
  list _ _ := trivial
  closure {x _ _ _} _ h := mono x.le_moreIds.1 h
  closureFrame h := h
  newFrame := newFrame
  branch _ _ _ := trivial
  sequence _ _ _ := trivial
  false := trivial
  analysis _ hf h := (analyzes_of_analyze h).obeys Law.confined_permitsPrograms trivial hf
  ofRun _ := trivial
  unanalyzable _ _ := trivial
  unknown _ := trivial
  emptyBody _ := trivial
  emptySequence _ := trivial
  misplacedElse _ _ := trivial
  undefinable _ _ := trivial

/-! ## The law that asks nothing -/

/-- Evaluation may go on in any frame. -/
def Law.free : Law := .confined fun _ _ => True

theorem Law.free_admissible : Law.free.Admissible fun _ => True :=
  Law.confined_admissible (fun _ _ => trivial) fun _ _ =>
    ⟨fun _ => .inl trivial, fun _ => trivial⟩

theorem Task.obeys_free (task : Task) : task.Obeys .free x := by
  cases task with
  | eval e env => exact ⟨Expr.obeys_confined fun _ _ => trivial, trivial⟩
  | call procedure args =>
    exact ⟨Value.obeys_confined fun _ _ => trivial, Value.allObey_confined fun _ _ => trivial⟩

theorem Store.obeys_free (s : Store) : s.Obeys .free :=
  fun _ _ _ _ => ⟨fun _ _ => trivial, fun _ _ => Value.obeys_confined fun _ _ => trivial⟩

end SmallLisp
