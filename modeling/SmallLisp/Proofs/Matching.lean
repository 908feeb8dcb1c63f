import Mathlib.Data.List.Forall2
import SmallLisp.Run.Eval

/-!
# Matching runs

Two runs can go through the same steps although procedures in them differ in their code. Values then
*match*: they differ in nothing but closures, and in these as a relation permits. A `Link` says what
else may differ between the two runs, and `Link.Matched` that two actions end in the same way in
them. No primitive makes a difference between values that match (`Primitive.run_matched`).
-/

namespace SmallLisp

/-- A procedure made by a `lambda`, apart from its identity. -/
structure Closure where
  params : List Value
  body : List Expr
  env : FrameId

/-! ## Values -/

mutual

/-- The values differ in closures only, and in these as `K` permits. -/
def Value.Matches (K : Closure → Closure → Prop) : Value → Value → Prop
  | .list id items, w => ∃ items', w = .list id items' ∧ Value.AllMatch K items items'
  | .closure id params body env, w =>
    ∃ c : Closure, w = .closure id c.params c.body c.env ∧ K ⟨params, body, env⟩ c
  | v, w => w = v

def Value.AllMatch (K : Closure → Closure → Prop) : List Value → List Value → Prop
  | [], ws => ws = []
  | v :: vs, ws => ∃ w ws', ws = w :: ws' ∧ v.Matches K w ∧ Value.AllMatch K vs ws'

end

variable {K K' : Closure → Closure → Prop} {v w a a' b b' : Value} {vs ws : List Value}

theorem Value.allMatch_iff : Value.AllMatch K vs ws ↔ List.Forall₂ (Value.Matches K) vs ws := by
  induction vs generalizing ws with
  | nil => simp [Value.AllMatch]
  | cons v vs ih => simp only [Value.AllMatch, List.forall₂_cons_left_iff, ih]; grind

mutual

theorem Value.Matches.imp (hK : ∀ {c c' : Closure}, K c c' → K' c c') :
    ∀ {v w : Value}, v.Matches K w → v.Matches K' w
  | .list _ _, _, ⟨items', hw, h⟩ => ⟨items', hw, h.imp hK⟩
  | .closure _ _ _ _, _, ⟨c, hw, h⟩ => ⟨c, hw, hK h⟩
  | .nothing, _, h | .bool _, _, h | .int _, _, h | .float _ _, _, h | .text _, _, h
  | .symbol _, _, h | .unspecified, _, h | .primitive _ _, _, h | .elseMark, _, h | .node _, _, h
  | .clause _, _, h => h

theorem Value.AllMatch.imp (hK : ∀ {c c' : Closure}, K c c' → K' c c') :
    ∀ {vs ws : List Value}, Value.AllMatch K vs ws → Value.AllMatch K' vs ws
  | [], _, h => h
  | _ :: _, _, ⟨w, ws', hw, h, hs⟩ => ⟨w, ws', hw, h.imp hK, hs.imp hK⟩

end

namespace Value

/-- A value without what is in it: all that most primitives look at. -/
def outline : Value → Value
  | .list id _ => .list id []
  | .closure id _ _ _ => .closure id [] [] 0
  | v => v

theorem Matches.outline_eq (h : v.Matches K w) : w.outline = v.outline := by
  cases v with
  | list => obtain ⟨_, rfl, -⟩ := h; rfl
  | closure => obtain ⟨_, rfl, -⟩ := h; rfl
  | _ => cases h; rfl

theorem isFalse_outline (v : Value) : v.outline.isFalse = v.isFalse := by cases v <;> rfl

theorem number?_outline (v : Value) : v.outline.number? = v.number? := by cases v <;> rfl

theorem isSymbol_outline (v : Value) : v.outline.isSymbol = v.isSymbol := by cases v <;> rfl

theorem isProcedureValue_outline (v : Value) :
    Primitive.isProcedureValue v.outline = Primitive.isProcedureValue v := by cases v <;> rfl

theorem eq_outline (a b : Value) : a.outline.eq b.outline = a.eq b := by
  cases a <;> cases b <;> rfl

theorem equalAtom_outline (a b : Value) : a.outline.equalAtom b.outline = a.equalAtom b := by
  cases a <;> cases b <;> rfl

theorem Matches.isFalse_eq (h : v.Matches K w) : w.isFalse = v.isFalse := by
  rw [← isFalse_outline, h.outline_eq, isFalse_outline]

theorem Matches.isSymbol_eq (h : v.Matches K w) : w.isSymbol = v.isSymbol := by
  rw [← isSymbol_outline, h.outline_eq, isSymbol_outline]

theorem Matches.isProcedureValue_eq (h : v.Matches K w) :
    Primitive.isProcedureValue w = Primitive.isProcedureValue v := by
  rw [← isProcedureValue_outline, h.outline_eq, isProcedureValue_outline]

theorem Matches.number?_eq (h : v.Matches K w) : w.number? = v.number? := by
  rw [← number?_outline, h.outline_eq, number?_outline]

theorem Matches.eq_eq (ha : a.Matches K a') (hb : b.Matches K b') : a'.eq b' = a.eq b := by
  rw [← eq_outline, ha.outline_eq, hb.outline_eq, eq_outline]

theorem Matches.equalAtom_eq (ha : a.Matches K a') (hb : b.Matches K b') :
    a'.equalAtom b' = a.equalAtom b := by
  rw [← equalAtom_outline, ha.outline_eq, hb.outline_eq, equalAtom_outline]

end Value

mutual

theorem Value.Matches.equal_eq {a b a' b' : Value} (ha : a.Matches K a') (hb : b.Matches K b') :
    a'.equal b' = a.equal b := by
  have hatom := ha.equalAtom_eq hb
  cases a with
  | list i xs =>
    obtain ⟨xs', rfl, hxs⟩ := ha
    cases b with
    | list j ys =>
      obtain ⟨ys', rfl, hys⟩ := hb
      simp only [Value.equal, hxs.equalAll_eq hys]
    | closure => obtain ⟨c, rfl, -⟩ := hb; exact hatom
    | _ => cases hb; exact hatom
  | closure => obtain ⟨c, rfl, -⟩ := ha; exact hatom
  | _ => cases ha; exact hatom

theorem Value.AllMatch.equalAll_eq {xs ys xs' ys' : List Value} (hx : Value.AllMatch K xs xs')
    (hy : Value.AllMatch K ys ys') : Value.equalAll xs' ys' = Value.equalAll xs ys := by
  cases xs with
  | nil =>
    cases hx
    cases ys with
    | nil => cases hy; rfl
    | cons => obtain ⟨_, _, rfl, -⟩ := hy; rfl
  | cons x xs =>
    obtain ⟨x', xs', rfl, hx, hxs⟩ := hx
    cases ys with
    | nil => cases hy; rfl
    | cons y ys =>
      obtain ⟨y', ys', rfl, hy, hys⟩ := hy
      simp only [Value.equalAll, hx.equal_eq hy, hxs.equalAll_eq hys]

end

mutual

/-- Values that match are equally fit to be shown. -/
theorem Value.Matches.fits_eq
    (hK : ∀ {c c' : Closure}, K c c' → Value.allFit c'.params = Value.allFit c.params) :
    ∀ {v w : Value}, v.Matches K w → w.fits = v.fits
  | .list _ _, _, ⟨_, rfl, h⟩ => h.allFit_eq hK
  | .closure _ _ _ _, _, ⟨_, rfl, h⟩ => hK h
  | .nothing, _, rfl | .bool _, _, rfl | .int _, _, rfl | .float _ _, _, rfl | .text _, _, rfl
  | .symbol _, _, rfl | .unspecified, _, rfl | .primitive _ _, _, rfl | .elseMark, _, rfl
  | .node _, _, rfl | .clause _, _, rfl => rfl

theorem Value.AllMatch.allFit_eq
    (hK : ∀ {c c' : Closure}, K c c' → Value.allFit c'.params = Value.allFit c.params) :
    ∀ {vs ws : List Value}, Value.AllMatch K vs ws → Value.allFit ws = Value.allFit vs
  | [], _, rfl => rfl
  | _ :: _, _, ⟨_, _, rfl, h, hs⟩ => by
    rw [Value.allFit, Value.allFit, h.fits_eq hK, hs.allFit_eq hK]

end

/-! ## Texts -/

mutual

/-- The text of a closure shows its parameters and not its code. -/
theorem Value.Matches.inspect_eq (hK : ∀ {c c' : Closure}, K c c' → c'.params = c.params) :
    ∀ {v w : Value}, v.Matches K w → w.inspect = v.inspect
  | .list _ _, _, ⟨_, rfl, h⟩ => by rw [Value.inspect, Value.inspect, h.inspectAll_eq hK]
  | .closure _ _ _ _, _, ⟨_, rfl, h⟩ => by rw [Value.inspect, Value.inspect, hK h]
  | .nothing, _, rfl | .bool _, _, rfl | .int _, _, rfl | .float _ _, _, rfl | .text _, _, rfl
  | .symbol _, _, rfl | .unspecified, _, rfl | .primitive _ _, _, rfl | .elseMark, _, rfl
  | .node _, _, rfl | .clause _, _, rfl => rfl

theorem Value.AllMatch.inspectAll_eq (hK : ∀ {c c' : Closure}, K c c' → c'.params = c.params) :
    ∀ {vs ws : List Value}, Value.AllMatch K vs ws → Value.inspectAll ws = Value.inspectAll vs
  | [], _, rfl => rfl
  | _ :: _, _, ⟨_, _, rfl, h, hs⟩ => by
    rw [Value.inspectAll, Value.inspectAll, h.inspect_eq hK, hs.inspectAll_eq hK]

end

theorem Value.Matches.plain_eq (hK : ∀ {c c' : Closure}, K c c' → c'.params = c.params)
    (h : v.Matches K w) : w.plain = v.plain := by
  have hinspect := h.inspect_eq hK
  cases v with
  | list => obtain ⟨_, rfl, -⟩ := h; exact hinspect
  | closure => obtain ⟨_, rfl, -⟩ := h; exact hinspect
  | _ => cases h; rfl

mutual

theorem Value.Matches.print_eq (hK : ∀ {c c' : Closure}, K c c' → c'.params = c.params)
    (quoted : Bool) : ∀ {v w : Value}, v.Matches K w → w.print quoted = v.print quoted
  | .list _ _, _, ⟨_, rfl, h⟩ => by rw [Value.print, Value.print, h.printAll_eq hK quoted]
  | .closure _ _ _ _, _, ⟨c, rfl, h⟩ => by
    simpa only [Value.print] using Value.Matches.inspect_eq (v := .closure ..) hK ⟨c, rfl, h⟩
  | .nothing, _, rfl | .bool _, _, rfl | .int _, _, rfl | .float _ _, _, rfl | .text _, _, rfl
  | .symbol _, _, rfl | .unspecified, _, rfl | .primitive _ _, _, rfl | .elseMark, _, rfl
  | .node _, _, rfl | .clause _, _, rfl => rfl

theorem Value.AllMatch.printAll_eq (hK : ∀ {c c' : Closure}, K c c' → c'.params = c.params)
    (quoted : Bool) : ∀ {vs ws : List Value},
    Value.AllMatch K vs ws → Value.printAll quoted ws = Value.printAll quoted vs
  | [], _, rfl => rfl
  | _ :: _, _, ⟨_, _, rfl, h, hs⟩ => by
    rw [Value.printAll, Value.printAll, h.print_eq hK quoted, hs.printAll_eq hK quoted]

end

/-! ## Bindings -/

section

variable {B : Value × Value → Value × Value → Prop} {bs bs' : List (Value × Value)}
  {name name' : Value} (hname : ∀ {b b'}, B b b' → b'.1.alike name' = b.1.alike name)
include hname

/-- Names that are found at the same place have related values there. -/
theorem bindings_find?_rel (hvalue : ∀ {b b'}, B b b' → b.2.Matches K b'.2)
    (h : List.Forall₂ B bs bs') :
    Option.Rel (Value.Matches K) ((bs.find? fun b => b.1.alike name).map (·.2))
      ((bs'.find? fun b => b.1.alike name').map (·.2)) := by
  induction h with
  | nil => exact .none
  | @cons b b' _ _ hb _ ih =>
    rw [List.find?_cons, List.find?_cons, hname hb]
    cases b.1.alike name with
    | true => exact .some (hvalue hb)
    | false => exact ih

theorem bindings_putIn (hnew : B (name, v) (name', w))
    (hput : ∀ {b b'}, B b b' → B (b.1, v) (b'.1, w)) (h : List.Forall₂ B bs bs') :
    List.Forall₂ B (Frame.putIn name v bs) (Frame.putIn name' w bs') := by
  induction h with
  | nil => exact .cons hnew .nil
  | cons hb hbs ih =>
    rw [Frame.putIn, Frame.putIn, hname hb]
    split
    · exact .cons (hput hb) hbs
    · exact .cons hb ih

end

/-! ## Outcomes -/

/-- The same error about values that match. -/
inductive Error.Matches (K : Closure → Closure → Prop) : Error → Error → Prop
  | same (e : Error) : Matches K e e
  | notApplicable {v w : Value} : v.Matches K w → Matches K (.notApplicable v) (.notApplicable w)
  | closureArity {v w : Value} {vs ws : List Value} (n : Nat) : v.Matches K w →
    Value.AllMatch K vs ws → Matches K (.closureArity v n vs) (.closureArity w n ws)
  | primitiveArity {vs ws : List Value} (op : Primitive) (n : Nat) : Value.AllMatch K vs ws →
    Matches K (.primitiveArity op n vs) (.primitiveArity op n ws)
  | notNumber {v w : Value} (op : Primitive) : v.Matches K w →
    Matches K (.notNumber op v) (.notNumber op w)
  | notList {v w : Value} (op : Primitive) : v.Matches K w →
    Matches K (.notList op v) (.notList op w)
  | emptyList {v w : Value} (op : Primitive) : v.Matches K w →
    Matches K (.emptyList op v) (.emptyList op w)

theorem Error.Matches.kind_eq {e e' : Error} (h : e.Matches K e') : e'.kind = e.kind := by
  cases h <;> rfl

theorem Error.Matches.fits_eq {e e' : Error}
    (hK : ∀ {c c' : Closure}, K c c' → Value.allFit c'.params = Value.allFit c.params)
    (h : e.Matches K e') : e'.fits = e.fits := by
  cases h with
  | same | primitiveArity | emptyList => rfl
  | notApplicable h | closureArity _ h | notNumber _ h | notList _ h => exact h.fits_eq hK

theorem Error.Matches.message_eq {e e' : Error}
    (hK : ∀ {c c' : Closure}, K c c' → c'.params = c.params) (h : e.Matches K e') :
    e'.message = e.message := by
  cases h with
  | same => rfl
  | primitiveArity | emptyList => unfold Error.message; dsimp only
  | notApplicable h => unfold Error.message; dsimp only; rw [h.inspect_eq hK]
  | closureArity n h hargs =>
    unfold Error.message
    dsimp only
    rw [h.plain_eq hK, (Value.allMatch_iff.mp hargs).length_eq]
  | notNumber _ h | notList _ h =>
    unfold Error.message Value.write
    dsimp only
    rw [h.print_eq hK]

/-- The kind of an error, or a fault. -/
def Failure.kind : Failure → ErrorKind ⊕ Fault
  | .error e => .inl e.kind
  | .fault f => .inr f

/-- Errors of one kind that are equally fit to be shown are failures of one kind. -/
theorem Error.raise_kind {e e' : Error} (hkind : e'.kind = e.kind) (hfits : e'.fits = e.fits) :
    e'.raise.kind = e.raise.kind := by
  rw [Error.raise, Error.raise, hfits]
  split
  · exact congrArg Sum.inl hkind
  · rfl

/-- Two results that `R` relates, or two failures that `F` relates. -/
inductive ResultsMatch {α β : Type} (F : Failure → Failure → Prop) (R : α → β → Prop) :
    Except Failure α → Except Failure β → Prop
  | ok {a : α} {b : β} : R a b → ResultsMatch F R (.ok a) (.ok b)
  | error {e f : Failure} : F e f → ResultsMatch F R (.error e) (.error f)

variable {α β γ δ ω : Type}

theorem ResultsMatch.bind {F : Failure → Failure → Prop} {R : α → β → Prop} {S : γ → δ → Prop}
    {x : Except Failure α} {y : Except Failure β} {f : α → Except Failure γ}
    {g : β → Except Failure δ} (h : ResultsMatch F R x y)
    (hf : ∀ {a b}, R a b → ResultsMatch F S (f a) (g b)) :
    ResultsMatch F S (x >>= f) (y >>= g) := by
  cases h with
  | ok h => exact hf h
  | error h => exact .error h

/-- What two runs may differ in. That depends on what has come about in them, a *world*, which only
ever grows. -/
structure Link (ω : Type) where
  le : ω → ω → Prop
  closure : ω → Closure → Closure → Prop
  store : ω → Store → Store → Prop
  failure : Failure → Failure → Prop
  le_refl : ∀ w : ω, le w w
  le_trans : ∀ {w₁ w₂ w₃ : ω}, le w₁ w₂ → le w₂ w₃ → le w₁ w₃
  closure_mono : ∀ {w w' : ω} {c c' : Closure}, le w w' → closure w c c' → closure w' c c'
  failure_refl : ∀ e : Failure, failure e e
  raise : ∀ {w : ω} {e e' : Error}, Error.Matches (closure w) e e' → failure e.raise e'.raise
  fits : ∀ {w : ω} {c c' : Closure}, closure w c c' →
    Value.allFit c'.params = Value.allFit c.params
  /-- Both runs draw the same identities. -/
  fresh : ∀ {w : ω} {s t : Store}, store w s t →
    t.nextId = s.nextId ∧
      store w { s with nextId := s.nextId + 1 } { t with nextId := t.nextId + 1 }
  /-- Both runs show values that match. -/
  display : ∀ {w : ω} {s t : Store} {v v' : Value}, store w s t → v.Matches (closure w) v' →
    store w { s with events := s.events.push (.display v.display) }
      { t with events := t.events.push (.display v'.display) }

namespace Link

/-- Values that match as far as the runs have come. -/
abbrev value (k : Link ω) (w : ω) : Value → Value → Prop := Value.Matches (k.closure w)

abbrev values (k : Link ω) (w : ω) : List Value → List Value → Prop := Value.AllMatch (k.closure w)

/-- From stores that are linked, two actions end in stores that are, with results that `R` relates
or with failures that are linked. -/
def Matched (k : Link ω) (w : ω) (m : Action α) (n : Action β) (R : ω → α → β → Prop) : Prop :=
  ∀ s t : Store, k.store w s t → ∃ w', k.le w w' ∧ k.store w' (m s).2 (n t).2 ∧
    ResultsMatch k.failure (R w') (m s).1 (n t).1

variable {k : Link ω} {w w' : ω} {R : ω → α → β → Prop} {S : ω → γ → δ → Prop}

theorem value_mono (h : k.le w w') (hv : k.value w v a) : k.value w' v a :=
  hv.imp (k.closure_mono h)

theorem values_mono (h : k.le w w') (hvs : k.values w vs ws) : k.values w' vs ws :=
  hvs.imp (k.closure_mono h)

namespace Matched

/-- Actions that leave linked stores as they are, but for what the world does not tell. -/
theorem of_store {m : Action α} {n : Action β}
    (h : ∀ s t, k.store w s t → k.store w (m s).2 (n t).2 ∧
      ResultsMatch k.failure (R w) (m s).1 (n t).1) : k.Matched w m n R :=
  fun s t hst => ⟨w, k.le_refl w, h s t hst⟩

theorem pure {a : α} {b : β} (h : R w a b) : k.Matched w (Pure.pure a) (Pure.pure b) R :=
  of_store fun _ _ hst => ⟨hst, .ok h⟩

theorem raise {e e' : Error} (h : Error.Matches (k.closure w) e e') :
    k.Matched w (Action.raise e) (Action.raise e') R :=
  of_store fun _ _ hst => ⟨hst, .error (k.raise h)⟩

theorem ofExcept {x : Except Failure α} {y : Except Failure β}
    (h : ResultsMatch k.failure (R w) x y) :
    k.Matched w (Action.ofExcept x) (Action.ofExcept y) R :=
  of_store fun _ _ hst => ⟨hst, h⟩

theorem bind {m : Action α} {n : Action β} {f : α → Action γ} {g : β → Action δ}
    (hm : k.Matched w m n R)
    (hf : ∀ {w' a b}, k.le w w' → R w' a b → k.Matched w' (f a) (g b) S) :
    k.Matched w (m >>= f) (n >>= g) S := by
  intro s t hst
  obtain ⟨w₁, hle, hst₁, hr⟩ := hm s t hst
  rw [Action.bind_apply, Action.bind_apply]
  generalize m s = out at hst₁ hr
  generalize n t = out' at hst₁ hr
  obtain ⟨r, s₁⟩ := out
  obtain ⟨r', t₁⟩ := out'
  cases hr with
  | ok hab =>
    obtain ⟨w₂, hle₂, hst₂, hr₂⟩ := hf hle hab s₁ t₁ hst₁
    exact ⟨w₂, k.le_trans hle hle₂, hst₂, hr₂⟩
  | error he => exact ⟨w₁, hle, hst₁, .error he⟩

theorem fresh : k.Matched w Action.fresh Action.fresh (fun _ id id' => id' = id) :=
  of_store fun _ _ hst => ⟨(k.fresh hst).2, .ok (k.fresh hst).1⟩

theorem newList (h : k.values w vs ws) :
    k.Matched w (Action.newList vs) (Action.newList ws) k.value := by
  refine bind fresh fun hle hid => pure ?_
  exact ⟨ws, hid ▸ rfl, k.values_mono hle h⟩

theorem newNumber (n : Number) : k.Matched w (Action.newNumber n) (Action.newNumber n) k.value := by
  cases n with
  | int n => exact pure rfl
  | float r => exact bind fresh fun _ hid => pure (hid ▸ rfl)

theorem display (h : k.value w v a) :
    k.Matched w
      (do Action.emit (.display v.display); return Value.unspecified)
      (do Action.emit (.display a.display); return Value.unspecified) k.value :=
  of_store fun _ _ hst => ⟨k.display hst h, .ok rfl⟩

end Matched

end Link

/-! ## Primitives -/

namespace Primitive

variable {k : Link ω} {w : ω} {args args' : List Value} {op : Primitive}

theorem numbers_match (h : k.values w args args') :
    ResultsMatch k.failure Eq (numbers op args) (numbers op args') := by
  induction args generalizing args' with
  | nil => cases h; exact .ok rfl
  | cons v vs ih =>
    obtain ⟨v', vs', rfl, hv, hvs⟩ := h
    rw [numbers, numbers, hv.number?_eq]
    cases v.number? with
    | none => exact .error (k.raise (.notNumber op hv))
    | some n => exact (ih hvs).bind fun h => h ▸ .ok rfl

theorem listItems_match (h : k.value w v a) :
    ResultsMatch k.failure (k.values w) (listItems op v) (listItems op a) := by
  cases v with
  | list id items => obtain ⟨items', rfl, hitems⟩ := h; exact .ok hitems
  | closure => obtain ⟨c, rfl, hc⟩ := h; exact .error (k.raise (.notList op ⟨c, rfl, hc⟩))
  | _ => cases h; exact .error (k.failure_refl _)

theorem arithmetic_matched (f : List Number → Except Failure Number)
    (h : k.values w args args') :
    k.Matched w
      (do Action.newNumber (← Action.ofExcept (f (← Action.ofExcept (numbers op args)))))
      (do Action.newNumber (← Action.ofExcept (f (← Action.ofExcept (numbers op args')))))
      k.value := by
  refine .bind (R := fun _ => Eq) (.ofExcept (numbers_match h)) fun {_ ns _} _ hns => ?_
  subst hns
  refine .bind (R := fun _ => Eq) (.ofExcept ?_) fun {_ n _} _ hn => hn ▸ .newNumber n
  cases f ns with
  | ok n => exact .ok rfl
  | error e => exact .error (k.failure_refl e)

theorem compareAll_matched (holds : Option Ordering → Bool) (h : k.values w args args') :
    k.Matched w (compareAll op holds args) (compareAll op holds args') k.value :=
  .bind (R := fun _ => Eq) (.ofExcept (numbers_match h)) fun _ hns => .pure (hns ▸ rfl)

theorem values_one (h : k.values w args args') (hfits : op.Fits args.length) (hop : op.arity = 1) :
    ∃ v v', args = [v] ∧ args' = [v'] ∧ k.value w v v' := by
  obtain ⟨v, rfl⟩ := hfits.exists_one hop
  obtain ⟨v', _, rfl, hv, rfl⟩ := h
  exact ⟨v, v', rfl, rfl, hv⟩

theorem values_two (h : k.values w args args') (hfits : op.Fits args.length) (hop : op.arity = 2) :
    ∃ u u' v v', args = [u, v] ∧ args' = [u', v'] ∧ k.value w u u' ∧ k.value w v v' := by
  obtain ⟨u, v, rfl⟩ := hfits.exists_two hop
  obtain ⟨u', _, rfl, hu, v', _, rfl, hv, rfl⟩ := h
  exact ⟨u, u', v, v', rfl, rfl, hu, hv⟩

/-- A primitive does the same with arguments that match, if the calls that it makes do. -/
theorem run_matched {call call' : Value → List Value → Action Value}
    (hcall : ∀ {w' f f' vs vs'}, k.le w w' → k.value w' f f' → k.values w' vs vs' →
      k.Matched w' (call f vs) (call' f' vs') k.value)
    (op : Primitive) (h : k.values w args args') :
    k.Matched w (op.run call args) (op.run call' args') k.value := by
  have hlen : args'.length = args.length := (Value.allMatch_iff.mp h).length_eq.symm
  by_cases hfits : op.Fits args.length
  case neg =>
    rw [run_of_not_fits hfits, run_of_not_fits (hlen ▸ hfits)]
    exact .raise (.primitiveArity op op.arity h)
  cases op with
  | add | mul => exact arithmetic_matched _ h
  | sub | div =>
    cases args with
    | nil => cases h; exact .raise (.same _)
    | cons => obtain ⟨_, _, rfl, hvs⟩ := h; exact arithmetic_matched _ ⟨_, _, rfl, hvs⟩
  | numEq | numLt | numLe | numGt | numGe => exact compareAll_matched _ h
  | list => exact .newList h
  | newline =>
    cases hfits.eq_nil
    cases h
    exact .display (v := .text "\n") rfl
  | eq =>
    obtain ⟨_, _, _, _, rfl, rfl, hu, hv⟩ := values_two h hfits rfl
    exact .pure (congrArg Value.bool (hu.eq_eq hv))
  | equal =>
    obtain ⟨_, _, _, _, rfl, rfl, hu, hv⟩ := values_two h hfits rfl
    exact .pure (congrArg Value.bool (hu.equal_eq hv))
  | cons =>
    obtain ⟨_, _, _, _, rfl, rfl, hu, hv⟩ := values_two h hfits rfl
    exact .bind (.ofExcept (listItems_match hv)) fun hle hitems =>
      .newList ⟨_, _, rfl, k.value_mono hle hu, hitems⟩
  | apply =>
    obtain ⟨_, _, _, _, rfl, rfl, hu, hv⟩ := values_two h hfits rfl
    exact .bind (.ofExcept (listItems_match hv)) fun hle hitems =>
      hcall hle (k.value_mono hle hu) hitems
  | not =>
    obtain ⟨_, _, rfl, rfl, hv⟩ := values_one h hfits rfl
    exact .pure (congrArg Value.bool hv.isFalse_eq)
  | isNumber =>
    obtain ⟨_, _, rfl, rfl, hv⟩ := values_one h hfits rfl
    exact .pure (congrArg Value.bool (congrArg Option.isSome hv.number?_eq))
  | isSymbol =>
    obtain ⟨_, _, rfl, rfl, hv⟩ := values_one h hfits rfl
    exact .pure (congrArg Value.bool hv.isSymbol_eq)
  | isProcedure =>
    obtain ⟨_, _, rfl, rfl, hv⟩ := values_one h hfits rfl
    exact .pure (congrArg Value.bool hv.isProcedureValue_eq)
  | isNull | isPair =>
    obtain ⟨v, _, rfl, rfl, hv⟩ := values_one h hfits rfl
    cases v with
    | list _ items =>
      obtain ⟨_, rfl, hitems⟩ := hv
      cases items with
      | nil => cases hitems; exact .pure rfl
      | cons => obtain ⟨_, _, rfl, -⟩ := hitems; exact .pure rfl
    | closure => obtain ⟨_, rfl, -⟩ := hv; exact .pure rfl
    | _ => cases hv; exact .pure rfl
  | car =>
    obtain ⟨_, _, rfl, rfl, hv⟩ := values_one h hfits rfl
    refine .bind (.ofExcept (listItems_match hv)) fun {_ items _} hle hitems => ?_
    cases items with
    | nil => cases hitems; exact .raise (.emptyList _ (k.value_mono hle hv))
    | cons => obtain ⟨_, _, rfl, hhead, -⟩ := hitems; exact .pure hhead
  | cdr =>
    obtain ⟨_, _, rfl, rfl, hv⟩ := values_one h hfits rfl
    refine .bind (.ofExcept (listItems_match hv)) fun {_ items _} hle hitems => ?_
    cases items with
    | nil => cases hitems; exact .raise (.emptyList _ (k.value_mono hle hv))
    | cons => obtain ⟨_, _, rfl, -, htail⟩ := hitems; exact .newList htail
  | display =>
    obtain ⟨v, v', rfl, rfl, hv⟩ := values_one h hfits rfl
    refine .bind (R := fun _ text text' => text = v.display ∧ text' = v'.display) (.ofExcept ?_) ?_
    · rw [Value.display?, Value.display?, hv.fits_eq k.fits]
      split
      · exact .ok ⟨rfl, rfl⟩
      · exact .error (k.failure_refl _)
    · rintro _ _ _ hle ⟨rfl, rfl⟩
      exact .display (k.value_mono hle hv)

end Primitive

/-! ## Evaluation of several expressions -/

section

variable {k : Link ω} {w : ω} {p q : Task → Action Value} {env env' : FrameId}
  {E : Expr → Expr → Prop} {es es' : List Expr}
  (hpart : ∀ {w' e e'}, k.le w w' → E e e' →
    k.Matched w' (p (.eval e env)) (q (.eval e' env')) k.value)
include hpart

theorem evalAll_matched (h : List.Forall₂ E es es') :
    k.Matched w (evalAll p env es) (evalAll q env' es') k.values := by
  induction h generalizing w with
  | nil => exact .pure rfl
  | cons he _ ih =>
    refine .bind (hpart (k.le_refl w) he) fun hle hv => ?_
    refine .bind (ih fun hle' => hpart (k.le_trans hle hle')) fun hle' hvs => ?_
    exact .pure ⟨_, _, rfl, k.value_mono hle' hv, hvs⟩

theorem evalBody_matched (h : List.Forall₂ E es es') :
    k.Matched w (evalBody p env es) (evalBody q env' es') k.value := by
  induction h generalizing w with
  | nil => exact .raise (.same _)
  | cons he hes ih =>
    cases hes with
    | nil => exact hpart (k.le_refl w) he
    | cons =>
      exact .bind (hpart (k.le_refl w) he) fun hle _ => ih fun hle' => hpart (k.le_trans hle hle')

end

end SmallLisp
