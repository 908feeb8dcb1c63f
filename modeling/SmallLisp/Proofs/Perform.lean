import SmallLisp.Proofs.Capture
import SmallLisp.Proofs.Similar

/-!
# Doing a task

One walk over the evaluator shows what two runs of a task have in common and what a law says of
them: `perform_similar`. The first run alone gives `perform_lawful`: a task that obeys an admissible
law, done in a store that obeys it, changes the store as the law permits, whatever the outcome, and
ends with a value that obeys the law or with a permitted failure. The law that asks nothing gives
`perform_agree`, and so `perform_le`: what is not cut short for want of depth does not depend on it.
-/

namespace SmallLisp

variable {L : Law} {F : Failure → Prop} {k : Leeway} {s t : Store} {x y : Extent}

/-! ## Primitives -/

namespace Primitive

theorem numbers_isOfRun {op : Primitive} {vs : List Value} {e : Failure}
    (h : numbers op vs = .error e) : e.isOfRun := by
  induction vs generalizing e with
  | nil => cases h
  | cons v vs ih =>
    rw [numbers] at h
    split at h
    · cases hr : numbers op vs with
      | error e' => rw [hr] at h; cases h; exact ih hr
      | ok ns => rw [hr] at h; cases h
    · cases h
      exact Error.raise_isOfRun rfl

theorem foldNumbers_isOfRun {combine : Number → Number → Except RangeError Number}
    {start : Number} {ns : List Number} {e : Failure}
    (h : foldNumbers combine start ns = .error e) : e.isOfRun := by
  unfold foldNumbers at h
  split at h
  · cases h
  · next e' _ => cases h; cases e' <;> rfl

theorem difference_isOfRun {ns : List Number} {e : Failure} (h : difference ns = .error e) :
    e.isOfRun := by
  match ns, h with
  | _ :: _ :: _, h => exact foldNumbers_isOfRun h

theorem quotient_isOfRun {ns : List Number} {e : Failure} (h : quotient ns = .error e) :
    e.isOfRun := by
  match ns, h with
  | [_], h | _ :: _ :: _, h => exact foldNumbers_isOfRun h

theorem listItems_isOfRun {op : Primitive} {v : Value} {e : Failure}
    (h : listItems op v = .error e) : e.isOfRun := by
  unfold listItems at h
  split at h
  · cases h
  · cases h
    exact Error.raise_isOfRun rfl

theorem eq_list_of_listItems {op : Primitive} {v : Value} {items : List Value}
    (h : listItems op v = .ok items) : ∃ id, v = .list id items := by
  unfold listItems at h
  split at h
  · cases h
    exact ⟨_, rfl⟩
  · cases h

/-- The arithmetic primitives: numbers in, one number out. -/
theorem arithmetic_similar (hL : L.Admissible F) {op : Primitive} {args : List Value}
    {f : List Number → Except Failure Number} (hf : ∀ {ns e}, f ns = .error e → e.isOfRun) :
    let act : Action Value := do
      let ns ← Action.ofExcept (numbers op args)
      Action.newNumber (← Action.ofExcept (f ns))
    Similar L F k x act act (fun y v => v.Obeys L y) := by
  refine .bind hL (Q := fun _ _ => True) ?_ fun ns y _ _ =>
    .bind hL (Q := fun _ _ => True) ?_ fun n z _ _ => .newNumber hL n
  · exact .ofExcept (fun _ _ => trivial) fun e h => hL.ofRun (numbers_isOfRun h)
  · exact .ofExcept (fun _ _ => trivial) fun e h => hL.ofRun (hf h)

theorem compareAll_similar (hL : L.Admissible F) {op : Primitive} {holds : Option Ordering → Bool}
    {args : List Value} : Similar L F k x (compareAll op holds args) (compareAll op holds args)
      (fun y v => v.Obeys L y) := by
  refine .bind hL (Q := fun _ _ => True) ?_ fun ns y _ _ => .pure (hL.bool _ _)
  exact .ofExcept (fun _ _ => trivial) fun e h => hL.ofRun (numbers_isOfRun h)

/-- The items of an argument that must be a list obey the law if the argument does. -/
theorem listItems_similar (hL : L.Admissible F) {op : Primitive} {v : Value} (hv : v.Obeys L x) :
    Similar L F k x (Action.ofExcept (listItems op v)) (Action.ofExcept (listItems op v))
      (fun y items => Value.AllObey L y items) := by
  refine .ofExcept (fun items h => ?_) fun e h => hL.ofRun (listItems_isOfRun h)
  obtain ⟨id, rfl⟩ := eq_list_of_listItems h
  exact hv.2

theorem display_similar (hL : L.Admissible F) (text : String) :
    let act : Action Value := do
      Action.emit (.display text)
      return Value.unspecified
    Similar L F k x act act (fun y v => v.Obeys L y) :=
  .bind hL (.display text) fun _ _ _ _ => .pure (hL.unspecified _)

/-- A primitive goes the same way twice if the calls that it makes do. -/
theorem run_similar (hL : L.Admissible F) {c d : Value → List Value → Action Value}
    (hcall : ∀ {p vs y}, p.Obeys L y → Value.AllObey L y vs →
      Similar L F k y (c p vs) (d p vs) (fun z v => v.Obeys L z))
    (op : Primitive) {args : List Value} (ha : Value.AllObey L x args) :
    Similar L F k x (op.run c args) (op.run d args) (fun y v => v.Obeys L y) := by
  by_cases hfits : op.Fits args.length
  case neg =>
    rw [run_of_not_fits hfits, run_of_not_fits hfits]
    exact .raise hL rfl
  cases op with
  | add | mul => exact arithmetic_similar hL foldNumbers_isOfRun
  | sub =>
    cases args with
    | nil => exact .raise hL rfl
    | cons => exact arithmetic_similar hL difference_isOfRun
  | div =>
    cases args with
    | nil => exact .raise hL rfl
    | cons => exact arithmetic_similar hL quotient_isOfRun
  | numEq | numLt | numLe | numGt | numGe => exact compareAll_similar hL
  | not | isNumber | isSymbol | isProcedure | isNull | isPair =>
    obtain ⟨v, rfl⟩ := hfits.exists_one rfl
    exact .pure (hL.bool _ _)
  | eq | equal =>
    obtain ⟨u, v, rfl⟩ := hfits.exists_two rfl
    exact .pure (hL.bool _ _)
  | cons =>
    obtain ⟨head, tail, rfl⟩ := hfits.exists_two rfl
    exact .bind hL (listItems_similar hL ha.2.1) fun items y hxy hi =>
      .newList hL ⟨ha.1.mono (hL.value_mono hxy), hi⟩
  | car =>
    obtain ⟨v, rfl⟩ := hfits.exists_one rfl
    refine .bind hL (listItems_similar hL ha.1) fun items y _ hi => ?_
    cases items with
    | nil => exact .raise hL rfl
    | cons head tail => exact .pure hi.1
  | cdr =>
    obtain ⟨v, rfl⟩ := hfits.exists_one rfl
    refine .bind hL (listItems_similar hL ha.1) fun items y _ hi => ?_
    cases items with
    | nil => exact .raise hL rfl
    | cons head tail => exact .newList hL hi.2
  | list => exact .newList hL ha
  | apply =>
    obtain ⟨f, v, rfl⟩ := hfits.exists_two rfl
    exact .bind hL (listItems_similar hL ha.2.1) fun items y hxy hi =>
      hcall (ha.1.mono (hL.value_mono hxy)) hi
  | display =>
    obtain ⟨v, rfl⟩ := hfits.exists_one rfl
    refine .bind hL (Q := fun _ _ => True) ?_ fun text y _ _ => display_similar hL text
    refine .ofExcept (fun _ _ => trivial) fun e h => hL.ofRun ?_
    unfold Value.display? at h
    split at h
    · cases h
    · cases h
      rfl
  | newline =>
    cases hfits.eq_nil
    exact display_similar hL "\n"

end Primitive

/-! ## Evaluation -/

/-- A law that permits what is added to the clauses of a `cond` to express its meaning. -/
structure Law.PermitsBranches (L : Law) : Prop where
  branch : ∀ test consequent alternative : Expr, L.expr (.branch test consequent alternative)
  sequence : ∀ (e e' : Expr) (es : List Expr), L.expr (.sequence (e :: e' :: es))
  false : L.expr .false
  bool : ∀ (x : Extent) (b : Bool), L.value x (.bool b)

theorem Law.Admissible.permitsBranches (hL : L.Admissible F) : L.PermitsBranches :=
  ⟨hL.branch, hL.sequence, hL.false, hL.bool⟩

/-- The expressions that the meaning of a `cond` is made of obey the law if its clauses do. -/
theorem Expr.ofActions_obeys (hL : L.PermitsBranches) {actions : List Expr}
    (h : Expr.AllObey L x actions) : (Expr.ofActions actions).Obeys L x := by
  match actions, h with
  | [], _ => exact ⟨hL.false, hL.bool x _⟩
  | [_], h => exact h.1
  | e :: e' :: es, h => exact ⟨hL.sequence e e' es, h⟩

theorem Clause.toBranches_obeys (hL : L.PermitsBranches) {clauses : List Clause} {e : Expr}
    (h : Clause.AllObey L x clauses) (he : Clause.toBranches clauses = .ok e) :
    e.Obeys L x := by
  induction clauses generalizing e with
  | nil =>
    cases he
    exact ⟨hL.false, hL.bool x _⟩
  | cons c rest ih =>
    cases c with
    | otherwise actions =>
      cases rest with
      | nil =>
        cases he
        exact Expr.ofActions_obeys hL h.1
      | cons => cases he
    | test t actions =>
      cases hr : Clause.toBranches rest with
      | error => rw [Clause.toBranches, hr] at he; cases he
      | ok e' =>
        rw [Clause.toBranches, hr] at he
        cases he
        exact ⟨hL.branch .., h.1.1, Expr.ofActions_obeys hL h.1.2, ih h.2 hr⟩

/-- Two ways to do tasks go together on what a law permits. -/
def Together (L : Law) (F : Failure → Prop) (k : Leeway) (p q : Task → Action Value) : Prop :=
  ∀ (task : Task) {y : Extent}, task.Obeys L y →
    Similar L F k y (p task) (q task) (fun z v => v.Obeys L z)

variable {p q : Task → Action Value} {env : FrameId}

theorem evalAll_similar (hL : L.Admissible F) (hpq : Together L F k p q) {es : List Expr}
    (he : Expr.AllObey L x es) (henv : L.frame x env) :
    Similar L F k x (evalAll p env es) (evalAll q env es) (fun y vs => Value.AllObey L y vs) := by
  induction es generalizing x with
  | nil => exact .pure trivial
  | cons e es ih =>
    refine .bind hL (hpq (.eval e env) ⟨he.1, henv⟩) fun v y hxy hv => ?_
    refine .bind hL (ih (he.2.mono (hL.value_mono hxy)) (hL.frame_mono hxy.1 henv))
      fun vs z hyz hvs => ?_
    exact .pure ⟨hv.mono (hL.value_mono hyz), hvs⟩

theorem evalBody_similar (hL : L.Admissible F) (hpq : Together L F k p q) {body : List Expr}
    (hb : Expr.AllObey L x body) (henv : L.frame x env)
    (hempty : body = [] → F Error.emptySequence.raise) :
    Similar L F k x (evalBody p env body) (evalBody q env body) (fun y v => v.Obeys L y) := by
  induction body generalizing x with
  | nil => exact .fail (hempty rfl)
  | cons e es ih =>
    have hfirst := hpq (.eval e env) ⟨hb.1, henv⟩
    cases es with
    | nil => exact hfirst
    | cons e' es =>
      exact .bind hL hfirst fun _ y hxy _ =>
        ih (hb.2.mono (hL.value_mono hxy)) (hL.frame_mono hxy.1 henv) nofun

theorem evalStep_similar (hL : L.Admissible F) (hpq : Together L F k p q) {e : Expr}
    (he : e.Obeys L x) (henv : L.frame x env) :
    Similar L F k x (evalStep p env e) (evalStep q env e) (fun y v => v.Obeys L y) := by
  -- The evaluation of a part, at any later time.
  have hpart : ∀ {e : Expr} {y : Extent}, x ≤ y → e.Obeys L y →
      Similar L F k y (p (.eval e env)) (q (.eval e env)) (fun z v => v.Obeys L z) :=
    fun hxy he => hpq (.eval _ env) ⟨he, hL.frame_mono hxy.1 henv⟩
  cases e with
  | literal v | quote v => exact .pure he.2
  | var name => exact .lookup hL henv name
  | assign target value =>
    refine .bind hL (hpart (Extent.le_refl x) he.2) fun v y hxy hv => ?_
    exact .bind hL (.assign hL he.1 (hL.frame_mono hxy.1 henv) hv) fun _ _ _ _ =>
      .pure (hL.unspecified _)
  | define target value =>
    refine .bind hL (hpart (Extent.le_refl x) he.2) fun v y hxy hv => ?_
    exact .bind hL (.define hL he.1 (hL.frame_mono hxy.1 henv) hv) fun _ _ _ _ =>
      .pure (hL.unspecified _)
  | branch test consequent alternative =>
    obtain ⟨-, ht, hc, ha⟩ := he
    refine .bind hL (hpart (Extent.le_refl x) ht) fun v y hxy _ => ?_
    cases v.isFalse with
    | true => exact hpart hxy (ha.mono (hL.value_mono hxy))
    | false => exact hpart hxy (hc.mono (hL.value_mono hxy))
  | lambda params body =>
    refine .bind hL (.fresh hL) fun id y _ ⟨hy, hid⟩ => .pure ?_
    rw [hy, hid]
    exact ⟨hL.closure he.1 henv, he.2.mono (hL.value_mono x.le_moreIds)⟩
  | sequence body =>
    exact evalBody_similar hL hpq he.2 henv fun h => hL.emptySequence (h ▸ he.1)
  | cond clauses =>
    refine .bind hL (Q := fun y e => e.Obeys L y) ?_ fun e' y hxy he' => hpart hxy he'
    exact .ofExcept (fun e' h => Clause.toBranches_obeys hL.permitsBranches he.2 h)
      fun f h => hL.misplacedElse he.1 h
  | apply operator operands =>
    refine .bind hL (hpart (Extent.le_refl x) he.2.1) fun f y hxy hf => ?_
    refine .bind hL (evalAll_similar hL hpq (he.2.2.mono (hL.value_mono hxy))
      (hL.frame_mono hxy.1 henv)) fun args z hyz hargs => ?_
    exact hpq (.call f args) ⟨hf.mono (hL.value_mono hyz), hargs⟩
  | «foreign» id => exact .fail (hL.unknown he)
  | raw form =>
    refine .bind hL (Q := fun y e => e.Obeys L y) ?_ fun e' y hxy he' => hpart hxy he'
    exact .ofExcept (fun e' h => hL.analysis he.1 he.2 h) fun f h => hL.unanalyzable he.1 h

theorem callStep_similar (hL : L.Admissible F) (hpq : Together L F k p q) {procedure : Value}
    {args : List Value} (hf : procedure.Obeys L x) (ha : Value.AllObey L x args) :
    Similar L F k x (callStep p procedure args) (callStep q procedure args)
      (fun y v => v.Obeys L y) := by
  unfold callStep
  split
  · next id params body env =>
    split
    · next hlen =>
      refine .bind hL (.extend hL hf.1 hlen ha) fun g y hxy hg => ?_
      exact evalBody_similar hL hpq (hf.2.mono (hL.value_mono hxy)) hg
        fun h => hL.emptyBody (h ▸ hf.1)
    · exact .raise hL rfl
  · next op _ =>
    exact op.run_similar hL (fun hp hvs => hpq (.call _ _) ⟨hp, hvs⟩) ha
  · exact .raise hL rfl

theorem step_similar (hL : L.Admissible F) (hpq : Together L F k p q) :
    Together L F k (step p) (step q) := by
  intro task y ht
  cases task with
  | eval e env => exact evalStep_similar hL hpq ht.1 ht.2
  | call procedure args => exact callStep_similar hL hpq ht.1 ht.2

/-- Doing a task at two depths: they are equal, or the smaller one may not suffice. -/
theorem perform_similar (hL : L.Admissible F) {depth depth' : Nat}
    (h : depth = depth' ∨ (k.shallower ∧ depth ≤ depth')) :
    Together L F k (perform depth) (perform depth') := by
  induction depth generalizing depth' with
  | zero =>
    have hdeep : F (.fault .tooDeep) := hL.ofRun rfl
    rcases h with rfl | ⟨hk, -⟩
    · exact fun _ _ _ => .fail hdeep
    · exact fun _ _ _ _ _ _ _ _ => ⟨.fail hdeep, .inl ⟨hk, rfl⟩⟩
  | succ depth ih =>
    cases depth' with
    | zero => rcases h with h | ⟨-, h⟩ <;> omega
    | succ depth' =>
      exact step_similar hL (ih (h.imp Nat.succ.inj fun ⟨hk, hle⟩ => ⟨hk, by omega⟩))

/-! ## One run -/

/-- The first run may be shallower, and no record differs. -/
def Leeway.depth : Leeway := ⟨Eq, fun _ h => h ▸ rfl, True⟩

theorem Store.Alike.of_frames (hf : s.frames = t.frames) (hn : s.nextId = t.nextId)
    (hr : k.record s.events t.events) : s.Alike L k t :=
  ⟨congrArg Array.size hf, hn, fun f _ => by rw [hf], hr⟩

/-- Doing a task keeps an admissible law, at any depth. -/
theorem perform_lawful (hL : L.Admissible F) (depth : Nat) {task : Task} (hs : s.Obeys L)
    (ht : task.Obeys L s.extent) :
    Lawful L F s (fun x v => v.Obeys L x) (perform depth task s) :=
  (perform_similar hL (k := .depth) (.inl rfl) task ht s s rfl hs (.of_frames rfl rfl rfl)).1

/-! ## Two runs -/

/-- Nothing but the record and the depth ever matters to a task. -/
theorem perform_agree {depth depth' : Nat} (h : depth = depth' ∨ (k.shallower ∧ depth ≤ depth'))
    (task : Task) (hst : s.Alike .free k t) :
    Agree .free k (perform depth task s) (perform depth' task t) :=
  (perform_similar Law.free_admissible h task task.obeys_free s t rfl s.obeys_free hst).2

theorem Store.Alike.frames_eq (h : s.Alike .free k t) : s.frames = t.frames :=
  Array.ext_getElem? fun f => h.frames f trivial

/-- Where only the depth may differ, a run that ends otherwise than for want of it ends as the other
one does. -/
theorem Agree.eq_of_ne {r : Except Failure α} {out : Except Failure α × Store}
    (h : Agree .free .depth (r, s) out) (hr : r ≠ .error (.fault .tooDeep)) : out = (r, s) := by
  rcases h with ⟨-, hdeep⟩ | ⟨heq, halike⟩
  · exact absurd hdeep hr
  · have hf := halike.frames_eq
    obtain ⟨-, hn, -, he⟩ := halike
    obtain ⟨r', t⟩ := out
    cases s
    cases t
    cases heq
    cases hf
    cases hn
    cases he
    rfl

/-- A task that ends otherwise than for want of depth ends in the same way at every larger depth. -/
theorem perform_le {depth depth' : Nat} (hle : depth ≤ depth') {task : Task}
    {r : Except Failure Value} {s' : Store} (h : perform depth task s = (r, s'))
    (hr : r ≠ .error (.fault .tooDeep)) : perform depth' task s = (r, s') := by
  have hagree := perform_agree (k := .depth) (.inr ⟨trivial, hle⟩) task
    (.of_frames (s := s) rfl rfl rfl)
  rw [h] at hagree
  exact hagree.eq_of_ne hr

end SmallLisp
