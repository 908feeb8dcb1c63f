import Mathlib.Logic.Relation
import SmallLisp.Proofs.Law

/-!
# What a run does to the store

What a law must say for evaluation to keep it is collected in `Law.Admissible`: one field for each
kind of value that a run makes, for each expression that the meaning of `cond` makes, and for each
failure. `Store.Change` lists what a step of a run can do to the store when all is done as a law
permits; every fact about the stores that a run goes through is a fact about its changes
(`Store.Changes.obeys`, `Store.Changes.untouched`). An outcome is `Lawful` when it came about by
such changes and ends with a value that obeys the law or with a permitted failure.
-/

namespace SmallLisp

/-- The failures that evaluation can end with when there is nothing wrong with the program text. -/
def Failure.isOfRun : Failure → Bool
  | .error e => !e.kind.isTextual
  | .fault .integerTooLarge | .fault .quotientTooLarge | .fault .numeralTooLong
  | .fault .tooDeep => true
  | .fault _ => false

theorem Error.raise_isOfRun {e : Error} (h : e.kind.isTextual = false) : e.raise.isOfRun := by
  unfold Error.raise
  split
  · simp [Failure.isOfRun, h]
  · rfl

/-- A law that evaluation keeps, when it may end with the failures in `F`. -/
structure Law.Admissible (L : Law) (F : Failure → Prop) : Prop where
  value_mono : ∀ {x y : Extent} {v : Value}, x ≤ y → L.value x v → L.value y v
  /-- Frames stay in use, and which are is not a matter of identities. -/
  frame_mono : ∀ {x y : Extent} {f : FrameId}, x.frames ≤ y.frames → L.frame x f → L.frame y f
  bool : ∀ (x : Extent) (b : Bool), L.value x (.bool b)
  int : ∀ (x : Extent) (n : Int), L.value x (.int n)
  unspecified : ∀ x : Extent, L.value x .unspecified
  float : ∀ (x : Extent) (r : Float), L.value x.moreIds (.float r x.ids)
  list : ∀ (x : Extent) (items : List Value), L.value x.moreIds (.list x.ids items)
  closure : ∀ {x : Extent} {params : List Value} {body : List Expr} {env : FrameId},
    L.expr (.lambda params body) → L.frame x env →
      L.value x.moreIds (.closure x.ids params body env)
  closureFrame : ∀ {x : Extent} {id : Nat} {params : List Value} {body : List Expr}
    {env : FrameId}, L.value x (.closure id params body env) → L.frame x env
  /-- A frame that is made inside one in use comes into use, and no other does. -/
  newFrame : ∀ {x : Extent} {env : FrameId}, L.frame x env →
    ∀ f, L.frame x.moreFrames f ↔ L.frame x f ∨ f = x.frames
  branch : ∀ test consequent alternative : Expr, L.expr (.branch test consequent alternative)
  sequence : ∀ (e e' : Expr) (es : List Expr), L.expr (.sequence (e :: e' :: es))
  false : L.expr .false
  /-- Analysis of a form that may be evaluated gives an expression that may be. -/
  analysis : ∀ {x : Extent} {form : Value} {e : Expr}, L.expr (.raw form) → form.Obeys L x →
    analyze form = .ok e → e.Obeys L x
  ofRun : ∀ {e : Failure}, e.isOfRun → F e
  unanalyzable : ∀ {form : Value} {e : Failure}, L.expr (.raw form) → analyze form = .error e →
    F e
  unknown : ∀ {id : Nat}, L.expr (.foreign id) →
    F (Error.unknownExpression (.node (.foreign id))).raise
  emptyBody : ∀ {x : Extent} {id : Nat} {params : List Value} {env : FrameId},
    L.value x (.closure id params [] env) → F Error.emptySequence.raise
  emptySequence : L.expr (.sequence []) → F Error.emptySequence.raise
  misplacedElse : ∀ {clauses : List Clause} {e : Failure}, L.expr (.cond clauses) →
    Clause.toBranches clauses = .error e → F e
  undefinable : ∀ {target : Value} {value : Expr}, L.expr (.define target value) →
    target.isSymbol = Bool.false → F (Error.undefinable target).raise

/-- The outer frame is in use and the values in the frame obey a law. -/
def Frame.Obeys (L : Law) (x : Extent) (frame : Frame) : Prop :=
  (∀ g ∈ frame.outer, L.frame x g) ∧ ∀ b ∈ frame.bindings, b.2.Obeys L x

/-- Every frame in use obeys a law. -/
def Store.Obeys (L : Law) (s : Store) : Prop :=
  ∀ (i : Nat) (frame : Frame), s.frames[i]? = some frame → L.frame s.extent i →
    frame.Obeys L s.extent

/-- A task may be done under a law. -/
def Task.Obeys (L : Law) (x : Extent) : Task → Prop
  | .eval e env => e.Obeys L x ∧ L.frame x env
  | .call procedure args => procedure.Obeys L x ∧ Value.AllObey L x args

/-- One change of the store, made as a law permits. -/
inductive Store.Change (L : Law) : Store → Store → Prop
  | ids {s : Store} {next : Nat} : s.nextId ≤ next → Change L s { s with nextId := next }
  | record {s : Store} (e : Event) : Change L s { s with events := s.events.push e }
  | assign {s : Store} {f g : FrameId} {name v : Value} {e : Expr} :
    L.expr (.assign name e) → L.frame s.extent f → s.find? f name = some g →
      v.Obeys L s.extent → Change L s (s.put g name v)
  | define {s : Store} {f : FrameId} {name v : Value} {e : Expr} :
    L.expr (.define name e) → L.frame s.extent f → name.isSymbol →
      v.Obeys L s.extent → Change L s (s.put f name v)
  | extend {s : Store} {id : Nat} {params args : List Value} {body : List Expr} {env : FrameId} :
    L.value s.extent (.closure id params body env) → args.length = params.length →
      Value.AllObey L s.extent args → Change L s (s.extend env params args)

/-- Changes of the store one after the other. -/
abbrev Store.Changes (L : Law) : Store → Store → Prop := Relation.ReflTransGen (Store.Change L)

variable {L : Law} {F : Failure → Prop} {s s' : Store} {x y : Extent} {α β : Type}

/-! ## Stores -/

theorem Frame.mem_putIn {name v : Value} {bs : List (Value × Value)} {b : Value × Value}
    (h : b ∈ Frame.putIn name v bs) : b ∈ bs ∨ b.2 = v := by
  induction bs with
  | nil =>
    rw [Frame.putIn, List.mem_singleton] at h
    exact .inr (h ▸ rfl)
  | cons c bs ih =>
    rw [Frame.putIn] at h
    split at h
    · rcases List.mem_cons.mp h with rfl | h
      · exact .inr rfl
      · exact .inl (.tail _ h)
    · rcases List.mem_cons.mp h with rfl | h
      · exact .inl (.head _)
      · exact (ih h).imp (.tail _) id

/-- The bindings of a new frame come about one by one, each of a parameter to an argument. -/
theorem Frame.ofArgs_induction {P : List (Value × Value) → Prop} {outer : FrameId}
    {params args : List Value} (nil : P [])
    (put : ∀ bs, ∀ param ∈ params, ∀ arg ∈ args, P bs → P (Frame.putIn param arg bs)) :
    P (Frame.ofArgs outer params args).bindings := by
  have hfold : ∀ pairs : List (Value × Value), (∀ p ∈ pairs, p.1 ∈ params ∧ p.2 ∈ args) →
      ∀ bs, P bs → P (pairs.foldl (fun bs b => Frame.putIn b.1 b.2 bs) bs) := by
    intro pairs
    induction pairs with
    | nil => exact fun _ bs hbs => hbs
    | cons p pairs ih =>
      intro hp bs hbs
      obtain ⟨hparam, harg⟩ := hp p (.head _)
      exact ih (fun q hq => hp q (.tail _ hq)) _ (put bs p.1 hparam p.2 harg hbs)
  exact hfold _ (fun p hp => List.of_mem_zip hp) [] nil

/-- The values of a new frame are arguments. -/
theorem Frame.mem_ofArgs {outer : FrameId} {params args : List Value} :
    ∀ b ∈ (Frame.ofArgs outer params args).bindings, b.2 ∈ args := by
  refine Frame.ofArgs_induction (P := fun bs => ∀ b ∈ bs, b.2 ∈ args) ?_ ?_
  · intro b hb
    cases hb
  intro bs param _ arg harg ih b hb
  rcases Frame.mem_putIn hb with hb | hb
  · exact ih b hb
  · exact hb ▸ harg

theorem Frame.Obeys.mono (hL : L.Admissible F) (h : x ≤ y) {frame : Frame}
    (hf : frame.Obeys L x) : frame.Obeys L y :=
  ⟨fun g hg => hL.frame_mono h.1 (hf.1 g hg), fun b hb => (hf.2 b hb).mono (hL.value_mono h)⟩

theorem Store.extent_put (s : Store) (f : FrameId) (name v : Value) :
    (s.put f name v).extent = s.extent := by
  simp [Store.put, Store.extent]

theorem Store.extent_extend (s : Store) (f : FrameId) (params args : List Value) :
    (s.extend f params args).extent = s.extent.moreFrames := by
  simp [Store.extend, Store.extent, Extent.moreFrames]

theorem Store.Obeys.of_frames (hs : s.Obeys L) (hL : L.Admissible F) (hf : s'.frames = s.frames)
    (hx : s.nextId ≤ s'.nextId) : s'.Obeys L := by
  have hsize : s'.extent.frames = s.extent.frames := by simp [Store.extent, hf]
  intro i frame hi huse
  rw [hf] at hi
  have hframe := hs i frame hi (hL.frame_mono (Nat.le_of_eq hsize) huse)
  exact hframe.mono hL ⟨Nat.le_of_eq hsize.symm, hx⟩

/-- A frame after a binding is one from before, perhaps with the name bound in it. -/
theorem Store.of_put {f g : FrameId} {name v : Value} {frame' : Frame}
    (h : (s.put f name v).frames[g]? = some frame') :
    ∃ frame, s.frames[g]? = some frame ∧ (frame' = frame ∨ frame' = frame.put name v) := by
  simp only [Store.put, Array.getElem?_modify] at h
  split at h
  · obtain ⟨frame, hframe, rfl⟩ := Option.map_eq_some_iff.mp h
    exact ⟨frame, hframe, .inr rfl⟩
  · exact ⟨frame', h, .inl rfl⟩

theorem Store.of_extend {f g : FrameId} {params args : List Value} {frame : Frame}
    (h : (s.extend f params args).frames[g]? = some frame) :
    s.frames[g]? = some frame ∨ (g = s.frames.size ∧ frame = .ofArgs f params args) := by
  simp only [Store.extend, Array.getElem?_push] at h
  split at h
  · next hg => exact .inr ⟨hg, (Option.some.inj h).symm⟩
  · exact .inl h

theorem Store.lt_size_of_getElem? {f : FrameId} {frame : Frame} (h : s.frames[f]? = some frame) :
    f < s.frames.size :=
  (Array.getElem?_eq_some_iff.mp h).1

theorem Store.Obeys.put (hs : s.Obeys L) {f : FrameId} {name v : Value}
    (hv : v.Obeys L s.extent) : (s.put f name v).Obeys L := by
  intro i frame' hi huse
  rw [s.extent_put] at huse ⊢
  obtain ⟨frame, hframe, rfl | rfl⟩ := Store.of_put hi
  · exact hs i frame' hframe huse
  · obtain ⟨houter, hvalues⟩ := hs i frame hframe huse
    refine ⟨houter, fun b hb => ?_⟩
    rcases Frame.mem_putIn hb with hb | hb
    · exact hvalues b hb
    · exact hb ▸ hv

theorem Store.Obeys.extend (hs : s.Obeys L) (hL : L.Admissible F) {f : FrameId}
    {params args : List Value} (hf : L.frame s.extent f) (ha : Value.AllObey L s.extent args) :
    (s.extend f params args).Obeys L := by
  have hx := s.extent.le_moreFrames
  intro i frame hi huse
  rw [s.extent_extend] at huse ⊢
  rcases Store.of_extend hi with hframe | ⟨-, rfl⟩
  · have hne : i ≠ s.extent.frames := Nat.ne_of_lt (Store.lt_size_of_getElem? hframe)
    exact (hs i frame hframe (((hL.newFrame hf i).mp huse).resolve_right hne)).mono hL hx
  · refine ⟨?_, fun b hb => ?_⟩
    · rintro g ⟨⟩
      exact hL.frame_mono hx.1 hf
    · exact (Value.allObey_iff.mp ha _ (Frame.mem_ofArgs b hb)).mono (hL.value_mono hx)

/-- What is looked up in a frame in use is found in one. -/
theorem Store.Obeys.find? (hs : s.Obeys L) {f g : FrameId} {name : Value}
    (hf : L.frame s.extent f) (h : s.find? f name = some g) : L.frame s.extent g := by
  induction f using Nat.strongRecOn with
  | ind f ih =>
    rw [Store.find?] at h
    split at h
    · cases h
    · next frame hframe =>
      split at h
      · cases h
        exact hf
      · split at h
        · next outer houter =>
          split at h
          · next hlt => exact ih outer hlt ((hs f frame hframe hf).1 outer houter) h
          · cases h
        · cases h

theorem Store.Obeys.lookup (hs : s.Obeys L) {f : FrameId} {name v : Value}
    (hf : L.frame s.extent f) (h : s.lookup f name = .ok v) : v.Obeys L s.extent := by
  unfold Store.lookup at h
  split at h
  · next w hw =>
    cases h
    obtain ⟨g, hfind, hg⟩ := Option.bind_eq_some_iff.mp hw
    obtain ⟨frame, hi, hv⟩ := Option.bind_eq_some_iff.mp hg
    obtain ⟨b, hb, rfl⟩ := Option.map_eq_some_iff.mp hv
    exact (hs g frame hi (hs.find? hf hfind)).2 b (List.mem_of_find?_eq_some hb)
  · cases h

/-! ## Changes -/

namespace Store

theorem Change.extent_le (h : s.Change L s') : s.extent ≤ s'.extent := by
  cases h with
  | ids hle => exact ⟨Nat.le_refl _, hle⟩
  | record => exact Extent.le_refl _
  | assign | define => exact (extent_put ..).symm ▸ Extent.le_refl _
  | extend => exact (extent_extend ..).symm ▸ Extent.le_moreFrames _

theorem Change.obeys (hL : L.Admissible F) (hs : s.Obeys L) (h : s.Change L s') : s'.Obeys L := by
  cases h with
  | ids hle => exact hs.of_frames hL rfl hle
  | record => exact hs.of_frames hL rfl (Nat.le_refl _)
  | assign _ _ _ hv => exact hs.put hv
  | define _ _ _ hv => exact hs.put hv
  | extend hclosure _ hargs => exact hs.extend hL (hL.closureFrame hclosure) hargs

/-- Of the frames that exist none comes into use. -/
theorem Change.frame_iff (hL : L.Admissible F) (h : s.Change L s') {f : FrameId}
    (hf : f < s.frames.size) : L.frame s'.extent f ↔ L.frame s.extent f := by
  cases h with
  | ids => exact ⟨hL.frame_mono (Nat.le_refl _), hL.frame_mono (Nat.le_refl _)⟩
  | record => exact .rfl
  | assign | define => rw [extent_put]
  | extend hclosure =>
    rw [extent_extend, hL.newFrame (hL.closureFrame hclosure), or_iff_left]
    exact Nat.ne_of_lt hf

/-- A frame that is not in use stays as it is. -/
theorem Change.untouched (hs : s.Obeys L) (h : s.Change L s') {f : FrameId}
    (hf : f < s.frames.size) (huse : ¬ L.frame s.extent f) : s'.frames[f]? = s.frames[f]? := by
  have hput : ∀ {g : FrameId} {name v : Value}, L.frame s.extent g →
      (s.put g name v).frames[f]? = s.frames[f]? := by
    intro g name v hg
    have hne : g ≠ f := by
      rintro rfl
      exact huse hg
    simp [Store.put, Array.getElem?_modify, hne]
  cases h with
  | ids | record => rfl
  | assign _ hg hfind => exact hput (hs.find? hg hfind)
  | define _ hg => exact hput hg
  | extend => simp [Store.extend, Array.getElem?_push, Nat.ne_of_lt hf]

namespace Changes

theorem extent_le (h : s.Changes L s') : s.extent ≤ s'.extent := by
  induction h with
  | refl => exact Extent.le_refl _
  | tail _ h ih => exact Extent.le_trans ih h.extent_le

theorem obeys (hL : L.Admissible F) (hs : s.Obeys L) (h : s.Changes L s') : s'.Obeys L := by
  induction h with
  | refl => exact hs
  | tail _ h ih => exact h.obeys hL ih

theorem frame_iff (hL : L.Admissible F) (h : s.Changes L s') {f : FrameId}
    (hf : f < s.frames.size) : L.frame s'.extent f ↔ L.frame s.extent f := by
  induction h with
  | refl => exact .rfl
  | tail hs h ih => exact (h.frame_iff hL (Nat.lt_of_lt_of_le hf (extent_le hs).1)).trans ih

/-- Frames that were not in use at the beginning are the same in the end. -/
theorem untouched (hL : L.Admissible F) (hs : s.Obeys L) (h : s.Changes L s') {f : FrameId}
    (hf : f < s.frames.size) (huse : ¬ L.frame s.extent f) : s'.frames[f]? = s.frames[f]? := by
  induction h with
  | refl => rfl
  | tail hch h ih =>
    have hf' := Nat.lt_of_lt_of_le hf (extent_le hch).1
    rw [h.untouched (obeys hL hs hch) hf' (mt (frame_iff hL hch hf).mp huse), ih]

end Changes

end Store

/-! ## Outcomes -/

/-- The outcome `out` of an action that began in `s` keeps a law: it came about by permitted
changes, a result satisfies `Q`, and a failure is in `F`. -/
structure Lawful (L : Law) (F : Failure → Prop) (s : Store) (Q : Extent → α → Prop)
    (out : Except Failure α × Store) : Prop where
  changes : s.Changes L out.2
  value : ∀ {a : α}, out.1 = .ok a → Q out.2.extent a
  failure : ∀ {e : Failure}, out.1 = .error e → F e

namespace Lawful

variable {Q : Extent → α → Prop} {R : Extent → β → Prop}

theorem after {out : Except Failure α × Store} (h : s.Changes L s') (hout : Lawful L F s' Q out) :
    Lawful L F s Q out :=
  ⟨h.trans hout.changes, hout.value, hout.failure⟩

theorem bind {m : Action α} {f : α → Action β} (hm : Lawful L F s Q (m s))
    (hf : ∀ (a : α) (s' : Store), s.Changes L s' → Q s'.extent a → Lawful L F s' R (f a s')) :
    Lawful L F s R ((m >>= f) s) := by
  rw [Action.bind_apply]
  rcases hout : m s with ⟨r, s'⟩
  rw [hout] at hm
  cases r with
  | ok a => exact (hf a s' hm.changes (hm.value rfl)).after hm.changes
  | error e => exact ⟨hm.changes, nofun, fun h => hm.failure (by cases h; rfl)⟩

theorem pure {a : α} (ha : Q s.extent a) : Lawful L F s Q ((Pure.pure a : Action α) s) :=
  ⟨.refl, fun h => by cases h; exact ha, nofun⟩

theorem fail {e : Failure} (he : F e) : Lawful L F s Q (Action.fail e s) :=
  ⟨.refl, nofun, fun h => by cases h; exact he⟩

theorem ofExcept {r : Except Failure α} (hr : ∀ a, r = .ok a → Q s.extent a)
    (he : ∀ e, r = .error e → F e) : Lawful L F s Q (Action.ofExcept r s) :=
  ⟨.refl, fun h => hr _ h, fun h => he _ h⟩

theorem fresh : Lawful L F s (fun x id => x = s.extent.moreIds ∧ id = s.extent.ids)
    (Action.fresh s) :=
  ⟨.single (.ids (Nat.le_succ _)), fun h => by cases h; exact ⟨rfl, rfl⟩, nofun⟩

theorem emit (e : Event) : Lawful L F s (fun x _ => x = s.extent) (Action.emit e s) :=
  ⟨.single (.record e), fun _ => rfl, nofun⟩

theorem lookup (hL : L.Admissible F) (hs : s.Obeys L) {f : FrameId} {name : Value}
    (hf : L.frame s.extent f) :
    Lawful L F s (fun x v => v.Obeys L x) (Action.lookup f name s) := by
  refine ⟨.refl, fun h => hs.lookup hf h, fun {e} h => ?_⟩
  simp only [Action.lookup, Store.lookup] at h
  split at h
  · cases h
  · cases h
    exact hL.ofRun (Error.raise_isOfRun rfl)

theorem extend (hL : L.Admissible F) {id : Nat} {params args : List Value} {body : List Expr}
    {env : FrameId} (hf : L.value s.extent (.closure id params body env))
    (hlen : args.length = params.length) (ha : Value.AllObey L s.extent args) :
    Lawful L F s (fun x g => L.frame x g) (Action.extend env params args s) := by
  refine ⟨.single (.extend hf hlen ha), fun {g} h => ?_, nofun⟩
  cases h
  exact s.extent_extend .. ▸ (hL.newFrame (hL.closureFrame hf) _).mpr (.inr rfl)

theorem assign (hL : L.Admissible F) {f : FrameId} {name v : Value} {e : Expr}
    (he : L.expr (.assign name e)) (hf : L.frame s.extent f) (hv : v.Obeys L s.extent) :
    Lawful L F s (fun _ _ => True) (Action.change (·.assign f name v) s) := by
  simp only [Action.change, Store.assign]
  cases h : s.find? f name with
  | some g => exact ⟨.single (.assign he hf h hv), fun _ => trivial, fun h => by cases h⟩
  | none => exact .fail (hL.ofRun (Error.raise_isOfRun rfl))

theorem define (hL : L.Admissible F) {f : FrameId} {name v : Value} {e : Expr}
    (he : L.expr (.define name e)) (hf : L.frame s.extent f) (hv : v.Obeys L s.extent) :
    Lawful L F s (fun _ _ => True) (Action.change (·.define f name v) s) := by
  simp only [Action.change, Store.define]
  cases hsym : name.isSymbol with
  | true => exact ⟨.single (.define he hf hsym hv), fun _ => trivial, fun h => by cases h⟩
  | false => exact .fail (hL.undefinable he hsym)

end Lawful

end SmallLisp
