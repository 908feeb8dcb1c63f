import SmallLisp.Proofs.Lawful

/-!
# Similar runs

Two runs go through the same steps when they start in stores that are alike: in the frames in use
under a law and in the supply of identities, but not in other frames, in what has been recorded, or
in how deep tasks may nest. `Similar` says this of two actions, together with what a law says of the
first of them, so that one walk over the evaluator shows both. This module has the rules for the
actions that evaluation is made of.
-/

namespace SmallLisp

/-- What may differ between two runs. -/
structure Leeway where
  /-- How the records of the two runs are related. -/
  record : Array Event → Array Event → Prop
  /-- Both runs go on recording the same output. -/
  record_push {a b : Array Event} (text : String) :
    record a b → record (a.push (.display text)) (b.push (.display text))
  /-- Whether the first run may end early for want of depth. -/
  shallower : Prop

variable {α β : Type} {L : Law} {F : Failure → Prop} {k : Leeway} {s t : Store} {x y : Extent}

/-- Stores that differ in their records and in frames that are not in use. -/
structure Store.Alike (L : Law) (k : Leeway) (s t : Store) : Prop where
  size : s.frames.size = t.frames.size
  nextId : s.nextId = t.nextId
  frames : ∀ f, L.frame s.extent f → s.frames[f]? = t.frames[f]?
  record : k.record s.events t.events

/-- Two runs end in the same way, or the first one ran out of depth where it may. -/
def Agree (L : Law) (k : Leeway) (x y : Except Failure α × Store) : Prop :=
  (k.shallower ∧ x.1 = .error (.fault .tooDeep)) ∨ (x.1 = y.1 ∧ x.2.Alike L k y.2)

/-- From stores alike that reach as far as `x`, two actions end in the same way, and the first one
keeps the law. -/
def Similar (L : Law) (F : Failure → Prop) (k : Leeway) (x : Extent) (m n : Action α)
    (Q : Extent → α → Prop) : Prop :=
  ∀ s t : Store, s.extent = x → s.Obeys L → s.Alike L k t →
    Lawful L F s Q (m s) ∧ Agree L k (m s) (n t)

namespace Store.Alike

theorem find? (h : s.Alike L k t) (hs : s.Obeys L) {f : FrameId} (hf : L.frame s.extent f)
    (name : Value) : s.find? f name = t.find? f name := by
  induction f using Nat.strongRecOn with
  | ind f ih =>
    rw [Store.find?, Store.find?, ← h.frames f hf]
    split
    · rfl
    · next frame hframe =>
      split
      · rfl
      · split
        · next outer houter =>
          split
          · next hlt => exact ih outer hlt ((hs f frame hframe hf).1 outer houter)
          · rfl
        · rfl

theorem lookup (h : s.Alike L k t) (hs : s.Obeys L) {f : FrameId} (hf : L.frame s.extent f)
    (name : Value) : s.lookup f name = t.lookup f name := by
  rw [Store.lookup, Store.lookup, ← h.find? hs hf]
  cases hfind : s.find? f name with
  | none => rfl
  | some g => simp only [Option.bind_some, Store.get?, h.frames g (hs.find? hf hfind)]

theorem put (h : s.Alike L k t) (f : FrameId) (name v : Value) :
    (s.put f name v).Alike L k (t.put f name v) where
  size := by simp [Store.put, h.size]
  nextId := h.nextId
  frames g hg := by
    rw [s.extent_put] at hg
    simp [Store.put, Array.getElem?_modify, h.frames g hg]
  record := h.record

theorem extend (h : s.Alike L k t) (hL : L.Admissible F) {f : FrameId} (hf : L.frame s.extent f)
    (params args : List Value) : (s.extend f params args).Alike L k (t.extend f params args) where
  size := by simp [Store.extend, h.size]
  nextId := h.nextId
  frames g hg := by
    rw [s.extent_extend] at hg
    simp only [Store.extend, Array.getElem?_push, h.size]
    split
    · rfl
    · next hne =>
      refine h.frames g (((hL.newFrame hf g).mp hg).resolve_right ?_)
      rwa [← h.size] at hne
  record := h.record

end Store.Alike

namespace Similar

variable {Q : Extent → α → Prop} {R : Extent → β → Prop}

/-- An action that has the same result in stores alike and leaves them alike. -/
theorem of_eq {m n : Action α} (hm : ∀ s : Store, s.extent = x → s.Obeys L → Lawful L F s Q (m s))
    (h : ∀ s t : Store, s.extent = x → s.Obeys L → s.Alike L k t →
      (m s).1 = (n t).1 ∧ (m s).2.Alike L k (n t).2) : Similar L F k x m n Q :=
  fun s t hx hs hst => ⟨hm s hx hs, .inr (h s t hx hs hst)⟩

theorem bind (hL : L.Admissible F) {m n : Action α} {f g : α → Action β}
    (hm : Similar L F k x m n Q)
    (hf : ∀ (a : α) (y : Extent), x ≤ y → Q y a → Similar L F k y (f a) (g a) R) :
    Similar L F k x (m >>= f) (n >>= g) R := by
  rintro s t rfl hs hst
  obtain ⟨hlaw, hagree⟩ := hm s t rfl hs hst
  rw [Action.bind_apply, Action.bind_apply]
  generalize m s = out at hlaw hagree
  generalize n t = out' at hagree
  obtain ⟨r, s'⟩ := out
  obtain ⟨r', t'⟩ := out'
  cases r with
  | error e =>
    refine ⟨⟨hlaw.changes, nofun, fun h => hlaw.failure (by cases h; rfl)⟩, ?_⟩
    rcases hagree with ⟨hk, hdeep⟩ | ⟨heq, halike⟩
    · cases hdeep
      exact .inl ⟨hk, rfl⟩
    · cases heq
      exact .inr ⟨rfl, halike⟩
  | ok a =>
    rcases hagree with ⟨-, hdeep⟩ | ⟨heq, halike⟩
    · cases hdeep
    · cases heq
      obtain ⟨hlaw', hagree'⟩ := hf a s'.extent hlaw.changes.extent_le (hlaw.value rfl) s' t' rfl
        (hlaw.changes.obeys hL hs) halike
      exact ⟨hlaw'.after hlaw.changes, hagree'⟩

theorem pure {a : α} (ha : Q x a) : Similar L F k x (Pure.pure a) (Pure.pure a) Q :=
  of_eq (fun _ hx _ => .pure (hx ▸ ha)) fun _ _ _ _ h => ⟨rfl, h⟩

theorem fail {e : Failure} (he : F e) :
    Similar L F k x (Action.fail e : Action α) (Action.fail e) Q :=
  of_eq (fun _ _ _ => .fail he) fun _ _ _ _ h => ⟨rfl, h⟩

theorem raise (hL : L.Admissible F) {e : Error} (he : e.kind.isTextual = false) :
    Similar L F k x (Action.raise e : Action α) (Action.raise e) Q :=
  fail (hL.ofRun (Error.raise_isOfRun he))

theorem ofExcept {r : Except Failure α} (hr : ∀ a, r = .ok a → Q x a)
    (he : ∀ e, r = .error e → F e) :
    Similar L F k x (Action.ofExcept r) (Action.ofExcept r) Q :=
  of_eq (fun _ hx _ => .ofExcept (hx ▸ hr) he) fun _ _ _ _ h => ⟨rfl, h⟩

theorem fresh (hL : L.Admissible F) : Similar L F k x Action.fresh Action.fresh
    (fun y id => y = x.moreIds ∧ id = x.ids) := by
  refine of_eq (fun s hx _ => hx ▸ .fresh) fun s t _ _ h => ⟨congrArg Except.ok h.nextId, ?_⟩
  exact ⟨h.size, congrArg (· + 1) h.nextId, fun f hf =>
    h.frames f (hL.frame_mono (x := (Action.fresh s).2.extent) (Nat.le_refl _) hf), h.record⟩

theorem display (text : String) : Similar L F k x (Action.emit (.display text))
    (Action.emit (.display text)) (fun y _ => y = x) :=
  of_eq (fun _ hx _ => hx ▸ .emit _) fun _ _ _ _ h =>
    ⟨rfl, h.size, h.nextId, h.frames, k.record_push text h.record⟩

theorem lookup (hL : L.Admissible F) {f : FrameId} (hf : L.frame x f) (name : Value) :
    Similar L F k x (Action.lookup f name) (Action.lookup f name) (fun y v => v.Obeys L y) :=
  of_eq (fun _ hx hs => .lookup hL hs (hx ▸ hf)) fun _ _ hx hs h =>
    ⟨h.lookup hs (hx ▸ hf) name, h⟩

theorem extend (hL : L.Admissible F) {id : Nat} {params args : List Value} {body : List Expr}
    {env : FrameId} (hf : L.value x (.closure id params body env))
    (hlen : args.length = params.length) (ha : Value.AllObey L x args) :
    Similar L F k x (Action.extend env params args) (Action.extend env params args)
      (fun y g => L.frame y g) :=
  of_eq (fun _ hx _ => .extend hL (hx ▸ hf) hlen (hx ▸ ha)) fun _ _ hx _ h =>
    ⟨congrArg Except.ok h.size, h.extend hL (hx ▸ hL.closureFrame hf) params args⟩

theorem assign (hL : L.Admissible F) {f : FrameId} {name v : Value} {e : Expr}
    (he : L.expr (.assign name e)) (hf : L.frame x f) (hv : v.Obeys L x) :
    Similar L F k x (Action.change (·.assign f name v)) (Action.change (·.assign f name v))
      (fun _ _ => True) := by
  refine of_eq (fun _ hx _ => .assign hL he (hx ▸ hf) (hx ▸ hv)) fun s t hx hs h => ?_
  simp only [Action.change, Store.assign, ← h.find? hs (hx ▸ hf)]
  cases s.find? f name with
  | some g => exact ⟨rfl, h.put g name v⟩
  | none => exact ⟨rfl, h⟩

theorem define (hL : L.Admissible F) {f : FrameId} {name v : Value} {e : Expr}
    (he : L.expr (.define name e)) (hf : L.frame x f) (hv : v.Obeys L x) :
    Similar L F k x (Action.change (·.define f name v)) (Action.change (·.define f name v))
      (fun _ _ => True) := by
  refine of_eq (fun _ hx _ => .define hL he (hx ▸ hf) (hx ▸ hv)) fun s t _ _ h => ?_
  simp only [Action.change, Store.define]
  cases name.isSymbol with
  | true => exact ⟨rfl, h.put f name v⟩
  | false => exact ⟨rfl, h⟩

theorem newList (hL : L.Admissible F) {items : List Value} (hi : Value.AllObey L x items) :
    Similar L F k x (Action.newList items) (Action.newList items) (fun y v => v.Obeys L y) := by
  refine bind hL (fresh hL) fun id y _ ⟨hy, hid⟩ => pure ?_
  rw [hy, hid]
  exact ⟨hL.list _ _, hi.mono (hL.value_mono x.le_moreIds)⟩

theorem newNumber (hL : L.Admissible F) (n : Number) :
    Similar L F k x (Action.newNumber n) (Action.newNumber n) (fun y v => v.Obeys L y) := by
  cases n with
  | int n => exact pure (hL.int _ n)
  | float r =>
    refine bind hL (fresh hL) fun id y _ ⟨hy, hid⟩ => pure ?_
    rw [hy, hid]
    exact hL.float _ r

end Similar

end SmallLisp
