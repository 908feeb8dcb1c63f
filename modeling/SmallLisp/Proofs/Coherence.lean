import SmallLisp.Proofs.History

/-!
# Identities of lists

A list is made once, with its items, and gets an identity that no list has had. A *heap* tells for
each identity what items the list has that got it. Under the law of a heap (`Law.heap`) every list
has the items that the heap tells for its identity, and an identity that has been taken. Each step
of a run keeps this law for some heap that tells more than the one before (`Traced.Coherent`), so
that in the end one heap tells the items of all lists that were ever at hand (`Session.coherent`).
-/

namespace SmallLisp

variable {x y : Extent} {u : Value}

/-! ## Heaps -/

/-- For each identity, the items of the list that has it. -/
abbrev Heap : Type := Nat → List Value

/-- Lists have the items that the heap tells and identities that have been taken. Values that only a
host can make do not occur. -/
def Law.heap (H : Heap) : Law where
  value x v := match v with
    | .list id items => id < x.ids ∧ H id = items
    | .nothing | .elseMark | .node _ | .clause _ => False
    | _ => True
  expr _ := True
  frame _ _ := True

theorem Law.heap_permitsPrograms (H : Heap) : (Law.heap H).PermitsPrograms :=
  ⟨fun _ => trivial, fun _ _ => trivial, fun _ _ => trivial⟩

theorem Law.heap_permitsBranches (H : Heap) : (Law.heap H).PermitsBranches :=
  ⟨fun _ _ _ => trivial, fun _ _ _ => trivial, trivial, fun _ _ => trivial⟩

/-- The second heap tells of the identities below `n` what the first one tells, when more
identities have been taken. -/
structure Heap.Extends (H : Heap) (n : Nat) (H' : Heap) (n' : Nat) : Prop where
  le : n ≤ n'
  same : ∀ id < n, H' id = H id

variable {H H' H'' : Heap} {n n' n'' : Nat} {s s' : Store} {α β : Type}

namespace Heap.Extends

theorem refl (h : n ≤ n') : H.Extends n H n' := ⟨h, fun _ _ => rfl⟩

theorem trans (h : H.Extends n H' n') (h' : H'.Extends n' H'' n'') : H.Extends n H'' n'' :=
  ⟨Nat.le_trans h.le h'.le, fun id hid =>
    (h'.same id (Nat.lt_of_lt_of_le hid h.le)).trans (h.same id hid)⟩

/-- A list is made. -/
theorem update (H : Heap) (n : Nat) (items : List Value) :
    H.Extends n (Function.update H n items) (n + 1) :=
  ⟨Nat.le_succ n, fun _ hid => Function.update_of_ne (Nat.ne_of_lt hid) ..⟩

theorem implies (h : H.Extends x.ids H' y.ids) : (Law.heap H).Implies x (.heap H') y where
  value {v} hv := by
    cases v with
    | list id items => exact ⟨Nat.lt_of_lt_of_le hv.1 h.le, (h.same id hv.1).trans hv.2⟩
    | _ => exact hv
  expr _ := trivial

end Heap.Extends

theorem Store.Obeys.extends (hs : s.Obeys (.heap H)) (h : H.Extends s.nextId H' s'.nextId)
    (hf : s'.frames = s.frames) : s'.Obeys (.heap H') := by
  intro f frame hframe _
  rw [hf] at hframe
  exact ⟨fun _ _ => trivial, fun b hb => ((hs f frame hframe trivial).2 b hb).imp h.implies⟩

theorem Task.Obeys.extends {task : Task} (ht : task.Obeys (.heap H) x)
    (h : H.Extends x.ids H' y.ids) : task.Obeys (.heap H') y := by
  cases task with
  | eval e env => exact ⟨ht.1.imp h.implies, trivial⟩
  | call f args => exact ⟨ht.1.imp h.implies, ht.2.imp h.implies⟩

theorem Store.Obeys.extend_heap (hs : s.Obeys (.heap H)) (env : FrameId) {params args : List Value}
    (ha : Value.AllObey (.heap H) s.extent args) : (s.extend env params args).Obeys (.heap H) := by
  have hx : (Law.heap H).Implies s.extent (.heap H) (s.extend env params args).extent :=
    Heap.Extends.implies ⟨Nat.le_refl s.nextId, fun _ _ => rfl⟩
  intro f frame hframe _
  rcases Store.of_extend hframe with hframe | ⟨-, rfl⟩
  · exact ⟨fun _ _ => trivial, fun b hb => ((hs f frame hframe trivial).2 b hb).imp hx⟩
  · exact ⟨fun _ _ => trivial, fun b hb =>
      (Value.allObey_iff.mp ha _ (Frame.mem_ofArgs b hb)).imp hx⟩

mutual

/-- A form that is read is made of new lists. -/
theorem Datum.label_heap (H : Heap) (next f : Nat) {d : Datum} (hd : d.IsRead) :
    ∃ H', H.Extends next H' (d.label next).2 ∧
      (d.label next).1.Obeys (.heap H') ⟨f, (d.label next).2⟩ := by
  match d with
  | .nothing => exact hd.elim
  | .bool _ | .int _ | .text _ | .symbol _ => exact ⟨H, .refl (Nat.le_refl _), trivial⟩
  | .float _ => exact ⟨H, .refl (Nat.le_succ _), trivial⟩
  | .list items =>
    obtain ⟨H', hext, hitems⟩ := Datum.labels_heap
      (Function.update H next (Datum.labels (next + 1) items).1) (next + 1) f hd
    refine ⟨H', (Heap.Extends.update ..).trans hext, ⟨hext.le, ?_⟩, hitems⟩
    rw [hext.same next (Nat.lt_succ_self _), Function.update_self]

theorem Datum.labels_heap (H : Heap) (next f : Nat) {ds : List Datum} (hds : Datum.AllRead ds) :
    ∃ H', H.Extends next H' (Datum.labels next ds).2 ∧
      Value.AllObey (.heap H') ⟨f, (Datum.labels next ds).2⟩ (Datum.labels next ds).1 := by
  match ds with
  | [] => exact ⟨H, .refl (Nat.le_refl _), trivial⟩
  | d :: ds =>
    obtain ⟨H₁, hext₁, hv⟩ := Datum.label_heap H next f hds.1
    obtain ⟨H₂, hext₂, hvs⟩ := Datum.labels_heap H₁ (d.label next).2 f hds.2
    exact ⟨H₂, hext₁.trans hext₂, hv.imp hext₂.implies, hvs⟩

end

/-! ## Histories -/

/-- The identity that is the next one in the end of a moment. -/
def Moment.next : Moment → Nat
  | .read d s => (d.label s.nextId).2
  | .task _ s | .value _ s => s.nextId

def Moment.store : Moment → Store
  | .read _ s | .task _ s | .value _ s => s

/-- What the moment is about obeys a law, and so does the store. -/
def Moment.Obeys (L : Law) : Moment → Prop
  | .read d s => (d.label s.nextId).1.Obeys L ⟨s.frames.size, (d.label s.nextId).2⟩ ∧ s.Obeys L
  | .task t s => t.Obeys L s.extent ∧ s.Obeys L
  | .value v s => v.Obeys L s.extent ∧ s.Obeys L

/-- The moments of a part of a run that takes the identities from `n` to `n'`: a heap tells the
items of the lists that are there, and the later moments come with later identities. -/
structure History (H : Heap) (n : Nat) (ms : List Moment) (n' : Nat) : Prop where
  obeys : ∀ m ∈ ms, m.Obeys (.heap H)
  range : ∀ m ∈ ms, n ≤ m.store.nextId ∧ m.store.nextId ≤ m.next ∧ m.next ≤ n'
  ordered : ms.Pairwise fun m m' => m.next ≤ m'.store.nextId

theorem Moment.Obeys.extends {m : Moment} (hm : m.Obeys (.heap H)) (hle : m.store.nextId ≤ m.next)
    (h : H.Extends m.next H' n) : m.Obeys (.heap H') := by
  have hs : H.Extends m.store.nextId H' m.store.nextId :=
    ⟨Nat.le_refl _, fun id hid => h.same id (Nat.lt_of_lt_of_le hid hle)⟩
  cases m with
  | read d s =>
    have hnext : H.Extends (d.label s.nextId).2 H' (d.label s.nextId).2 := ⟨Nat.le_refl _, h.same⟩
    exact ⟨hm.1.imp hnext.implies, hm.2.extends hs rfl⟩
  | task t s => exact ⟨hm.1.extends hs, hm.2.extends hs rfl⟩
  | value v s => exact ⟨hm.1.imp hs.implies, hm.2.extends hs rfl⟩

theorem Moment.Obeys.of_isAt {m : Moment} (hm : m.Obeys (.heap H)) (hle : m.store.nextId ≤ m.next)
    (hu : u.IsAt m) : u.Obeys (.heap H) ⟨m.store.frames.size, m.next⟩ := by
  have hstore : ∀ {s : Store}, s.Obeys (.heap H) → u.IsInStore s → u.Obeys (.heap H) s.extent :=
    fun hs ⟨f, frame, hframe, b, hb, hu⟩ => ((hs f frame hframe trivial).2 b hb).of_isIn hu
  cases m with
  | read d s =>
    rcases hu with hu | hu
    · exact hm.1.of_isIn hu
    · exact (hstore hm.2 hu).imp (Heap.Extends.refl hle).implies
  | task t s =>
    rcases hu with hu | hu
    · cases t with
      | eval e env => exact hm.1.1.of_isIn hu
      | call f args => exact hu.elim hm.1.1.of_isIn hm.1.2.of_isIn
    · exact hstore hm.2 hu
  | value v s => exact hu.elim hm.1.of_isIn (hstore hm.2)

namespace History

variable {ms ms' : List Moment}

theorem obeys_of_isAt (h : History H n ms n') {m : Moment} (hm : m ∈ ms) (hu : u.IsAt m) :
    u.Obeys (.heap H) ⟨m.store.frames.size, m.next⟩ :=
  (h.obeys m hm).of_isAt (h.range m hm).2.1 hu

theorem nil : History H n [] n' := ⟨nofun, nofun, .nil⟩

theorem singleton {m : Moment} (hm : m.Obeys (.heap H)) (hle : m.store.nextId ≤ m.next) :
    History H m.store.nextId [m] m.next where
  obeys m' h := by
    cases List.mem_singleton.mp h
    exact hm
  range m' h := by
    cases List.mem_singleton.mp h
    exact ⟨Nat.le_refl _, hle, Nat.le_refl _⟩
  ordered := List.pairwise_singleton ..

theorem append (h : History H n ms n') (hn : n ≤ n') (hext : H.Extends n' H' n'')
    (h' : History H' n' ms' n'') : History H' n (ms ++ ms') n'' where
  obeys m hm := by
    rcases List.mem_append.mp hm with hm | hm
    · obtain ⟨-, hle, hnext⟩ := h.range m hm
      exact (h.obeys m hm).extends hle ((Heap.Extends.refl hnext).trans hext)
    · exact h'.obeys m hm
  range m hm := by
    rcases List.mem_append.mp hm with hm | hm
    · obtain ⟨hlow, hle, hnext⟩ := h.range m hm
      exact ⟨hlow, hle, Nat.le_trans hnext hext.le⟩
    · obtain ⟨hlow, hle, hnext⟩ := h'.range m hm
      exact ⟨Nat.le_trans hn hlow, hle, hnext⟩
  ordered := by
    refine List.pairwise_append.mpr ⟨h.ordered, h'.ordered, fun m hm m' hm' => ?_⟩
    exact Nat.le_trans (h.range m hm).2.2 (h'.range m' hm').1

end History

/-! ## Actions -/

/-- The outcome of an action that began in `s` under one heap is as it should be under another: the
heap tells more, and a result satisfies `Q`. -/
structure Coheres (H : Heap) (s : Store) (Q : Heap → Extent → α → Prop) (H' : Heap)
    (out : Except Failure α × Store) : Prop where
  grows : H.Extends s.nextId H' out.2.nextId
  store : out.2.Obeys (.heap H')
  result : ∀ {a : α}, out.1 = .ok a → Q H' out.2.extent a

/-- Where the heap is the same as before. -/
theorem Coheres.same {Q : Heap → Extent → α → Prop} {r : Except Failure α}
    (hs : s'.Obeys (.heap H)) (hle : s.nextId ≤ s'.nextId)
    (hr : ∀ {a}, r = .ok a → Q H s'.extent a) : Coheres H s Q H (r, s') :=
  ⟨.refl hle, hs, hr⟩

/-- A value that is as the heap tells. -/
abbrev Value.Sound (H : Heap) (x : Extent) (v : Value) : Prop := v.Obeys (.heap H) x

/-- The action leads from stores that are as some heap tells to such stores. -/
def Action.Coherent (H : Heap) (s : Store) (Q : Heap → Extent → α → Prop) (m : Action α) : Prop :=
  ∃ H', Coheres H s Q H' (m s)

namespace Action.Coherent

variable {Q : Heap → Extent → α → Prop} {R : Heap → Extent → β → Prop}

theorem bind {m : Action α} {f : α → Action β} (hm : Coherent H s Q m)
    (hf : ∀ {H' s' a}, H.Extends s.nextId H' s'.nextId → s'.Obeys (.heap H') →
      Q H' s'.extent a → Coherent H' s' R (f a)) : Coherent H s R (m >>= f) := by
  obtain ⟨H₁, hm⟩ := hm
  unfold Coherent
  rw [Action.bind_apply]
  rcases hout : m s with ⟨e | a, s₁⟩ <;> rw [hout] at hm
  · exact ⟨H₁, hm.grows, hm.store, nofun⟩
  · obtain ⟨H₂, h₂⟩ := hf hm.grows hm.store (hm.result rfl)
    exact ⟨H₂, hm.grows.trans h₂.grows, h₂.store, h₂.result⟩

theorem pure {a : α} (hs : s.Obeys (.heap H)) (ha : Q H s.extent a) :
    Coherent H s Q (Pure.pure a : Action α) :=
  ⟨H, .same hs (Nat.le_refl _) fun h => by cases h; exact ha⟩

theorem fail {e : Failure} (hs : s.Obeys (.heap H)) : Coherent H s Q (Action.fail e) :=
  ⟨H, .same hs (Nat.le_refl _) nofun⟩

theorem ofExcept {r : Except Failure α} (hs : s.Obeys (.heap H))
    (hr : ∀ a, r = .ok a → Q H s.extent a) : Coherent H s Q (Action.ofExcept r) :=
  ⟨H, .same hs (Nat.le_refl _) (hr _)⟩

theorem fresh (hs : s.Obeys (.heap H)) :
    Coherent H s (fun _ _ _ => True) Action.fresh := by
  have hext : H.Extends s.nextId H (s.nextId + 1) := .refl (Nat.le_succ _)
  exact ⟨H, hext, hs.extends hext rfl, fun _ => trivial⟩

theorem newList {items : List Value} (hs : s.Obeys (.heap H))
    (hi : Value.AllObey (.heap H) s.extent items) :
    Coherent H s Value.Sound (Action.newList items) := by
  have hext := Heap.Extends.update H s.nextId items
  refine ⟨Function.update H s.nextId items, hext, hs.extends hext rfl, fun h => ?_⟩
  cases h
  exact ⟨⟨Nat.lt_succ_self _, Function.update_self ..⟩, hi.imp hext.implies⟩

theorem newNumber (n : Number) (hs : s.Obeys (.heap H)) :
    Coherent H s Value.Sound (Action.newNumber n) := by
  cases n with
  | int n => exact pure hs trivial
  | float r => exact bind (fresh hs) fun _ hs _ => pure hs trivial

theorem emit (e : Event) (hs : s.Obeys (.heap H)) :
    Coherent H s (fun _ _ _ => True) (Action.emit e) := by
  have hext : H.Extends s.nextId H s.nextId := .refl (Nat.le_refl _)
  exact ⟨H, hext, hs.extends hext rfl, fun _ => trivial⟩

theorem display (text : String) (hs : s.Obeys (.heap H)) :
    Coherent H s Value.Sound (do Action.emit (.display text); return Value.unspecified) :=
  bind (emit _ hs) fun _ hs _ => pure hs trivial

end Action.Coherent

/-! ## Primitives -/

namespace Primitive

open SmallLisp.Action (Coherent)

variable {op : Primitive} {args : List Value}

theorem arithmetic_coherent (f : List Number → Except Failure Number) (hs : s.Obeys (.heap H)) :
    Coherent H s Value.Sound (do
      let ns ← Action.ofExcept (numbers op args)
      Action.newNumber (← Action.ofExcept (f ns))) :=
  .bind (Q := fun _ _ _ => True) (.ofExcept hs fun _ _ => trivial) fun _ hs _ =>
    .bind (Q := fun _ _ _ => True) (.ofExcept hs fun _ _ => trivial) fun _ hs _ => .newNumber _ hs

theorem compareAll_coherent (holds : Option Ordering → Bool) (hs : s.Obeys (.heap H)) :
    Coherent H s Value.Sound (compareAll op holds args) :=
  .bind (Q := fun _ _ _ => True) (.ofExcept hs fun _ _ => trivial) fun _ hs _ => .pure hs trivial

theorem listItems_coherent {v : Value} (hs : s.Obeys (.heap H)) (hv : v.Obeys (.heap H) s.extent) :
    Coherent H s (fun H x => Value.AllObey (.heap H) x) (Action.ofExcept (listItems op v)) := by
  refine .ofExcept hs fun items h => ?_
  obtain ⟨id, rfl⟩ := eq_list_of_listItems h
  exact hv.2

/-- A primitive makes lists only of what it is called with. Calls by `apply` are not its own. -/
theorem run_coherent {call : Value → List Value → Action Value} (op : Primitive)
    (hs : s.Obeys (.heap H)) (ha : Value.AllObey (.heap H) s.extent args)
    (happly : ∀ f id items, op = .apply → args ≠ [f, .list id items]) :
    Coherent H s Value.Sound (op.run call args) := by
  by_cases hfits : op.Fits args.length
  case neg =>
    rw [run_of_not_fits hfits]
    exact .fail hs
  cases op with
  | add | mul => exact arithmetic_coherent _ hs
  | sub | div =>
    cases args with
    | nil => exact .fail hs
    | cons => exact arithmetic_coherent _ hs
  | numEq | numLt | numLe | numGt | numGe => exact compareAll_coherent _ hs
  | not | isNumber | isSymbol | isProcedure | isNull | isPair =>
    obtain ⟨v, rfl⟩ := hfits.exists_one rfl
    exact .pure hs trivial
  | eq | equal =>
    obtain ⟨u, v, rfl⟩ := hfits.exists_two rfl
    exact .pure hs trivial
  | cons =>
    obtain ⟨head, tail, rfl⟩ := hfits.exists_two rfl
    exact .bind (listItems_coherent hs ha.2.1) fun hext hs hi =>
      .newList hs ⟨ha.1.imp hext.implies, hi⟩
  | car =>
    obtain ⟨v, rfl⟩ := hfits.exists_one rfl
    refine .bind (listItems_coherent hs ha.1) fun {_ _ items} _ hs hi => ?_
    cases items with
    | nil => exact .fail hs
    | cons => exact .pure hs hi.1
  | cdr =>
    obtain ⟨v, rfl⟩ := hfits.exists_one rfl
    refine .bind (listItems_coherent hs ha.1) fun {_ _ items} _ hs hi => ?_
    cases items with
    | nil => exact .fail hs
    | cons => exact .newList hs hi.2
  | list => exact .newList hs ha
  | apply =>
    obtain ⟨f, v, rfl⟩ := hfits.exists_two rfl
    cases v with
    | list id items => exact absurd rfl (happly f id items rfl)
    | _ => exact .fail hs
  | display =>
    obtain ⟨v, rfl⟩ := hfits.exists_one rfl
    exact .bind (Q := fun _ _ _ => True) (.ofExcept hs fun _ _ => trivial) fun _ hs _ =>
      .display _ hs
  | newline =>
    cases hfits.eq_nil
    exact .display _ hs

end Primitive

/-! ## Evaluation -/

namespace Traced

/-- The action is coherent, and so are the moments that it goes through. -/
def Coherent (H : Heap) (s : Store) (Q : Heap → Extent → α → Prop) (m : Traced α) : Prop :=
  ∃ H', Coheres H s Q H' (m s).1 ∧ History H' s.nextId (m s).2 (m s).1.2.nextId

namespace Coherent

variable {Q : Heap → Extent → α → Prop} {R : Heap → Extent → β → Prop}

theorem lift {m : Action α} : Action.Coherent H s Q m → Coherent H s Q (Traced.lift m)
  | ⟨H', hm⟩ => ⟨H', hm, .nil⟩

theorem bind {m : Traced α} {f : α → Traced β} (hm : Coherent H s Q m)
    (hf : ∀ {H' s' a}, H.Extends s.nextId H' s'.nextId → s'.Obeys (.heap H') →
      Q H' s'.extent a → Coherent H' s' R (f a)) : Coherent H s R (m >>= f) := by
  obtain ⟨H₁, hm, hms⟩ := hm
  change Coherent H s R (Traced.bind m f)
  unfold Coherent Traced.bind
  generalize m s = out at hm hms ⊢
  obtain ⟨⟨e | a, s₁⟩, ms⟩ := out
  · exact ⟨H₁, ⟨hm.grows, hm.store, nofun⟩, hms⟩
  · obtain ⟨H₂, h₂, hms₂⟩ := hf hm.grows hm.store (hm.result rfl)
    exact ⟨H₂, ⟨hm.grows.trans h₂.grows, h₂.store, h₂.result⟩,
      hms.append hm.grows.le h₂.grows hms₂⟩

theorem note {moment : Store → Moment} (hs : s.Obeys (.heap H)) (hm : (moment s).Obeys (.heap H))
    (hstore : (moment s).store = s) (hnext : (moment s).next = s.nextId) :
    Coherent H s (fun _ _ _ => True) (Traced.note moment) := by
  have hms := History.singleton hm (by rw [hstore, hnext])
  rw [hstore, hnext] at hms
  exact ⟨H, .same hs (Nat.le_refl _) fun _ => trivial, hms⟩

theorem read {d : Datum} (hd : d.IsRead) (hs : s.Obeys (.heap H)) :
    Coherent H s Value.Sound (Traced.read d) := by
  obtain ⟨H', hext, hform⟩ := d.label_heap H s.nextId s.frames.size hd
  have hmoment : (Moment.read d s).Obeys (.heap H') :=
    ⟨hform, hs.extends ⟨Nat.le_refl _, hext.same⟩ rfl⟩
  refine ⟨H', ⟨hext, hs.extends hext rfl, fun h => ?_⟩, .singleton hmoment hext.le⟩
  cases h
  exact hform

end Coherent

/-- A way to do tasks that is coherent. -/
def Sound (p : Task → Traced Value) : Prop :=
  ∀ {H : Heap} {s : Store} {task : Task}, s.Obeys (.heap H) → task.Obeys (.heap H) s.extent →
    Coherent H s Value.Sound (p task)

variable {p : Task → Traced Value} {env : FrameId}

theorem evalAll_coherent (hp : Sound p) {es : List Expr} (hs : s.Obeys (.heap H))
    (he : Expr.AllObey (.heap H) s.extent es) :
    Coherent H s (fun H x => Value.AllObey (.heap H) x) (evalAll p env es) := by
  induction es generalizing H s with
  | nil => exact .lift (.pure hs trivial)
  | cons e es ih =>
    refine .bind (hp hs ⟨he.1, trivial⟩) fun hext hs hv => ?_
    refine .bind (ih hs (he.2.imp hext.implies)) fun hext hs hvs => ?_
    exact .lift (.pure hs ⟨hv.imp hext.implies, hvs⟩)

theorem evalBody_coherent (hp : Sound p) {body : List Expr} (hs : s.Obeys (.heap H))
    (hb : Expr.AllObey (.heap H) s.extent body) :
    Coherent H s Value.Sound (evalBody p env body) := by
  induction body generalizing H s with
  | nil => exact .lift (.fail hs)
  | cons e es ih =>
    have hfirst : Coherent H s Value.Sound (p (.eval e env)) := hp hs ⟨hb.1, trivial⟩
    cases es with
    | nil => exact hfirst
    | cons => exact .bind hfirst fun hext hs _ => ih hs (hb.2.imp hext.implies)

theorem change_coherent {change : Store → Except Failure Store} (hs : s.Obeys (.heap H))
    (hput : ∀ s', change s = .ok s' → ∃ f name v, s' = s.put f name v ∧
      v.Obeys (.heap H) s.extent) :
    Coherent H s (fun _ _ _ => True) (lift (Action.change change)) := by
  refine .lift ⟨H, ?_⟩
  unfold Action.change
  split
  · next s' hs' =>
    obtain ⟨f, name, v, rfl, hv⟩ := hput s' hs'
    exact .same (hs.put hv) (Nat.le_refl _) fun _ => trivial
  · exact .same hs (Nat.le_refl _) fun _ => trivial

theorem evalStep_coherent (hp : Sound p) {e : Expr} (hs : s.Obeys (.heap H))
    (he : e.Obeys (.heap H) s.extent) : Coherent H s Value.Sound (evalStep p env e) := by
  cases e with
  | literal v | quote v => exact .lift (.pure hs he.2)
  | var name =>
    exact .lift ⟨H, .same hs (Nat.le_refl _) fun h => hs.lookup trivial h⟩
  | assign target value =>
    refine .bind (hp hs ⟨he.2, trivial⟩) fun {_ _ v} _ hs hv => ?_
    refine .bind (change_coherent hs fun s' h => ?_) fun _ hs _ => .lift (.pure hs trivial)
    unfold Store.assign at h
    split at h
    · next g _ => cases h; exact ⟨g, target, v, rfl, hv⟩
    · cases h
  | define target value =>
    refine .bind (hp hs ⟨he.2, trivial⟩) fun {_ _ v} _ hs hv => ?_
    refine .bind (change_coherent hs fun s' h => ?_) fun _ hs _ => .lift (.pure hs trivial)
    unfold Store.define at h
    split at h
    · cases h; exact ⟨env, target, v, rfl, hv⟩
    · cases h
  | branch test consequent alternative =>
    obtain ⟨-, ht, hc, ha⟩ := he
    refine .bind (hp hs ⟨ht, trivial⟩) fun {_ _ v} hext hs _ => ?_
    split
    · exact hp hs ⟨ha.imp hext.implies, trivial⟩
    · exact hp hs ⟨hc.imp hext.implies, trivial⟩
  | lambda params body =>
    refine .lift (.bind (.fresh hs) fun hext hs _ => .pure hs ?_)
    exact ⟨trivial, he.2.imp hext.implies⟩
  | sequence body => exact evalBody_coherent hp hs he.2
  | cond clauses =>
    refine .bind (Q := fun H x e => e.Obeys (.heap H) x) (.lift (.ofExcept hs fun e' h => ?_))
      fun _ hs he' => hp hs ⟨he', trivial⟩
    exact Clause.toBranches_obeys (Law.heap_permitsBranches H) he.2 h
  | apply operator operands =>
    refine .bind (hp hs ⟨he.2.1, trivial⟩) fun hext hs hf => ?_
    refine .bind (evalAll_coherent hp hs (he.2.2.imp hext.implies)) fun hext hs hargs => ?_
    exact hp hs ⟨hf.imp hext.implies, hargs⟩
  | «foreign» id => exact .lift (.fail hs)
  | raw form =>
    refine .bind (Q := fun H x e => e.Obeys (.heap H) x) (.lift (.ofExcept hs fun e' h => ?_))
      fun _ hs he' => hp hs ⟨he', trivial⟩
    exact (analyzes_of_analyze h).obeys (Law.heap_permitsPrograms H) trivial he.2

theorem callStep_coherent (hp : Sound p) {procedure : Value} {args : List Value}
    (hs : s.Obeys (.heap H)) (hf : procedure.Obeys (.heap H) s.extent)
    (ha : Value.AllObey (.heap H) s.extent args) :
    Coherent H s Value.Sound (callStep p procedure args) := by
  fun_cases callStep p procedure args with
  | case1 id params body env =>
    have hx : (Law.heap H).Implies s.extent (.heap H) (s.extend env params args).extent :=
      Heap.Extends.implies ⟨Nat.le_refl s.nextId, fun _ _ => rfl⟩
    refine .bind (Q := fun H x _ => Expr.AllObey (.heap H) x body)
      (.lift ⟨H, .same (hs.extend_heap env ha) (Nat.le_refl _) fun _ => hf.2.imp hx⟩)
      fun _ hs hb => evalBody_coherent hp hs hb
  | case2 => exact .lift (.fail hs)
  | case3 => exact hp hs ⟨ha.1, ha.2.1.2⟩
  | case4 procedure args hclosure happly =>
    cases procedure with
    | closure id params body env => exact (hclosure id params body env rfl).elim
    | primitive op id =>
      exact .lift (op.run_coherent hs ha fun f i items hop => happly id f i items (hop ▸ rfl))
    | _ => exact .lift (.fail hs)

theorem step_coherent (hp : Sound p) {task : Task} (hs : s.Obeys (.heap H))
    (ht : task.Obeys (.heap H) s.extent) : Coherent H s Value.Sound (step p task) := by
  cases task with
  | eval e env => exact evalStep_coherent hp hs ht.1
  | call procedure args => exact callStep_coherent hp hs ht.1 ht.2

theorem perform_sound (depth : Nat) : Sound (perform depth) := by
  induction depth with
  | zero =>
    intro H s task hs ht
    exact .bind (.note hs ⟨ht, hs⟩ rfl rfl) fun _ hs _ => .lift (.fail hs)
  | succ depth ih =>
    intro H s task hs ht
    refine .bind (.note hs ⟨ht, hs⟩ rfl rfl) fun hext hs _ => ?_
    refine .bind (step_coherent ih hs (ht.extends hext)) fun _ hs hv => ?_
    exact .bind (.note hs ⟨hv, hs⟩ rfl rfl) fun hext hs _ => .lift (.pure hs (hv.imp hext.implies))

theorem evalDatum_coherent (limit : Nat) {d : Datum} (hd : d.IsRead) (hs : s.Obeys (.heap H)) :
    Coherent H s Value.Sound (evalDatum limit d) := by
  refine .bind (.read hd hs) fun {_ _ form} _ hs hform => ?_
  refine .bind (.lift (.emit _ hs)) fun hext hs _ => perform_sound limit hs ⟨?_, trivial⟩
  cases form with
  | node => exact hform.elim
  | _ => exact ⟨trivial, hform.imp hext.implies⟩

end Traced

/-- **One heap for a whole session.** It tells the items of all lists that have ever been there, and
new lists have come with new identities from moment to moment. -/
theorem Session.coherent {ms : List Moment} (h : Session ms s) :
    ∃ H, History H 0 ms s.nextId ∧ s.Obeys (.heap H) := by
  induction h with
  | start => exact ⟨fun _ => [], .nil, Store.initial_obeys (fun _ => trivial) fun _ => trivial⟩
  | record e _ ih =>
    obtain ⟨H, hms, hs⟩ := ih
    exact ⟨H, hms, hs.extends (.refl (Nat.le_refl _)) rfl⟩
  | datum limit hd _ ih =>
    obtain ⟨H, hms, hs⟩ := ih
    obtain ⟨H', hout, hms'⟩ := Traced.evalDatum_coherent limit hd hs
    exact ⟨H', hms.append (Nat.zero_le _) hout.grows hms', hout.store⟩

end SmallLisp
