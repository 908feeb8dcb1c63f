import SmallLisp.Proofs.Record

/-!
# The store only grows

Whatever a run does, and however it ends, frames and bindings stay: `Store.Grows` says that every
frame is still there with the same outer frame and that its names are those from before, in the same
places, with perhaps some more behind them. One change of the store grows it (`Store.Change.grows`),
so an evaluation does, and what is bound along a chain of frames stays bound.
-/

namespace SmallLisp

variable {L : Law} {s s' : Store} {f : FrameId} {name v : Value}

/-! ## Names -/

namespace Frame

/-- The names that a frame binds, in the order of their first binding. -/
def names (frame : Frame) : List Value := frame.bindings.map (·.1)

/-- No name is bound twice. -/
def IsFunctional (frame : Frame) : Prop := frame.names.Pairwise fun a b => a.alike b = false

/-- Binding a name changes the value in its place, or puts the name behind all others. -/
theorem putIn_cases (name v : Value) (bs : List (Value × Value)) :
    (putIn name v bs).map (·.1) = bs.map (·.1) ∨
      (∀ b ∈ bs, b.1.alike name = false) ∧ putIn name v bs = bs ++ [(name, v)] := by
  induction bs with
  | nil => exact .inr ⟨nofun, rfl⟩
  | cons b bs ih =>
    rw [putIn]
    cases hb : b.1.alike name with
    | true => exact .inl rfl
    | false =>
      rcases ih with hsame | ⟨hnone, hlast⟩
      · exact .inl (congrArg (b.1 :: ·) hsame)
      · exact .inr ⟨List.forall_mem_cons.mpr ⟨hb, hnone⟩, congrArg (b :: ·) hlast⟩

theorem get?_isSome_iff {frame : Frame} :
    (frame.get? name).isSome ↔ ∃ a ∈ frame.names, a.alike name := by
  simp [get?, names]

/-- A frame after some time: the outer frame is the same, and the names are with perhaps some more
behind them. -/
structure Grows (frame frame' : Frame) : Prop where
  outer : frame'.outer = frame.outer
  names : frame.names <+: frame'.names
  functional : frame.IsFunctional → frame'.IsFunctional

namespace Grows

variable {a b c : Frame}

theorem refl (a : Frame) : a.Grows a := ⟨rfl, List.prefix_rfl, id⟩

theorem trans (h : a.Grows b) (h' : b.Grows c) : a.Grows c :=
  ⟨h'.outer.trans h.outer, h.names.trans h'.names, h'.functional ∘ h.functional⟩

theorem put (a : Frame) (name v : Value) : a.Grows (a.put name v) := by
  rcases putIn_cases name v a.bindings with hsame | ⟨hnone, hlast⟩
  · have hnames : (a.put name v).names = a.names := hsame
    refine ⟨rfl, hnames ▸ List.prefix_rfl, fun h => ?_⟩
    rwa [IsFunctional, hnames]
  · have hnames : (a.put name v).names = a.names ++ [name] := by
      rw [Frame.names, Frame.put, hlast, List.map_append]
      rfl
    refine ⟨rfl, hnames ▸ List.prefix_append _ _, fun h => ?_⟩
    rw [IsFunctional, hnames, List.pairwise_append]
    refine ⟨h, List.pairwise_singleton _ _, fun c hc d hd => ?_⟩
    obtain ⟨b, hb, rfl⟩ := List.mem_map.mp hc
    rw [List.mem_singleton.mp hd]
    exact hnone b hb

theorem get?_isSome (h : a.Grows b) (hn : (a.get? name).isSome) : (b.get? name).isSome := by
  obtain ⟨c, hc, halike⟩ := get?_isSome_iff.mp hn
  exact get?_isSome_iff.mpr ⟨c, h.names.subset hc, halike⟩

end Grows

end Frame

/-! ## Stores -/

namespace Store

/-- A store after some time: every frame has grown, and so has the record. -/
structure Grows (s s' : Store) : Prop where
  frame : ∀ {f : FrameId} {frame : Frame}, s.frames[f]? = some frame →
    ∃ frame', s'.frames[f]? = some frame' ∧ frame.Grows frame'
  events : ∃ more : List Event, s'.events = s.events ++ more.toArray

namespace Grows

variable {a b c : Store}

theorem of_frames (hf : b.frames = a.frames) (more : List Event)
    (he : b.events = a.events ++ more.toArray) : a.Grows b :=
  ⟨fun {_ frame} h => ⟨frame, hf ▸ h, .refl frame⟩, more, he⟩

theorem refl (a : Store) : a.Grows a := of_frames rfl [] (by simp)

theorem trans (h : a.Grows b) (h' : b.Grows c) : a.Grows c := by
  constructor
  · intro f frame hframe
    obtain ⟨frame₁, hframe₁, hgrows⟩ := h.frame hframe
    obtain ⟨frame₂, hframe₂, hgrows'⟩ := h'.frame hframe₁
    exact ⟨frame₂, hframe₂, hgrows.trans hgrows'⟩
  · obtain ⟨u, hu⟩ := h.events
    obtain ⟨w, hw⟩ := h'.events
    exact ⟨u ++ w, by simp [hw, hu]⟩

theorem put (a : Store) (f : FrameId) (name v : Value) : a.Grows (a.put f name v) := by
  refine ⟨fun {g frame} hframe => ?_, [], by simp [Store.put]⟩
  by_cases hg : f = g
  · exact ⟨frame.put name v, by simp [Store.put, Array.getElem?_modify, hg, hframe], .put ..⟩
  · exact ⟨frame, by simp [Store.put, Array.getElem?_modify, hg, hframe], .refl frame⟩

theorem extend (a : Store) (f : FrameId) (params args : List Value) :
    a.Grows (a.extend f params args) := by
  refine ⟨fun {g frame} hframe => ⟨frame, ?_, .refl frame⟩, [], by simp [Store.extend]⟩
  rw [Store.extend, Array.getElem?_push, if_neg (Nat.ne_of_lt (lt_size_of_getElem? hframe)), hframe]

end Grows

theorem Change.grows (h : s.Change L s') : s.Grows s' := by
  cases h with
  | ids => exact .of_frames rfl [] (by simp)
  | record e => exact .of_frames rfl [e] (by simp)
  | assign | define => exact .put ..
  | extend => exact .extend ..

theorem Changes.grows (h : s.Changes L s') : s.Grows s' := by
  induction h with
  | refl => exact .refl s
  | tail _ h ih => exact ih.trans h.grows

/-! ## Chains of frames -/

/-- The frames from `f` outwards. -/
def scopeChain (s : Store) (f : FrameId) : List FrameId :=
  match s.frames[f]? with
  | none => []
  | some frame =>
    match frame.outer with
    | some g => if g < f then f :: scopeChain s g else [f]
    | none => [f]
termination_by f

/-- A name is found in the first frame of the chain that binds it. -/
theorem find?_eq_scopeChain (s : Store) (f : FrameId) (name : Value) :
    s.find? f name = (s.scopeChain f).find? fun g => (s.get? g name).isSome := by
  induction f using Nat.strongRecOn with
  | ind f ih =>
    rw [Store.find?, scopeChain]
    cases hframe : s.frames[f]? with
    | none => rfl
    | some frame =>
      have hget : s.get? f name = frame.get? name := by rw [Store.get?, hframe, Option.bind_some]
      rcases houter : frame.outer with _ | g
      · simp only [houter, List.find?_cons, hget]
        cases (frame.get? name).isSome <;> rfl
      · by_cases hlt : g < f
        · simp only [houter, if_pos hlt, List.find?_cons, hget, ih g hlt]
          cases (frame.get? name).isSome <;> rfl
        · simp only [houter, if_neg hlt, List.find?_cons, hget]
          cases (frame.get? name).isSome <;> rfl

theorem le_of_mem_scopeChain {g : FrameId} (h : g ∈ s.scopeChain f) : g ≤ f := by
  induction f using Nat.strongRecOn with
  | ind f ih =>
    rw [scopeChain] at h
    split at h
    · cases h
    · split at h
      · next outer _ =>
        split at h
        · next hlt =>
          rcases List.mem_cons.mp h with rfl | h
          · exact Nat.le_refl _
          · exact Nat.le_of_lt (Nat.lt_of_le_of_lt (ih outer hlt h) hlt)
        · exact Nat.le_of_eq (List.mem_singleton.mp h)
      · exact Nat.le_of_eq (List.mem_singleton.mp h)

/-- No frame lies on a chain twice. -/
theorem scopeChain_pairwise (s : Store) (f : FrameId) : (s.scopeChain f).Pairwise (· > ·) := by
  induction f using Nat.strongRecOn with
  | ind f ih =>
    rw [scopeChain]
    split
    · exact .nil
    · split
      · next g _ =>
        split
        · next hlt =>
          refine List.pairwise_cons.mpr ⟨fun h hh => ?_, ih g hlt⟩
          exact Nat.lt_of_le_of_lt (le_of_mem_scopeChain hh) hlt
        · exact List.pairwise_singleton _ _
      · exact List.pairwise_singleton _ _

namespace Grows

/-- The chain of a frame is settled when the frame is made. -/
theorem scopeChain_eq (h : s.Grows s') (hf : f < s.frames.size) :
    s'.scopeChain f = s.scopeChain f := by
  induction f using Nat.strongRecOn with
  | ind f ih =>
    obtain ⟨frame', hframe', hgrows⟩ := h.frame (Array.getElem?_eq_getElem hf)
    rw [scopeChain, scopeChain, hframe', Array.getElem?_eq_getElem hf]
    simp only [hgrows.outer]
    split
    · next g _ =>
      by_cases hlt : g < f
      · rw [if_pos hlt, if_pos hlt, ih g hlt (Nat.lt_trans hlt hf)]
      · rw [if_neg hlt, if_neg hlt]
    · rfl

theorem get?_isSome (h : s.Grows s') (hn : (s.get? f name).isSome) :
    (s'.get? f name).isSome := by
  cases hframe : s.frames[f]? with
  | none => rw [Store.get?, hframe] at hn; cases hn
  | some frame =>
    obtain ⟨frame', hframe', hgrows⟩ := h.frame hframe
    rw [Store.get?, hframe, Option.bind_some] at hn
    rw [Store.get?, hframe', Option.bind_some]
    exact hgrows.get?_isSome hn

theorem find?_isSome (h : s.Grows s') (hf : f < s.frames.size) (hn : (s.find? f name).isSome) :
    (s'.find? f name).isSome := by
  rw [find?_eq_scopeChain, List.find?_isSome] at hn ⊢
  obtain ⟨g, hg, hbound⟩ := hn
  exact ⟨g, h.scopeChain_eq hf ▸ hg, h.get?_isSome hbound⟩

end Grows

end Store

/-- **The store only grows**, whatever is evaluated and however that ends. Every frame is still
there with the same outer frame, its names are those from before with perhaps some more behind them,
and none is bound twice that was not; the output is that from before with perhaps more behind it. So
the chain of a frame stays the same, and what was bound in a frame of it still is. -/
theorem perform_only_grows (depth : Nat) (task : Task) (s : Store) :
    let s' := (perform depth task s).2
    s.Grows s' ∧ (∃ more, s'.output = s.output ++ more) ∧
      ∀ f < s.frames.size, s'.scopeChain f = s.scopeChain f ∧
        ∀ name, (∀ g ∈ s.scopeChain f, (s.get? g name).isSome → (s'.get? g name).isSome) ∧
          ((s.find? f name).isSome → (s'.find? f name).isSome) := by
  intro s'
  have hgrows : s.Grows s' :=
    (perform_lawful Law.free_admissible depth s.obeys_free task.obeys_free).changes.grows
  obtain ⟨more, hmore⟩ := hgrows.events
  refine ⟨hgrows, ⟨_, Store.output_append hmore⟩, fun f hf => ?_⟩
  refine ⟨hgrows.scopeChain_eq hf, fun name => ⟨fun g _ => ?_, ?_⟩⟩
  · exact hgrows.get?_isSome
  · exact hgrows.find?_isSome hf

/-- An argument is a definition, and the call then fails: nothing is undone. -/
theorem perform_only_grows_failing :
    let task := Task.eval (.apply (.var (.symbol "car"))
      [.define (.symbol "x") (.literal (.int 1))]) Store.global
    let s' := (perform 9 task Store.initial).2
    (perform 9 task Store.initial).1.isOk = false ∧
      Store.initial.Grows s' ∧ (∃ more, s'.output = Store.initial.output ++ more) ∧
      s'.scopeChain 0 = Store.initial.scopeChain 0 ∧
      (Store.initial.get? 0 (.symbol "car")).isSome ∧ (s'.get? 0 (.symbol "car")).isSome ∧
      (Store.initial.find? 0 (.symbol "car")).isSome ∧ (s'.find? 0 (.symbol "car")).isSome := by
  intro task s'
  have hfails : (perform 9 task Store.initial).1.isOk = false := by
    unfold task
    decide +kernel
  have hget : (Store.initial.get? 0 (.symbol "car")).isSome := by decide +kernel
  have hfind : (Store.initial.find? 0 (.symbol "car")).isSome := by decide +kernel
  have hmem : 0 ∈ Store.initial.scopeChain 0 := by
    rw [Store.scopeChain]
    exact .head _
  obtain ⟨hgrows, houtput, hchains⟩ := perform_only_grows 9 task Store.initial
  obtain ⟨hchain, hbound⟩ := hchains 0 Nat.one_pos
  obtain ⟨hstays, hfound⟩ := hbound (.symbol "car")
  exact ⟨hfails, hgrows, houtput, hchain, hget, hstays 0 hmem hget, hfind, hfound hfind⟩

end SmallLisp
