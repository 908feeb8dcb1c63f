import Mathlib.Data.List.Chain
import SmallLisp.Proofs.AnalyzedCode
import SmallLisp.Proofs.Growth

/-!
# Well-formed states

A store is well-formed (`Store.WellFormed`) when its frames hang together by outer frames that were
made before them, down to the global frame, when they bind distinct symbols, and when their values
are those that programs compute with: closures have analyzed code and hold on to frames that exist
(`Law.wellFormed`). Every permitted change keeps a store well-formed (`Store.Change.wellFormed`), so
every state of an interpreter that was given nothing but texts is (`reachable_wellFormed`).
-/

namespace SmallLisp

/-- The values that programs compute with, each by itself: numbers, booleans, texts, symbols, the
unspecific value, lists, the primitives under their own identities, and closures with a body of
analyzed code, distinct parameters and a frame that exists. -/
def Law.wellFormed : Law where
  value x v := match v with
    | .bool _ | .int _ | .float .. | .text _ | .symbol _ | .list .. | .unspecified => True
    | .primitive op id => (op, id) ∈ Primitive.all.zipIdx
    | .closure _ params body env => (Expr.lambda params body).IsShaped ∧ env < x.frames
    | .nothing | .elseMark | .node _ | .clause _ => False
  expr := Expr.IsShaped
  frame x f := f < x.frames

theorem Law.wellFormed_admissible : Law.wellFormed.Admissible fun _ => True :=
  -- What concerns code only is as for analyzed code.
  have code : Law.analyzed.Admissible fun _ => True := Law.analyzed_admissible fun _ => trivial
  { value_mono := by
      intro x y v h hv
      cases v with
      | closure => exact ⟨hv.1, Nat.lt_of_lt_of_le hv.2 h.1⟩
      | _ => exact hv
    frame_mono := fun h hf => Nat.lt_of_lt_of_le hf h
    bool := fun _ _ => trivial
    int := fun _ _ => trivial
    unspecified := fun _ => trivial
    float := fun _ _ => trivial
    list := fun _ _ => trivial
    closure := fun h henv => ⟨h, henv⟩
    closureFrame := fun h => h.2
    newFrame := fun _ _ => Nat.lt_succ_iff_lt_or_eq
    branch := code.branch
    sequence := code.sequence
    false := code.false
    analysis := fun h => h.elim
    ofRun := code.ofRun
    unanalyzable := code.unanalyzable
    unknown := code.unknown
    emptyBody := fun _ => trivial
    emptySequence := code.emptySequence
    misplacedElse := code.misplacedElse
    undefinable := code.undefinable }

theorem Law.wellFormed_permitsPrograms : Law.wellFormed.PermitsPrograms where
  shaped h := h
  text _ _ := trivial
  symbol _ _ := trivial

/-! ## Names -/

/-- Binding a symbol keeps the names distinct symbols. -/
theorem DistinctSymbols.putIn {bs : List (Value × Value)} {name v : Value}
    (h : DistinctSymbols (bs.map (·.1))) (hn : name.isSymbol) :
    DistinctSymbols ((Frame.putIn name v bs).map (·.1)) := by
  rcases Frame.putIn_cases name v bs with hsame | ⟨hnone, hlast⟩
  · rwa [hsame]
  · obtain ⟨names, hnodup, hnames⟩ := h
    obtain ⟨text, rfl⟩ := Form.eq_symbol_of_isSymbol hn
    refine ⟨names ++ [text], ?_, by simp [hlast, hnames]⟩
    rw [List.nodup_append]
    refine ⟨hnodup, by simp, fun a ha b hb => ?_⟩
    have hmem : Value.symbol a ∈ bs.map (·.1) := hnames ▸ List.mem_map_of_mem ha
    obtain ⟨c, hc, hca⟩ := List.mem_map.mp hmem
    have halike := hnone c hc
    rw [hca] at halike
    rw [List.mem_singleton.mp hb]
    rintro rfl
    simp [Value.alike, Value.alikeAtom] at halike

theorem DistinctSymbols.isSymbol {vs : List Value} (h : DistinctSymbols vs) :
    ∀ v ∈ vs, v.isSymbol := by
  obtain ⟨names, -, rfl⟩ := h
  intro v hv
  obtain ⟨name, -, rfl⟩ := List.mem_map.mp hv
  rfl

/-- A frame for a call binds distinct symbols if all parameters are symbols. -/
theorem Frame.ofArgs_names {outer : FrameId} {params args : List Value}
    (h : ∀ v ∈ params, v.isSymbol) : DistinctSymbols (Frame.ofArgs outer params args).names := by
  let P (bs : List (Value × Value)) : Prop := DistinctSymbols (bs.map (·.1))
  have hput : ∀ bs, ∀ param ∈ params, ∀ arg ∈ args, P bs → P (Frame.putIn param arg bs) :=
    fun _ param hparam _ _ ih => ih.putIn (h param hparam)
  exact Frame.ofArgs_induction ⟨[], .nil, rfl⟩ hput

/-! ## Stores -/

namespace Store

/-- The frames hang together, down to the global one, and what they bind is well-formed. -/
structure WellFormed (s : Store) : Prop where
  global : s.frames[global]?.map (·.outer) = some none
  /-- Every other frame lies inside one that was made before it. -/
  outer : ∀ {f : FrameId} {frame : Frame}, s.frames[f]? = some frame → f ≠ Store.global →
    ∃ g < f, frame.outer = some g
  names : ∀ {f : FrameId} {frame : Frame}, s.frames[f]? = some frame → DistinctSymbols frame.names
  values : ∀ {f : FrameId} {frame : Frame}, s.frames[f]? = some frame →
    ∀ b ∈ frame.bindings, b.2.Obeys .wellFormed s.extent

/-- The frames hang together, down to the global one, whatever they bind. -/
structure IsRooted (s : Store) : Prop where
  global : s.frames[global]?.map (·.outer) = some none
  outer : ∀ {f : FrameId} {frame : Frame}, s.frames[f]? = some frame → f ≠ Store.global →
    ∃ g < f, frame.outer = some g

variable {s s' : Store} {f : FrameId}

theorem WellFormed.isRooted (hs : s.WellFormed) : s.IsRooted := ⟨hs.global, hs.outer⟩

/-- Frames keep their outer frames, so those that there were hang together as before. -/
theorem IsRooted.of_grows (hs : s.IsRooted) (h : s.Grows s')
    (hnew : ∀ {f : FrameId} {frame : Frame}, s'.frames[f]? = some frame → s.frames.size ≤ f →
      ∃ g < f, frame.outer = some g) : s'.IsRooted := by
  constructor
  · obtain ⟨frame, hframe, houter⟩ := Option.map_eq_some_iff.mp hs.global
    obtain ⟨frame', hframe', hgrows⟩ := h.frame hframe
    rw [hframe', Option.map_some, hgrows.outer, houter]
  · intro f frame' hframe' hne
    by_cases hf : f < s.frames.size
    · obtain ⟨frame'', hframe'', hgrows⟩ := h.frame (Array.getElem?_eq_getElem hf)
      cases hframe'.symm.trans hframe''
      rw [hgrows.outer]
      exact hs.outer (Array.getElem?_eq_getElem hf) hne
    · exact hnew hframe' (Nat.le_of_not_lt hf)

theorem IsRooted.put (hs : s.IsRooted) (f : FrameId) (name v : Value) :
    (s.put f name v).IsRooted := by
  refine hs.of_grows (.put s f name v) fun hframe hle => absurd (lt_size_of_getElem? hframe) ?_
  simpa [Store.put] using hle

theorem IsRooted.extend (hs : s.IsRooted) (hf : f < s.frames.size) (params args : List Value) :
    (s.extend f params args).IsRooted := by
  refine hs.of_grows (.extend s f params args) fun hframe hle => ?_
  rcases of_extend hframe with hold | ⟨rfl, rfl⟩
  · exact absurd (lt_size_of_getElem? hold) (Nat.not_lt_of_le hle)
  · exact ⟨f, hf, rfl⟩

theorem initial_wellFormed : initial.WellFormed := by
  have hobeys : initial.Obeys .wellFormed := initial_obeys id fun _ => trivial
  -- There is only one frame.
  have hglobal : ∀ {f : FrameId} {frame : Frame}, initial.frames[f]? = some frame → f = global :=
    fun h => Nat.lt_one_iff.mp (lt_size_of_getElem? h)
  refine ⟨rfl, fun h hne => absurd (hglobal h) hne, fun {f frame} h => ?_, fun {f frame} h =>
    (hobeys f frame h (lt_size_of_getElem? h)).2⟩
  cases hglobal h
  cases h
  exact ⟨Primitive.all.map (·.name) ++ ["true", "false"], by decide, rfl⟩

theorem WellFormed.obeys (hs : s.WellFormed) : s.Obeys .wellFormed := by
  intro f frame hframe _
  refine ⟨fun g hg => ?_, hs.values hframe⟩
  by_cases hf : f = Store.global
  · have houter := hs.global
    rw [← hf, hframe] at houter
    cases hg.symm.trans (Option.some.inj houter)
  · obtain ⟨g', hlt, houter⟩ := hs.outer hframe hf
    cases hg.symm.trans houter
    exact Nat.lt_trans hlt (lt_size_of_getElem? hframe)

/-- One change keeps a store well-formed. -/
theorem Change.wellFormed (hs : s.WellFormed) (h : s.Change .wellFormed s') : s'.WellFormed := by
  have hobeys := h.obeys Law.wellFormed_admissible hs.obeys
  have hvalues : ∀ {f : FrameId} {frame : Frame}, s'.frames[f]? = some frame →
      ∀ b ∈ frame.bindings, b.2.Obeys .wellFormed s'.extent :=
    fun {f frame} hframe => (hobeys f frame hframe (lt_size_of_getElem? hframe)).2
  have hput : ∀ {g : FrameId} {name v : Value}, name.isSymbol → s' = s.put g name v →
      s'.WellFormed := by
    rintro g name v hname rfl
    obtain ⟨hglobal, houter⟩ := hs.isRooted.put g name v
    refine ⟨hglobal, houter, fun hframe' => ?_, hvalues⟩
    obtain ⟨frame, hframe, rfl | rfl⟩ := of_put hframe'
    · exact hs.names hframe
    · exact (hs.names hframe).putIn hname
  cases h with
  | ids | record => exact ⟨hs.global, hs.outer, hs.names, hvalues⟩
  | assign hname => exact hput hname rfl
  | define _ _ hname => exact hput hname rfl
  | @extend _ params args _ _ hclosure =>
    obtain ⟨⟨hparams, -⟩, henv⟩ := hclosure
    obtain ⟨hglobal, houter⟩ := hs.isRooted.extend henv params args
    refine ⟨hglobal, houter, fun hframe' => ?_, hvalues⟩
    rcases of_extend hframe' with hframe | ⟨-, rfl⟩
    · exact hs.names hframe
    · exact Frame.ofArgs_names hparams.isSymbol

theorem Changes.wellFormed (hs : s.WellFormed) (h : s.Changes .wellFormed s') :
    s'.WellFormed := by
  induction h with
  | refl => exact hs
  | tail _ h ih => exact h.wellFormed ih

/-! ## Chains of frames -/

/-- The frame `f` lies directly inside the frame `g`. -/
def Inside (s : Store) (f g : FrameId) : Prop := s.frames[f]?.bind (·.outer) = some g

/-- From a frame one gets to the global one by going outwards, to ever older frames. -/
structure IsScopeChain (s : Store) (f : FrameId) (chain : List FrameId) : Prop where
  first : chain.head? = some f
  last : chain.getLast? = some global
  linked : chain.IsChain s.Inside
  older : chain.Pairwise (· > ·)

theorem IsRooted.isScopeChain (hs : s.IsRooted) (hf : f < s.frames.size) :
    s.IsScopeChain f (s.scopeChain f) := by
  induction f using Nat.strongRecOn with
  | ind f ih =>
    have hframe := Array.getElem?_eq_getElem hf
    have holder := s.scopeChain_pairwise f
    rw [scopeChain, hframe] at holder ⊢
    by_cases hg : f = Store.global
    · have houter := hs.global
      rw [← hg, hframe, Option.map_some, Option.some.injEq] at houter
      simp only [houter] at holder ⊢
      exact ⟨rfl, congrArg some hg, .singleton _, holder⟩
    · obtain ⟨g, hlt, houter⟩ := hs.outer hframe hg
      obtain ⟨hfirst, hlast, hlinked, -⟩ := ih g hlt (Nat.lt_trans hlt hf)
      simp only [houter, if_pos hlt] at holder ⊢
      obtain ⟨rest, hrest⟩ : ∃ rest, s.scopeChain g = g :: rest :=
        List.head?_eq_some_iff.mp hfirst
      rw [hrest] at hlast hlinked holder ⊢
      refine ⟨rfl, hlast, .cons_cons ?_ hlinked, holder⟩
      rw [Inside, hframe, Option.bind_some, houter]

theorem WellFormed.isScopeChain (hs : s.WellFormed) (hf : f < s.frames.size) :
    s.IsScopeChain f (s.scopeChain f) :=
  hs.isRooted.isScopeChain hf

end Store

namespace Interpreter

/-- **Every state of an interpreter is well-formed**, after any operations on any texts, of which
some may have failed: the frames hang together, they bind distinct symbols to the values that
programs compute with, and from every frame one gets outwards to the global one. -/
theorem reachable_wellFormed [CharacterNames] {s : Store} (h : Reachable (fun _ => False) s) :
    s.WellFormed ∧ ∀ f < s.frames.size, s.IsScopeChain f (s.scopeChain f) := by
  have hinitial := Store.initial_wellFormed
  have hs : s.WellFormed := Store.Changes.wellFormed hinitial
    (h.changes Law.wellFormed_admissible Law.wellFormed_permitsPrograms hinitial.obeys Nat.one_pos
      fun hgiven => hgiven.elim)
  exact ⟨hs, fun f hf => hs.isScopeChain hf⟩

/-- A closure that holds on to the frame of a call, and a failure behind it. -/
theorem reachable_wellFormed_closure :
    let s := (eval 20 "(define (f x) (lambda (y) x)) (define g (f '(1 car))) (g)"
      Store.initial).2
    Reachable (fun _ => False) s ∧ s.frames.size = 2 ∧ s.WellFormed ∧
      s.IsScopeChain 1 (s.scopeChain 1) := by
  intro s
  have h : Reachable (fun _ => False) s := .eval 20 _ (.start 20 .none)
  have hsize : s.frames.size = 2 := by
    unfold s
    decide +kernel
  have hs := reachable_wellFormed h
  exact ⟨h, hsize, hs.1, hs.2 1 (hsize ▸ Nat.one_lt_two)⟩

end Interpreter

end SmallLisp
