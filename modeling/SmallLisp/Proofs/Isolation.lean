import SmallLisp.Proofs.Record

/-!
# Lexical scope

A run gets at the frame that it starts in, at the outer frames, and at the frames that the closures
it meets were made in: `Store.Reach`. Everything else is closed to it. Evaluation is confined to the
frames reached and the frames that it makes itself (`Store.obeys_accessible`), so it changes no
other frame, and it goes the same way in every store that agrees on the frames reached
(`perform_isolates`). In particular a call has nothing to do with the frame that it is made from.
-/

namespace SmallLisp

/-- The frames that can be reached from some frames: from a frame one gets to its outer frame and to
the frames that the values in it hold on to. -/
inductive Store.Reach (s : Store) (roots : FrameId → Prop) : FrameId → Prop
  | root {f : FrameId} : roots f → Reach s roots f
  | outer {f g : FrameId} {frame : Frame} : Reach s roots f → s.frames[f]? = some frame →
    frame.outer = some g → Reach s roots g
  | binding {f g : FrameId} {frame : Frame} {b : Value × Value} : Reach s roots f →
    s.frames[f]? = some frame → b ∈ frame.bindings → b.2.Captures g → Reach s roots g

/-- An action that begins in `s` has to do only with the frames that can be reached from `roots`.
It leaves all others as they are; and in every store with as many frames and the same next identity
that agrees with `s` on the frames reached, it has the same result, writes the same output and
leaves the same behind in all frames reached or made. -/
structure Store.Isolates (s : Store) (roots : FrameId → Prop) (m : Action Value) : Prop where
  untouched : ∀ f < s.frames.size, ¬ s.Reach roots f → (m s).2.frames[f]? = s.frames[f]?
  same : ∀ t : Store, s.frames.size = t.frames.size → s.nextId = t.nextId →
    (∀ f, s.Reach roots f → s.frames[f]? = t.frames[f]?) →
      (m s).1 = (m t).1 ∧
      (∃ texts : List String,
        (m s).2.events = s.events ++ (texts.map Event.display).toArray ∧
        (m t).2.events = t.events ++ (texts.map Event.display).toArray) ∧
      (m s).2.frames.size = (m t).2.frames.size ∧ (m s).2.nextId = (m t).2.nextId ∧
      ∀ f, s.Reach roots f ∨ s.frames.size ≤ f → (m s).2.frames[f]? = (m t).2.frames[f]?

/-! ## The frames of a run -/

variable {s : Store} {roots : FrameId → Prop}

/-- The frames that a run from `s` may use: those reached at its start and those made since. -/
def Store.Accessible (s : Store) (roots : FrameId → Prop) (x : Extent) (f : FrameId) : Prop :=
  (s.Reach roots f ∨ s.frames.size ≤ f) ∧ s.frames.size ≤ x.frames

theorem Store.accessible_admissible (s : Store) (roots : FrameId → Prop) :
    (Law.confined (s.Accessible roots)).Admissible fun _ => True := by
  refine Law.confined_admissible (fun h hf => ⟨hf.1, Nat.le_trans hf.2 h⟩)
    fun {x env} henv f => ?_
  constructor
  · exact fun hf => .inl ⟨hf.1, henv.2⟩
  · rintro (hf | rfl)
    · exact ⟨hf.1, Nat.le_succ_of_le hf.2⟩
    · exact ⟨.inr henv.2, Nat.le_succ_of_le henv.2⟩

theorem Store.Reach.accessible {f : FrameId} (h : s.Reach roots f) :
    s.Accessible roots s.extent f :=
  ⟨.inl h, Nat.le_refl _⟩

/-- The frames reached are closed under all that a run can follow. -/
theorem Store.obeys_accessible (s : Store) (roots : FrameId → Prop) :
    s.Obeys (.confined (s.Accessible roots)) := by
  intro f frame hframe huse
  have hlt := lt_size_of_getElem? hframe
  have hreach : s.Reach roots f := huse.1.resolve_right (Nat.not_le_of_lt hlt)
  refine ⟨fun g hg => (hreach.outer hframe hg).accessible, fun b hb => ?_⟩
  exact Value.obeys_confined fun g hg => (hreach.binding hframe hb hg).accessible

/-- A task whose frames are among the roots has to do only with what can be reached from them. -/
theorem perform_isolates (depth : Nat) {task : Task}
    (h : task.Obeys (.confined (s.Accessible roots)) s.extent) :
    s.Isolates roots (perform depth task) := by
  have hL := s.accessible_admissible roots
  have hs := s.obeys_accessible roots
  constructor
  · intro f hf hreach
    refine (perform_lawful hL depth hs h).changes.untouched hL hs hf fun huse => hreach ?_
    exact huse.1.resolve_right (Nat.not_le_of_lt hf)
  · intro t hsize hid hframes
    have halike : s.Alike (.confined (s.Accessible roots)) (.behind s.events t.events) t := by
      refine ⟨hsize, hid, fun f hf => ?_, [], by simp, by simp⟩
      rcases hf.1 with hreach | hnew
      · exact hframes f hreach
      · rw [Array.getElem?_eq_none hnew, Array.getElem?_eq_none (hsize ▸ hnew)]
    obtain ⟨hlaw, hagree⟩ := perform_similar hL (.inl rfl) task h s t rfl hs halike
    rcases hagree with ⟨hfalse, -⟩ | ⟨hresult, hend⟩
    · exact hfalse.elim
    · exact ⟨hresult, hend.record, hend.size, hend.nextId, fun f hf =>
        hend.frames f ⟨hf, hlaw.changes.extent_le.1⟩⟩

/-! ## Code from a text -/

mutual

/-- Data hold on to no frame. -/
theorem Datum.label_captures (next : Nat) (g : FrameId) (d : Datum) :
    ¬ (d.label next).1.Captures g := by
  match d with
  | .list items => exact Datum.labels_captures (next + 1) g items
  | .nothing | .bool _ | .int _ | .float _ | .text _ | .symbol _ => exact id

theorem Datum.labels_captures (next : Nat) (g : FrameId) (ds : List Datum) :
    ¬ Value.AnyCaptures g (Datum.labels next ds).1 := by
  match ds with
  | [] => exact id
  | d :: ds =>
    rintro (h | h)
    · exact Datum.label_captures next g d h
    · exact Datum.labels_captures _ g ds h

end

/-- **Lexical scope.** Evaluating code that was read from a text has to do only with the frames that
can be reached from the frame it is evaluated in, and a call only with those that can be reached
from the procedure and the arguments. -/
theorem evaluation_isolates (depth : Nat) (s : Store) :
    (∀ (d : Datum) (next : Nat) (e : Expr) (env : FrameId), analyze (d.label next).1 = .ok e →
      s.Isolates (· = env) (perform depth (.eval e env))) ∧
    ∀ (procedure : Value) (args : List Value),
      s.Isolates (fun g => procedure.Captures g ∨ Value.AnyCaptures g args)
        (perform depth (.call procedure args)) := by
  constructor
  · intro d next e env he
    have hform : (d.label next).1.Obeys (.confined (s.Accessible (· = env))) s.extent :=
      Value.obeys_confined fun g hg => absurd hg (d.label_captures next g)
    have henv : s.Reach (· = env) env := .root rfl
    refine perform_isolates depth ⟨?_, henv.accessible⟩
    exact (analyzes_of_analyze he).obeys Law.confined_permitsPrograms trivial hform
  · intro procedure args
    refine perform_isolates depth ⟨?_, ?_⟩
    · exact Value.obeys_confined fun g hg => (Store.Reach.root (.inl hg)).accessible
    · exact Value.allObey_confined fun g hg => (Store.Reach.root (.inr hg)).accessible

/-- The procedure `f` assigns to `x`. It was made in the global frame, so the `x` of the frame
inside, from which it may be called, is closed to it. -/
theorem evaluation_isolates_caller :
    let x := Value.symbol "x"
    let f := Value.closure 7 [] [.assign x (.literal (.int 5))] 0
    let s : Store := ⟨#[⟨none, [(.symbol "f", f)]⟩, ⟨some 0, [(x, .int 1)]⟩], 8, #[]⟩
    let code : Datum := .list [.symbol "f"]
    let call : Expr := .apply (.var (.symbol "f")) []
    analyze (code.label 8).1 = .ok call ∧
      (perform 9 (.eval call 0) s).2.frames[1]? = s.frames[1]? ∧
      (perform 9 (.call f []) s).2.frames[1]? = s.frames[1]? := by
  intro x f s code call
  have hanalyze : analyze (code.label 8).1 = .ok call := by
    unfold code call
    cbv
  have hreach : ∀ roots : FrameId → Prop, (∀ g, roots g → g = 0) → ¬ s.Reach roots 1 := by
    intro roots hroots h
    have hzero : ∀ g, s.Reach roots g → g = 0 := by
      intro g hg
      induction hg with
      | root hg => exact hroots _ hg
      | outer _ hframe houter ih =>
        subst ih
        cases hframe
        cases houter
      | binding _ hframe hb hcaptures ih =>
        subst ih
        cases hframe
        cases List.mem_singleton.mp hb
        rcases hcaptures with h | h | h
        · exact h.symm
        · exact h.elim
        · exact h.elim
    cases hzero 1 h
  have hisolates := evaluation_isolates 9 s
  refine ⟨hanalyze, ?_, ?_⟩
  · exact (hisolates.1 code 8 call 0 hanalyze).untouched 1 Nat.one_lt_two (hreach _ fun _ => id)
  · refine (hisolates.2 f []).untouched 1 Nat.one_lt_two (hreach _ ?_)
    rintro g ((h | h | h) | h)
    · exact h.symm
    · exact h.elim
    · exact h.elim
    · exact h.elim

end SmallLisp
