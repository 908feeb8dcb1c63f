import Mathlib.Data.List.Find
import SmallLisp.Proofs.Growth

/-!
# Variables that no code assigns

A variable is *spared* by code in which no assignment and no definition has it as its target. Each
change of the store by such code leaves the bindings of the variable alone
(`Store.Change.get?_eq`), and the frames that a call makes are new. So the variable keeps its value
in every frame that there is, and in every scope.
-/

namespace SmallLisp

/-- No expression assigns or defines the variable, and what is still to be analyzed satisfies
`raw`. -/
def Law.sparing (name : String) (raw : Value → Prop) : Law where
  value _ _ := True
  expr
    | .assign target _ | .define target _ => target ≠ .symbol name
    | .raw form => raw form
    | _ => True
  frame _ _ := True

/-- No expression assigns or defines the variable, also none that comes of an analysis. -/
def Law.unassigned (name : String) : Law :=
  .sparing name fun form =>
    ∀ e, analyze form = .ok e → e.Obeys (.sparing name fun _ => False) ⟨0, 0⟩

variable {name : String} {s s' : Store} {f : FrameId} {v : Value}

theorem Law.unassigned_admissible : (Law.unassigned name).Admissible fun _ => True where
  value_mono _ _ := trivial
  frame_mono _ _ := trivial
  bool _ _ := trivial
  int _ _ := trivial
  unspecified _ := trivial
  float _ _ := trivial
  list _ _ := trivial
  closure _ _ := trivial
  closureFrame _ := trivial
  newFrame _ _ := ⟨fun _ => .inl trivial, fun _ => trivial⟩
  branch _ _ _ := trivial
  sequence _ _ _ := trivial
  false := trivial
  analysis hraw _ he := by
    refine (hraw _ he).imp ⟨fun _ => trivial, fun {e} h => ?_⟩
    cases e with
    | raw => exact h.elim
    | _ => exact h
  ofRun _ := trivial
  unanalyzable _ _ := trivial
  unknown _ := trivial
  emptyBody _ := trivial
  emptySequence _ := trivial
  misplacedElse _ _ := trivial
  undefinable _ _ := trivial

/-! ## Bindings of other names -/

/-- Only a symbol is alike a symbol, and only the same. -/
theorem Value.alike_symbol_iff : v.alike (.symbol name) ↔ v = .symbol name := by
  cases v with
  | symbol => simp [Value.alike, Value.alikeAtom]
  | _ => simp [Value.alike, Value.alikeAtom, Value.numeric?]

theorem Value.symbol_alike_iff : (Value.symbol name).alike v ↔ v = .symbol name := by
  cases v with
  | symbol s => simpa [Value.alike, Value.alikeAtom] using eq_comm
  | _ => simp [Value.alike, Value.alikeAtom, Value.numeric?]

theorem Frame.find?_putIn_of_ne {target : Value} (h : target ≠ .symbol name)
    (bs : List (Value × Value)) :
    (putIn target v bs).find? (·.1.alike (.symbol name)) =
      bs.find? (·.1.alike (.symbol name)) := by
  have hother : target.alike (.symbol name) = false :=
    Bool.eq_false_iff.mpr (mt Value.alike_symbol_iff.mp h)
  induction bs with
  | nil => rw [putIn, List.find?_cons, hother]
  | cons b bs ih =>
    rw [putIn]
    split
    · next hb =>
      have hb' : b.1.alike (.symbol name) = false := by
        refine Bool.eq_false_iff.mpr fun hname => h ?_
        rw [Value.alike_symbol_iff.mp hname] at hb
        exact Value.symbol_alike_iff.mp hb
      rw [List.find?_cons, List.find?_cons, hb']
    · rw [List.find?_cons, List.find?_cons, ih]

namespace Store

theorem get?_put_of_ne {g : FrameId} {target : Value} (h : target ≠ .symbol name) :
    (s.put g target v).get? f (.symbol name) = s.get? f (.symbol name) := by
  rw [Store.get?, Store.get?, Store.put, Array.getElem?_modify]
  split
  · rw [Option.bind_map]
    refine congrArg s.frames[f]?.bind (funext fun frame => ?_)
    exact congrArg (Option.map (·.2)) (Frame.find?_putIn_of_ne h frame.bindings)
  · rfl

/-! ## Runs -/

/-- One change by code that spares the variable. -/
theorem Change.get?_eq (h : s.Change (.unassigned name) s') (hf : f < s.frames.size) :
    s'.get? f (.symbol name) = s.get? f (.symbol name) := by
  cases h with
  | ids | record => rfl
  | assign htarget => exact get?_put_of_ne htarget
  | define htarget => exact get?_put_of_ne htarget
  | extend =>
    rw [Store.get?, Store.get?, Store.extend, Array.getElem?_push, if_neg (Nat.ne_of_lt hf)]

theorem Changes.get?_eq (h : s.Changes (.unassigned name) s') (hf : f < s.frames.size) :
    s'.get? f (.symbol name) = s.get? f (.symbol name) := by
  induction h with
  | refl => rfl
  | tail hch h ih => rw [h.get?_eq (Nat.lt_of_lt_of_le hf (extent_le hch).1), ih]

/-- Where a name is found and what it means is settled by its bindings in the frames of the scope.
-/
theorem find?_and_lookup_eq {x : Value} (hchain : s'.scopeChain f = s.scopeChain f)
    (hget : ∀ g ∈ s.scopeChain f, s'.get? g x = s.get? g x) :
    s'.find? f x = s.find? f x ∧ s'.lookup f x = s.lookup f x := by
  have hfind : s'.find? f x = s.find? f x := by
    rw [find?_eq_scopeChain, find?_eq_scopeChain, hchain]
    exact List.find?_congr fun g hg => by rw [hget g hg]
  have hbind : (s'.find? f x).bind (s'.get? · x) = (s.find? f x).bind (s.get? · x) := by
    rw [hfind]
    cases hg : s.find? f x with
    | none => rfl
    | some g =>
      rw [find?_eq_scopeChain] at hg
      exact hget g (List.mem_of_find?_eq_some hg)
  exact ⟨hfind, by rw [Store.lookup, Store.lookup, hbind]⟩

theorem Grows.lookup_eq {x : Value} (h : s.Grows s') (hf : f < s.frames.size)
    (hget : ∀ g < s.frames.size, s'.get? g x = s.get? g x) : s'.lookup f x = s.lookup f x :=
  (find?_and_lookup_eq (h.scopeChain_eq hf) fun g hg =>
    hget g (Nat.lt_of_le_of_lt (le_of_mem_scopeChain hg) hf)).2

end Store

/-- **A variable that no code assigns keeps its value.** If neither the expression nor a procedure
in the store assigns or defines the variable, then after the evaluation, however it ends, every
frame from before binds it to the same value, or still does not bind it, and it means the same in
the scope of every such frame. Procedures may have it as a parameter. -/
theorem perform_spares (depth : Nat) (name : String) (e : Expr) (env : FrameId) (s : Store)
    (he : e.Obeys (.unassigned name) s.extent) (hs : s.Obeys (.unassigned name)) :
    let s' := (perform depth (.eval e env) s).2
    ∀ f < s.frames.size, s'.get? f (.symbol name) = s.get? f (.symbol name) ∧
      s'.lookup f (.symbol name) = s.lookup f (.symbol name) := by
  intro s' f hf
  have htask : (Task.eval e env).Obeys (.unassigned name) s.extent := ⟨he, trivial⟩
  have hchanges := (perform_lawful Law.unassigned_admissible depth hs htask).changes
  exact ⟨hchanges.get?_eq hf, hchanges.grows.lookup_eq hf fun g hg => hchanges.get?_eq hg⟩

/-- A call of a procedure that has the variable as its parameter and defines another. -/
theorem perform_spares_parameter :
    let f := Value.closure 0 [.symbol "x"] [.define (.symbol "y") (.var (.symbol "x"))] 0
    let s : Store := ⟨#[⟨none, [(.symbol "x", .int 1), (.symbol "f", f)]⟩], 1, #[]⟩
    let e := Expr.apply (.var (.symbol "f")) [.literal (.int 5)]
    e.Obeys (.unassigned "x") s.extent ∧ s.Obeys (.unassigned "x") ∧
      (perform 9 (.eval e 0) s).1.isOk ∧
      (perform 9 (.eval e 0) s).2.get? 0 (.symbol "x") = some (.int 1) := by
  intro f s e
  have he : e.Obeys (.unassigned "x") s.extent := ⟨trivial, trivial, ⟨trivial, trivial⟩, trivial⟩
  have hy : Value.symbol "y" ≠ .symbol "x" := by simp
  have hs : s.Obeys (.unassigned "x") := by
    rintro (_ | i) frame hframe -
    · cases hframe
      refine ⟨nofun, fun b hb => ?_⟩
      rcases List.mem_cons.mp hb with rfl | hb
      · exact trivial
      · cases List.mem_singleton.mp hb
        exact ⟨trivial, ⟨hy, trivial⟩, trivial⟩
    · cases hframe
  have hx : s.get? 0 (.symbol "x") = some (.int 1) := by
    simp [s, Store.get?, Frame.get?, Value.alike_symbol_iff]
  have hok : (perform 9 (.eval e 0) s).1.isOk := by
    unfold e s f
    decide +kernel
  exact ⟨he, hs, hok, (perform_spares 9 "x" e 0 s he hs 0 Nat.one_pos).1.trans hx⟩

end SmallLisp
