import SmallLisp.Proofs.Constancy
import SmallLisp.Proofs.WellFormed

/-!
# Operations on frames

Frames are shared: a frame lies on the chains of all frames inside it, so a binding made in it can
be seen from all of these, except where a frame in between binds the name itself (`Store.Exposes`).
A definition and an assignment differ only in where they make a binding (`Store.Rebinds`): a
definition in the frame given, an assignment in the nearest frame that binds the name already. A new
frame is seen from no other.
-/

namespace SmallLisp.Store

variable {s s' : Store} {f g : FrameId} {v : Value} {x y : String}

/-- A store that has come of an empty global frame by definitions, assignments and new frames, with
symbols for names. An assignment that fails leaves the store as it is. -/
inductive Built : Store → Prop
  | empty : Built .empty
  | define {s s' : Store} {f : FrameId} (x : String) (v : Value) : Built s → f < s.frames.size →
    s.define f (.symbol x) v = .ok s' → Built s'
  | assign {s s' : Store} {f : FrameId} (x : String) (v : Value) : Built s → f < s.frames.size →
    s.assign f (.symbol x) v = .ok s' → Built s'
  | extend {s : Store} {f : FrameId} (names : List String) (args : List Value) : Built s →
    f < s.frames.size → Built (s.extend f (names.map .symbol) args)
  | update {s : Store} {f : FrameId} (pairs : List (String × Value)) : Built s →
    f < s.frames.size → Built (s.update f (pairs.map fun p => (.symbol p.1, p.2))).2

/-- The frame `f` lies on the chain of `g`, and no frame of the chain before it binds the name. -/
def Exposes (s : Store) (g f : FrameId) (name : Value) : Prop :=
  ∃ nearer farther, s.scopeChain g = nearer ++ f :: farther ∧ ∀ h ∈ nearer, s.get? h name = none

/-- In `s'` a symbol has been bound in the frame `f` of `s`: it has the new value wherever the
binding can be seen from, and otherwise everything means what it meant before. -/
structure Rebinds (s : Store) (f : FrameId) (x : String) (v : Value) (s' : Store) : Prop where
  seen : ∀ g, s.Exposes g f (.symbol x) → s'.lookup g (.symbol x) = .ok v
  unseen : ∀ g y, ¬ (y = x ∧ s.Exposes g f (.symbol x)) →
    s'.lookup g (.symbol y) = s.lookup g (.symbol y)

/-! ## Trees of frames -/

theorem IsRooted.defineAll (hs : s.IsRooted) (f : FrameId) (pairs : List (Value × Value)) :
    (s.defineAll f pairs).2.IsRooted := by
  induction pairs generalizing s with
  | nil => exact hs
  | cons p pairs ih =>
    rw [Store.defineAll, Store.define]
    cases p.1.isSymbol with
    | true => exact ih (hs.put f p.1 p.2)
    | false => exact hs

theorem empty_isRooted : empty.IsRooted := by
  refine ⟨rfl, fun hframe hne => absurd ?_ hne⟩
  exact Nat.lt_one_iff.mp (lt_size_of_getElem? hframe)

theorem Built.isRooted (h : s.Built) : s.IsRooted := by
  induction h with
  | empty => exact empty_isRooted
  | define x v _ _ hdefine ih =>
    cases hdefine
    exact ih.put ..
  | assign x v _ _ hassign ih =>
    rw [Store.assign] at hassign
    split at hassign <;> cases hassign
    exact ih.put ..
  | extend names args _ hf ih => exact ih.extend hf _ args
  | update pairs _ _ ih => exact ih.defineAll ..

/-! ## Bindings -/

theorem scopeChain_put (s : Store) (f g : FrameId) (name v : Value) :
    (s.put f name v).scopeChain g = s.scopeChain g := by
  by_cases hg : g < s.frames.size
  · exact (Grows.put s f name v).scopeChain_eq hg
  · have hnone : s.frames[g]? = none := Array.getElem?_eq_none (Nat.le_of_not_lt hg)
    have hput : (s.put f name v).frames[g]? = none := by
      simp [Store.put, Array.getElem?_modify, hnone]
    rw [scopeChain, scopeChain, hnone, hput]

theorem lt_size_of_mem_scopeChain (h : f ∈ s.scopeChain g) : f < s.frames.size := by
  by_cases hg : g < s.frames.size
  · exact Nat.lt_of_le_of_lt (le_of_mem_scopeChain h) hg
  · rw [scopeChain, Array.getElem?_eq_none (Nat.le_of_not_lt hg)] at h
    cases h

theorem get?_put_self (hf : f < s.frames.size) :
    (s.put f (.symbol x) v).get? f (.symbol x) = some v := by
  have hfind : ∀ bs : List (Value × Value),
      ((Frame.putIn (.symbol x) v bs).find? (·.1.alike (.symbol x))).map (·.2) = some v := by
    intro bs
    induction bs with
    | nil => simp [Frame.putIn, Value.alike_symbol_iff]
    | cons b bs ih =>
      rw [Frame.putIn]
      split
      · next hb => rw [List.find?_cons, hb]; rfl
      · next hb => rwa [List.find?_cons, Bool.eq_false_iff.mpr hb]
  simp only [Store.get?, Store.put, Array.getElem?_modify, if_pos, Array.getElem?_eq_getElem hf,
    Option.map_some, Option.bind_some]
  exact hfind _

theorem get?_put_other (h : g ≠ f) (name : Value) :
    (s.put f (.symbol x) v).get? g name = s.get? g name := by
  rw [Store.get?, Store.get?, Store.put, Array.getElem?_modify, if_neg h.symm]

/-- What a name means is settled by the frames of the chain up to one that binds it. -/
theorem lookup_eq_of_nearer {name : Value} {nearer farther : List FrameId}
    (hchain : s'.scopeChain g = s.scopeChain g) (hsplit : s.scopeChain g = nearer ++ farther)
    (hbound : ∃ h ∈ nearer, s.get? h name ≠ none)
    (hget : ∀ h ∈ nearer, s'.get? h name = s.get? h name) : s'.lookup g name = s.lookup g name := by
  have hsome : (nearer.find? fun h => (s.get? h name).isSome).isSome := by
    rw [List.find?_isSome]
    obtain ⟨h, hh, hne⟩ := hbound
    exact ⟨h, hh, Option.isSome_iff_ne_none.mpr hne⟩
  obtain ⟨k, hk⟩ := Option.isSome_iff_exists.mp hsome
  have hk' : nearer.find? (fun h => (s'.get? h name).isSome) = some k := by
    rw [← hk]
    exact List.find?_congr fun h hh => by rw [hget h hh]
  have hfind : s.find? g name = some k := by
    rw [find?_eq_scopeChain, hsplit, List.find?_append, hk, Option.some_or]
  have hfind' : s'.find? g name = some k := by
    rw [find?_eq_scopeChain, hchain, hsplit, List.find?_append, hk', Option.some_or]
  rw [Store.lookup, Store.lookup, hfind, hfind', Option.bind_some, Option.bind_some,
    hget k (List.mem_of_find?_eq_some hk)]

/-- What binding a symbol in a frame does to every frame. -/
theorem put_rebinds (s : Store) (f : FrameId) (x : String) (v : Value) :
    s.Rebinds f x v (s.put f (.symbol x) v) := by
  have hchain : ∀ g, (s.put f (.symbol x) v).scopeChain g = s.scopeChain g := fun g =>
    s.scopeChain_put f g _ v
  have hnearer : ∀ {g : FrameId} {nearer farther : List FrameId},
      s.scopeChain g = nearer ++ f :: farther → ∀ h ∈ nearer, h ≠ f := by
    intro g nearer farther hsplit h hh
    have hpairs := s.scopeChain_pairwise g
    rw [hsplit, List.pairwise_append] at hpairs
    exact Nat.ne_of_gt (hpairs.2.2 h hh f (.head _))
  constructor
  · rintro g ⟨nearer, farther, hsplit, hunbound⟩
    have hf : f < s.frames.size := lt_size_of_mem_scopeChain (g := g) (by simp [hsplit])
    have hfind : (s.put f (.symbol x) v).find? g (.symbol x) = some f := by
      rw [find?_eq_scopeChain, hchain, List.find?_eq_some_iff_append]
      refine ⟨by rw [get?_put_self hf]; rfl, nearer, farther, hsplit, fun h hh => ?_⟩
      rw [get?_put_other (hnearer hsplit h hh), hunbound h hh]
      rfl
    rw [Store.lookup, hfind, Option.bind_some, get?_put_self hf]
  · intro g y hunseen
    by_cases hxy : y = x
    · subst hxy
      by_cases hmem : f ∈ s.scopeChain g
      · -- A frame before `f` binds the name: the search ends there, before and after.
        obtain ⟨nearer, farther, hsplit⟩ := List.append_of_mem hmem
        refine lookup_eq_of_nearer (hchain g) hsplit ?_ fun h hh =>
          get?_put_other (hnearer hsplit h hh) _
        by_contra hnone
        refine hunseen ⟨rfl, nearer, farther, hsplit, fun h hh => ?_⟩
        by_contra hbound
        exact hnone ⟨h, hh, hbound⟩
      · refine (find?_and_lookup_eq (hchain g) fun h hh => get?_put_other ?_ _).2
        rintro rfl
        exact hmem hh
    · refine (find?_and_lookup_eq (hchain g) fun h _ => get?_put_of_ne ?_).2
      simpa using Ne.symm hxy

/-- Binding a symbol where it is bound already changes nothing about where names are found. -/
theorem find?_put_of_bound (hbound : (s.get? f (.symbol x)).isSome) (g : FrameId) (y : String) :
    (s.put f (.symbol x) v).find? g (.symbol y) = s.find? g (.symbol y) := by
  rw [find?_eq_scopeChain, find?_eq_scopeChain, scopeChain_put]
  refine List.find?_congr fun h hh => ?_
  by_cases hxy : x = y
  · subst hxy
    by_cases hf : h = f
    · subst hf
      rw [get?_put_self (lt_size_of_mem_scopeChain hh), hbound]
      rfl
    · rw [get?_put_other hf]
  · rw [get?_put_of_ne (by simpa using hxy)]

/-- From the frames that there are, a new one is not seen. -/
theorem find?_and_lookup_extend (hg : g < s.frames.size) (f : FrameId)
    (params args : List Value) (name : Value) :
    (s.extend f params args).find? g name = s.find? g name ∧
      (s.extend f params args).lookup g name = s.lookup g name := by
  refine find?_and_lookup_eq ((Grows.extend s f params args).scopeChain_eq hg) fun h hh => ?_
  have hne : h ≠ s.frames.size := Nat.ne_of_lt (lt_size_of_mem_scopeChain hh)
  rw [Store.get?, Store.get?, Store.extend, Array.getElem?_push, if_neg hne]

/-! ## Operations -/

/-- The frame that a symbol is found in is the nearest one that binds it. -/
theorem find?_eq_some_iff {name : Value} :
    s.find? g name = some f ↔ s.Exposes g f name ∧ s.get? f name ≠ none := by
  rw [find?_eq_scopeChain, List.find?_eq_some_iff_append, Option.isSome_iff_ne_none, and_comm]
  simp [Exposes]

/-- **The effect of every operation on every frame**, in any tree of frames that operations have
built. The chain of a frame goes outwards, frame by frame, to the global one. After a definition in
`f` the symbol has the new value in every frame from which the binding in `f` can be seen, and
otherwise every symbol means in every frame what it meant before. An assignment fails, and changes
nothing, if no frame of the chain binds the symbol; if one does, the assignment is a definition in
the nearest that does, after which every symbol is found where it was found before. A new frame
changes nothing for the others. -/
theorem operations_on_frames (h : s.Built) (f : FrameId) (x : String) (v : Value) :
    (∀ g < s.frames.size, s.IsScopeChain g (s.scopeChain g)) ∧
    (∃ s', s.define f (.symbol x) v = .ok s' ∧ s.Rebinds f x v s') ∧
    ((∀ g ∈ s.scopeChain f, s.get? g (.symbol x) = none) →
      ∃ e, Action.change (·.assign f (.symbol x) v) s = (.error (.error e), s) ∧
        e.kind = .unboundVariable) ∧
    ((∃ g ∈ s.scopeChain f, s.get? g (.symbol x) ≠ none) →
      ∃ g s', s.find? f (.symbol x) = some g ∧
        s.Exposes f g (.symbol x) ∧ s.get? g (.symbol x) ≠ none ∧
        s.assign f (.symbol x) v = .ok s' ∧ s.Rebinds g x v s' ∧
        ∀ (h : FrameId) (y : String), s'.find? h (.symbol y) = s.find? h (.symbol y)) ∧
    ∀ (names : List String) (args : List Value), ∀ g < s.frames.size, ∀ y : String,
      (s.extend f (names.map .symbol) args).find? g (.symbol y) = s.find? g (.symbol y) ∧
      (s.extend f (names.map .symbol) args).lookup g (.symbol y) = s.lookup g (.symbol y) := by
  refine ⟨fun g hg => h.isRooted.isScopeChain hg, ⟨_, rfl, s.put_rebinds f x v⟩, ?_, ?_, ?_⟩
  · intro hunbound
    have hfind : s.find? f (.symbol x) = none := by
      rw [find?_eq_scopeChain, List.find?_eq_none]
      exact fun g hg => by simp [hunbound g hg]
    refine ⟨.unassignable (.symbol x), ?_, rfl⟩
    rw [Action.change, Store.assign, hfind]
    rfl
  · rintro ⟨g, hg, hbound⟩
    have hsome : (s.find? f (.symbol x)).isSome := by
      rw [find?_eq_scopeChain, List.find?_isSome]
      exact ⟨g, hg, Option.isSome_iff_ne_none.mpr hbound⟩
    obtain ⟨k, hk⟩ := Option.isSome_iff_exists.mp hsome
    obtain ⟨hexposes, hne⟩ := find?_eq_some_iff.mp hk
    refine ⟨k, s.put k (.symbol x) v, hk, hexposes, hne, ?_, s.put_rebinds k x v, fun h y =>
      find?_put_of_bound (Option.isSome_iff_ne_none.mpr hne) h y⟩
    rw [Store.assign, hk]
  · exact fun names args g hg y => find?_and_lookup_extend hg f _ args _

/-- Two frames inside the global one, of which the first binds `x` itself. A definition of `x` in
the global frame is seen from the second only, and so is an assignment from there. -/
theorem operations_on_frames_shadowed :
    let x := Value.symbol "x"
    let s := ((empty.put 0 x (.int 1)).extend 0 [x] [.int 2]).extend 0 [] []
    s.Built ∧
      (∃ s', s.define 0 x (.int 3) = .ok s' ∧ s'.lookup 2 x = .ok (.int 3) ∧
        s'.lookup 1 x = s.lookup 1 x) ∧
      ∃ s', s.assign 2 x (.int 3) = .ok s' ∧ s'.lookup 2 x = .ok (.int 3) ∧
        s'.lookup 1 x = s.lookup 1 x := by
  intro x s
  have hbuilt : s.Built :=
    .extend [] [] (.extend ["x"] [.int 2] (.define "x" (.int 1) .empty Nat.one_pos rfl) Nat.one_pos)
      Nat.two_pos
  have hchain : s.scopeChain 2 = [2] ++ 0 :: [] := by decide +kernel
  have hchain' : s.scopeChain 1 = [1, 0] := by decide +kernel
  have hglobal : s.get? 0 x ≠ none := Option.isSome_iff_ne_none.mp (by decide +kernel)
  have hfirst : s.get? 1 x ≠ none := Option.isSome_iff_ne_none.mp (by decide +kernel)
  have hsecond : s.get? 2 x = none := rfl
  have hseen : s.Exposes 2 0 x := ⟨[2], [], hchain, by simpa using hsecond⟩
  have hunseen : ¬ ("x" = "x" ∧ s.Exposes 1 0 x) := by
    rintro ⟨-, _ | ⟨g, nearer⟩, farther, hsplit, hunbound⟩ <;> rw [hchain'] at hsplit
    · cases hsplit
    · cases (List.cons.inj hsplit).1
      exact hfirst (hunbound 1 (.head _))
  obtain ⟨-, ⟨s₁, hdefine, hrebinds⟩, -⟩ := operations_on_frames hbuilt 0 "x" (.int 3)
  obtain ⟨-, -, -, hassign, -⟩ := operations_on_frames hbuilt 2 "x" (.int 3)
  obtain ⟨g, s₂, hfind, -, -, hok, hrebinds', -⟩ := hassign ⟨0, by simp [hchain], hglobal⟩
  have hnearest : s.find? 2 x = some 0 := find?_eq_some_iff.mpr ⟨hseen, hglobal⟩
  cases hnearest.symm.trans hfind
  exact ⟨hbuilt, ⟨s₁, hdefine, hrebinds.seen 2 hseen, hrebinds.unseen 1 "x" hunseen⟩,
    s₂, hok, hrebinds'.seen 2 hseen, hrebinds'.unseen 1 "x" hunseen⟩

end SmallLisp.Store
