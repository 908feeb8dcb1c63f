import SmallLisp.Proofs.Calls
import SmallLisp.Proofs.Matching
import SmallLisp.Proofs.Names

/-!
# Renaming a parameter

The names of a procedure can be changed without changing what it does. Two runs, one with the
procedure and one with its parameter renamed, go through the same steps: each frame that is made for
code that was renamed has the new name where the other one has the old (`Renaming.Stores`), and what
is looked up in it is found at the same place (`Renaming.Stores.find?_eq`), because the old name
never gets past the frames that bind it.
-/

namespace SmallLisp

/-! ## Worlds -/

/-- One name in the place of another. -/
def rename (old new name : String) : String := if name = old then new else name

/-- A name, the name that replaces it, and how far the store reaches when the two runs begin. -/
structure Renaming where
  old : String
  new : String
  start : Extent

namespace Renaming

variable (r : Renaming)

/-- The names of code or of a frame in the second run, if they have been renamed or if not. -/
def naming (renamed : Bool) : String → String := if renamed then rename r.old r.new else id

/-- Where there has been a renaming, the new name stands for the old one only. -/
def Admits (k : Bool) (name : Value) : Prop := k = true → name ≠ .symbol r.new

/-- What binds or is to bind `names` lies inside frame `g`. A world says which frames have been
renamed. What is renamed lies inside what is renamed, unless it binds the old name itself. -/
def Nested (w : List Bool) (k : Bool) (names : List Value) (g : FrameId) : Prop :=
  w[g]? = some k ∨ k = true ∧ w[g]? = some false ∧ .symbol r.old ∈ names

/-- Closures with the same code, or with the code of the first one renamed in the second. -/
structure Closures (w : List Bool) (k : Bool) (c c' : Closure) : Prop where
  eq : c' = ⟨c.params.map (Value.mapName (r.naming k)), Expr.mapAllNames (r.naming k) c.body,
    c.env⟩
  code : (Expr.lambda c.params c.body).Obeys .wellFormed r.start
  admits : ∀ name ∈ (Expr.lambda c.params c.body).names, r.Admits k name
  nested : r.Nested w k c.params c.env

def closure (w : List Bool) (c c' : Closure) : Prop := ∃ k, r.Closures w k c c'

structure Binding (w : List Bool) (k : Bool) (b b' : Value × Value) : Prop where
  name : b'.1 = b.1.mapName (r.naming k)
  admits : r.Admits k b.1
  value : b.2.Matches (r.closure w) b'.2

structure Frames (w : List Bool) (k : Bool) (a b : Frame) : Prop where
  outer : b.outer = a.outer
  nested : ∀ g ∈ a.outer, r.Nested w k a.names g
  bindings : List.Forall₂ (r.Binding w k) a.bindings b.bindings

/-- The stores of the two runs. Frames from before the runs have the same names in both. -/
structure Stores (w : List Bool) (s t : Store) : Prop where
  size : s.frames.size = w.length
  size' : t.frames.size = w.length
  nextId : t.nextId = s.nextId
  before : ∀ f < r.start.frames, w[f]? = some false
  frame : ∀ {f : FrameId} {k : Bool}, w[f]? = some k →
    ∃ a b, s.frames[f]? = some a ∧ t.frames[f]? = some b ∧ r.Frames w k a b

/-! ### Growth -/

variable {r} {w w' : List Bool} {k : Bool} {f g : FrameId} {n : String} {v v' : Value}

theorem kind_mono (h : w <+: w') (hf : w[f]? = some k) : w'[f]? = some k := by
  obtain ⟨more, rfl⟩ := h
  rw [List.getElem?_append_left (List.getElem?_eq_some_iff.mp hf).1, hf]

theorem Nested.mono {names names' : List Value} (h : w <+: w') (hn : names ⊆ names')
    (hg : r.Nested w k names g) : r.Nested w' k names' g :=
  hg.imp (kind_mono h) fun ⟨hk, hg, hold⟩ => ⟨hk, kind_mono h hg, hn hold⟩

theorem closure_mono {c c' : Closure} (h : w <+: w') : r.closure w c c' → r.closure w' c c'
  | ⟨k, heq, hcode, hadmits, hnested⟩ =>
    ⟨k, heq, hcode, hadmits, hnested.mono h (List.Subset.refl _)⟩

theorem Binding.mono {b b' : Value × Value} (h : w <+: w') (hb : r.Binding w k b b') :
    r.Binding w' k b b' :=
  ⟨hb.name, hb.admits, hb.value.imp (closure_mono h)⟩

theorem Frames.mono {a b : Frame} (h : w <+: w') (hab : r.Frames w k a b) : r.Frames w' k a b :=
  ⟨hab.outer, fun g hg => (hab.nested g hg).mono h (List.Subset.refl _),
    hab.bindings.imp fun _ _ => Binding.mono h⟩

/-! ### Names -/

theorem naming_of_ne (h : n ≠ r.old) : r.naming k n = n := by
  cases k with
  | true => simp [naming, rename, h]
  | false => rfl

theorem naming_injective {m : String} (hm : r.Admits k (.symbol m)) (hn : r.Admits k (.symbol n))
    (h : r.naming k m = r.naming k n) : m = n := by
  cases k with
  | false => exact h
  | true =>
    have hm' : m ≠ r.new := fun h => hm rfl (h ▸ rfl)
    have hn' : n ≠ r.new := fun h => hn rfl (h ▸ rfl)
    simp only [naming, rename, if_true] at h
    split at h <;> split at h <;> simp_all

theorem alike_mapName (hv : r.Admits k v) (hn : r.Admits k (.symbol n)) :
    (v.mapName (r.naming k)).alike (.symbol (r.naming k n)) = v.alike (.symbol n) := by
  rw [Bool.eq_iff_iff, Value.alike_symbol_iff, Value.alike_symbol_iff]
  cases v with
  | symbol m =>
    simp only [Value.mapName, Value.symbol.injEq]
    exact ⟨naming_injective hv hn, fun h => h ▸ rfl⟩
  | _ => simp [Value.mapName]

/-! ### Frames -/

theorem Binding.alike_eq {b b' : Value × Value} (hb : r.Binding w k b b')
    (hn : r.Admits k (.symbol n)) :
    b'.1.alike (.symbol (r.naming k n)) = b.1.alike (.symbol n) := by
  rw [hb.name, alike_mapName hb.admits hn]

theorem Frames.get?_rel {a b : Frame} (h : r.Frames w k a b) (hn : r.Admits k (.symbol n)) :
    Option.Rel (Value.Matches (r.closure w)) (a.get? (.symbol n))
      (b.get? (.symbol (r.naming k n))) :=
  bindings_find?_rel (fun hb => hb.alike_eq hn) Binding.value h.bindings

theorem Frames.isSome_get? {a b : Frame} (h : r.Frames w k a b) (hn : r.Admits k (.symbol n)) :
    (b.get? (.symbol (r.naming k n))).isSome = (a.get? (.symbol n)).isSome := by
  have hget := h.get?_rel hn
  generalize a.get? (.symbol n) = x at hget
  generalize b.get? (.symbol (r.naming k n)) = y at hget
  cases hget <;> rfl

theorem Frames.put {a b : Frame} (h : r.Frames w k a b) (hn : r.Admits k (.symbol n))
    (hv : v.Matches (r.closure w) v') :
    r.Frames w k (a.put (.symbol n) v) (b.put (.symbol (r.naming k n)) v') where
  outer := h.outer
  nested g hg := (h.nested g hg).mono List.prefix_rfl (Frame.Grows.put a _ v).names.subset
  bindings := bindings_putIn (fun hb => hb.alike_eq hn) ⟨rfl, hn, hv⟩
    (fun hb => ⟨hb.name, hb.admits, hv⟩) h.bindings

/-! ### Stores -/

variable {s t : Store}

/-- A name is found at the same place in both stores. If that is a frame that has not been renamed,
then the name is not the old one or the search began in such a frame. -/
theorem Stores.find?_eq (h : r.Stores w s t) (hf : w[f]? = some k) (hn : r.Admits k (.symbol n)) :
    t.find? f (.symbol (r.naming k n)) = s.find? f (.symbol n) ∧
      ∀ g, s.find? f (.symbol n) = some g → ∃ k', w[g]? = some k' ∧
        r.naming k' n = r.naming k n ∧ r.Admits k' (.symbol n) := by
  induction f using Nat.strongRecOn generalizing k with
  | ind f ih =>
    obtain ⟨a, b, ha, hb, hab⟩ := h.frame hf
    rw [Store.find?, Store.find?, ha, hb]
    dsimp only
    rw [hab.isSome_get? hn, hab.outer]
    cases hfound : (a.get? (.symbol n)).isSome with
    | true =>
      refine ⟨rfl, fun g hg => ?_⟩
      cases hg
      exact ⟨k, hf, rfl, hn⟩
    | false =>
      simp only [Bool.false_eq_true, if_false]
      cases houter : a.outer with
      | none => exact ⟨rfl, nofun⟩
      | some g =>
        dsimp only
        by_cases hlt : g < f
        · simp only [if_pos hlt]
          rcases hab.nested g houter with hg | ⟨rfl, hg, hold⟩
          · exact ih g hlt hg hn
          · -- The frame binds the old name, so that is not the one looked for.
            have hne : n ≠ r.old := by
              rintro rfl
              have hbound := Frame.get?_isSome_iff.mpr ⟨_, hold, Value.alike_symbol_iff.mpr rfl⟩
              rw [hbound] at hfound
              cases hfound
            rw [naming_of_ne hne]
            exact ih (k := false) g hlt hg nofun
        · simp only [if_neg hlt]
          exact ⟨trivial, nofun⟩

theorem Stores.lookup_match (h : r.Stores w s t) (hf : w[f]? = some k)
    (hn : r.Admits k (.symbol n)) :
    ResultsMatch (fun e e' => e'.kind = e.kind) (Value.Matches (r.closure w))
      (s.lookup f (.symbol n)) (t.lookup f (.symbol (r.naming k n))) := by
  obtain ⟨hfind, hfound⟩ := h.find?_eq hf hn
  rw [Store.lookup, Store.lookup, hfind]
  cases hg : s.find? f (.symbol n) with
  | none => exact .error (Error.raise_kind rfl rfl)
  | some g =>
    obtain ⟨k', hk', hname, hn'⟩ := hfound g hg
    obtain ⟨a, b, ha, hb, hab⟩ := h.frame hk'
    have hget := hab.get?_rel hn'
    rw [hname] at hget
    simp only [Option.bind_some, Store.get?, ha, hb]
    generalize a.get? (.symbol n) = x at hget
    generalize b.get? (.symbol (r.naming k n)) = y at hget
    cases hget with
    | some hv => exact .ok hv
    | none => exact .error (Error.raise_kind rfl rfl)

theorem Stores.put (h : r.Stores w s t) (hg : w[g]? = some k) (hn : r.Admits k (.symbol n))
    (hv : v.Matches (r.closure w) v') :
    r.Stores w (s.put g (.symbol n) v) (t.put g (.symbol (r.naming k n)) v') where
  size := by simp [Store.put, h.size]
  size' := by simp [Store.put, h.size']
  nextId := h.nextId
  before := h.before
  frame {f j} hf := by
    obtain ⟨a, b, ha, hb, hab⟩ := h.frame hf
    simp only [Store.put, Array.getElem?_modify]
    split
    · next hgf =>
      subst hgf
      cases hg.symm.trans hf
      exact ⟨_, _, congrArg (Option.map _) ha, congrArg (Option.map _) hb, hab.put hn hv⟩
    · exact ⟨a, b, ha, hb, hab⟩

theorem bindings_zip {params args args' : List Value} (hp : ∀ p ∈ params, r.Admits k p)
    (ha : Value.AllMatch (r.closure w) args args') :
    List.Forall₂ (r.Binding w k) (params.zip args)
      ((params.map (Value.mapName (r.naming k))).zip args') := by
  induction params generalizing args args' with
  | nil => exact .nil
  | cons p params ih =>
    obtain ⟨hp, hps⟩ := List.forall_mem_cons.mp hp
    cases args with
    | nil => cases ha; exact .nil
    | cons arg args =>
      obtain ⟨arg', args', rfl, harg, hargs⟩ := ha
      exact .cons ⟨rfl, hp, harg⟩ (ih hps hargs)

theorem distinctSymbols_map {params : List Value} (h : DistinctSymbols params)
    (hp : ∀ p ∈ params, r.Admits k p) :
    DistinctSymbols (params.map (Value.mapName (r.naming k))) := by
  obtain ⟨names, hnodup, rfl⟩ := h
  refine ⟨names.map (r.naming k), ?_, by simp [Value.mapName]⟩
  rw [List.Nodup, List.pairwise_map]
  refine hnodup.imp_of_mem fun hm hn hne heq => hne ?_
  exact naming_injective (hp _ (List.mem_map_of_mem hm)) (hp _ (List.mem_map_of_mem hn)) heq

/-- The frame of a call, for a closure and for what it was renamed to. -/
theorem Closures.frames {c c' : Closure} (h : r.Closures w k c c') {args args' : List Value}
    (hlen : args.length = c.params.length) (ha : Value.AllMatch (r.closure w) args args') :
    r.Frames w k (.ofArgs c.env c.params args) (.ofArgs c'.env c'.params args') := by
  obtain ⟨rfl, ⟨⟨hdistinct, -⟩, -⟩, hadmits, hnested⟩ := h
  have hparams : ∀ p ∈ c.params, r.Admits k p := fun p hp =>
    hadmits p (List.mem_append_left _ hp)
  refine ⟨rfl, ?_, ?_⟩
  · rintro g ⟨⟩
    rw [Frame.names, Frame.ofArgs_bindings hdistinct, List.map_fst_zip (Nat.le_of_eq hlen.symm)]
    exact hnested
  · rw [Frame.ofArgs_bindings hdistinct,
      Frame.ofArgs_bindings (distinctSymbols_map hdistinct hparams)]
    exact bindings_zip hparams ha

theorem Stores.extend (h : r.Stores w s t) {c c' : Closure} (hc : r.Closures w k c c')
    {args args' : List Value} (hlen : args.length = c.params.length)
    (ha : Value.AllMatch (r.closure w) args args') :
    r.Stores (w ++ [k]) (s.extend c.env c.params args) (t.extend c'.env c'.params args') := by
  have hle : w <+: w ++ [k] := List.prefix_append _ _
  refine ⟨by simp [Store.extend, h.size], by simp [Store.extend, h.size'], h.nextId,
    fun f hf => kind_mono hle (h.before f hf), fun {f j} hf => ?_⟩
  simp only [Store.extend, Array.getElem?_push, h.size, h.size']
  by_cases hnew : f = w.length
  · subst hnew
    cases List.getElem?_concat_length.symm.trans hf
    exact ⟨_, _, if_pos rfl, if_pos rfl, (hc.frames hlen ha).mono hle⟩
  · have hlt : f < w.length := by
      have := (List.getElem?_eq_some_iff.mp hf).1
      grind
    rw [List.getElem?_append_left hlt] at hf
    obtain ⟨a, b, ha, hb, hab⟩ := h.frame hf
    exact ⟨a, b, (if_neg hnew).trans ha, (if_neg hnew).trans hb, hab.mono hle⟩

/-! ## Runs -/

theorem allFit_map (vs : List Value) :
    Value.allFit (vs.map (Value.mapName (r.naming k))) = Value.allFit vs := by
  induction vs with
  | nil => rfl
  | cons v vs ih =>
    have hfits : (v.mapName (r.naming k)).fits = v.fits := by cases v <;> rfl
    rw [List.map_cons, Value.allFit, Value.allFit, hfits, ih]

theorem closure_fits {c c' : Closure} (h : r.closure w c c') :
    Value.allFit c'.params = Value.allFit c.params := by
  obtain ⟨k, hc⟩ := h
  rw [hc.eq]
  exact allFit_map c.params

variable (r) in
/-- The two runs differ in names only. They may write different texts, because the text of a
procedure shows its parameters. -/
def link : Link (List Bool) where
  le w w' := w <+: w'
  closure := r.closure
  store := r.Stores
  failure e e' := e'.kind = e.kind
  le_refl _ := List.prefix_rfl
  le_trans := List.IsPrefix.trans
  closure_mono := closure_mono
  failure_refl _ := rfl
  raise h := Error.raise_kind h.kind_eq (h.fits_eq closure_fits)
  fits := closure_fits
  fresh h := ⟨h.nextId, h.size, h.size', congrArg (· + 1) h.nextId, h.before, h.frame⟩
  display h _ := ⟨h.size, h.size', h.nextId, h.before, h.frame⟩

mutual

/-- A value from before the runs is the same in both. -/
theorem matches_self (hw : ∀ f < r.start.frames, w[f]? = some false) :
    ∀ {v : Value}, v.Obeys .wellFormed r.start → v.Matches (r.closure w) v
  | .list _ items, h => ⟨items, rfl, allMatch_self hw h.2⟩
  | .closure _ params body env, h => by
    refine ⟨⟨params, body, env⟩, rfl, false, ?_, ⟨h.1.1, h.2⟩, fun _ _ => nofun,
      .inl (hw env h.1.2)⟩
    have hid : r.naming false = id := rfl
    simp only [hid, Expr.mapAllNames_id, funext Value.mapName_id, List.map_id']
  | .nothing, _ | .bool _, _ | .int _, _ | .float _ _, _ | .text _, _ | .symbol _, _
  | .unspecified, _ | .primitive _ _, _ | .elseMark, _ | .node _, _ | .clause _, _ => rfl

theorem allMatch_self (hw : ∀ f < r.start.frames, w[f]? = some false) :
    ∀ {vs : List Value}, Value.AllObey .wellFormed r.start vs → Value.AllMatch (r.closure w) vs vs
  | [], _ => rfl
  | v :: vs, h => ⟨v, vs, rfl, matches_self hw h.1, allMatch_self hw h.2⟩

end

/-- Well-formed code that can be renamed. -/
structure Permits (r : Renaming) (k : Bool) (e : Expr) : Prop where
  code : e.Obeys .wellFormed r.start
  admits : ∀ name ∈ e.names, r.Admits k name

/-- Tasks of the two runs. -/
inductive Tasks (r : Renaming) (w : List Bool) : Task → Task → Prop
  | eval {k : Bool} {e : Expr} {env : FrameId} : w[env]? = some k → r.Permits k e →
    Tasks r w (.eval e env) (.eval (e.mapNames (r.naming k)) env)
  | call {f f' : Value} {args args' : List Value} : r.link.value w f f' →
    r.link.values w args args' → Tasks r w (.call f args) (.call f' args')

/-- Two ways to do tasks go together. -/
def Together (r : Renaming) (p q : Task → Action Value) : Prop :=
  ∀ {w task task'}, r.Tasks w task task' → r.link.Matched w (p task) (q task') r.link.value

variable {p q : Task → Action Value} {env : FrameId} {e : Expr}

theorem assign_matched (henv : w[env]? = some k) (hn : r.Admits k (.symbol n))
    (hv : r.link.value w v v') :
    r.link.Matched w (Action.change (·.assign env (.symbol n) v))
      (Action.change (·.assign env (.symbol (r.naming k n)) v')) fun _ _ _ => True := by
  refine .of_store fun s t hst => ?_
  obtain ⟨hfind, hfound⟩ := hst.find?_eq henv hn
  simp only [Action.change, Store.assign, hfind]
  cases hg : s.find? env (.symbol n) with
  | none => exact ⟨hst, .error (Error.raise_kind rfl rfl)⟩
  | some g =>
    obtain ⟨k', hk', hname, hn'⟩ := hfound g hg
    exact ⟨hname ▸ hst.put hk' hn' hv, .ok trivial⟩

theorem define_matched (henv : w[env]? = some k) (hn : r.Admits k (.symbol n))
    (hv : r.link.value w v v') :
    r.link.Matched w (Action.change (·.define env (.symbol n) v))
      (Action.change (·.define env (.symbol (r.naming k n)) v')) fun _ _ _ => True :=
  .of_store fun _ _ hst => ⟨hst.put henv hn hv, .ok trivial⟩

theorem forall₂_mapAllNames {es : List Expr} (hcode : Expr.AllObey .wellFormed r.start es)
    (hadmits : ∀ name ∈ Expr.allNames es, r.Admits k name) :
    List.Forall₂ (fun e e' => r.Permits k e ∧ e' = e.mapNames (r.naming k)) es
      (Expr.mapAllNames (r.naming k) es) := by
  induction es with
  | nil => exact .nil
  | cons e es ih =>
    obtain ⟨he, hes⟩ := List.forall_mem_append.mp hadmits
    exact .cons ⟨⟨hcode.1, he⟩, rfl⟩ (ih hcode.2 hes)

theorem evalStep_matched (hpq : r.Together p q) (henv : w[env]? = some k) (he : r.Permits k e) :
    r.link.Matched w (evalStep p env e) (evalStep q env (e.mapNames (r.naming k)))
      r.link.value := by
  -- The evaluation of a part, at any later time.
  have hpart : ∀ {w' : List Bool} {e : Expr}, w <+: w' → r.Permits k e →
      r.link.Matched w' (p (.eval e env)) (q (.eval (e.mapNames (r.naming k)) env)) r.link.value :=
    fun hle he => hpq (.eval (kind_mono hle henv) he)
  have hparts : ∀ {w' : List Bool} {e e' : Expr}, w <+: w' →
      r.Permits k e ∧ e' = e.mapNames (r.naming k) →
      r.link.Matched w' (p (.eval e env)) (q (.eval e' env)) r.link.value :=
    fun hle ⟨he, heq⟩ => heq ▸ hpart hle he
  obtain ⟨hcode, hadmits⟩ := he
  cases e with
  | literal v | quote v =>
    exact .of_store fun s t hst => ⟨hst, .ok (matches_self hst.before hcode.2)⟩
  | var name =>
    obtain ⟨n, rfl⟩ := Form.eq_symbol_of_isSymbol hcode
    exact .of_store fun s t hst => ⟨hst, hst.lookup_match henv (hadmits _ (.head _))⟩
  | assign target value =>
    obtain ⟨n, rfl⟩ := Form.eq_symbol_of_isSymbol hcode.1
    obtain ⟨hn, hvalue⟩ := List.forall_mem_cons.mp hadmits
    refine .bind (hpart List.prefix_rfl ⟨hcode.2, hvalue⟩) fun hle hv => ?_
    exact .bind (assign_matched (kind_mono hle henv) hn hv) fun _ _ => .pure rfl
  | define target value =>
    obtain ⟨n, rfl⟩ := Form.eq_symbol_of_isSymbol hcode.1
    obtain ⟨hn, hvalue⟩ := List.forall_mem_cons.mp hadmits
    refine .bind (hpart List.prefix_rfl ⟨hcode.2, hvalue⟩) fun hle hv => ?_
    exact .bind (define_matched (kind_mono hle henv) hn hv) fun _ _ => .pure rfl
  | branch test consequent alternative =>
    obtain ⟨-, htest, hcons, halt⟩ := hcode
    obtain ⟨hnames, hnames₃⟩ := List.forall_mem_append.mp hadmits
    obtain ⟨hnames₁, hnames₂⟩ := List.forall_mem_append.mp hnames
    refine .bind (hpart List.prefix_rfl ⟨htest, hnames₁⟩) fun {_ v v'} hle hv => ?_
    rw [hv.isFalse_eq]
    split
    · exact hpart hle ⟨halt, hnames₃⟩
    · exact hpart hle ⟨hcons, hnames₂⟩
  | lambda params body =>
    refine .bind .fresh fun hle hid => .pure ?_
    exact ⟨_, hid ▸ rfl, k, rfl, hcode, hadmits, .inl (kind_mono hle henv)⟩
  | sequence body => exact evalBody_matched hparts (forall₂_mapAllNames hcode.2 hadmits)
  | cond clauses =>
    obtain ⟨e', he'⟩ := Clause.toBranches_ordered hcode.1
    obtain ⟨hmap, hnames⟩ := Clause.toBranches_mapAllNames (ρ := r.naming k) he'
    have hpermits : r.Permits k e' :=
      ⟨Clause.toBranches_obeys Law.wellFormed_admissible.permitsBranches hcode.2 he',
        fun name hname => hadmits name (hnames hname)⟩
    refine .bind (R := fun _ a b => a = e' ∧ b = e'.mapNames (r.naming k)) (.ofExcept ?_) ?_
    · rw [he', hmap]
      exact .ok ⟨rfl, rfl⟩
    · rintro _ _ _ hle ⟨rfl, rfl⟩
      exact hpart hle hpermits
  | apply operator operands =>
    obtain ⟨hnames, hnames'⟩ := List.forall_mem_append.mp hadmits
    refine .bind (hpart List.prefix_rfl ⟨hcode.2.1, hnames⟩) fun hle hf => ?_
    refine .bind (evalAll_matched (fun hle' => hparts (hle.trans hle'))
      (forall₂_mapAllNames hcode.2.2 hnames')) fun hle' hargs => ?_
    exact hpq (.call (r.link.value_mono hle' hf) hargs)
  | «foreign» => exact hcode.elim
  | raw => exact hcode.1.elim

theorem callStep_matched (hpq : r.Together p q) {f f' : Value} {args args' : List Value}
    (hf : r.link.value w f f') (hargs : r.link.values w args args') :
    r.link.Matched w (callStep p f args) (callStep q f' args') r.link.value := by
  cases f with
  | closure id params body env =>
    obtain ⟨c, rfl, k, hc⟩ := hf
    have hlen : args'.length = args.length := (Value.allMatch_iff.mp hargs).length_eq.symm
    have hparams : c.params.length = params.length := by rw [hc.eq, List.length_map]
    dsimp only [callStep]
    rw [hlen, hparams]
    split
    · next harity =>
      refine .bind (R := fun w' g g' => g' = g ∧ w'[g]? = some k) (fun s t hst => ?_) ?_
      · refine ⟨w ++ [k], List.prefix_append _ _, hst.extend hc harity hargs, .ok ⟨?_, ?_⟩⟩
        · exact hst.size'.trans hst.size.symm
        · rw [hst.size, List.getElem?_concat_length]
      · rintro w' g _ hle ⟨rfl, hg⟩
        obtain ⟨rfl, hcode, hadmits, -⟩ := hc
        refine evalBody_matched (fun hle' ⟨he, heq⟩ => heq ▸ hpq (.eval (kind_mono hle' hg) he))
          (forall₂_mapAllNames hcode.2 fun name hname => hadmits name ?_)
        exact List.mem_append_right _ hname
    · exact .raise (.closureArity _ ⟨c, rfl, k, hc⟩ hargs)
  | primitive op id =>
    cases hf
    exact op.run_matched (fun _ hf hvs => hpq (.call hf hvs)) hargs
  | list id items =>
    obtain ⟨items', rfl, hitems⟩ := hf
    exact .raise (.notApplicable ⟨items', rfl, hitems⟩)
  | _ =>
    cases hf
    exact .raise (.same _)

theorem perform_matched (depth : Nat) : r.Together (perform depth) (perform depth) := by
  induction depth with
  | zero => exact fun _ => .of_store fun _ _ hst => ⟨hst, .error rfl⟩
  | succ depth ih =>
    intro w task task' h
    cases h with
    | eval henv he => exact evalStep_matched ih henv he
    | call hf hargs => exact callStep_matched ih hf hargs

/-- At the beginning both runs have the same store, and nothing has been renamed. -/
theorem stores_self (old new : String) (hs : s.WellFormed) :
    (⟨old, new, s.extent⟩ : Renaming).Stores (List.replicate s.frames.size false) s s := by
  have hbefore : ∀ f < s.frames.size, (List.replicate s.frames.size false)[f]? = some false :=
    fun f hf => by simp [hf]
  refine ⟨by simp, by simp, rfl, hbefore, fun {f k} hf => ?_⟩
  have hlt : f < s.frames.size := by
    simpa using (List.getElem?_eq_some_iff.mp hf).1
  obtain rfl : k = false := Option.some.inj (hf.symm.trans (hbefore f hlt))
  have hframe := Array.getElem?_eq_getElem hlt
  refine ⟨_, _, hframe, hframe, rfl, fun g hg => .inl (hbefore g ?_), ?_⟩
  · exact (hs.obeys f _ hframe hlt).1 g hg
  · rw [List.forall₂_same]
    intro b hb
    exact ⟨(Value.mapName_id _).symm, nofun, matches_self hbefore (hs.values hframe b hb)⟩

end Renaming

/-- **Renaming a parameter does not change what a procedure does.** Let `x` be a parameter of a
closure and `y` a name that does not occur in its code, quoted data apart, and call the closure and
the closure with `y` for `x` throughout its code with the same arguments. Both calls end with a
value or both with failures of one kind, and with values and frames that correspond: they differ in
closures only, where the one has code of the procedure and the other the same code renamed, and in
the names of frames that were made for such code. A frame from before the calls has the same names
after either of them. -/
theorem perform_renamed (depth : Nat) {s : Store} (hs : s.WellFormed) {id : Nat}
    {params : List Value} {body : List Expr} {env : FrameId}
    (hc : (Value.closure id params body env).Obeys .wellFormed s.extent) {x y : String}
    (hx : .symbol x ∈ params) (hy : .symbol y ∉ (Expr.lambda params body).names)
    {args : List Value} (hargs : Value.AllObey .wellFormed s.extent args) :
    let r : Renaming := ⟨x, y, s.extent⟩
    let out := perform depth (.call (.closure id params body env) args) s
    let out' := perform depth (.call (.closure id (params.map (Value.mapName (rename x y)))
      (Expr.mapAllNames (rename x y) body) env) args) s
    ∃ w, ResultsMatch (fun e e' => e'.kind = e.kind) (Value.Matches (r.closure w)) out.1 out'.1 ∧
      r.Stores w out.2 out'.2 ∧
      ∀ f < s.frames.size, ∃ a b, out.2.frames[f]? = some a ∧ out'.2.frames[f]? = some b ∧
        b.outer = a.outer ∧
        List.Forall₂ (fun c c' => c'.1 = c.1 ∧ c.2.Matches (r.closure w) c'.2)
          a.bindings b.bindings := by
  intro r out out'
  have hstore := Renaming.stores_self x y hs
  have hclosure : r.link.value (List.replicate s.frames.size false)
      (.closure id params body env) (.closure id (params.map (Value.mapName (rename x y)))
        (Expr.mapAllNames (rename x y) body) env) := by
    refine ⟨⟨_, _, env⟩, rfl, true, rfl, ⟨hc.1.1, hc.2⟩, fun name hname _ heq => ?_, .inr ?_⟩
    · exact hy (heq ▸ hname)
    · exact ⟨rfl, hstore.before env hc.1.2, hx⟩
  obtain ⟨w, -, hw, hresult⟩ := Renaming.perform_matched depth
    (.call hclosure (Renaming.allMatch_self hstore.before hargs)) s s hstore
  refine ⟨w, hresult, hw, fun f hf => ?_⟩
  obtain ⟨a, b, ha, hb, hab⟩ := hw.frame (hw.before f hf)
  refine ⟨a, b, ha, hb, hab.outer, hab.bindings.imp fun c c' hc => ⟨?_, hc.value⟩⟩
  rw [hc.name]
  exact Value.mapName_id c.1

/-- A procedure that assigns its parameter, quotes its name and ends with a procedure that refers to
the parameter. -/
theorem perform_renamed_escaping :
    let code (name : String) : List Expr := [
      .assign (.symbol name) (.apply (.var (.symbol "cons")) [.var (.symbol name),
        .quote (.list 90 [.symbol "x"])]),
      .lambda [.symbol "z"] [.var (.symbol name)]]
    let call (name : String) : Task :=
      .call (.closure 91 [.symbol name] (code name) Store.global) [.int 1]
    let r : Renaming := ⟨"x", "y", Store.initial.extent⟩
    let out := perform 9 (call "x") Store.initial
    let out' := perform 9 (call "y") Store.initial
    out.1.isOk ∧ ∃ w,
      ResultsMatch (fun e e' => e'.kind = e.kind) (Value.Matches (r.closure w)) out.1 out'.1 ∧
      r.Stores w out.2 out'.2 := by
  intro code call r out out'
  have hx : DistinctSymbols [.symbol "x"] := ⟨["x"], by simp, rfl⟩
  have hz : DistinctSymbols [.symbol "z"] := ⟨["z"], by simp, rfl⟩
  have hc : (Value.closure 91 [.symbol "x"] (code "x") Store.global).Obeys .wellFormed
      Store.initial.extent := by
    simp [code, Value.Obeys, Value.AllObey, Expr.Obeys, Expr.AllObey, Law.wellFormed,
      Expr.IsShaped, Value.isSymbol, hx, hz, Store.global, Store.extent, Store.initial]
  have hy : .symbol "y" ∉ (Expr.lambda [.symbol "x"] (code "x")).names := by
    simp [code, Expr.names, Expr.allNames]
  have hcode : Expr.mapAllNames (rename "x" "y") (code "x") = code "y" := by
    simp [code, Expr.mapAllNames, Expr.mapNames, Value.mapName, rename]
  have hok : out.1.isOk := by decide +kernel
  have hargs : Value.AllObey .wellFormed Store.initial.extent [.int 1] := ⟨trivial, trivial⟩
  obtain ⟨w, hresult, hstores, -⟩ :=
    perform_renamed 9 Store.initial_wellFormed hc (.head _) hy hargs
  rw [hcode] at hresult hstores
  exact ⟨hok, w, hresult, hstores⟩

end SmallLisp
