import SmallLisp.Proofs.ExprGrammar
import SmallLisp.Proofs.Scope

/-!
# Calls of procedures

A new frame takes as many bindings as there are both parameters and arguments, and a parameter that
occurs twice would be bound once. Nothing is lost because analysis lets only distinct symbols be
parameters and because a call counts its arguments before it makes a frame: the frame of a call
binds exactly the parameters, each to its argument (`Frame.ofArgs_bindings`), and all other names
mean in it what they mean where the procedure was made (`Store.lookup_extend_of_unbound`).
-/

namespace SmallLisp

/-! ## Frames for calls -/

theorem Frame.putIn_of_new {name v : Value} {bs : List (Value × Value)}
    (h : ∀ b ∈ bs, b.1.alike name = false) : Frame.putIn name v bs = bs ++ [(name, v)] := by
  induction bs with
  | nil => rfl
  | cons b bs ih =>
    rw [Frame.putIn, h b (.head _), ih fun c hc => h c (.tail _ hc)]
    rfl

/-- A frame for a call binds each parameter to its argument. -/
theorem Frame.ofArgs_bindings {outer : FrameId} {params args : List Value}
    (h : DistinctSymbols params) :
    (Frame.ofArgs outer params args).bindings = params.zip args := by
  -- The bindings before are of other names.
  have hfold : ∀ (names : List String) (args : List Value) (bs : List (Value × Value)),
      names.Nodup → (∀ b ∈ bs, ∀ n ∈ names, b.1 ≠ .symbol n) →
      ((names.map Value.symbol).zip args).foldl (fun bs b => Frame.putIn b.1 b.2 bs) bs =
        bs ++ (names.map Value.symbol).zip args := by
    intro names
    induction names with
    | nil => simp
    | cons n names ih =>
      intro args bs hnodup hbs
      obtain ⟨hn, hnodup⟩ := List.nodup_cons.mp hnodup
      cases args with
      | nil => simp
      | cons arg args =>
        have hnew : ∀ b ∈ bs, b.1.alike (.symbol n) = false := fun b hb =>
          Bool.eq_false_iff.mpr (mt Value.alike_symbol_iff.mp (hbs b hb n (.head _)))
        rw [List.map_cons, List.zip_cons_cons, List.foldl_cons, Frame.putIn_of_new hnew,
          ih args _ hnodup, List.append_assoc, List.singleton_append]
        intro b hb m hm
        rcases List.mem_append.mp hb with hb | hb
        · exact hbs b hb m (.tail _ hm)
        · cases List.mem_singleton.mp hb
          rintro ⟨⟩
          exact hn hm
  obtain ⟨names, hnodup, rfl⟩ := h
  exact hfold names args [] hnodup nofun

theorem Frame.get?_of_mem_zip {outer : Option FrameId} {params args : List Value} {p a : Value}
    (h : DistinctSymbols params) (hb : (p, a) ∈ params.zip args) :
    (⟨outer, params.zip args⟩ : Frame).get? p = some a := by
  obtain ⟨names, hnodup, rfl⟩ := h
  induction names generalizing args with
  | nil => cases hb
  | cons n names ih =>
    cases args with
    | nil => cases hb
    | cons b args =>
      obtain ⟨hn, hnodup⟩ := List.nodup_cons.mp hnodup
      rw [List.map_cons, List.zip_cons_cons] at hb ⊢
      rcases List.mem_cons.mp hb with hfirst | hb
      · cases hfirst
        simp [Frame.get?, Value.alike_symbol_iff]
      · obtain ⟨m, hm, rfl⟩ := List.mem_map.mp (List.of_mem_zip hb).1
        have hother : (Value.symbol n).alike (.symbol m) = false := by
          refine Bool.eq_false_iff.mpr (mt Value.alike_symbol_iff.mp ?_)
          rintro ⟨⟩
          exact hn hm
        rw [Frame.get?, List.find?_cons, hother]
        exact ih hnodup hb

theorem Frame.get?_of_not_mem {outer : Option FrameId} {params args : List Value} {y : String}
    (h : .symbol y ∉ params) : (⟨outer, params.zip args⟩ : Frame).get? (.symbol y) = none := by
  rw [Frame.get?, Option.map_eq_none_iff, List.find?_eq_none]
  rintro ⟨p, a⟩ hb halike
  exact h (Value.alike_symbol_iff.mp halike ▸ (List.of_mem_zip hb).1)

namespace Store

variable {s : Store} {f : FrameId} {params args : List Value} {name v : Value}

theorem frames_extend_last (s : Store) (f : FrameId) (params args : List Value) :
    (s.extend f params args).frames[s.frames.size]? = some (.ofArgs f params args) := by
  rw [Store.extend, Array.getElem?_push_size]

theorem lookup_extend_of_bound (h : (Frame.ofArgs f params args).get? name = some v) :
    (s.extend f params args).lookup s.frames.size name = .ok v := by
  have hfind : (s.extend f params args).find? s.frames.size name = some s.frames.size := by
    rw [Store.find?, frames_extend_last]
    simp [h]
  rw [Store.lookup, hfind, Option.bind_some, Store.get?, frames_extend_last, Option.bind_some, h]

theorem find?_of_not_lt (h : ¬ f < s.frames.size) : s.find? f name = none := by
  rw [Store.find?, Array.getElem?_eq_none (Nat.le_of_not_lt h)]

theorem lookup_of_find?_eq_none (h : s.find? f name = none) :
    s.lookup f name = .error (Error.unbound name).raise := by
  rw [Store.lookup, h, Option.bind_none]

/-- A name that the new frame does not bind means in it what it means outside. -/
theorem lookup_extend_of_unbound (h : (Frame.ofArgs f params args).get? name = none) :
    (s.extend f params args).lookup s.frames.size name = s.lookup f name := by
  have hfind : (s.extend f params args).find? s.frames.size name =
      if f < s.frames.size then (s.extend f params args).find? f name else none := by
    have houter : (Frame.ofArgs f params args).outer = some f := rfl
    rw [Store.find?, frames_extend_last]
    simp [h, houter]
  by_cases hf : f < s.frames.size
  · rw [if_pos hf] at hfind
    rw [Store.lookup, hfind, ← Store.lookup, (find?_and_lookup_extend hf f params args name).2]
  · rw [if_neg hf] at hfind
    rw [lookup_of_find?_eq_none hfind, lookup_of_find?_eq_none (find?_of_not_lt hf)]

/-- Outside, the name means what it meant before. -/
theorem lookup_extend_outer (h : (Frame.ofArgs f params args).get? name = none) :
    (s.extend f params args).lookup f name = s.lookup f name := by
  rcases Nat.lt_trichotomy f s.frames.size with hf | rfl | hf
  · exact (find?_and_lookup_extend hf f params args name).2
  · exact lookup_extend_of_unbound h
  · -- There is no frame `f`, neither before nor after.
    have hsize : (s.extend f params args).frames.size = s.frames.size + 1 := Array.size_push _
    have hafter : ¬ f < (s.extend f params args).frames.size := Nat.not_lt.mpr (hsize ▸ hf)
    rw [lookup_of_find?_eq_none (find?_of_not_lt hafter),
      lookup_of_find?_eq_none (find?_of_not_lt (Nat.lt_asymm hf))]

end Store

/-! ## Procedures that analysis made -/

/-- The expression that evaluates to a procedure is one that analysis made: of a `lambda` form, or
as the value of a definition. -/
def IsAnalyzedLambda (params : List Value) (body : List Expr) : Prop :=
  ∃ form, analyze form = .ok (.lambda params body) ∨
    ∃ target, analyze form = .ok (.define target (.lambda params body))

theorem IsAnalyzedLambda.distinctSymbols {params : List Value} {body : List Expr}
    (h : IsAnalyzedLambda params body) : DistinctSymbols params := by
  obtain ⟨form, ha | ⟨target, ha⟩⟩ := h
  · cases analyzes_of_analyze ha with
    | lambda hps => exact hps
  · cases analyzes_of_analyze ha with
    | define hvalue =>
      cases hvalue with
      | lambda hps => exact hps
    | procedure hps => exact hps

theorem DistinctSymbols.allFit {params : List Value} (h : DistinctSymbols params) :
    Value.allFit params := by
  obtain ⟨names, -, rfl⟩ := h
  induction names with
  | nil => rfl
  | cons n names ih => exact ih

/-- The procedure that a `lambda` expression evaluates to. -/
theorem eq_closure_of_perform {depth : Nat} {params : List Value} {body : List Expr}
    {env : FrameId} {s s' : Store} {v : Value}
    (h : perform depth (.eval (.lambda params body) env) s = (.ok v, s')) :
    ∃ id, v = .closure id params body env := by
  cases depth with
  | zero => cases h
  | succ depth => cases h; exact ⟨_, rfl⟩

/-- **A call binds each parameter to its argument.** A procedure with the parameters `params` has
come of code that analysis made, in the frame `env`. Called with another number of arguments, in any
store, it raises an error of arity that has the procedure and all the arguments, and the store stays
as it is. Called with as many arguments as parameters, its body runs in a new frame inside `env`
that binds the parameters to the arguments in their order and nothing else; in this frame each
parameter means its argument, and every other symbol what it means in `env`. -/
theorem call_binds_parameters {params : List Value} {body : List Expr} {env : FrameId}
    (ha : IsAnalyzedLambda params body) {depth₀ : Nat} {s₀ s₁ : Store} {v : Value}
    (hv : perform depth₀ (.eval (.lambda params body) env) s₀ = (.ok v, s₁))
    (depth : Nat) (s : Store) (args : List Value) :
    (args.length ≠ params.length →
      ∃ e, perform (depth + 1) (.call v args) s = (.error (.error e), s) ∧
        e.kind = .wrongArity ∧ e.subject = v ∧ e.args? = some args) ∧
    (args.length = params.length →
      ∃ s', perform (depth + 1) (.call v args) s =
          evalBody (perform depth) s.frames.size body s' ∧
        s' = { s with frames := s.frames.push ⟨some env, params.zip args⟩ } ∧
        (∀ p a, (p, a) ∈ params.zip args → s'.lookup s.frames.size p = .ok a) ∧
        ∀ y, .symbol y ∉ params →
          s'.lookup s.frames.size (.symbol y) = s'.lookup env (.symbol y) ∧
            s'.lookup env (.symbol y) = s.lookup env (.symbol y)) := by
  have hps := ha.distinctSymbols
  obtain ⟨id, rfl⟩ := eq_closure_of_perform hv
  constructor
  · intro hlen
    have hraise : (Error.closureArity (.closure id params body env) params.length args).raise =
        .error (.closureArity (.closure id params body env) params.length args) :=
      if_pos hps.allFit
    refine ⟨.closureArity (.closure id params body env) params.length args, ?_, rfl, rfl, rfl⟩
    rw [← hraise]
    exact congrFun (if_neg hlen) s
  · intro hlen
    have hbindings : (Frame.ofArgs env params args).bindings = params.zip args :=
      Frame.ofArgs_bindings hps
    have hframe : Frame.ofArgs env params args = ⟨some env, params.zip args⟩ :=
      congrArg (Frame.mk (some env)) hbindings
    refine ⟨s.extend env params args, congrFun (if_pos hlen) s, ?_, fun p a hb => ?_,
      fun y hy => ?_⟩
    · rw [Store.extend, hframe]
    · exact Store.lookup_extend_of_bound (hframe ▸ Frame.get?_of_mem_zip hps hb)
    · have hunbound : (Frame.ofArgs env params args).get? (.symbol y) = none :=
        hframe ▸ Frame.get?_of_not_mem hy
      rw [Store.lookup_extend_of_unbound hunbound, Store.lookup_extend_outer hunbound]
      exact ⟨rfl, rfl⟩

/-- After `(define (f x y) x)` in the initial store, `f` with two arguments and with one. -/
theorem call_binds_parameters_two :
    let params := [Value.symbol "x", .symbol "y"]
    let body := [Expr.var (.symbol "x")]
    let v := Value.closure Store.initial.nextId params body 0
    IsAnalyzedLambda params body ∧
      (∃ s, perform 1 (.eval (.lambda params body) 0) .initial = (.ok v, s)) ∧
      (∃ e, perform 1 (.call v [.int 1]) .initial = (.error (.error e), .initial) ∧
        e.kind = .wrongArity ∧ e.subject = v ∧ e.args? = some [.int 1]) ∧
      ∃ s', perform 1 (.call v [.int 1, .int 2]) .initial =
          evalBody (perform 0) 1 body s' ∧
        s'.lookup 1 (.symbol "x") = .ok (.int 1) ∧ s'.lookup 1 (.symbol "y") = .ok (.int 2) ∧
        s'.lookup 1 (.symbol "car") = Store.initial.lookup 0 (.symbol "car") := by
  intro params body v
  have ha : IsAnalyzedLambda params body := by
    refine ⟨.list 0 [.symbol "define", .list 0 [.symbol "f", .symbol "x", .symbol "y"],
      .symbol "x"], .inr ⟨.symbol "f", analyze_of_analyzes ?_⟩⟩
    exact .procedure ⟨["x", "y"], by decide, rfl⟩ (by simp) (.cons .var .nil)
  have hv : perform 1 (.eval (.lambda params body) 0) .initial =
      (.ok v, { Store.initial with nextId := Store.initial.nextId + 1 }) := rfl
  obtain ⟨s', hrun, -, hparams, hothers⟩ :=
    (call_binds_parameters ha hv 0 .initial [.int 1, .int 2]).2 rfl
  obtain ⟨hinside, houtside⟩ := hothers "car" (by simp [params])
  exact ⟨ha, ⟨_, hv⟩, (call_binds_parameters ha hv 0 .initial [.int 1]).1 (by simp [params]),
    s', hrun, hparams _ _ (by simp [params]), hparams _ _ (by simp [params]),
    hinside.trans houtside⟩

end SmallLisp
