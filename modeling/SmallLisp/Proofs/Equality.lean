import Mathlib.Data.List.Forall2
import SmallLisp.Proofs.Coherence

/-!
# The laws of `equal?`

Two values without doubles are `equal?` when they are the same but for the identities of their lists
(`Value.equal_iff_bare_eq`). The shortcut for lists with one identity is right because a heap tells
their items. So in a session `equal?` is an equivalence that looks at lists item by item, never
takes a boolean for a number, and holds of what is `eq?` (`Session.equality_laws`).
-/

namespace SmallLisp

mutual

/-- There is no double in the value, the code of procedures apart. -/
def Value.floatFree : Value → Bool
  | .float _ _ => false
  | .list _ items => Value.allFloatFree items
  | _ => true

def Value.allFloatFree : List Value → Bool
  | [] => true
  | v :: vs => v.floatFree && Value.allFloatFree vs

end

mutual

/-- What `equal?` looks at in a value without doubles: of a procedure its identity, of a list not
the identity but the items. -/
def Value.bare : Value → Value
  | .list _ items => .list 0 (Value.bareAll items)
  | .primitive _ id => .primitive .apply id
  | .closure id _ _ _ => .closure id [] [] 0
  | v => v

def Value.bareAll : List Value → List Value
  | [] => []
  | v :: vs => v.bare :: Value.bareAll vs

end

/-- The value at a place in a list, given by the position at each depth. -/
def Value.at? : List Nat → Value → Option Value
  | [], v => some v
  | k :: place, .list _ items => items[k]?.bind (Value.at? place)
  | _ :: _, _ => none

/-! ## Lists -/

theorem Value.bareAll_eq_map (vs : List Value) : Value.bareAll vs = vs.map Value.bare := by
  induction vs with
  | nil => rfl
  | cons v vs ih => rw [Value.bareAll, ih, List.map_cons]

theorem Value.equalAll_iff_forall₂ {xs ys : List Value} :
    Value.equalAll xs ys ↔ List.Forall₂ (fun x y => x.equal y) xs ys := by
  induction xs generalizing ys with
  | nil => cases ys <;> simp [Value.equalAll]
  | cons x xs ih => cases ys <;> simp [Value.equalAll, ih]

theorem Value.at?_bare (place : List Nat) (v : Value) :
    v.bare.at? place = (v.at? place).map Value.bare := by
  induction place generalizing v with
  | nil => rfl
  | cons k place ih =>
    cases v with
    | list id items =>
      simp only [Value.bare, Value.at?, Value.bareAll_eq_map, List.getElem?_map, Option.bind_map,
        Option.map_bind]
      exact congrArg items[k]?.bind (funext ih)
    | _ => rfl

/-! ## Equality -/

variable {H : Heap} {x y : Extent}

theorem Number.same_int_iff {m n : Int} : (Number.int m).same (.int n) ↔ m = n := by
  simp [Number.same, Number.order]

mutual

/-- Under one heap, values without doubles are `equal?` when they are the same but for the
identities of lists. -/
theorem Value.equal_iff_bare_eq : ∀ {a b : Value}, a.Obeys (.heap H) x → b.Obeys (.heap H) y →
    a.floatFree → b.floatFree → (a.equal b ↔ a.bare = b.bare)
  | .list i xs, b, ha, hb, hfa, hfb => by
    cases b with
    | list j ys =>
      have hitems := Value.equalAll_iff_bareAll_eq ha.2 hb.2 hfa hfb
      -- With one identity they have the items that the heap tells.
      have hsame : i = j → Value.bareAll xs = Value.bareAll ys := by
        rintro rfl
        rw [← ha.1.2, ← hb.1.2]
      simp only [Value.equal, Bool.or_eq_true, beq_iff_eq, Value.bare, Value.list.injEq, true_and,
        hitems]
      exact ⟨fun h => h.elim hsame id, .inr⟩
    | _ => simp [Value.equal, Value.equalAtom, Value.number?, Value.eq, Value.bare]
  | .bool _, b, _, hb, _, hfb | .int _, b, _, hb, _, hfb | .text _, b, _, hb, _, hfb
  | .symbol _, b, _, hb, _, hfb | .unspecified, b, _, hb, _, hfb | .primitive _ _, b, _, hb, _, hfb
  | .closure _ _ _ _, b, _, hb, _, hfb => by
    cases b with
    | float => cases hfb
    | _ => simp [Value.equal, Value.equalAtom, Value.number?, Value.eq, Value.bare,
        Number.same_int_iff]

theorem Value.equalAll_iff_bareAll_eq : ∀ {xs ys : List Value}, Value.AllObey (.heap H) x xs →
    Value.AllObey (.heap H) y ys → Value.allFloatFree xs → Value.allFloatFree ys →
    (Value.equalAll xs ys ↔ Value.bareAll xs = Value.bareAll ys)
  | [], [], _, _, _, _ | [], _ :: _, _, _, _, _ | _ :: _, [], _, _, _, _ => by
    simp [Value.equalAll, Value.bareAll]
  | v :: vs, w :: ws, hv, hw, hfv, hfw => by
    rw [Value.allFloatFree, Bool.and_eq_true] at hfv hfw
    rw [Value.equalAll, Bool.and_eq_true, Value.bareAll, Value.bareAll, List.cons.injEq,
      Value.equal_iff_bare_eq hv.1 hw.1 hfv.1 hfw.1,
      Value.equalAll_iff_bareAll_eq hv.2 hw.2 hfv.2 hfw.2]

end

theorem Value.equal_list_iff {i j : Nat} {xs ys : List Value}
    (ha : (Value.list i xs).Obeys (.heap H) x) (hb : (Value.list j ys).Obeys (.heap H) y)
    (hfa : (Value.list i xs).floatFree) (hfb : (Value.list j ys).floatFree) :
    (Value.list i xs).equal (.list j ys) ↔ List.Forall₂ (fun x y => x.equal y) xs ys := by
  rw [Value.equal_iff_bare_eq ha hb hfa hfb, Value.bare, Value.bare, Value.list.injEq,
    ← Value.equalAll_iff_bareAll_eq ha.2 hb.2 hfa hfb, Value.equalAll_iff_forall₂]
  exact and_iff_right rfl

theorem Value.equal_of_eq {a b : Value} (h : a.eq b) : a.equal b := by
  cases a <;> cases b <;> first
    | exact h
    | simp_all [Value.equal, Value.equalAtom, Value.number?, Value.eq, Number.same_int_iff]

/-- No place holds a boolean in one and an integer in the other of two values that are the same but
for identities. -/
theorem Value.at?_ne_of_bare_eq {a b : Value} (h : a.bare = b.bare) (place : List Nat) (t : Bool)
    (n : Int) (ha : a.at? place = some (.bool t)) : b.at? place ≠ some (.int n) := by
  intro hb
  have hplace : (a.at? place).map Value.bare = (b.at? place).map Value.bare := by
    rw [← Value.at?_bare, ← Value.at?_bare, h]
  rw [ha, hb] at hplace
  cases hplace

/-! ## Sessions -/

/-- The value has been there at one of the moments, and there is no double in it. -/
structure Value.Occurs (ms : List Moment) (v : Value) : Prop where
  isAt : ∃ m ∈ ms, v.IsAt m
  floatFree : v.floatFree

theorem Value.Occurs.obeys {n n' : Nat} {ms : List Moment} {v : Value} (h : v.Occurs ms)
    (hms : History H n ms n') : ∃ x, v.Obeys (.heap H) x := by
  obtain ⟨m, hm, hv⟩ := h.isAt
  exact ⟨_, hms.obeys_of_isAt hm hv⟩

/-- **The laws of `equal?`.** Every state of an interpreter that is given texts ends a session, and
among the values without doubles that have occurred in a session: `equal?` is reflexive, symmetric
and transitive, lists are `equal?` when they have as many items and these are `equal?` one by one,
`equal?` values have no boolean in the place of an integer at any depth, and what is `eq?` is
`equal?`. -/
theorem Session.equality_laws [CharacterNames] :
    (∀ s, Interpreter.Reachable (fun _ => False) s → ∃ ms, Session ms s) ∧
    ∀ ms s, Session ms s →
      (∀ a : Value, a.Occurs ms → a.equal a) ∧
      (∀ a b : Value, a.Occurs ms → b.Occurs ms → a.equal b → b.equal a) ∧
      (∀ a b c : Value, a.Occurs ms → b.Occurs ms → c.Occurs ms →
        a.equal b → b.equal c → a.equal c) ∧
      (∀ i j xs ys, (Value.list i xs).Occurs ms → (Value.list j ys).Occurs ms →
        ((Value.list i xs).equal (.list j ys) ↔ List.Forall₂ (fun x y => x.equal y) xs ys)) ∧
      (∀ a b : Value, a.Occurs ms → b.Occurs ms → a.equal b → ∀ place t n,
        (a.at? place = some (.bool t) → b.at? place ≠ some (.int n)) ∧
        (a.at? place = some (.int n) → b.at? place ≠ some (.bool t))) ∧
      ∀ a b : Value, a.Occurs ms → b.Occurs ms → a.eq b → a.equal b := by
  refine ⟨fun s h => h.session, fun ms s h => ?_⟩
  obtain ⟨H, hms, -⟩ := h.coherent
  have hbare : ∀ {a b : Value}, a.Occurs ms → b.Occurs ms → (a.equal b ↔ a.bare = b.bare) := by
    intro a b ha hb
    obtain ⟨x, hax⟩ := ha.obeys hms
    obtain ⟨y, hby⟩ := hb.obeys hms
    exact Value.equal_iff_bare_eq hax hby ha.floatFree hb.floatFree
  refine ⟨fun a ha => (hbare ha ha).mpr rfl, fun a b ha hb hab => ?_,
    fun a b c ha hb hc hab hbc => ?_, fun i j xs ys hx hy => ?_,
    fun a b ha hb hab place t n => ⟨?_, fun han hbt => ?_⟩, fun a b _ _ => Value.equal_of_eq⟩
  · exact (hbare hb ha).mpr ((hbare ha hb).mp hab).symm
  · exact (hbare ha hc).mpr (((hbare ha hb).mp hab).trans ((hbare hb hc).mp hbc))
  · obtain ⟨x, hax⟩ := hx.obeys hms
    obtain ⟨y, hby⟩ := hy.obeys hms
    exact Value.equal_list_iff hax hby hx.floatFree hy.floatFree
  · exact Value.at?_ne_of_bare_eq ((hbare ha hb).mp hab) place t n
  · exact Value.at?_ne_of_bare_eq ((hbare ha hb).mp hab).symm place t n hbt han

/-- Two lists in one form that are not `eq?`. -/
theorem Session.equality_laws_lists :
    let a := Value.list 25 [.int 1, .list 26 [.bool true]]
    let b := Value.list 27 [.int 1, .list 28 [.bool true]]
    ∃ ms s, Session ms s ∧ a.Occurs ms ∧ b.Occurs ms ∧ a.eq b = false ∧ a.equal b ∧
      b.equal a ∧ b.at? [1, 0] ≠ some (.int 1) := by
  intro a b
  let d : Datum := .list [.list [.int 1, .list [.bool true]], .list [.int 1, .list [.bool true]]]
  have hd : d.IsRead :=
    ⟨⟨trivial, ⟨trivial, trivial⟩, trivial⟩, ⟨trivial, ⟨trivial, trivial⟩, trivial⟩, trivial⟩
  have hsession := Session.start.datum 0 hd
  obtain ⟨-, hsymm, -, -, hplaces, -⟩ := Session.equality_laws.2 _ _ hsession
  have hread : .read d Store.initial ∈ [] ++ (Traced.evalDatum 0 d Store.initial).2 :=
    List.mem_cons_self
  have ha : a.Occurs _ := ⟨⟨_, hread, .inl (.inr (.inl (.inl rfl)))⟩, rfl⟩
  have hb : b.Occurs _ := ⟨⟨_, hread, .inl (.inr (.inr (.inl (.inl rfl))))⟩, rfl⟩
  exact ⟨_, _, hsession, ha, hb, rfl, rfl, hsymm a b ha hb rfl,
    (hplaces a b ha hb rfl [1, 0] true 1).1 rfl⟩

end SmallLisp
