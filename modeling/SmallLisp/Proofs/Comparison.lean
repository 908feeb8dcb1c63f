import Mathlib.Data.List.Chain
import SmallLisp.Run.Primitive

/-!
# Comparisons of several numbers

A comparison looks at all of its arguments before it compares any two of them, so the first one that
is no number is blamed wherever the comparison is decided (`Primitive.numbers_of_blamed`). Then it
compares neighbours only. The relations in question are transitive, so between integers the outcome
is that of comparing all pairs (`Primitive.chain_ints_iff`).
-/

namespace SmallLisp

/-- What counts as a number: an integer or a double. -/
def Value.IsNumeric (v : Value) : Prop := (∃ n, v = .int n) ∨ ∃ x id, v = .float x id

theorem Value.number?_eq_none_iff {v : Value} : v.number? = none ↔ ¬ v.IsNumeric := by
  cases v <;> simp [number?, IsNumeric]

/-- An argument that a primitive blames: it is no number, and all before it are. -/
structure Blamed (args : List Value) (v : Value) : Prop where
  notNumeric : ¬ v.IsNumeric
  first : ∃ front back, args = front ++ v :: back ∧ ∀ u ∈ front, u.IsNumeric

namespace Primitive

variable {op : Primitive} {R : Int → Int → Prop} {holds : Option Ordering → Bool}

/-- The comparisons, each with the relation between integers that it stands for. -/
inductive Compares : Primitive → (Int → Int → Prop) → Prop
  | numEq : Compares .numEq (· = ·)
  | numLt : Compares .numLt (· < ·)
  | numLe : Compares .numLe (· ≤ ·)
  | numGt : Compares .numGt (· > ·)
  | numGe : Compares .numGe (· ≥ ·)

/-! ## The check of the arguments -/

theorem numbers_of_blamed {args : List Value} {v : Value} (h : Blamed args v) (op : Primitive) :
    numbers op args = .error (Error.notNumber op v).raise := by
  obtain ⟨hv, front, back, rfl, hfront⟩ := h
  induction front with
  | nil => rw [List.nil_append, numbers, Value.number?_eq_none_iff.mpr hv]
  | cons u front ih =>
    have hu : u.number? ≠ none := mt Value.number?_eq_none_iff.mp (not_not.mpr (hfront u (.head _)))
    obtain ⟨n, hn⟩ := Option.ne_none_iff_exists'.mp hu
    rw [List.cons_append, numbers, hn]
    exact congrArg (· >>= fun ns => pure (n :: ns)) (ih fun w hw => hfront w (.tail _ hw))

theorem numbers_ints (op : Primitive) (ns : List Int) :
    numbers op (ns.map .int) = .ok (ns.map .int) := by
  induction ns with
  | nil => rfl
  | cons n ns ih =>
    rw [List.map_cons, numbers]
    exact congrArg (· >>= fun ms => pure (Number.int n :: ms)) ih

/-! ## The chain of comparisons -/

/-- A test of neighbours is one of the integers themselves. -/
theorem chain_ints_isChain (htest : ∀ m n : Int, holds (some (compare m n)) ↔ R m n) :
    ∀ ns : List Int, chain holds (ns.map .int) ↔ ns.IsChain R
  | [] | [_] => by simp [chain]
  | m :: n :: ns => by
    rw [List.isChain_cons_cons, ← chain_ints_isChain htest (n :: ns), ← htest m n]
    exact Bool.and_eq_true_iff

theorem chain_ints_iff (htest : ∀ m n : Int, holds (some (compare m n)) ↔ R m n)
    (htrans : ∀ {k m n : Int}, R k m → R m n → R k n) (ns : List Int) :
    chain holds (ns.map .int) ↔ ns.Pairwise R := by
  have : Trans R R R := ⟨htrans⟩
  rw [chain_ints_isChain htest, List.isChain_iff_pairwise]

/-- Every comparison checks its arguments and then tests neighbours, for a transitive relation. -/
theorem Compares.exists_test (h : Compares op R) : ∃ holds : Option Ordering → Bool,
    (∀ call args, run call op args = compareAll op holds args) ∧
    (∀ m n : Int, holds (some (compare m n)) ↔ R m n) ∧
    ∀ {k m n : Int}, R k m → R m n → R k n := by
  cases h with
  | numEq => exact ⟨_, fun _ _ => rfl, by simp, Eq.trans⟩
  | numLt => exact ⟨_, fun _ _ => rfl, by simp [Int.compare_eq_lt], Int.lt_trans⟩
  | numLe =>
    refine ⟨_, fun _ _ => rfl, fun m n => ?_, Int.le_trans⟩
    simp only [Bool.or_eq_true, beq_iff_eq, Option.some.injEq, Int.compare_eq_lt, Int.compare_eq_eq]
    exact Int.le_iff_lt_or_eq.symm
  | numGt =>
    exact ⟨_, fun _ _ => rfl, by simp [Int.compare_eq_gt], fun h h' => Int.lt_trans h' h⟩
  | numGe =>
    refine ⟨_, fun _ _ => rfl, fun m n => ?_, fun h h' => Int.le_trans h' h⟩
    simp only [Bool.or_eq_true, beq_iff_eq, Option.some.injEq, Int.compare_eq_gt, Int.compare_eq_eq,
      eq_comm (a := m)]
    exact Int.le_iff_lt_or_eq.symm

/-- **A comparison holds between all its arguments, once all are numbers.** If an argument is no
number, then the first such is blamed, whatever the arguments before it are like (unless it holds an
integer that is too long for a message). If all arguments are integers, the answer is true exactly
if the relation holds between each argument and every later one, not only the next. -/
theorem comparison_of_all_pairs (h : Compares op R) (call : Value → List Value → Action Value)
    (args : List Value) (s : Store) :
    (∀ v, Blamed args v → v.fits → ∃ e, op.run call args s = (.error (.error e), s) ∧
      e.kind = .wrongType ∧ e.subject = v) ∧
    ∀ ns : List Int, args = ns.map .int → ∃ b, op.run call args s = (.ok (.bool b), s) ∧
      (b ↔ ns.Pairwise R) := by
  obtain ⟨holds, hrun, htest, htrans⟩ := h.exists_test
  rw [hrun]
  constructor
  · intro v hblamed hfits
    have hraise : (Error.notNumber op v).raise = .error (.notNumber op v) := if_pos hfits
    refine ⟨.notNumber op v, ?_, rfl, rfl⟩
    rw [← hraise]
    exact Action.bind_of_error (by rw [Action.ofExcept, numbers_of_blamed hblamed])
  · rintro ns rfl
    refine ⟨chain holds (ns.map .int), ?_, chain_ints_iff htest htrans ns⟩
    exact Action.bind_of_ok (by rw [Action.ofExcept, numbers_ints])

/-- In `(< 2 1 #t)` the first two arguments decide the comparison, and yet the boolean is blamed. In
`(>= 3 2 2)` the first argument is also compared with the last. -/
theorem comparison_of_all_pairs_decided :
    let call : Value → List Value → Action Value := fun f _ => pure f
    Blamed [.int 2, .int 1, .bool true] (.bool true) ∧
    (∃ e, numLt.run call [.int 2, .int 1, .bool true] .empty = (.error (.error e), .empty) ∧
      e.kind = .wrongType ∧ e.subject = .bool true) ∧
    [3, 2, 2].Pairwise (· ≥ · : Int → Int → Prop) ∧
    numGe.run call [.int 3, .int 2, .int 2] .empty = (.ok (.bool true), .empty) := by
  intro call
  have hblamed : Blamed [.int 2, .int 1, .bool true] (.bool true) := by
    refine ⟨?_, [.int 2, .int 1], [], rfl, ?_⟩
    · simp [Value.IsNumeric]
    · simp [Value.IsNumeric]
  have hpairs : [3, 2, 2].Pairwise (· ≥ · : Int → Int → Prop) := by decide
  obtain ⟨b, hrun, hb⟩ := (comparison_of_all_pairs .numGe call _ .empty).2 [3, 2, 2] rfl
  cases hb.mpr hpairs
  exact ⟨hblamed, (comparison_of_all_pairs .numLt call _ .empty).1 _ hblamed rfl, hpairs, hrun⟩

end Primitive

end SmallLisp
