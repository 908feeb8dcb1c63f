import Mathlib.Data.List.DropRight
import Mathlib.Data.Nat.Digits.Lemmas
import SmallLisp.Numeral.Integer

/-!
# Integer texts

The text of an integer is its sign and its digits in base ten. Reading gives the integer back as
long as it has no more digits than a text may have (`readInt?_intChars`).
-/

namespace SmallLisp.Numeral

open Text

theorem tenPow_eq (n : Nat) : tenPow n = 10 ^ n := rfl

theorem fits_iff {n : Int} : fits n ↔ n.natAbs < 10 ^ maxDigits := by
  rw [fits, decide_eq_true_iff, tenPow_eq]

/-- The digits of a number, first digit first. -/
def digits (n : Nat) : List Nat := if n = 0 then [0] else (Nat.digits 10 n).reverse

theorem digits_ne_nil (n : Nat) : digits n ≠ [] := by
  by_cases h : n = 0 <;> simp [digits, h, Nat.digits_ne_nil_iff_ne_zero]

theorem lt_of_mem_digits {n d : Nat} (h : d ∈ digits n) : d < 10 := by
  unfold digits at h
  split at h
  · simp at h; omega
  · exact Nat.digits_lt_base (by decide) (List.mem_reverse.mp h)

theorem length_digits_le {n k : Nat} (hk : 0 < k) (h : n < 10 ^ k) : (digits n).length ≤ k := by
  unfold digits
  split
  · exact hk
  · rw [List.length_reverse]
    exact (Nat.digits_length_le_iff (by decide) n).mpr h

theorem positional_reverse (ds : List Nat) : positional ds.reverse = Nat.ofDigits 10 ds := by
  rw [positional, List.foldl_reverse, Nat.ofDigits_eq_foldr]
  congr 1
  funext d n
  simp [Nat.add_comm]

theorem positional_digits (n : Nat) : positional (digits n) = n := by
  unfold digits
  split
  · next h => rw [h]; rfl
  · rw [positional_reverse, Nat.ofDigits_digits]

theorem decimalOnto_eq {n : Nat} (hn : n ≠ 0) (tail : List Char) :
    decimalOnto n tail = (Nat.digits 10 n).reverse.map digitChar ++ tail := by
  induction n using Nat.strongRecOn generalizing tail with
  | ind n ih =>
    rw [decimalOnto, Nat.digits_def' (by decide) (Nat.pos_of_ne_zero hn)]
    split
    · next h => simp [Nat.div_eq_of_lt h, Nat.mod_eq_of_lt h]
    · next h =>
      rw [ih (n / 10) (by omega) (by omega)]
      simp

theorem decimal_eq (n : Nat) : decimal n = (digits n).map digitChar := by
  unfold digits
  split
  · next h => rw [h, decimal, decimalOnto]; rfl
  · next h => rw [decimal, decimalOnto_eq h, List.append_nil]

/-! ## Reading digits -/

theorem digitValue?_digitChar : ∀ d < 10, digitValue? (digitChar d) = some d := by decide

theorem digitChar_ne : ∀ d < 10, digitChar d ≠ '_' ∧ digitChar d ≠ '-' ∧ digitChar d ≠ '+' := by
  decide

theorem groupedDigits?_cons_cons {c e : Char} {d : Nat} (hd : digitValue? c = some d)
    (he : e ≠ '_') (cs : List Char) :
    groupedDigits? (c :: e :: cs) = (groupedDigits? (e :: cs)).map (d :: ·) := by
  rw [groupedDigits?]
  simp only [hd]

theorem groupedDigits?_map {ds : List Nat} (hne : ds ≠ []) (h : ∀ d ∈ ds, d < 10) :
    groupedDigits? (ds.map digitChar) = some ds := by
  induction ds with
  | nil => exact absurd rfl hne
  | cons d ds ih =>
    have hd := digitValue?_digitChar d (h d (.head _))
    cases ds with
    | nil => simp [groupedDigits?, hd]
    | cons e ds =>
      have he := (digitChar_ne e (h e (.tail _ (.head _)))).1
      have hrest := ih (by simp) fun d hd => h d (.tail _ hd)
      rw [List.map_cons, List.map_cons, groupedDigits?_cons_cons hd he, ← List.map_cons, hrest]
      rfl

/-! ## White space around a text -/

/-- What stands between white space, and has none itself, is what trimming leaves. -/
theorem trim_between {p : Char → Bool} {front cs back : List Char} (hfront : ∀ c ∈ front, p c)
    (hcs : ∀ c ∈ cs, p c = false) (hback : ∀ c ∈ back, p c) :
    trim p (front ++ cs ++ back) = cs := by
  rw [trim, List.append_assoc, List.dropWhile_append_of_pos hfront]
  cases cs with
  | nil => rw [List.nil_append, List.dropWhile_eq_nil_iff.mpr hback]; rfl
  | cons c cs =>
    have hlast : (c :: cs).rdropWhile p = c :: cs :=
      List.rdropWhile_eq_self_iff.mpr fun h => by simp [hcs _ (List.getLast_mem h)]
    rw [List.cons_append, List.dropWhile_cons_of_neg (by simp [hcs c (.head _)]),
      ← List.cons_append, List.reverse_append,
      List.dropWhile_append_of_pos (by simpa using hback)]
    exact hlast

theorem trim_eq_self {p : Char → Bool} {cs : List Char} (h : ∀ c ∈ cs, p c = false) :
    trim p cs = cs := by
  simpa using trim_between (List.forall_mem_nil _) h (List.forall_mem_nil _)

/-- Trimming takes white space only. -/
theorem exists_trim (p : Char → Bool) (cs : List Char) : ∃ front back,
    (∀ c ∈ front, p c) ∧ (∀ c ∈ back, p c) ∧ cs = front ++ trim p cs ++ back := by
  refine ⟨cs.takeWhile p, (cs.dropWhile p).rtakeWhile p, fun _ => List.mem_takeWhile_imp,
    fun _ => List.mem_rtakeWhile_imp, ?_⟩
  have htrim : trim p cs = (cs.dropWhile p).rdropWhile p := rfl
  rw [htrim, List.append_assoc, List.rdropWhile_append_rtakeWhile,
    List.takeWhile_append_dropWhile]

/-! ## Reading integers -/

/-- The sign and the digits of an integer. -/
theorem intChars_eq (n : Int) :
    intChars n = (if n < 0 then ['-'] else []) ++ (digits n.natAbs).map digitChar := by
  cases n with
  | ofNat n => simp [intChars, decimal_eq]
  | negSucc n => simp [intChars, decimal_eq]

theorem splitSign_cons {c : Char} (hminus : c ≠ '-') (hplus : c ≠ '+') (cs : List Char) :
    splitSign (c :: cs) = (false, c :: cs) := by
  rw [splitSign]
  · exact fun _ h => hminus (List.cons.inj h).1
  · exact fun _ h => hplus (List.cons.inj h).1

theorem splitSign_intChars (n : Int) :
    splitSign (intChars n) = (decide (n < 0), (digits n.natAbs).map digitChar) := by
  rw [intChars_eq]
  by_cases hn : n < 0
  · simp [hn, splitSign]
  · rw [if_neg hn, List.nil_append]
    cases hd : digits n.natAbs with
    | nil => exact absurd hd (digits_ne_nil _)
    | cons d ds =>
      have hlt : d < 10 := lt_of_mem_digits (hd ▸ List.mem_cons_self)
      obtain ⟨-, hminus, hplus⟩ := digitChar_ne d hlt
      rw [List.map_cons, splitSign_cons hminus hplus, decide_eq_false hn]

/-- A class that holds of the minus sign and of all digits holds of every character of an integer
text. -/
theorem of_mem_intChars {P : Char → Prop} (hminus : P '-') (hdigit : ∀ d < 10, P (digitChar d))
    {n : Int} {c : Char} (h : c ∈ intChars n) : P c := by
  rw [intChars_eq, List.mem_append] at h
  rcases h with h | h
  · split at h
    · cases List.mem_singleton.mp h
      exact hminus
    · cases h
  · obtain ⟨d, hd, rfl⟩ := List.mem_map.mp h
    exact hdigit d (lt_of_mem_digits hd)

theorem signed_natAbs (n : Int) : signed (decide (n < 0)) n.natAbs = n := by
  rw [signed]
  split_ifs with h <;> simp only [decide_eq_true_eq] at h <;> omega

theorem readInt?_intChars {n : Int} (h : n.natAbs < 10 ^ maxDigits) :
    readInt? (intChars n) = some n := by
  have htrim : trim isSpacing (intChars n) = intChars n :=
    trim_eq_self fun _ =>
      of_mem_intChars (P := fun c => isSpacing c = false) (by decide) (by decide)
  have hdigits := groupedDigits?_map (digits_ne_nil n.natAbs) fun _ => lt_of_mem_digits
  have hlength : (digits n.natAbs).length ≤ maxDigits := length_digits_le (by decide) h
  simp only [readInt?, htrim, splitSign_intChars, hdigits, if_pos hlength, positional_digits,
    signed_natAbs]

end SmallLisp.Numeral
