import SmallLisp.Proofs.IntegerText
import SmallLisp.Reader.Datum

/-!
# Integers among the atoms

A spelling of an integer (`Numeral.Spelling`) is a sign or none, and then digits of any script with
an underscore or none between neighbours. Reading finds the number that a spelling denotes
(`Numeral.Spelling.readInt?_of_trim`), and it reads nothing else
(`Numeral.Spelling.exists_of_readInt?`). What the number is rests on the minus sign and on the
digits from the first that is not zero (`Numeral.Spelling.value_eq_iff`).
-/

namespace SmallLisp

open Text

namespace Numeral

/-- A decimal digit of any script, with its value. -/
structure Digit where
  char : Char
  value : Nat
  isValue : digitValue? char = some value

inductive Sign where
  | absent | plus | minus
deriving DecidableEq

def Sign.chars : Sign → List Char
  | .absent => []
  | .plus => ['+']
  | .minus => ['-']

/-- A spelling of an integer: a sign or none, a digit, and more digits, each with a flag that says
whether an underscore stands in front of it. -/
structure Spelling where
  sign : Sign
  first : Digit
  more : List (Bool × Digit)

namespace Spelling

/-- The characters behind the sign. -/
def body (s : Spelling) : List Char :=
  s.first.char :: s.more.flatMap fun (gap, d) => if gap then ['_', d.char] else [d.char]

def chars (s : Spelling) : List Char := s.sign.chars ++ s.body

def digits (s : Spelling) : List Digit := s.first :: s.more.map Prod.snd

def values (s : Spelling) : List Nat := s.digits.map Digit.value

/-- The number that the digits denote in base ten. `Nat.ofDigits` takes the last digit first. -/
def magnitude (s : Spelling) : Nat := Nat.ofDigits 10 s.values.reverse

/-- The integer that a spelling denotes. -/
def value (s : Spelling) : Int := if s.sign = .minus then -(s.magnitude : Int) else s.magnitude

/-- The values of the digits without leading zeros. -/
def significant (s : Spelling) : List Nat := s.values.dropWhile (· == 0)

end Spelling

/-- A text spells an integer if it is a spelling of at most 4300 digits with white space around it.
-/
structure Spells (space : Char → Bool) (text : String) (s : Spelling) : Prop where
  between : ∃ front back, (∀ c ∈ front, space c) ∧ (∀ c ∈ back, space c) ∧
    text.toList = front ++ s.chars ++ back
  bounded : s.digits.length ≤ 4300

/-! ## Digits -/

theorem exists_zero_of_digitValue? {c : Char} {d : Nat} (h : digitValue? c = some d) :
    ∃ z ∈ zeroDigits, c.toNat = z + d ∧ d < 10 := by
  obtain ⟨z, hfind, rfl⟩ := Option.map_eq_some_iff.mp h
  have hz := List.mem_of_find?_eq_some hfind
  have hrange := List.find?_some hfind
  simp only [Bool.and_eq_true, decide_eq_true_eq] at hrange
  exact ⟨z, hz, by omega, by omega⟩

theorem isSpacing_of_zeroDigits :
    ∀ z ∈ zeroDigits, ∀ d < 10, isSpacing (Char.ofNat (z + d)) = false := by
  decide +kernel

namespace Digit

theorem value_lt (d : Digit) : d.value < 10 := by
  obtain ⟨_, -, -, hlt⟩ := exists_zero_of_digitValue? d.isValue
  exact hlt

theorem isSpacing_char (d : Digit) : isSpacing d.char = false := by
  obtain ⟨z, hz, hchar, hlt⟩ := exists_zero_of_digitValue? d.isValue
  rw [← Char.ofNat_toNat d.char, hchar]
  exact isSpacing_of_zeroDigits z hz _ hlt

theorem char_ne (d : Digit) {c : Char} (h : digitValue? c = none) : d.char ≠ c := by
  rintro rfl
  cases h.symm.trans d.isValue

end Digit

namespace Spelling

/-! ## Reading a spelling -/

theorem groupedDigits?_body (s : Spelling) : groupedDigits? s.body = some s.values := by
  obtain ⟨sign, first, more⟩ := s
  induction more generalizing first with
  | nil => simp [body, values, digits, groupedDigits?, first.isValue]
  | cons m more ih =>
    obtain ⟨gap, d⟩ := m
    have hmore : (groupedDigits? (body ⟨sign, d, more⟩)).map (first.value :: ·) =
        some (values ⟨sign, first, (gap, d) :: more⟩) := by rw [ih d]; rfl
    rw [← hmore]
    cases gap with
    | true => rw [body, groupedDigits?, first.isValue]; rfl
    | false => exact groupedDigits?_cons_cons first.isValue (d.char_ne (by decide)) _

theorem exists_of_groupedDigits? {cs : List Char} {ds : List Nat} (h : groupedDigits? cs = some ds)
    (sign : Sign) : ∃ s : Spelling, s.sign = sign ∧ s.body = cs ∧ s.values = ds := by
  fun_induction groupedDigits? cs generalizing ds with
  | case1 | case2 => cases h
  | case3 c d hd =>
    cases h
    exact ⟨⟨sign, ⟨c, d, hd⟩, []⟩, rfl, rfl, rfl⟩
  | case4 c d hd rest ih =>
    obtain ⟨ds, hds, rfl⟩ := Option.map_eq_some_iff.mp h
    obtain ⟨s, rfl, rfl, rfl⟩ := ih hds
    exact ⟨⟨s.sign, ⟨c, d, hd⟩, (true, s.first) :: s.more⟩, rfl, rfl, rfl⟩
  | case5 c d hd e rest _ ih =>
    obtain ⟨ds, hds, rfl⟩ := Option.map_eq_some_iff.mp h
    obtain ⟨s, rfl, hbody, rfl⟩ := ih hds
    refine ⟨⟨s.sign, ⟨c, d, hd⟩, (false, s.first) :: s.more⟩, rfl, ?_, rfl⟩
    rw [← hbody]
    rfl

theorem splitSign_chars (s : Spelling) :
    splitSign s.chars = (decide (s.sign = .minus), s.body) := by
  obtain ⟨sign, first, more⟩ := s
  cases sign with
  | plus | minus => rfl
  | absent =>
    have hminus : first.char ≠ '-' := first.char_ne (by decide)
    have hplus : first.char ≠ '+' := first.char_ne (by decide)
    exact splitSign_cons hminus hplus _

theorem exists_sign (cs : List Char) : ∃ sign : Sign, cs = sign.chars ++ (splitSign cs).2 := by
  fun_cases splitSign cs with
  | case1 => exact ⟨.minus, rfl⟩
  | case2 => exact ⟨.plus, rfl⟩
  | case3 => exact ⟨.absent, rfl⟩

theorem magnitude_eq_positional (s : Spelling) : s.magnitude = positional s.values := by
  rw [magnitude, ← positional_reverse, List.reverse_reverse]

theorem readInt?_of_trim {cs : List Char} {s : Spelling} (h : trim isSpacing cs = s.chars)
    (hbound : s.digits.length ≤ maxDigits) : readInt? cs = some s.value := by
  have hlength : s.values.length ≤ maxDigits := List.length_map Digit.value ▸ hbound
  simp only [readInt?, h, splitSign_chars, groupedDigits?_body, if_pos hlength, signed,
    ← magnitude_eq_positional, value, decide_eq_true_eq]

theorem exists_of_readInt? {cs : List Char} {n : Int} (h : readInt? cs = some n) :
    ∃ s : Spelling, trim isSpacing cs = s.chars ∧ s.digits.length ≤ maxDigits := by
  obtain ⟨sign, hsign⟩ := exists_sign (trim isSpacing cs)
  simp only [readInt?] at h
  split at h
  · next ds hds =>
    obtain ⟨s, rfl, hbody, rfl⟩ := exists_of_groupedDigits? hds sign
    split at h
    · next hlength =>
      refine ⟨s, ?_, List.length_map Digit.value ▸ hlength⟩
      rw [hsign, ← hbody, chars]
    · cases h
  · cases h

/-! ## White space around a spelling -/

theorem isSpacing_of_mem_chars {s : Spelling} {c : Char} (h : c ∈ s.chars) :
    isSpacing c = false := by
  have hsign : ∀ sign : Sign, c ∈ sign.chars → isSpacing c = false := by
    intro sign hc
    cases sign with
    | absent => cases hc
    | plus | minus => cases List.mem_singleton.mp hc; decide
  rw [chars, body, List.mem_append, List.mem_cons, List.mem_flatMap] at h
  rcases h with h | rfl | ⟨⟨gap, d⟩, -, h⟩
  · exact hsign _ h
  · exact s.first.isSpacing_char
  · cases gap with
    | false => rw [List.mem_singleton.mp h, d.isSpacing_char]
    | true =>
      rcases List.mem_pair.mp h with rfl | rfl
      · decide
      · exact d.isSpacing_char

theorem spells_iff_trim {text : String} {s : Spelling} : Spells isSpacing text s ↔
    trim isSpacing text.toList = s.chars ∧ s.digits.length ≤ maxDigits := by
  constructor
  · rintro ⟨⟨front, back, hfront, hback, htext⟩, hbound⟩
    rw [htext]
    exact ⟨trim_between hfront (fun _ => isSpacing_of_mem_chars) hback, hbound⟩
  · rintro ⟨htrim, hbound⟩
    obtain ⟨front, back, hfront, hback, htext⟩ := exists_trim isSpacing text.toList
    exact ⟨⟨front, back, hfront, hback, htrim ▸ htext⟩, hbound⟩

/-! ## Spellings of one integer -/

theorem positional_dropWhile (ds : List Nat) :
    positional (ds.dropWhile (· == 0)) = positional ds := by
  induction ds with
  | nil => rfl
  | cons d ds ih =>
    by_cases hd : d = 0
    · rw [List.dropWhile_cons_of_pos (by simpa using hd), ih, hd]
      rfl
    · rw [List.dropWhile_cons_of_neg (by simpa using hd)]

theorem lt_of_mem_significant {s : Spelling} {v : Nat} (h : v ∈ s.significant) : v < 10 := by
  obtain ⟨d, -, rfl⟩ := List.mem_map.mp ((List.dropWhile_sublist _).mem h)
  exact d.value_lt

/-- The digits of the number are those of the spelling, less the leading zeros. -/
theorem digits_magnitude (s : Spelling) : Nat.digits 10 s.magnitude = s.significant.reverse := by
  have hdrop : s.magnitude = Nat.ofDigits 10 s.significant.reverse := by
    rw [← positional_reverse, List.reverse_reverse, significant, positional_dropWhile,
      magnitude_eq_positional]
  rw [hdrop]
  refine Nat.digits_ofDigits 10 (by decide) _ (fun v hv => ?_) fun hne => ?_
  · exact lt_of_mem_significant (List.mem_reverse.mp hv)
  · have hhead := List.head_dropWhile_not (· == 0) (mt List.reverse_eq_nil_iff.mpr hne)
    rw [List.getLast_reverse]
    exact beq_eq_false_iff_ne.mp hhead

theorem value_eq_iff {s s' : Spelling} : s.value = s'.value ↔ s.significant = s'.significant ∧
    (s.significant = [] ∨ (s.sign = .minus ↔ s'.sign = .minus)) := by
  have hzero : s.significant = [] ↔ s.magnitude = 0 := by
    rw [← Nat.digits_eq_nil_iff_eq_zero (b := 10), digits_magnitude, List.reverse_eq_nil_iff]
  have hsame : s.significant = s'.significant ↔ s.magnitude = s'.magnitude := by
    rw [← Nat.digits_inj_iff (b := 10), digits_magnitude, digits_magnitude, List.reverse_inj]
  -- With the digits out of the way, what is left is arithmetic on signs and magnitudes.
  rw [hzero, hsame, value, value]
  by_cases h : s.sign = .minus <;> by_cases h' : s'.sign = .minus <;> simp [h, h'] <;> omega

end Spelling

end Numeral

namespace Datum

open Numeral

variable {text : String}

theorem ofAtom_eq_int_iff {n : Int} : ofAtom text = .int n ↔ readInt? text.toList = some n := by
  have hwords : ∀ word ∈ ["#t", "#true", "#f", "#false"], readInt? word.toList = none := by decide
  unfold ofAtom
  split_ifs with htrue hfalse
  · rcases htrue with rfl | rfl <;> rw [hwords _ (by simp)] <;> simp
  · rcases hfalse with rfl | rfl <;> rw [hwords _ (by simp)] <;> simp
  · split
    · next m hm => simp [hm]
    · next hm => split <;> simp [hm]

theorem ofAtom_of_spells {s : Spelling} (h : Spells isSpacing text s) :
    ofAtom text = .int s.value := by
  obtain ⟨htrim, hbound⟩ := Spelling.spells_iff_trim.mp h
  exact ofAtom_eq_int_iff.mpr (Spelling.readInt?_of_trim htrim hbound)

/-- **The atoms that are integers.** An atom is an integer exactly if it spells one with white space
around it, and it is the one that the spelling denotes. Two atoms that spell integers are the same
exactly if their digits have the same values but for leading zeros and, unless all are zeros, both
have a minus sign or neither has. So underscores, a plus sign, leading zeros and the script of the
digits do not matter. -/
theorem ofAtom_int_iff_spelled (text : String) :
    (∀ n, ofAtom text = .int n ↔ ∃ s, Spells isSpacing text s ∧ s.value = n) ∧
    ∀ s text' s', Spells isSpacing text s → Spells isSpacing text' s' →
      (ofAtom text = ofAtom text' ↔ s.significant = s'.significant ∧
        (s.significant = [] ∨ (s.sign = .minus ↔ s'.sign = .minus))) := by
  constructor
  · intro n
    constructor
    · intro h
      obtain ⟨s, hs⟩ := Spelling.exists_of_readInt? (ofAtom_eq_int_iff.mp h)
      have hspells := Spelling.spells_iff_trim.mpr hs
      exact ⟨s, hspells, Datum.int.inj ((ofAtom_of_spells hspells).symm.trans h)⟩
    · rintro ⟨s, hs, rfl⟩
      exact ofAtom_of_spells hs
  · intro s text' s' hs hs'
    rw [ofAtom_of_spells hs, ofAtom_of_spells hs', Datum.int.injEq, Spelling.value_eq_iff]

/-- White space, a plus sign, a leading zero, digits of two scripts and an underscore: it is still
`12`. -/
theorem ofAtom_int_iff_spelled_mixed :
    let s : Spelling := ⟨.plus, ⟨'०', 0, by decide⟩,
      [(false, ⟨'1', 1, by decide⟩), (true, ⟨'२', 2, by decide⟩)]⟩
    let s' : Spelling := ⟨.absent, ⟨'1', 1, by decide⟩, [(false, ⟨'2', 2, by decide⟩)]⟩
    Spells isSpacing "\u3000+०1_२\n" s ∧ Spells isSpacing "12" s' ∧
      ofAtom "\u3000+०1_२\n" = .int 12 ∧ ofAtom "\u3000+०1_२\n" = ofAtom "12" := by
  intro s s'
  have hs : Spells isSpacing "\u3000+०1_२\n" s :=
    ⟨⟨['\u3000'], ['\n'], List.forall_mem_singleton.mpr rfl, List.forall_mem_singleton.mpr rfl,
      rfl⟩, by decide⟩
  have hs' : Spells isSpacing "12" s' :=
    ⟨⟨[], [], List.forall_mem_nil _, List.forall_mem_nil _, rfl⟩, by decide⟩
  obtain ⟨hint, hsame⟩ := ofAtom_int_iff_spelled "\u3000+०1_२\n"
  exact ⟨hs, hs', (hint 12).mpr ⟨s, hs, rfl⟩, (hsame s _ s' hs hs').mpr ⟨rfl, .inr (by decide)⟩⟩

/-- The information separators are white space between lexemes, but not around an integer: the text
spells `3` with two of them around it and is no integer. -/
theorem ofAtom_between_separators :
    (∃ s, Spells isBlank "\x1f3\x1f" s ∧ s.value = 3) ∧ ∀ n, ofAtom "\x1f3\x1f" ≠ .int n := by
  constructor
  · have hblank : ∀ c ∈ ['\x1f'], isBlank c := List.forall_mem_singleton.mpr rfl
    refine ⟨⟨.absent, ⟨'3', 3, by decide⟩, []⟩, ⟨?_, by decide⟩, rfl⟩
    exact ⟨['\x1f'], ['\x1f'], hblank, hblank, rfl⟩
  · intro n h
    have hnone : readInt? "\x1f3\x1f".toList = none := by decide
    cases hnone.symm.trans (ofAtom_eq_int_iff.mp h)

end Datum

end SmallLisp
