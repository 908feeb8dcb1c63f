import SmallLisp.Proofs.ReadData

/-!
# Line feeds in strings

A string may go over several lines, and its raw line feeds stand for themselves, except that one
behind a backslash is taken together with it: such a pair stands for a backslash and an `n`, and the
line feed is lost. What a string has of line feeds in the end are the raw ones without the lost
ones, and those that its escapes stand for, by code point or by name, whatever names there are
(`StringLiteral.count_of_decodeOnto?`).
-/

namespace SmallLisp.StringLiteral

/-! ## Escapes of the line feed -/

/-- Whether a text starts with the hexadecimal digits of the line feed, of which the last comes
behind `zeros` zeros. -/
def startsHexFeed : (zeros : Nat) → List Char → Bool
  | 0, c :: _ => c == 'a' || c == 'A'
  | zeros + 1, '0' :: cs => startsHexFeed zeros cs
  | _, _ => false

/-- The octal digits that a text starts with, at most three. -/
def octalDigits (cs : List Char) : List Char :=
  (cs.takeWhile fun c => (octalValue? c).isSome).take 3

/-- Whether a text starts with a name of the line feed in braces. -/
def startsNamedFeed [CharacterNames] (cs : List Char) : Bool :=
  match takeName? cs with
  | some (name, _) => CharacterNames.character? name == some '\n'
  | none => false

/-- Whether an escape stands for the line feed, where the text is what follows its backslash. -/
def spellsFeed [CharacterNames] : List Char → Bool
  | 'n' :: _ => true
  | 'x' :: cs => startsHexFeed 1 cs
  | 'u' :: cs => startsHexFeed 3 cs
  | 'U' :: cs => startsHexFeed 7 cs
  | 'N' :: cs => startsNamedFeed cs
  | cs => octalDigits cs == ['1', '2'] || octalDigits cs == ['0', '1', '2']

/-- Whether a text starts with a raw line feed. -/
def startsFeed (cs : List Char) : Bool := cs.head? == some '\n'

/-- How many backslashes of a string have a text behind them of which `p` holds. A backslash takes
the next character along, so that one of two in a row does not count. -/
def escapesWith (p : List Char → Bool) : List Char → Nat
  | [] => 0
  | '\\' :: c :: cs => (if p (c :: cs) then 1 else 0) + escapesWith p cs
  | _ :: cs => escapesWith p cs

theorem escapesWith_cons {p : List Char → Bool} {c : Char} (h : c ≠ '\\') (cs : List Char) :
    escapesWith p (c :: cs) = escapesWith p cs := by
  rw [escapesWith]
  rintro d ds rfl
  exact absurd rfl h

theorem escapesWith_append {p : List Char → Bool} {front : List Char}
    (h : ∀ c ∈ front, c ≠ '\\') (cs : List Char) :
    escapesWith p (front ++ cs) = escapesWith p cs := by
  induction front with
  | nil => rfl
  | cons c front ih =>
    rw [List.cons_append, escapesWith_cons (h c (.head _)), ih fun d hd => h d (.tail _ hd)]

/-! ## Digits -/

theorem hexValue?_eq_some_iff {c : Char} {d : Nat} : hexValue? c = some d ↔
    (0x30 ≤ c.toNat ∧ c.toNat ≤ 0x39 ∧ c.toNat = d + 0x30) ∨
    (0x61 ≤ c.toNat ∧ c.toNat ≤ 0x66 ∧ c.toNat = d + 0x57) ∨
    (0x41 ≤ c.toNat ∧ c.toNat ≤ 0x46 ∧ c.toNat = d + 0x37) := by
  have h0 : '0' ≤ c ↔ 0x30 ≤ c.toNat := .rfl
  have h9 : c ≤ '9' ↔ c.toNat ≤ 0x39 := .rfl
  have ha : 'a' ≤ c ↔ 0x61 ≤ c.toNat := .rfl
  have hf : c ≤ 'f' ↔ c.toNat ≤ 0x66 := .rfl
  have hA : 'A' ≤ c ↔ 0x41 ≤ c.toNat := .rfl
  have hF : c ≤ 'F' ↔ c.toNat ≤ 0x46 := .rfl
  simp only [hexValue?, h0, h9, ha, hf, hA, hF]
  grind

theorem octalValue?_eq_some_iff {c : Char} {d : Nat} :
    octalValue? c = some d ↔ d < 8 ∧ c.toNat = d + 0x30 := by
  have h0 : '0' ≤ c ↔ 0x30 ≤ c.toNat := .rfl
  have h7 : c ≤ '7' ↔ c.toNat ≤ 0x37 := .rfl
  simp only [octalValue?, h0, h7]
  grind

theorem hexValue?_eq_zero {c : Char} : hexValue? c = some 0 ↔ c = '0' := by
  have h0 : ('0' : Char).toNat = 0x30 := rfl
  rw [hexValue?_eq_some_iff, ← Char.toNat_inj, h0]
  omega

theorem hexValue?_eq_ten {c : Char} : hexValue? c = some 10 ↔ c = 'a' ∨ c = 'A' := by
  have ha : ('a' : Char).toNat = 0x61 := rfl
  have hA : ('A' : Char).toNat = 0x41 := rfl
  rw [hexValue?_eq_some_iff, ← Char.toNat_inj, ← Char.toNat_inj, ha, hA]
  omega

theorem of_takeHex?_succ {count value n : Nat} {cs rest : List Char}
    (h : takeHex? (count + 1) value cs = some (n, rest)) : ∃ c cs' d, cs = c :: cs' ∧
      hexValue? c = some d ∧ takeHex? count (16 * value + d) cs' = some (n, rest) := by
  rcases cs with _ | ⟨c, cs⟩
  · cases h
  · rw [takeHex?] at h
    split at h
    · next d hc => exact ⟨c, cs, d, rfl, hc, h⟩
    · cases h

/-- Hexadecimal digits are neither backslashes nor line feeds, and they make the number larger. -/
theorem takeHex?_spec {count value n : Nat} {cs rest : List Char}
    (h : takeHex? count value cs = some (n, rest)) : value ≤ n ∧
      ∃ digits, cs = digits ++ rest ∧ ∀ c ∈ digits, c ≠ '\\' ∧ c ≠ '\n' := by
  induction count generalizing value cs with
  | zero => cases h; exact ⟨Nat.le_refl _, [], rfl, List.forall_mem_nil _⟩
  | succ count ih =>
    obtain ⟨c, cs, d, rfl, hc, h⟩ := of_takeHex?_succ h
    obtain ⟨hle, digits, rfl, hdigits⟩ := ih h
    refine ⟨by omega, c :: digits, rfl, List.forall_mem_cons.mpr ⟨⟨?_, ?_⟩, hdigits⟩⟩
    · rintro rfl
      cases hc
    · rintro rfl
      cases hc

theorem takeHex?_eq_ten_iff {zeros n : Nat} {cs rest : List Char}
    (h : takeHex? (zeros + 1) 0 cs = some (n, rest)) : n = 10 ↔ startsHexFeed zeros cs := by
  induction zeros generalizing cs with
  | zero =>
    obtain ⟨c, cs, d, rfl, hc, h⟩ := of_takeHex?_succ h
    cases h
    have hten := hexValue?_eq_ten (c := c)
    rw [hc, Option.some.injEq] at hten
    simpa [startsHexFeed] using hten
  | succ zeros ih =>
    obtain ⟨c, cs, d, rfl, hc, h⟩ := of_takeHex?_succ h
    by_cases hzero : c = '0'
    · subst hzero
      cases hc
      exact ih h
    · -- The digit counts at least sixteen, because another one follows it.
      have hd : d ≠ 0 := by
        rintro rfl
        exact hzero (hexValue?_eq_zero.mp hc)
      obtain ⟨_, _, e, -, -, h⟩ := of_takeHex?_succ h
      have hle := (takeHex?_spec h).1
      have hno : startsHexFeed (zeros + 1) (c :: cs) = false := by
        rw [startsHexFeed]
        · nofun
        · rintro _ _ ⟨⟩ ⟨⟩
          exact hzero rfl
      rw [hno]
      simp only [Bool.false_eq_true, iff_false]
      omega

theorem takeOctal_eq_append (count value : Nat) (cs : List Char) :
    ∃ digits, cs = digits ++ (takeOctal count value cs).2 ∧ ∀ c ∈ digits, c ≠ '\\' ∧ c ≠ '\n' := by
  fun_induction takeOctal count value cs with
  | case1 | case2 | case4 => exact ⟨[], rfl, List.forall_mem_nil _⟩
  | case3 count value c cs d hd ih =>
    obtain ⟨digits, hcs, hdigits⟩ := ih
    refine ⟨c :: digits, congrArg (c :: ·) hcs, List.forall_mem_cons.mpr ⟨⟨?_, ?_⟩, hdigits⟩⟩
    · rintro rfl
      cases hd
    · rintro rfl
      cases hd

theorem octal_eq_iff {c : Char} {d k : Nat} (h : octalValue? c = some d) (hk : k < 8) :
    d = k ↔ c = Char.ofNat (k + 0x30) := by
  have hc := octalValue?_eq_some_iff.mp h
  have hn : (Char.ofNat (k + 0x30)).toNat = k + 0x30 := toNat_ofNat (.inl (by omega))
  rw [← Char.toNat_inj, hn]
  omega

theorem takeOctal_eq_ten_iff {c : Char} {d : Nat} (hc : octalValue? c = some d) (cs : List Char) :
    (takeOctal 2 d cs).1 = 10 ↔
      octalDigits (c :: cs) = ['1', '2'] ∨ octalDigits (c :: cs) = ['0', '1', '2'] := by
  have hd := (octalValue?_eq_some_iff.mp hc).1
  have hzero : d = 0 ↔ c = '0' := octal_eq_iff hc (by decide)
  have hone : d = 1 ↔ c = '1' := octal_eq_iff hc (by decide)
  rcases cs with _ | ⟨c₁, cs⟩
  · have hdigits : octalDigits [c] = [c] := by simp [octalDigits, hc]
    simp only [takeOctal, hdigits, List.cons.injEq, reduceCtorEq, and_false, or_self, iff_false]
    omega
  cases hc₁ : octalValue? c₁ with
  | none =>
    have hdigits : octalDigits (c :: c₁ :: cs) = [c] := by simp [octalDigits, hc, hc₁]
    simp only [takeOctal, hc₁, hdigits, List.cons.injEq, reduceCtorEq, and_false, or_self,
      iff_false]
    omega
  | some d₁ =>
    have hd₁ := (octalValue?_eq_some_iff.mp hc₁).1
    have hone₁ : d₁ = 1 ↔ c₁ = '1' := octal_eq_iff hc₁ (by decide)
    have htwo₁ : d₁ = 2 ↔ c₁ = '2' := octal_eq_iff hc₁ (by decide)
    rcases cs with _ | ⟨c₂, cs⟩
    · have hdigits : octalDigits [c, c₁] = [c, c₁] := by simp [octalDigits, hc, hc₁]
      simp only [takeOctal, hc₁, hdigits, List.cons.injEq, ← hone, ← htwo₁, reduceCtorEq, and_true,
        and_false, or_false]
      omega
    cases hc₂ : octalValue? c₂ with
    | none =>
      have hdigits : octalDigits (c :: c₁ :: c₂ :: cs) = [c, c₁] := by
        simp [octalDigits, hc, hc₁, hc₂]
      simp only [takeOctal, hc₁, hc₂, hdigits, List.cons.injEq, ← hone, ← htwo₁, reduceCtorEq,
        and_true, and_false, or_false]
      omega
    | some d₂ =>
      have hd₂ := (octalValue?_eq_some_iff.mp hc₂).1
      have htwo₂ : d₂ = 2 ↔ c₂ = '2' := octal_eq_iff hc₂ (by decide)
      have hdigits : octalDigits (c :: c₁ :: c₂ :: cs) = [c, c₁, c₂] := by
        simp [octalDigits, hc, hc₁, hc₂]
      simp only [takeOctal, hc₁, hc₂, hdigits, List.cons.injEq, ← hzero, ← hone₁, ← htwo₂,
        reduceCtorEq, and_true, and_false, false_or]
      omega

/-! ## Names -/

theorem ne_of_isNameChar {c : Char} (h : Text.isNameChar c) : c ≠ '\\' ∧ c ≠ '\n' := by
  constructor <;> rintro rfl <;> cases h

/-- A name of the table and its braces are neither backslashes nor line feeds. -/
theorem takeName?_spec [CharacterNames] {cs name rest : List Char} {d : Char}
    (h : takeName? cs = some (name, rest)) (hd : CharacterNames.character? name = some d) :
    ∃ taken, cs = taken ++ rest ∧ ∀ c ∈ taken, c ≠ '\\' ∧ c ≠ '\n' := by
  refine ⟨'\x7b' :: (name ++ ['\x7d']), by simp [takeName?_eq_append h], ?_⟩
  refine List.forall_mem_cons.mpr ⟨by decide, List.forall_mem_append.mpr ⟨fun c hc => ?_, ?_⟩⟩
  · exact ne_of_isNameChar (CharacterNames.isNameChar_of_mem hd c hc)
  · exact List.forall_mem_singleton.mpr (by decide)

/-! ## Decoding -/

section

variable [CharacterNames]

theorem spellsFeed_eq {c : Char} (h : c ≠ 'n') (hw : codePointWidth? c = none) (hN : c ≠ 'N')
    (cs : List Char) : spellsFeed (c :: cs) =
      (octalDigits (c :: cs) == ['1', '2'] || octalDigits (c :: cs) == ['0', '1', '2']) := by
  unfold spellsFeed
  split
  · next heq => cases heq; exact absurd rfl h
  · next heq => cases heq; cases hw
  · next heq => cases heq; cases hw
  · next heq => cases heq; cases hw
  · next heq => cases heq; exact absurd rfl hN
  · rfl

theorem spellsFeed_eq_false {c : Char} (h : c ≠ 'n') (hw : codePointWidth? c = none)
    (hN : c ≠ 'N') (ho : octalValue? c = none) (cs : List Char) : spellsFeed (c :: cs) = false := by
  have hdigits : octalDigits (c :: cs) = [] := by simp [octalDigits, ho]
  rw [spellsFeed_eq h hw hN, hdigits]
  rfl

theorem spellsFeed_of_width {c : Char} {width : Nat} (hw : codePointWidth? c = some width)
    (cs : List Char) :
    ∃ zeros, width = zeros + 1 ∧ spellsFeed (c :: cs) = startsHexFeed zeros cs := by
  unfold codePointWidth? at hw
  split at hw <;> cases hw
  · exact ⟨1, rfl, rfl⟩
  · exact ⟨3, rfl, rfl⟩
  · exact ⟨7, rfl, rfl⟩

theorem spellsFeed_of_name {cs name rest : List Char} {d : Char}
    (h : takeName? cs = some (name, rest)) (hd : CharacterNames.character? name = some d) :
    d = '\n' ↔ spellsFeed ('N' :: cs) := by
  rw [spellsFeed, startsNamedFeed, h]
  simp [hd]

theorem simpleEscape?_spec {c d : Char} (h : simpleEscape? c = some d) (cs : List Char) :
    d = '\n' ↔ spellsFeed (c :: cs) := by
  by_cases hn : c = 'n'
  · subst hn
    cases h
    exact ⟨fun _ => rfl, fun _ => rfl⟩
  · have hother : d ≠ '\n' ∧ codePointWidth? c = none ∧ c ≠ 'N' ∧ octalValue? c = none := by
      unfold simpleEscape? at h
      split at h <;> cases h <;>
        first | exact absurd rfl hn | exact ⟨by decide, rfl, by decide, rfl⟩
    obtain ⟨hd, hw, hN, ho⟩ := hother
    simp [hd, spellsFeed_eq_false hn hw hN ho]

omit [CharacterNames] in
theorem count_singleton_feed {n : Nat} {p : Prop} [Decidable p] (h : n = '\n'.toNat ↔ p) :
    [n].count '\n'.toNat = if p then 1 else 0 := by
  simp only [List.count_singleton, beq_iff_eq, h]

/-- What an escape takes of the text behind its first character are digits or a name, and it stands
for a line feed if it spells one. -/
theorem escape?_spec {c : Char} {cs rest : List Char} {out : List Nat}
    (h : escape? (c :: cs) = some (out, rest)) :
    (∃ taken, cs = taken ++ rest ∧ ∀ d ∈ taken, d ≠ '\\' ∧ d ≠ '\n') ∧
      out.count '\n'.toNat = if spellsFeed (c :: cs) then 1 else 0 := by
  have hnone : ∃ taken, cs = taken ++ cs ∧ ∀ d ∈ taken, d ≠ '\\' ∧ d ≠ '\n' :=
    ⟨[], rfl, List.forall_mem_nil _⟩
  rw [escape?] at h
  cases hs : simpleEscape? c with
  | some d =>
    rw [hs] at h
    cases h
    exact ⟨hnone, count_singleton_feed (Char.toNat_inj.trans (simpleEscape?_spec hs cs))⟩
  | none =>
    have hn : c ≠ 'n' := by
      rintro rfl
      cases hs
    rw [hs] at h
    cases hw : codePointWidth? c with
    | some width =>
      simp only [hw, Option.bind_eq_bind, Option.bind_eq_some_iff, Prod.exists] at h
      obtain ⟨n, rest, hhex, hout⟩ := h
      split at hout <;> cases hout
      obtain ⟨zeros, rfl, hspells⟩ := spellsFeed_of_width hw cs
      refine ⟨(takeHex?_spec hhex).2, count_singleton_feed ?_⟩
      rw [hspells]
      exact takeHex?_eq_ten_iff hhex
    | none =>
      simp only [hw] at h
      split_ifs at h with hN hbad hfeed hreturn
      · subst hN
        simp only [Option.bind_eq_bind, Option.bind_eq_some_iff, Prod.exists] at h
        obtain ⟨name, rest, hname, d, hd, hout⟩ := h
        cases hout
        exact ⟨takeName?_spec hname hd,
          count_singleton_feed (Char.toNat_inj.trans (spellsFeed_of_name hname hd))⟩
      · cases h
        subst hfeed
        rw [spellsFeed_eq_false hn hw hN rfl]
        exact ⟨hnone, rfl⟩
      · cases h
        subst hreturn
        rw [spellsFeed_eq_false hn hw hN rfl]
        exact ⟨hnone, rfl⟩
      · cases ho : octalValue? c with
        | some d =>
          simp only [ho] at h
          cases h
          refine ⟨takeOctal_eq_append 2 d cs, count_singleton_feed ?_⟩
          rw [spellsFeed_eq hn hw hN, Bool.or_eq_true, beq_iff_eq, beq_iff_eq]
          exact takeOctal_eq_ten_iff ho cs
        | none =>
          simp only [ho] at h
          cases h
          rw [spellsFeed_eq_false hn hw hN ho]
          have hc : c.toNat ≠ '\n'.toNat := mt Char.toNat_inj.mp hfeed
          exact ⟨hnone, List.count_eq_zero.mpr (by simpa using hc.symm)⟩

/-- The line feeds of a decoded string: the raw ones that no backslash takes along, and those that
escapes stand for. -/
theorem count_of_decodeOnto? {seen points : List Nat} {cs : List Char}
    (h : decodeOnto? seen cs = some points) :
    points.count '\n'.toNat + escapesWith startsFeed cs =
      seen.count '\n'.toNat + cs.count '\n' + escapesWith spellsFeed cs := by
  fun_induction decodeOnto? seen cs with
  | case1 => cases h
  | case2 seen rest hrest =>
    cases h
    rw [List.isEmpty_iff.mp hrest]
    simp [escapesWith]
  | case3 => cases h
  | case4 seen rest out rest' hescape _ ih =>
    rcases rest with _ | ⟨c, cs⟩
    · cases hescape
    obtain ⟨⟨taken, rfl, htaken⟩, hcount⟩ := escape?_spec hescape
    have hfeeds : taken.count '\n' = 0 :=
      List.count_eq_zero.mpr fun hmem => (htaken _ hmem).2 rfl
    have hbackslashes : ∀ d ∈ taken, d ≠ '\\' := fun d hd => (htaken d hd).1
    have hstep := ih h
    rw [List.count_append, List.count_reverse, hcount] at hstep
    rw [escapesWith, escapesWith, escapesWith_append hbackslashes, escapesWith_append hbackslashes,
      List.count_cons_of_ne (by decide), List.count_cons, List.count_append, hfeeds]
    simp only [startsFeed, List.head?_cons, beq_iff_eq, Option.some.injEq]
    omega
  | case5 => cases h
  | case6 => cases h
  | case7 seen c rest _ hslash _ ih =>
    have hstep := ih h
    rw [escapesWith_cons hslash, escapesWith_cons hslash]
    rw [List.count_cons] at hstep ⊢
    simp only [beq_iff_eq, Char.toNat_inj] at hstep ⊢
    omega

theorem count_of_decode? {cs : List Char} {points : List Nat} (h : decode? cs = some points) :
    points.count '\n'.toNat + escapesWith startsFeed cs =
      cs.count '\n' + escapesWith spellsFeed cs := by
  rcases cs with _ | ⟨c, rest⟩
  · cases h
  rw [decode?] at h
  split at h
  · next hquote =>
    subst hquote
    have hcount := count_of_decodeOnto? h
    rw [List.count_nil, Nat.zero_add] at hcount
    rw [escapesWith_cons (by decide), escapesWith_cons (by decide),
      List.count_cons_of_ne (by decide)]
    exact hcount
  · cases h

end

/-! ## String tokens -/

/-- **The line feeds of a string.** A string token of any text, if it can be decoded, stands for as
many line feeds as it has raw ones and escapes that spell one, be it by a code point or by a name,
less the raw ones that stand behind a backslash, which are lost. So the raw line feeds are kept in
number exactly if there are no more lost ones than there are escapes that spell a line feed. This
holds whatever the names of characters are. What the token is read as is the text with the code
points decoded, if there is one. -/
theorem count_feeds_of_string [CharacterNames] {cs : List Char} {t : Token} {points : List Nat}
    (ht : t ∈ (Lexer.lex cs).tokens) (hk : t.kind = .string)
    (hd : decode? t.text.toList = some points) :
    points.count '\n'.toNat + escapesWith startsFeed t.text.toList =
        t.text.toList.count '\n' + escapesWith spellsFeed t.text.toList ∧
      (t.text.toList.count '\n' ≤ points.count '\n'.toNat ↔
        escapesWith startsFeed t.text.toList ≤ escapesWith spellsFeed t.text.toList) ∧
      ∀ d, Datum.ofString t.text = .ok d ↔
        ∃ out : String, d = .text out ∧ out.toList.map Char.toNat = points := by
  have hcount := count_of_decode? hd
  refine ⟨hcount, by omega, fun d => ?_⟩
  rw [Datum.ofString_eq_ok_iff (Lexer.isLexed_of_lex t ht hk)]
  constructor
  · rintro ⟨points', out, hpoints, hout, rfl⟩
    cases hd.symm.trans hpoints
    exact ⟨out, rfl, text?_eq_some_iff.mp hout⟩
  · rintro ⟨out, rfl, hout⟩
    exact ⟨points, out, hd, text?_eq_some_iff.mpr hout, rfl⟩

/-- Of three raw line feeds those behind a backslash are lost, and two escapes make up for them. -/
theorem count_feeds_of_string_balanced :
    let t : Token := ⟨.string, "\"a\n\\\n\\x0A\\\n\\N\x7bLine Feed\x7d\""⟩
    let out := "a\n\\n\n\\n\n"
    t ∈ (Lexer.lex t.text.toList).tokens ∧ Datum.ofString t.text = .ok (.text out) ∧
      escapesWith startsFeed t.text.toList = 2 ∧ escapesWith spellsFeed t.text.toList = 2 ∧
      t.text.toList.count '\n' ≤ (out.toList.map Char.toNat).count '\n'.toNat := by
  intro t out
  have ht : t ∈ (Lexer.lex t.text.toList).tokens := by decide +kernel
  have hdecode : decode? t.text.toList = some (out.toList.map Char.toNat) := by decide +kernel
  obtain ⟨-, hiff, hread⟩ := count_feeds_of_string ht rfl hdecode
  have hstarts : escapesWith startsFeed t.text.toList = 2 := by decide +kernel
  have hspells : escapesWith spellsFeed t.text.toList = 2 := by decide +kernel
  exact ⟨ht, (hread _).mpr ⟨out, rfl, rfl⟩, hstarts, hspells,
    hiff.mpr (hstarts.trans hspells.symm).le⟩

/-- A raw line feed behind a backslash is lost: the pair stands for a backslash and an `n`. -/
theorem raw_feed_lost : ¬ ∀ (cs : List Char) (t : Token) (out : String),
    t ∈ (Lexer.lex cs).tokens → t.kind = .string → Datum.ofString t.text = .ok (.text out) →
    t.text.toList.count '\n' ≤ out.toList.count '\n' := by
  intro h
  let t : Token := ⟨.string, "\"\\\n\""⟩
  have ht : t ∈ (Lexer.lex t.text.toList).tokens := by decide +kernel
  have hdecode : decode? t.text.toList = some ("\\n".toList.map Char.toNat) := by decide +kernel
  have hlexeme := Lexer.isLexed_of_lex t ht rfl
  have hd : Datum.ofString t.text = .ok (.text "\\n") :=
    (Datum.ofString_eq_ok_iff hlexeme).mpr ⟨_, "\\n", hdecode, text?_eq_some_iff.mpr rfl, rfl⟩
  exact absurd (h _ t _ ht rfl hd) (by decide)

end SmallLisp.StringLiteral
