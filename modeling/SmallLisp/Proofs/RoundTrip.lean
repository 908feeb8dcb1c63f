import SmallLisp.Error
import SmallLisp.Proofs.IntegerAtoms
import SmallLisp.Proofs.ReadData

/-!
# Written values read back

A value made of lists, booleans, integers, strings and symbols is written as a text that lexes to
the tokens of its datum (`Value.lexesBack`). These tokens parse to the datum, unless its lists nest
too deep or a string holds a NUL (`Parser.State.takes`).
-/

namespace SmallLisp

open Lexer SmallLisp.Parser

/-! ## Strings -/

namespace StringLiteral

open Text

/-- A written string has an end and no other before it. -/
theorem isStringBody_flatMap_writeChar (s : List Char) : IsStringBody (s.flatMap writeChar) := by
  induction s with
  | nil => exact .nil
  | cons c s ih =>
    rw [List.flatMap_cons, writeChar]
    split_ifs with hq hn
    · exact .pair c ih
    · exact .pair 'n' ih
    · rw [not_or] at hq
      exact .plain hq.1 hq.2 ih

variable [CharacterNames]

theorem decodeOnto?_escape {c d : Char} (h : simpleEscape? c = some d) (seen : List Nat)
    (cs : List Char) :
    decodeOnto? seen ('\\' :: c :: cs) = decodeOnto? (d.toNat :: seen) cs := by
  have hescape : escape? (c :: cs) = some ([d.toNat], cs) := by simp [escape?, h]
  rw [decodeOnto?, if_neg (by decide), if_pos rfl]
  split
  · next heq => cases heq.symm.trans hescape; rfl
  · next heq => cases heq.symm.trans hescape

theorem decodeOnto?_writeChar (c : Char) (seen : List Nat) (cs : List Char) :
    decodeOnto? seen (writeChar c ++ cs) =
      if c = '\x00' then none else decodeOnto? (c.toNat :: seen) cs := by
  by_cases hq : c = '\\' ∨ c = '\x22'
  · rw [writeChar, if_pos hq]
    rcases hq with rfl | rfl
    · exact decodeOnto?_escape rfl seen cs
    · exact decodeOnto?_escape rfl seen cs
  by_cases hn : c = '\n'
  · subst hn
    exact decodeOnto?_escape rfl seen cs
  · rw [writeChar, if_neg hq, if_neg hn]
    rw [not_or] at hq
    rw [List.singleton_append, decodeOnto?, if_neg hq.2, if_neg hq.1]

/-- A written string stands for the text, if that holds no NUL. -/
theorem decodeOnto?_flatMap_writeChar (s : List Char) (seen : List Nat) :
    decodeOnto? seen (s.flatMap writeChar ++ ['\x22']) =
      if '\x00' ∈ s then none else some (seen.reverse ++ s.map Char.toNat) := by
  induction s generalizing seen with
  | nil => simp [decodeOnto?]
  | cons c s ih =>
    rw [List.flatMap_cons, List.append_assoc, decodeOnto?_writeChar, ih]
    by_cases hc : '\x00' = c
    · simp [← hc]
    · simp [hc, Ne.symm hc]

end StringLiteral

open StringLiteral in
theorem Datum.ofString_write [CharacterNames] (s : String) :
    Datum.ofString (Text.write s) =
      if '\x00' ∈ s.toList then .error (.invalidString (Text.write s)) else .ok (.text s) := by
  have hclose := (isStringBody_flatMap_writeChar s.toList).closeString?_eq ['\x22'] []
  have hlexeme : isLexeme (Text.write s).toList := by
    simp [isLexeme, Text.write, hclose]
  have hdecode : decode? (Text.write s).toList =
      if '\x00' ∈ s.toList then none else some (s.toList.map Char.toNat) := by
    simp [decode?, Text.write, decodeOnto?_flatMap_writeChar]
  have htext : text? (s.toList.map Char.toNat) = some s := text?_eq_some_iff.mpr rfl
  simp only [Datum.ofString, hlexeme, hdecode, if_true]
  split_ifs <;> simp [htext]

/-! ## Data -/

mutual

/-- The datum that a value is, without its identities. Procedures and expressions are none. -/
def Value.toDatum? : Value → Option Datum
  | .nothing => some .nothing
  | .bool b => some (.bool b)
  | .int n => some (.int n)
  | .float x _ => some (.float x)
  | .text s => some (.text s)
  | .symbol name => some (.symbol name)
  | .list _ items => (Value.toData? items).map .list
  | _ => none

def Value.toData? : List Value → Option (List Datum)
  | [] => some []
  | v :: vs =>
    match v.toDatum?, Value.toData? vs with
    | some d, some ds => some (d :: ds)
    | _, _ => none

end

theorem Value.toData?_cons {v : Value} {vs : List Value} {ds : List Datum}
    (h : Value.toData? (v :: vs) = some ds) :
    ∃ d ds', v.toDatum? = some d ∧ Value.toData? vs = some ds' ∧ ds = d :: ds' := by
  rw [Value.toData?] at h
  split at h
  · next d ds' hd hds => cases h; exact ⟨d, ds', hd, hds, rfl⟩
  · cases h

namespace Datum

/-- Data of the written format: doubles are left out, an integer has a text, and the name of a
symbol is an atom that stands for the symbol. -/
inductive IsPlain : Datum → Prop where
  | bool (b : Bool) : IsPlain (.bool b)
  | int {n : Int} (h : n.natAbs < 10 ^ Numeral.maxDigits) : IsPlain (.int n)
  | text (s : String) : IsPlain (.text s)
  | symbol {name : String} (hne : name ≠ "") (h : ∀ c ∈ name.toList, isAtomChar c)
    (hatom : ofAtom name = .symbol name) : IsPlain (.symbol name)
  | list {items : List Datum} (h : ∀ d ∈ items, IsPlain d) : IsPlain (.list items)

mutual

/-- Whether a string of the datum contains the NUL character. -/
def hasNul : Datum → Bool
  | .text s => '\x00' ∈ s.toList
  | .list items => anyHasNul items
  | _ => false

def anyHasNul : List Datum → Bool
  | [] => false
  | d :: ds => d.hasNul || anyHasNul ds

end

mutual

/-- How deep lists nest in a datum. -/
def depth : Datum → Nat
  | .list items => depths items + 1
  | _ => 0

def depths : List Datum → Nat
  | [] => 0
  | d :: ds => max d.depth (depths ds)

end

mutual

/-- The tokens of a written datum. -/
def tokens : Datum → List Token
  | .bool true => [⟨.symbol, "#t"⟩]
  | .bool false => [⟨.symbol, "#f"⟩]
  | .int n => [⟨.symbol, Numeral.writeInt n⟩]
  | .text s => [⟨.string, Text.write s⟩]
  | .symbol name => [⟨.symbol, name⟩]
  | .list items => ⟨.lparen, "("⟩ :: allTokens items ++ [⟨.rparen, ")"⟩]
  | _ => []

def allTokens : List Datum → List Token
  | [] => []
  | d :: ds => d.tokens ++ allTokens ds

end

theorem depths_le {ds : List Datum} {k : Nat} : depths ds ≤ k ↔ ∀ d ∈ ds, d.depth ≤ k := by
  induction ds with
  | nil => simp [depths]
  | cons d ds ih => simp [depths, ih]

theorem anyHasNul_eq_false {ds : List Datum} :
    anyHasNul ds = false ↔ ∀ d ∈ ds, d.hasNul = false := by
  induction ds with
  | nil => simp [anyHasNul]
  | cons d ds ih => simp [anyHasNul, ih]

end Datum

/-! ## Lexing what is written -/

theorem Lexed.prepend_prepend (ts us : List Token) (l : Lexed) :
    (l.prepend us).prepend ts = l.prepend (ts ++ us) := by
  simp [Lexed.prepend]

theorem Numeral.isAtomChar_of_mem_intChars {n : Int} {c : Char} (h : c ∈ intChars n) :
    isAtomChar c :=
  of_mem_intChars (P := fun c => isAtomChar c) (by decide) (by decide) h

theorem Numeral.intChars_ne_nil (n : Int) : intChars n ≠ [] := by
  rw [intChars_eq]
  simp [digits_ne_nil]

namespace Value

theorem lex_writeText (s : String) (rest : List Char) :
    lex ((Text.write s).toList ++ rest) = (lex rest).cons ⟨.string, Text.write s⟩ := by
  have hclose :=
    (StringLiteral.isStringBody_flatMap_writeChar s.toList).closeString?_eq ['\x22'] rest
  simp only [Text.write, String.toList_ofList, List.cons_append, List.append_assoc,
    List.nil_append]
  rw [lex_string hclose]
  rfl

theorem toDatum?_list {v : Value} {items : List Datum} (h : v.toDatum? = some (.list items)) :
    ∃ id vs, v = .list id vs ∧ toData? vs = some items := by
  cases v with
  | list id vs =>
    rw [toDatum?, Option.map_eq_some_iff] at h
    obtain ⟨ds, hds, heq⟩ := h
    cases heq
    exact ⟨id, vs, rfl, hds⟩
  | _ => simp [toDatum?] at h

/-- The text of a value lexes to the tokens of its datum, whatever follows it. -/
def LexesBack (v : Value) (d : Datum) : Prop :=
  ∀ rest, Delimited rest → lex (v.write.toList ++ rest) = (lex rest).prepend d.tokens

/-- Blanks separate the items of a list. -/
theorem lex_items {ds : List Datum} {vs : List Value} (rest : List Char)
    (ih : ∀ d ∈ ds, ∀ v : Value, v.toDatum? = some d → v.LexesBack d)
    (hvs : toData? vs = some ds) :
    lex ((" ".intercalate (printAll true vs)).toList ++ ')' :: rest) =
      (lex (')' :: rest)).prepend (Datum.allTokens ds) := by
  induction vs generalizing ds with
  | nil =>
    cases hvs
    rfl
  | cons v vs ihs =>
    obtain ⟨d, ds, hd, hds, rfl⟩ := toData?_cons hvs
    have hv : v.LexesBack d := ih d (.head _) v hd
    cases vs with
    | nil =>
      cases hds
      rw [printAll, printAll, String.intercalate_singleton, Datum.allTokens, Datum.allTokens,
        List.append_nil]
      exact hv (')' :: rest) (delimited_cons (by decide))
    | cons w vs =>
      have hrest := ihs (fun e he => ih e (.tail _ he)) hds
      rw [printAll, printAll, String.intercalate_cons_cons, ← printAll]
      simp only [String.toList_append, List.append_assoc]
      rw [Datum.allTokens, ← Lexed.prepend_prepend, ← hrest]
      refine (hv _ (delimited_cons (by decide))).trans ?_
      exact congrArg _ (lex_blank (by decide))

theorem lexesBack {d : Datum} (hd : d.IsPlain) (v : Value) (hv : v.toDatum? = some d) :
    v.LexesBack d := by
  intro rest hr
  induction hd generalizing v rest with
  | bool b =>
    obtain rfl : v = .bool b := by cases v <;> simp_all [toDatum?]
    cases b with
    | true => exact lex_atom (by decide) (List.all_eq_true.mp rfl) hr
    | false => exact lex_atom (by decide) (List.all_eq_true.mp rfl) hr
  | @int n h =>
    obtain rfl : v = .int n := by cases v <;> simp_all [toDatum?]
    have hchars : (Value.int n).write.toList = Numeral.intChars n := String.toList_ofList
    rw [hchars]
    exact lex_atom (Numeral.intChars_ne_nil n) (fun _ => Numeral.isAtomChar_of_mem_intChars) hr
  | text s =>
    obtain rfl : v = .text s := by cases v <;> simp_all [toDatum?]
    exact lex_writeText s rest
  | @symbol name hne h hatom =>
    obtain rfl : v = .symbol name := by cases v <;> simp_all [toDatum?]
    have hlex := lex_atom (by simpa using hne) h hr
    rw [String.ofList_toList] at hlex
    exact hlex
  | @list items h ih =>
    obtain ⟨id, vs, rfl, hvs⟩ := toDatum?_list hv
    have hitems := lex_items rest (fun d hd v hv rest hr => ih d hd v hv rest hr) hvs
    rw [lex_rparen] at hitems
    rw [write, print]
    simp only [String.toList_append, List.append_assoc]
    refine (lex_lparen).trans ((congrArg _ hitems).trans ?_)
    simp [Lexed.cons, Lexed.prepend, Datum.tokens]

end Value

/-! ## Parsing the tokens -/

theorem Datum.ofAtom_writeInt {n : Int} (h : n.natAbs < 10 ^ Numeral.maxDigits) :
    ofAtom (Numeral.writeInt n) = .int n := by
  rw [ofAtom_eq_int_iff, Numeral.writeInt, String.toList_ofList, Numeral.readInt?_intChars h]

namespace Parser.State

variable {limit : Nat} {st : State} {ts : List Token} {d : Datum} {ds : List Datum}

/-- The parser accepts a datum where its lists do not nest too deep and its strings can be decoded.
-/
def Accepts (limit : Nat) (st : State) (d : Datum) : Prop :=
  st.stack.length + d.depth ≤ limit ∧ d.hasNul = false

variable [CharacterNames]

/-- The parser takes the tokens of a datum that it accepts, and fails on those of another. -/
structure Takes (limit : Nat) (st : State) (d : Datum) (ts : List Token) : Prop where
  accepted (h : st.Accepts limit d) :
    st.feedAll limit (d.tokens ++ ts) = (st.finish d).feedAll limit ts
  refused (h : ¬ st.Accepts limit d) : (st.feedAll limit (d.tokens ++ ts)).2 ≠ none

/-- An atom is a single token. -/
theorem takes_atom {text : String} (htokens : d.tokens = [⟨.symbol, text⟩])
    (hatom : .ofAtom text = d) (haccepts : st.Accepts limit d) : st.Takes limit d ts where
  accepted _ := by rw [htokens, List.singleton_append, feedAll, feed, hatom]
  refused h := absurd haccepts h

theorem takes_text (s : String) (hst : st.stack.length ≤ limit) : st.Takes limit (.text s) ts := by
  have haccepts : st.Accepts limit (.text s) ↔ '\x00' ∉ s.toList := by
    simpa [Accepts, Datum.hasNul, Datum.depth] using fun _ => hst
  constructor <;> intro h <;> rw [haccepts] at h <;>
    rw [Datum.tokens, List.singleton_append, feedAll, feed]
  · simp [Datum.ofString_write, h]
  · rw [not_not] at h
    simp [Datum.ofString_write, h]

omit [CharacterNames] in
theorem accepts_list {items : List Datum} : st.Accepts limit (.list items) ↔
    st.stack.length < limit ∧
      ∀ d ∈ items, Accepts limit { st with stack := .list [] :: st.stack } d := by
  simp only [Accepts, Datum.depth, Datum.hasNul, Datum.anyHasNul_eq_false, List.length_cons]
  constructor
  · rintro ⟨hdepth, hnul⟩
    have hdepths := Datum.depths_le.mp (Nat.le_refl (Datum.depths items))
    refine ⟨by omega, fun d hd => ⟨?_, hnul d hd⟩⟩
    have := hdepths d hd
    omega
  · rintro ⟨hlt, h⟩
    refine ⟨?_, fun d hd => (h d hd).2⟩
    have : Datum.depths items ≤ limit - (st.stack.length + 1) :=
      Datum.depths_le.mpr fun d hd => by have := (h d hd).1; omega
    omega

/-- The items of a list are taken one after the other. -/
theorem takes_items (outer : List Open) (forms : List Datum) (hlimit : outer.length < limit)
    (ih : ∀ d ∈ ds, ∀ (st : State) (ts : List Token), st.stack.length ≤ limit →
      st.Takes limit d ts) (acc : List Datum) (ts : List Token) :
    ((∀ d ∈ ds, Accepts limit ⟨.list [] :: outer, forms⟩ d) →
      feedAll limit ⟨.list acc :: outer, forms⟩ (Datum.allTokens ds ++ ts) =
        feedAll limit ⟨.list (ds.reverse ++ acc) :: outer, forms⟩ ts) ∧
    (¬ (∀ d ∈ ds, Accepts limit ⟨.list [] :: outer, forms⟩ d) →
      (feedAll limit ⟨.list acc :: outer, forms⟩ (Datum.allTokens ds ++ ts)).2 ≠ none) := by
  induction ds generalizing acc with
  | nil => exact ⟨fun _ => rfl, fun h => absurd (by simp) h⟩
  | cons d ds ihs =>
    have hd := ih d (.head _) ⟨.list acc :: outer, forms⟩ (Datum.allTokens ds ++ ts) hlimit
    have hds := ihs (fun e he => ih e (.tail _ he)) (d :: acc)
    rw [Datum.allTokens, List.append_assoc]
    by_cases h : Accepts limit ⟨.list [] :: outer, forms⟩ d
    · rw [hd.accepted h]
      refine ⟨fun hall => ?_, fun hall => ?_⟩
      · rw [List.reverse_cons, List.append_assoc]
        exact hds.1 fun e he => hall e (.tail _ he)
      · refine hds.2 fun hrest => hall fun e he => ?_
        cases he with
        | head => exact h
        | tail _ he => exact hrest e he
    · exact ⟨fun hall => absurd (hall d (.head _)) h, fun _ => hd.refused h⟩

theorem takes_list {items : List Datum} (ih : ∀ d ∈ items, ∀ (st : State) (ts : List Token),
    st.stack.length ≤ limit → st.Takes limit d ts) : st.Takes limit (.list items) ts := by
  have htokens : (Datum.list items).tokens ++ ts =
      ⟨.lparen, "("⟩ :: (Datum.allTokens items ++ ⟨.rparen, ")"⟩ :: ts) := by simp [Datum.tokens]
  by_cases hlimit : limit ≤ st.stack.length
  · have hbegin : st.feed limit ⟨.lparen, "("⟩ = .error .tooDeep := if_pos hlimit
    refine ⟨fun h => absurd (accepts_list.mp h).1 (Nat.not_lt.mpr hlimit), fun _ => ?_⟩
    simp [htokens, feedAll, hbegin]
  · have hbegin : st.feed limit ⟨.lparen, "("⟩ = .ok ⟨.list [] :: st.stack, st.forms⟩ :=
      if_neg hlimit
    have hlt : st.stack.length < limit := Nat.not_le.mp hlimit
    obtain ⟨htaken, hrefused⟩ :=
      takes_items st.stack st.forms hlt ih [] (⟨.rparen, ")"⟩ :: ts)
    refine ⟨fun h => ?_, fun h => ?_⟩
    · rw [htokens, feedAll, hbegin]
      refine (htaken (accepts_list.mp h).2).trans ?_
      simp [feedAll, feed]
    · rw [htokens, feedAll, hbegin]
      exact hrefused fun hall => h (accepts_list.mpr ⟨hlt, hall⟩)

theorem takes (hd : d.IsPlain) (st : State) (ts : List Token) (hst : st.stack.length ≤ limit) :
    st.Takes limit d ts := by
  induction hd generalizing st ts with
  | bool b => cases b <;> exact takes_atom rfl rfl ⟨hst, rfl⟩
  | int h => exact takes_atom rfl (Datum.ofAtom_writeInt h) ⟨hst, rfl⟩
  | text s => exact takes_text s hst
  | symbol _ _ hatom => exact takes_atom rfl hatom ⟨hst, rfl⟩
  | list _ ih => exact takes_list ih

end Parser.State

/-! ## The round trip -/

namespace Value

theorem allFit_of_toData? {ds : List Datum} {vs : List Value}
    (ih : ∀ d ∈ ds, ∀ v : Value, v.toDatum? = some d → v.fits) (hvs : toData? vs = some ds) :
    allFit vs := by
  induction vs generalizing ds with
  | nil => rfl
  | cons v vs ihs =>
    obtain ⟨d, ds, hd, hds, rfl⟩ := toData?_cons hvs
    rw [allFit, Bool.and_eq_true]
    exact ⟨ih d (.head _) v hd, ihs (fun e he => ih e (.tail _ he)) hds⟩

theorem fits_of_isPlain {d : Datum} (hd : d.IsPlain) (v : Value) (hv : v.toDatum? = some d) :
    v.fits := by
  induction hd generalizing v with
  | @int n h =>
    obtain rfl : v = .int n := by cases v <;> simp_all [toDatum?]
    exact Numeral.fits_iff.mpr h
  | list _ ih =>
    obtain ⟨id, vs, rfl, hvs⟩ := toDatum?_list hv
    exact allFit_of_toData? ih hvs
  | _ => cases v <;> simp_all [toDatum?, fits]

/-- Reading what was written gives the value back, unless its lists nest deeper than the reader
may go or one of its strings holds a NUL. -/
theorem read_write_iff [CharacterNames] {v : Value} {d : Datum} (hv : v.toDatum? = some d)
    (hd : d.IsPlain) (limit : Nat) : v.write? = .ok v.write ∧
      (read limit v.write = .ok [d] ↔ d.depth ≤ limit ∧ d.hasNul = false) := by
  refine ⟨if_pos (fits_of_isPlain hd v hv), ?_⟩
  have hlex : lex v.write.toList = ⟨d.tokens, none⟩ := by
    have hback := lexesBack hd v hv [] delimited_nil
    rwa [List.append_nil, lex_nil, Lexed.prepend, List.append_nil] at hback
  have htakes : State.start.Takes limit d [] := State.takes hd _ _ (Nat.zero_le _)
  have haccepts : State.start.Accepts limit d ↔ d.depth ≤ limit ∧ d.hasNul = false := by
    simp [State.Accepts, State.start]
  rw [read_eq_ok_iff, parsed, hlex, ← haccepts, ← List.append_nil d.tokens]
  refine ⟨fun h => ?_, fun h => ⟨rfl, htakes.accepted h⟩⟩
  by_contra hnot
  exact htakes.refused hnot (by rw [h.2])

/-- A list with an escaped string, a negative number and a nested list comes back. -/
theorem read_write_iff_nested :
    let v : Value := .list 7 [.text "a\x22\\\n\r", .int (-12), .list 8 [.bool true, .symbol "+x"]]
    let d : Datum := .list [.text "a\x22\\\n\r", .int (-12), .list [.bool true, .symbol "+x"]]
    v.toDatum? = some d ∧ d.IsPlain ∧ read 2 v.write = .ok [d] := by
  intro v d
  have hv : v.toDatum? = some d := by rfl
  have hint : (-12 : Int).natAbs < 10 ^ Numeral.maxDigits :=
    Nat.lt_of_lt_of_le (by decide : 12 < 10 ^ 2) (Nat.pow_le_pow_right (by decide) (by decide))
  have hsymbol : (Datum.symbol "+x").IsPlain :=
    .symbol (by decide) (List.all_eq_true.mp rfl) (by cbv)
  have hinner : (Datum.list [.bool true, .symbol "+x"]).IsPlain :=
    .list (by simpa using ⟨.bool true, hsymbol⟩)
  have hd : d.IsPlain := .list (by simpa using ⟨.text _, .int hint, hinner⟩)
  exact ⟨hv, hd, (read_write_iff hv hd 2).2.mpr (by decide)⟩

end Value

end SmallLisp
