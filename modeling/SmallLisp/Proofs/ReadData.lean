import SmallLisp.Proofs.Parsing

/-!
# Data that a text can hold

A host may put any literal into a string token, among them nothing at all. The lexer makes string
tokens of one kind only, and so every datum that is read from a text is made of booleans, numbers,
texts, symbols and lists: `scan_isRead`.
-/

namespace SmallLisp

mutual

/-- A datum in which nothing is absent. -/
def Datum.IsRead : Datum → Prop
  | .nothing => False
  | .list items => Datum.AllRead items
  | .bool _ | .int _ | .float _ | .text _ | .symbol _ => True

def Datum.AllRead : List Datum → Prop
  | [] => True
  | d :: ds => d.IsRead ∧ Datum.AllRead ds

end

namespace StringLiteral

theorem toNat_ofNat {n : Nat} (h : n.isValidChar) : (Char.ofNat n).toNat = n := by
  rw [Char.ofNat, dif_pos h]
  exact UInt32.toNat_ofNatLT ..

theorem charOf?_eq_some_iff {n : Nat} {c : Char} : charOf? n = some c ↔ c.toNat = n := by
  unfold charOf?
  split
  · next hvalid =>
    rw [Option.some.injEq]
    constructor
    · rintro rfl
      exact toNat_ofNat hvalid
    · rintro rfl
      exact c.ofNat_toNat
  · next hinvalid =>
    refine iff_of_false nofun ?_
    rintro rfl
    exact hinvalid c.valid

theorem mapM_charOf?_eq_some_iff {points : List Nat} {cs : List Char} :
    points.mapM charOf? = some cs ↔ cs.map Char.toNat = points := by
  induction points generalizing cs with
  | nil => simp [eq_comm]
  | cons n points ih => cases cs <;> simp [Option.bind_eq_some_iff, charOf?_eq_some_iff, ih]

/-- Code points make a text if they are those of its characters. -/
theorem text?_eq_some_iff {points : List Nat} {out : String} :
    text? points = some out ↔ out.toList.map Char.toNat = points := by
  rw [text?, Option.map_eq_some_iff]
  constructor
  · rintro ⟨cs, hcs, rfl⟩
    rw [String.toList_ofList]
    exact mapM_charOf?_eq_some_iff.mp hcs
  · intro h
    exact ⟨out.toList, mapM_charOf?_eq_some_iff.mpr h, String.ofList_toList⟩

end StringLiteral

namespace Datum

theorem allRead_iff {ds : List Datum} : AllRead ds ↔ ∀ d ∈ ds, d.IsRead := by
  induction ds with
  | nil => simp [AllRead]
  | cons d ds ih => simp [AllRead, ih]

theorem ofAtom_isRead (text : String) : (ofAtom text).IsRead := by
  unfold ofAtom
  split
  · trivial
  · split
    · trivial
    · split
      · trivial
      · split <;> trivial

/-- A string token of the lexer stands for the text of the code points that it decodes to. -/
theorem ofString_eq_ok_iff [CharacterNames] {text : String} {d : Datum}
    (h : StringLiteral.isLexeme text.toList) : ofString text = .ok d ↔
      ∃ points out, StringLiteral.decode? text.toList = some points ∧
        StringLiteral.text? points = some out ∧ d = .text out := by
  simp only [ofString, h, if_true]
  cases hdecode : StringLiteral.decode? text.toList with
  | none => simp
  | some points =>
    cases hout : StringLiteral.text? points with
    | none => simp [hout]
    | some out => simp [hout, eq_comm]

theorem ofString_isRead [CharacterNames] {text : String} {d : Datum}
    (h : StringLiteral.isLexeme text.toList) (hd : ofString text = .ok d) : d.IsRead := by
  obtain ⟨_, _, _, _, rfl⟩ := (ofString_eq_ok_iff h).mp hd
  trivial

end Datum

/-! ## Tokens -/

namespace Lexer

/-- A string is closed by the end of its lexeme and not before. -/
theorem closeString?_lexeme {seen cs text rest : List Char}
    (h : closeString? seen cs = some (text, rest)) :
    ∃ inner, text = seen.reverse ++ inner ∧ closeString? seen inner = some (text, []) := by
  obtain ⟨body, hbody, rfl, rfl⟩ := isStringBody_of_closeString? h
  exact ⟨body ++ ['\x22'], rfl, hbody.closeString?_eq seen []⟩

/-- A token as the lexer makes it. -/
def IsLexed (t : Token) : Prop := t.kind = .string → StringLiteral.isLexeme t.text.toList

theorem isLexed_of_next {cs rest : List Char} {t : Token} (h : next cs = .token t rest) :
    IsLexed t := by
  unfold next lexeme at h
  split at h
  · cases h
  · split_ifs at h with hq hl hr hs
    · cases h; intro hk; cases hk
    · cases h; intro hk; cases hk
    · cases h; intro hk; cases hk
    · split at h
      · next text rest' hclose =>
        cases h
        cases hs
        obtain ⟨inner, htext, hinner⟩ := closeString?_lexeme hclose
        intro _
        rw [String.toList_ofList, htext, List.reverse_singleton, List.singleton_append,
          StringLiteral.isLexeme, hinner]
        rfl
      · cases h
    · cases h; intro hk; cases hk

theorem isLexed_of_lex {cs : List Char} : ∀ t ∈ (lex cs).tokens, IsLexed t := by
  induction cs using token_induction with
  | step cs ih =>
    rw [lex_eq]
    cases hn : next cs with
    | done | failed => exact nofun
    | token t rest =>
      intro u hu
      rcases List.mem_cons.mp hu with rfl | hu
      · exact isLexed_of_next hn
      · exact ih t rest hn u hu

end Lexer

/-! ## Forms -/

namespace Parser

/-- The items of an open form are complete data. -/
def Open.IsRead : Open → Prop
  | .quote => True
  | .list items => Datum.AllRead items

/-- All that the parser has finished is complete. -/
def State.IsRead (st : State) : Prop :=
  (∀ o ∈ st.stack, o.IsRead) ∧ Datum.AllRead st.forms

namespace State

theorem finish_isRead {st : State} {d : Datum} (h : st.IsRead) (hd : d.IsRead) :
    (st.finish d).IsRead := by
  obtain ⟨stack, forms⟩ := st
  obtain ⟨hstack, hforms⟩ := h
  induction stack generalizing d with
  | nil => exact ⟨nofun, hd, hforms⟩
  | cons o outer ih =>
    have houter : ∀ o ∈ outer, o.IsRead := fun o ho => hstack o (.tail _ ho)
    cases o with
    | quote => exact ih (d := d.quoted) ⟨trivial, hd, trivial⟩ houter hforms
    | list items =>
      refine ⟨fun o ho => ?_, hforms⟩
      rcases List.mem_cons.mp ho with rfl | ho
      · exact ⟨hd, hstack _ (.head _)⟩
      · exact houter o ho

theorem begin_isRead {limit : Nat} {st st' : State} {o : Open} (h : st.IsRead) (ho : o.IsRead)
    (hb : st.begin limit o = .ok st') : st'.IsRead := by
  unfold begin at hb
  split at hb
  · cases hb
  · cases hb
    exact ⟨List.forall_mem_cons.mpr ⟨ho, h.1⟩, h.2⟩

variable [CharacterNames]

theorem feed_isRead {limit : Nat} {st st' : State} {t : Token} (h : st.IsRead)
    (ht : Lexer.IsLexed t) (hf : st.feed limit t = .ok st') : st'.IsRead := by
  unfold feed at hf
  split at hf
  · cases hf; exact finish_isRead h (Datum.ofAtom_isRead _)
  · next hk =>
    split at hf
    · next hd => cases hf; exact finish_isRead h (Datum.ofString_isRead (ht hk) hd)
    · cases hf
  · exact begin_isRead (o := .quote) h trivial hf
  · exact begin_isRead (o := .list []) h trivial hf
  · split at hf
    · next items outer hstack =>
      cases hf
      have hitems : Datum.AllRead items := h.1 (.list items) (hstack ▸ .head _)
      refine finish_isRead ⟨fun o ho => h.1 o (hstack ▸ .tail _ ho), h.2⟩ ?_
      exact Datum.allRead_iff.mpr fun d hd =>
        Datum.allRead_iff.mp hitems d (List.mem_reverse.mp hd)
    · cases hf
  · cases hf

theorem feedAll_isRead {limit : Nat} {st : State} {ts : List Token} (h : st.IsRead)
    (hts : ∀ t ∈ ts, Lexer.IsLexed t) : (st.feedAll limit ts).1.IsRead := by
  induction ts generalizing st with
  | nil => exact h
  | cons t ts ih =>
    rw [feedAll]
    cases hf : st.feed limit t with
    | ok st' =>
      exact ih (feed_isRead h (hts t (.head _)) hf) fun u hu => hts u (.tail _ hu)
    | error e => exact h

end State

end Parser

/-- In the forms of a text nothing is absent. -/
theorem scan_isRead [CharacterNames] (limit : Nat) (text : String) :
    Datum.AllRead (scan limit text).forms := by
  obtain ⟨s, hs⟩ := scan_eq limit text
  have hparsed : (parsed limit text).1.IsRead :=
    Parser.State.feedAll_isRead ⟨nofun, trivial⟩ Lexer.isLexed_of_lex
  rw [hs]
  exact Datum.allRead_iff.mpr fun d hd =>
    Datum.allRead_iff.mp hparsed.2 d (List.mem_reverse.mp hd)

end SmallLisp
