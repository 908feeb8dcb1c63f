import SmallLisp.Proofs.Parsing

/-!
# The grammar of forms

    form ::= symbol | string | quote form | lparen form* rparen

A derivation in this grammar has tokens at its leaves and denotes a datum. The tokens of a
derivation determine it (`Derivation.eq_of_flatMap_tokens`). The parser builds what a derivation
denotes and stops behind its last token (`Derivation.run_tokens`); and whatever it has taken without
a failure are the tokens of derivations, of which some may still be open (`State.Explains`).
-/

namespace SmallLisp

section

variable [CharacterNames]

/-- A derivation of a form from tokens. -/
inductive Derivation where
  | symbol (t : Token) (h : t.kind = .symbol)
  | string (t : Token) (d : Datum) (h : t.kind = .string) (hd : Datum.ofString t.text = .ok d)
  | quote (mark : Token) (h : mark.kind = .quote) (form : Derivation)
  | list (opening closing : Token) (ho : opening.kind = .lparen) (hc : closing.kind = .rparen)
    (items : List Derivation)

namespace Derivation

open SmallLisp.Parser

mutual

/-- The tokens of a derivation, from left to right. -/
def tokens : Derivation → List Token
  | .symbol t _ | .string t .. => [t]
  | .quote mark _ form => mark :: form.tokens
  | .list opening closing _ _ items => opening :: (allTokens items ++ [closing])

def allTokens : List Derivation → List Token
  | [] => []
  | f :: fs => f.tokens ++ allTokens fs

end

mutual

/-- The datum that a derivation denotes. -/
def datum : Derivation → Datum
  | .symbol t _ => .ofAtom t.text
  | .string _ d .. => d
  | .quote _ _ form => form.datum.quoted
  | .list _ _ _ _ items => .list (data items)

def data : List Derivation → List Datum
  | [] => []
  | f :: fs => f.datum :: data fs

end

mutual

/-- How deep quotes and lists nest in a derivation. -/
def depth : Derivation → Nat
  | .symbol .. | .string .. => 0
  | .quote _ _ form => form.depth + 1
  | .list _ _ _ _ items => depths items + 1

def depths : List Derivation → Nat
  | [] => 0
  | f :: fs => max f.depth (depths fs)

end

theorem allTokens_eq (fs : List Derivation) : allTokens fs = fs.flatMap tokens := by
  induction fs with
  | nil => rfl
  | cons f fs ih => rw [allTokens, ih, List.flatMap_cons]

theorem data_eq (fs : List Derivation) : data fs = fs.map datum := by
  induction fs with
  | nil => rfl
  | cons f fs ih => rw [data, ih, List.map_cons]

theorem depths_le {fs : List Derivation} {k : Nat} : depths fs ≤ k ↔ ∀ f ∈ fs, f.depth ≤ k := by
  induction fs with
  | nil => simp [depths]
  | cons f fs ih => rw [depths, Nat.max_le, ih, List.forall_mem_cons]

/-! ## Tokens determine derivations -/

/-- The kind of the first token. -/
def firstKind : Derivation → Token.Kind
  | .symbol .. => .symbol
  | .string .. => .string
  | .quote .. => .quote
  | .list .. => .lparen

theorem head?_tokens (f : Derivation) (ts : List Token) :
    (f.tokens ++ ts).head?.map (·.kind) = some f.firstKind := by
  cases f with
  | symbol t h | string t d h | quote t h | list t _ h => exact congrArg some h

theorem firstKind_eq {f g : Derivation} {ts us : List Token}
    (h : f.tokens ++ ts = g.tokens ++ us) : f.firstKind = g.firstKind := by
  have hf := f.head?_tokens ts
  rw [h, g.head?_tokens us] at hf
  exact (Option.some.inj hf).symm

/-- No form begins with the tokens. -/
def Stops (ts : List Token) : Prop := ∀ t ∈ ts.head?, t.kind = .rparen

theorem not_stops (f : Derivation) (ts : List Token) : ¬ Stops (f.tokens ++ ts) := by
  intro h
  obtain ⟨t, ht, hk⟩ := Option.map_eq_some_iff.mp (f.head?_tokens ts)
  rw [h t ht] at hk
  cases f <;> cases hk

omit [CharacterNames] in
theorem stops_nil : Stops [] := by
  rintro _ ⟨⟩

omit [CharacterNames] in
theorem stops_closing {t : Token} (h : t.kind = .rparen) (ts : List Token) : Stops (t :: ts) := by
  rintro u ⟨⟩
  exact h

mutual

/-- No derivation has the beginning of another's tokens. -/
theorem tokens_append_inj {f g : Derivation} {ts us : List Token}
    (h : f.tokens ++ ts = g.tokens ++ us) : f = g ∧ ts = us := by
  -- the first tokens agree, so both derivations are by the same production
  have hkind := firstKind_eq h
  match f with
  | .symbol t _ =>
    cases g with
    | symbol u _ =>
      cases h
      exact ⟨rfl, rfl⟩
    | _ => cases hkind
  | .string t d _ hd =>
    cases g with
    | string u e _ he =>
      cases h
      cases hd.symm.trans he
      exact ⟨rfl, rfl⟩
    | _ => cases hkind
  | .quote t _ f =>
    cases g with
    | quote u _ g =>
      obtain ⟨rfl, htail⟩ := List.cons.inj h
      obtain ⟨rfl, rfl⟩ := tokens_append_inj htail
      exact ⟨rfl, rfl⟩
    | _ => cases hkind
  | .list o c _ hc fs =>
    cases g with
    | list p d _ hd gs =>
      rw [tokens, tokens, List.cons_append, List.cons_append, List.append_assoc,
        List.append_assoc] at h
      obtain ⟨rfl, htail⟩ := List.cons.inj h
      obtain ⟨rfl, hclose⟩ := allTokens_append_inj (stops_closing hc ts) (stops_closing hd us) htail
      cases hclose
      exact ⟨rfl, rfl⟩
    | _ => cases hkind

theorem allTokens_append_inj {fs gs : List Derivation} {ts us : List Token} (hts : Stops ts)
    (hus : Stops us) (h : allTokens fs ++ ts = allTokens gs ++ us) : fs = gs ∧ ts = us := by
  match fs, gs with
  | [], [] => exact ⟨rfl, h⟩
  | [], g :: gs =>
    rw [allTokens, allTokens, List.nil_append, List.append_assoc] at h
    exact absurd (h ▸ hts) (g.not_stops _)
  | f :: fs, [] =>
    rw [allTokens, allTokens, List.nil_append, List.append_assoc] at h
    exact absurd (h ▸ hus) (f.not_stops _)
  | f :: fs, g :: gs =>
    rw [allTokens, allTokens, List.append_assoc, List.append_assoc] at h
    obtain ⟨rfl, htail⟩ := tokens_append_inj h
    obtain ⟨rfl, rfl⟩ := allTokens_append_inj hts hus htail
    exact ⟨rfl, rfl⟩

end

/-- Tokens have at most one derivation. -/
theorem eq_of_flatMap_tokens {fs gs : List Derivation}
    (h : fs.flatMap tokens = gs.flatMap tokens) : fs = gs := by
  rw [← allTokens_eq, ← allTokens_eq, ← List.append_nil (allTokens fs),
    ← List.append_nil (allTokens gs)] at h
  exact (allTokens_append_inj stops_nil stops_nil h).1

/-! ## What is derived is parsed -/

variable {limit : Nat} {failure : Option ReadError} {stack : List Open} {rest : List Token}

/-- Go on behind a finished form, which is the result or a part of an open one. -/
def proceed (limit : Nat) (failure : Option ReadError) (rest : List Token) :
    Datum ⊕ List Open → Except ReadFailure (Option Datum) × TokenStream
  | .inl d => (.ok (some d), ⟨none, rest, failure⟩)
  | .inr stack => run limit failure stack rest

mutual

/-- The parser takes the tokens of a derivation, and no more, for the datum that it denotes. -/
theorem run_tokens (f : Derivation) {stack : List Open} {rest : List Token}
    (h : stack.length + f.depth ≤ limit) : run limit failure stack (f.tokens ++ rest) =
      proceed limit failure rest (plug f.datum stack) := by
  match f with
  | .symbol t hk =>
    rw [tokens, List.singleton_append, run.eq_def]
    simp only [hk, datum]
    cases plug (.ofAtom t.text) stack <;> rfl
  | .string t d hk hd =>
    rw [tokens, List.singleton_append, run.eq_def]
    simp only [hk, hd, datum]
    cases plug d stack <;> rfl
  | .quote mark hk form =>
    have hroom : ¬ limit ≤ stack.length := by rw [depth] at h; omega
    rw [tokens, List.cons_append, run.eq_def]
    simp only [hk, if_neg hroom]
    exact run_tokens form (by rw [depth] at h; rw [List.length_cons]; omega)
  | .list opening closing ho hc items =>
    have hroom : ¬ limit ≤ stack.length := by rw [depth] at h; omega
    rw [tokens, List.cons_append, List.append_assoc, run.eq_def]
    simp only [ho, if_neg hroom]
    rw [run_allTokens items (by rw [depth] at h; omega), List.singleton_append, run.eq_def]
    simp only [hc, List.append_nil, List.reverse_reverse, datum]
    cases plug (.list (data items)) stack <;> rfl

theorem run_allTokens (fs : List Derivation) {items : List Datum} {outer : List Open}
    {rest : List Token} (h : outer.length + 1 + depths fs ≤ limit) :
    run limit failure (.list items :: outer) (allTokens fs ++ rest) =
      run limit failure (.list ((data fs).reverse ++ items) :: outer) rest := by
  match fs with
  | [] => rfl
  | f :: fs =>
    rw [depths] at h
    rw [allTokens, List.append_assoc, run_tokens f (by rw [List.length_cons]; omega), data,
      List.reverse_cons, List.append_assoc]
    exact run_allTokens fs (by omega)

end

theorem parse_tokens {s : TokenStream} (f : Derivation) (hf : f.depth ≤ limit)
    (h : s.tokens = f.tokens ++ rest) :
    s.parse limit = (.ok (some f.datum), ⟨none, rest, s.failure⟩) := by
  rw [TokenStream.parse, h, run_tokens f (by simpa using hf)]
  rfl

theorem readFrom_tokens {seen : List Datum} (fs : List Derivation)
    (hfs : ∀ f ∈ fs, f.depth ≤ limit) :
    readFrom limit failure ⟨[], seen⟩ (fs.flatMap tokens ++ rest) =
      readFrom limit failure ⟨[], (fs.map datum).reverse ++ seen⟩ rest := by
  induction fs generalizing seen with
  | nil => rfl
  | cons f fs ih =>
    have hf : ([] : List Open).length + f.depth ≤ limit := by simpa using hfs f (.head _)
    rw [List.flatMap_cons, List.append_assoc, readFrom, run_tokens f hf, plug, proceed, resume,
      parseOnto_eq, TokenStream.tokens, Option.toList_none, List.nil_append,
      ih fun g hg => hfs g (.tail _ hg), List.map_cons, List.reverse_cons, List.append_assoc,
      List.singleton_append]

theorem parseAll_tokens (fs : List Derivation) (hfs : ∀ f ∈ fs, f.depth ≤ limit) :
    ((TokenStream.ofTokens (fs.flatMap tokens)).parseAll limit).result = .ok (fs.map datum) := by
  have hall : (TokenStream.ofTokens (fs.flatMap tokens)).parseAll limit =
      readFrom limit none ⟨[], []⟩ (fs.flatMap tokens ++ []) := by
    rw [List.append_nil]
    exact parseOnto_eq [] (TokenStream.ofTokens _)
  rw [hall, readFrom_tokens fs hfs, readFrom, run.eq_def]
  simp [resume, endError?, Reading.result]

end Derivation

/-! ## What is parsed is derived -/

namespace Parser

open SmallLisp.Derivation

variable {limit : Nat} {stack : List Open} {ts : List Token}

/-- The tokens have begun the open forms and finished none but items of these. -/
inductive Opens (limit : Nat) : List Token → List Open → Prop
  | nil : Opens limit [] []
  | quote {ts : List Token} {t : Token} {outer : List Open} : Opens limit ts outer →
    t.kind = .quote → outer.length < limit → Opens limit (ts ++ [t]) (.quote :: outer)
  | list {ts : List Token} {t : Token} {outer : List Open} {fs : List Derivation} :
    Opens limit ts outer → t.kind = .lparen → outer.length + depths fs < limit →
    Opens limit (ts ++ t :: allTokens fs) (.list (data fs).reverse :: outer)

theorem Opens.length_le (h : Opens limit ts stack) : stack.length ≤ limit := by
  cases h with
  | nil => exact Nat.zero_le _
  | quote _ _ hlt => exact hlt
  | list _ _ hlt => rw [List.length_cons]; omega

/-- The tokens are those of a finished form, or have begun the open ones. -/
def Reaches (limit : Nat) (ts : List Token) : Datum ⊕ List Open → Prop
  | .inl d => ∃ f : Derivation, f.tokens = ts ∧ f.datum = d ∧ f.depth ≤ limit
  | .inr stack => Opens limit ts stack

theorem Opens.plug (h : Opens limit ts stack) (f : Derivation)
    (hf : stack.length + f.depth ≤ limit) :
    Reaches limit (ts ++ f.tokens) (plug f.datum stack) := by
  induction h generalizing f with
  | nil => exact ⟨f, rfl, rfl, by simpa using hf⟩
  | @quote ts t outer _ hk _ ih =>
    have hroom : outer.length + (Derivation.quote t hk f).depth ≤ limit := by
      rw [List.length_cons] at hf
      rw [depth]
      omega
    have hquote := ih (.quote t hk f) hroom
    rw [tokens, datum] at hquote
    rw [List.append_assoc, List.singleton_append, Parser.plug]
    exact hquote
  | @list ts t outer fs houter hk hlt =>
    have htokens : (ts ++ t :: allTokens fs) ++ f.tokens = ts ++ t :: allTokens (fs ++ [f]) := by
      simp [allTokens_eq]
    have hdata : f.datum :: (data fs).reverse = (data (fs ++ [f])).reverse := by simp [data_eq]
    have hdepth : depths (fs ++ [f]) ≤ limit - outer.length - 1 := by
      have hfs := depths_le.mp (Nat.le_refl (depths fs))
      rw [List.length_cons] at hf
      refine depths_le.mpr fun g hg => ?_
      rcases List.mem_append.mp hg with hg | hg
      · have := hfs g hg
        omega
      · rw [List.mem_singleton.mp hg]
        omega
    rw [Parser.plug, htokens, hdata]
    exact .list houter hk (by omega)

namespace State

variable {st st' : State} {t : Token}

/-- The tokens are those of derivations of the finished forms, and then those that have begun the
open ones. -/
def Explains (limit : Nat) (ts : List Token) (st : State) : Prop :=
  ∃ (fs : List Derivation) (us : List Token), ts = fs.flatMap tokens ++ us ∧
    st.forms.reverse = fs.map datum ∧ (∀ f ∈ fs, f.depth ≤ limit) ∧ Opens limit us st.stack

theorem Explains.finish (h : st.Explains limit ts) (f : Derivation)
    (hf : st.stack.length + f.depth ≤ limit) :
    (st.finish f.datum).Explains limit (ts ++ f.tokens) := by
  obtain ⟨fs, us, rfl, hforms, hfs, hopens⟩ := h
  have hplug := hopens.plug f hf
  rw [State.finish]
  cases hp : Parser.plug f.datum st.stack with
  | inl d =>
    rw [hp] at hplug
    obtain ⟨g, htokens, rfl, hdepth⟩ := hplug
    refine ⟨fs ++ [g], [], ?_, ?_, ?_, .nil⟩
    · simp [htokens]
    · simp [hforms]
    · intro k hk
      rcases List.mem_append.mp hk with hk | hk
      · exact hfs k hk
      · exact List.mem_singleton.mp hk ▸ hdepth
  | inr stack =>
    rw [hp] at hplug
    exact ⟨fs, us ++ f.tokens, List.append_assoc .., hforms, hfs, hplug⟩

theorem Explains.begin {o : Open} (h : st.Explains limit ts) (hb : st.begin limit o = .ok st')
    (ho : ∀ us, Opens limit us st.stack → st.stack.length < limit →
      Opens limit (us ++ [t]) (o :: st.stack)) : st'.Explains limit (ts ++ [t]) := by
  obtain ⟨fs, us, rfl, hforms, hfs, hopens⟩ := h
  unfold State.begin at hb
  split at hb
  · cases hb
  · next hroom =>
    cases hb
    exact ⟨fs, us ++ [t], List.append_assoc .., hforms, hfs, ho us hopens (by omega)⟩

/-- One token more. -/
theorem Explains.feed (h : st.Explains limit ts) (hf : st.feed limit t = .ok st') :
    st'.Explains limit (ts ++ [t]) := by
  have hlen : st.stack.length ≤ limit := by
    obtain ⟨_, _, -, -, -, hopens⟩ := h
    exact hopens.length_le
  unfold State.feed at hf
  split at hf
  · next hk =>
    cases hf
    exact h.finish (.symbol t hk) hlen
  · next hk =>
    split at hf
    · next d hd =>
      cases hf
      exact h.finish (.string t d hk hd) hlen
    · cases hf
  · next hk => exact h.begin hf fun us hus hlt => hus.quote hk hlt
  · next hk => exact h.begin hf fun us hus hlt => @Opens.list _ limit us t st.stack [] hus hk hlt
  · next hk =>
    split at hf
    · next items outer hstack =>
      cases hf
      obtain ⟨fs, us, rfl, hforms, hfs, hopens⟩ := h
      rw [hstack] at hopens
      cases hopens with
      | @list us o _ items houter ho hlt =>
        have houter' : Explains limit (fs.flatMap tokens ++ us) { st with stack := outer } :=
          ⟨fs, us, rfl, hforms, hfs, houter⟩
        have hfinish := houter'.finish (.list o t ho hk items) (by rw [depth]; exact hlt)
        rw [List.reverse_reverse]
        simpa [tokens, datum] using hfinish
    · cases hf
  · cases hf

theorem Explains.feedAll {us : List Token} (h : st.Explains limit ts)
    (hf : st.feedAll limit us = (st', none)) : st'.Explains limit (ts ++ us) := by
  induction us generalizing st ts with
  | nil =>
    cases hf
    rwa [List.append_nil]
  | cons t us ih =>
    rw [State.feedAll] at hf
    split at hf
    · next st₁ hfeed =>
      rw [← List.singleton_append, ← List.append_assoc]
      exact ih (h.feed hfeed) hf
    · cases hf

theorem explains_start (limit : Nat) : start.Explains limit [] :=
  ⟨[], [], rfl, rfl, nofun, .nil⟩

end State

theorem exists_derivations {ds : List Datum}
    (h : ((TokenStream.ofTokens ts).parseAll limit).result = .ok ds) :
    ∃ fs : List Derivation, fs.flatMap tokens = ts ∧ fs.map datum = ds ∧
      ∀ f ∈ fs, f.depth ≤ limit := by
  obtain ⟨-, hfeed⟩ := TokenStream.parseAll_eq_ok_iff.mp h
  obtain ⟨fs, us, hts, hforms, hfs, hopens⟩ := (State.explains_start limit).feedAll hfeed
  cases hopens
  rw [List.append_nil] at hts
  rw [List.reverse_reverse] at hforms
  exact ⟨fs, hts.symm, hforms.symm, hfs⟩

end Parser

end

open SmallLisp.Derivation in
/-- **The parser accepts exactly the grammar of forms**, as deep as it may nest. It returns data
exactly for the tokens of derivations that denote them, and tokens have one derivation at most. In
front of any other tokens it takes those of one form and leaves the others where they are. -/
theorem parser_accepts_grammar [CharacterNames] (limit : Nat) :
    (∀ (ts : List Token) (ds : List Datum),
      ((TokenStream.ofTokens ts).parseAll limit).result = .ok ds ↔
        ∃ fs : List Derivation, fs.flatMap tokens = ts ∧ fs.map datum = ds ∧
          ∀ f ∈ fs, f.depth ≤ limit) ∧
    (∀ fs gs : List Derivation, fs.flatMap tokens = gs.flatMap tokens → fs = gs) ∧
    ∀ (f : Derivation) (rest : List Token) (s : TokenStream), f.depth ≤ limit →
      s.tokens = f.tokens ++ rest →
        s.parse limit = (.ok (some f.datum), ⟨none, rest, s.failure⟩) := by
  refine ⟨fun ts ds => ⟨Parser.exists_derivations, ?_⟩, fun _ _ => eq_of_flatMap_tokens,
    fun f _ _ hf => parse_tokens f hf⟩
  rintro ⟨fs, rfl, rfl, hfs⟩
  exact parseAll_tokens fs hfs

/-- A quoted list behind which another list ends. -/
theorem parser_accepts_grammar_quoted_list :
    let f : Derivation := .quote ⟨.quote, "'"⟩ rfl
      (.list ⟨.lparen, "("⟩ ⟨.rparen, ")"⟩ rfl rfl [.symbol ⟨.symbol, "a"⟩ rfl])
    let s : TokenStream := ⟨some ⟨.quote, "'"⟩,
      [⟨.lparen, "("⟩, ⟨.symbol, "a"⟩, ⟨.rparen, ")"⟩, ⟨.rparen, ")"⟩], none⟩
    f.depth ≤ 2 ∧ s.parse 2 = (.ok (some f.datum), ⟨none, [⟨.rparen, ")"⟩], none⟩) :=
  ⟨by decide, (parser_accepts_grammar 2).2.2 _ _ _ (by decide) rfl⟩

end SmallLisp
