import SmallLisp.Host.Dialogue
import SmallLisp.Proofs.Record
import SmallLisp.Proofs.RoundTrip

/-!
# The dialogue and the evaluation of a whole text

A text is evaluated form by form, and an *episode* is what happens for one form: it is evaluated,
output is written, a value results. The dialogue goes through the same episodes as the evaluation of
the whole text, with an answer behind each of them and prompts in between, wherever the lines of the
text end (`Dialogue.runFrom_does`).
-/

namespace SmallLisp

open Lexer

variable {limit : Nat} {s s₁ s₂ : Store} {d : Datum} {ds : List Datum} {vs : List Value}

/-! ## Episodes -/

/-- What happens for one form. -/
structure Episode where
  form : Value
  /-- The texts that were written. -/
  output : List String
  value : Value

namespace Episode

/-- The events of an episode. -/
def events (ep : Episode) : List Event := .evaluating ep.form :: ep.output.map .display

/-- The events of an episode in the dialogue. -/
def shown (ep : Episode) : List Event := ep.events ++ [.answer ep.value.write]

end Episode

mutual

theorem Datum.toDatum?_label (next : Nat) (d : Datum) : (d.label next).1.toDatum? = some d := by
  cases d with
  | list items =>
    simp only [Datum.label, Value.toDatum?, Datum.toData?_labels (next + 1) items, Option.map_some]
  | _ => rfl

theorem Datum.toData?_labels (next : Nat) (ds : List Datum) :
    Value.toData? (Datum.labels next ds).1 = some ds := by
  cases ds with
  | nil => rfl
  | cons d ds =>
    simp only [Datum.labels, Value.toData?, Datum.toDatum?_label next d,
      Datum.toData?_labels (d.label next).2 ds]

end

/-- The evaluation of data as forms, in order and each once. -/
inductive Evaluates (limit : Nat) : List Datum → Store → List Episode → Store → Prop where
  | nil (s : Store) : Evaluates limit [] s [] s
  | cons {d : Datum} {ds : List Datum} {s s₀ s₁ s₂ : Store} {ep : Episode} {eps : List Episode}
    (hdatum : ep.form.toDatum? = some d)
    (hform : (Action.newDatum d).Does s (.ok ep.form) s₀ [])
    (hvalue : (Interpreter.evalForm limit ep.form).Does s₀ (.ok ep.value) s₁ ep.events)
    (hrest : Evaluates limit ds s₁ eps s₂) : Evaluates limit (d :: ds) s (ep :: eps) s₂

namespace Evaluates

variable {eps : List Episode}

/-- An evaluation without failure is a sequence of episodes. -/
theorem of_evalData (h : Interpreter.evalData limit ds s = (.ok vs, s₁)) :
    ∃ eps, Evaluates limit ds s eps s₁ ∧ eps.map Episode.value = vs := by
  induction ds generalizing s vs with
  | nil =>
    cases h
    exact ⟨[], .nil _, rfl⟩
  | cons d ds ih =>
    have hform := Action.Does.newDatum d s
    rw [Interpreter.evalData, Action.bind_of_ok hform.apply] at h
    obtain ⟨v, s', hv, h⟩ := (Action.of_bind_eq h).resolve_right (by simp)
    obtain ⟨ws, s'', hws, h⟩ := (Action.of_bind_eq h).resolve_right (by simp)
    cases h
    obtain ⟨texts, hvalue⟩ := Interpreter.evalForm_does hv
    obtain ⟨eps, heps, rfl⟩ := ih hws
    exact ⟨⟨(d.label s.nextId).1, texts, v⟩ :: eps,
      .cons (Datum.toDatum?_label _ d) hform hvalue heps, rfl⟩

/-- The evaluation of a whole text, without its answers. -/
theorem evalData (h : Evaluates limit ds s eps s₁) : (Interpreter.evalData limit ds).Does s
    (.ok (eps.map Episode.value)) s₁ (eps.flatMap Episode.events) := by
  induction h with
  | nil s => exact .pure [] s
  | @cons d ds s s₀ s₁ s₂ ep eps _ hform hvalue _ ih =>
    have hevents : (ep :: eps).flatMap Episode.events =
        [] ++ (ep.events ++ (eps.flatMap Episode.events ++ [])) := by simp
    rw [Interpreter.evalData, hevents]
    exact .bind hform (.bind hvalue (.bind ih (.pure _ _)))

theorem evalAndShow (h : Evaluates limit ds s eps s₁)
    (hwrite : ∀ ep ∈ eps, ep.value.write? = .ok ep.value.write) :
    (Dialogue.evalAndShow limit ds).Does s (.ok ()) s₁ (eps.flatMap Episode.shown) := by
  induction h with
  | nil s => exact .pure () s
  | @cons d ds s s₀ s₁ s₂ ep eps _ hform hvalue _ ih =>
    have hevents : (ep :: eps).flatMap Episode.shown =
        [] ++ (ep.events ++ ([] ++ ([.answer ep.value.write] ++ eps.flatMap Episode.shown))) := by
      simp [Episode.shown]
    have htext : (Action.ofExcept ep.value.write?).Does s₁ (.ok ep.value.write) s₁ [] :=
      hwrite ep (.head _) ▸ .ofExcept _ s₁
    rw [Dialogue.evalAndShow, hevents]
    refine .bind hform (.bind hvalue (.bind htext (.bind (.emit _ s₁) ?_)))
    exact ih fun ep hep => hwrite ep (.tail _ hep)

/-- The episodes of some data are those of the first ones and then those of the others. -/
theorem of_append {front back : List Datum} (h : Evaluates limit (front ++ back) s eps s₂) :
    ∃ eps₁ eps₂ s₁, eps = eps₁ ++ eps₂ ∧ Evaluates limit front s eps₁ s₁ ∧
      Evaluates limit back s₁ eps₂ s₂ := by
  induction front generalizing s eps with
  | nil => exact ⟨[], eps, s, rfl, .nil s, h⟩
  | cons d front ih =>
    cases h with
    | cons hdatum hform hvalue hrest =>
      obtain ⟨eps₁, eps₂, s₁, rfl, hfront, hback⟩ := ih hrest
      exact ⟨_ :: eps₁, eps₂, s₁, rfl, .cons hdatum hform hvalue hfront, hback⟩

/-- The forms are those that were read. -/
theorem toDatum?_form (h : Evaluates limit ds s eps s₁) :
    eps.map (·.form.toDatum?) = ds.map some := by
  induction h with
  | nil => rfl
  | cons hdatum _ _ _ ih => rw [List.map_cons, List.map_cons, hdatum, ih]

end Evaluates

/-! ## Lines -/

namespace Dialogue

theorem linesOnto_cons (seen cs : List Char) (h : seen ++ cs ≠ []) :
    ∃ line rest : List Char, seen.reverse ++ cs = line ++ rest ∧
      linesOnto seen cs = String.ofList line :: linesOnto [] rest ∧
      (EndsLine line ∨ rest = []) := by
  induction cs generalizing seen with
  | nil =>
    have hne : seen ≠ [] := by simpa using h
    exact ⟨seen.reverse, [], rfl, by simp [linesOnto, hne], .inr rfl⟩
  | cons c cs ih =>
    rw [linesOnto]
    split
    · next hc =>
      refine ⟨(c :: seen).reverse, cs, by simp, rfl, .inl ?_⟩
      simp [EndsLine, hc]
    · obtain ⟨line, rest, heq, hlines, hend⟩ := ih (c :: seen) (by simp)
      exact ⟨line, rest, by simpa using heq, hlines, hend⟩

/-- The first line of a text, and what follows it. -/
theorem lines_cons {text : String} (h : text ≠ "") :
    ∃ line rest : String, text = line ++ rest ∧ lines text = line :: lines rest ∧
      (EndsLine line.toList ∨ rest = "") := by
  obtain ⟨line, rest, heq, hlines, hend⟩ := linesOnto_cons [] text.toList (by simpa using h)
  refine ⟨String.ofList line, String.ofList rest, ?_, ?_, ?_⟩
  · rw [← String.ofList_toList (s := text), ← String.ofList_append]
    exact congrArg _ heq
  · rw [lines, lines, hlines, String.toList_ofList]
  · rw [String.toList_ofList]
    exact hend.imp_right fun h => by rw [h]

end Dialogue

/-! ## The dialogue -/

/-- Whether the dialogue asks for a line. -/
def Event.isPrompt : Event → Bool
  | .prompt _ => true
  | _ => false

theorem Episode.filter_shown (eps : List Episode) :
    (eps.flatMap shown).filter (!·.isPrompt) = eps.flatMap shown := by
  rw [List.filter_eq_self]
  intro e he
  obtain ⟨ep, -, he⟩ := List.mem_flatMap.mp he
  simp only [shown, events, List.cons_append, List.mem_cons, List.mem_append, List.mem_map] at he
  rcases he with rfl | ⟨text, -, rfl⟩ | rfl | he
  · rfl
  · rfl
  · rfl
  · cases he

namespace Dialogue

variable {source line : String} {eps : List Episode}

theorem reporting_does {act : Action Unit} {u : List Event} (h : act.Does s (.ok ()) s₁ u) :
    (reporting act).Does s (.ok ()) s₁ u := by
  intro record
  simp only [reporting, h record]

variable [CharacterNames]

/-- A line that completes the input: its forms are evaluated and shown. -/
theorem takeLine_of_ok {forms : List Datum} (hread : read limit (source ++ line) = .ok forms)
    (hev : Evaluates limit forms s eps s₁)
    (hwrite : ∀ ep ∈ eps, ep.value.write? = .ok ep.value.write) :
    (takeLine limit source line).Does s (.ok "") s₁ (eps.flatMap Episode.shown) := by
  simp only [takeLine]
  split
  · next hblank =>
    cases (read_of_isBlankText hblank).symm.trans hread
    cases hev
    exact .pure "" _
  · rw [hread, ← List.append_nil (eps.flatMap _)]
    exact .bind (reporting_does (hev.evalAndShow hwrite)) (.pure "" s₁)

/-- A line that leaves the input incomplete: nothing happens. -/
theorem takeLine_of_incomplete {e : ReadError}
    (hread : read limit (source ++ line) = .error (.error e)) (he : e.isIncomplete) :
    (takeLine limit source line).Does s (.ok (source ++ line)) s [] := by
  simp only [takeLine]
  split
  · next hblank => cases (read_of_isBlankText hblank).symm.trans hread
  · rw [hread]
    simp only [he, if_true]
    exact .pure _ s

/-- The dialogue takes a line and goes on. -/
theorem runFrom_cons (prompts : Prompts) {source' : String} {ls : List String} {u w : List Event}
    (htake : (takeLine limit source line).Does s (.ok source') s₁ u)
    (hrun : (runFrom limit prompts source' ls).Does s₁ (.ok ()) s₂ w) :
    ∃ ask : String,
      (runFrom limit prompts source (line :: ls)).Does s (.ok ()) s₂ (.prompt ask :: (u ++ w)) :=
  ⟨_, .bind (.emit _ s) (.bind htake hrun)⟩

/-- Whatever the lines of a text that can be read, the dialogue goes through the episodes of its
forms. The induction is over the lines; a line either completes the input that is open, and what
follows is a text of its own, or leaves it open. -/
theorem runFrom_does (prompts : Prompts) {text : String} {forms : List Datum}
    (hline : EndsLine source.toList)
    (hopen : source = "" ∨ ∃ e, read limit source = .error (.error e))
    (hread : read limit (source ++ text) = .ok forms) (hev : Evaluates limit forms s eps s₁)
    (hwrite : ∀ ep ∈ eps, ep.value.write? = .ok ep.value.write) :
    ∃ es : List Event, es.filter (!·.isPrompt) = eps.flatMap Episode.shown ∧
      (runFrom limit prompts source (lines text)).Does s (.ok ()) s₁ (es ++ [.ending false]) := by
  generalize hls : lines text = ls
  induction ls generalizing source text forms eps s with
  | nil =>
    have htext : text = "" := by
      by_contra hne
      obtain ⟨line, rest, -, hcons, -⟩ := lines_cons hne
      cases hls.symm.trans hcons
    rw [htext, String.append_empty] at hread
    have hsource : source = "" := hopen.resolve_right (by simp [hread])
    rw [hsource] at hread ⊢
    cases (read_of_isBlankText rfl).symm.trans hread
    cases hev
    exact ⟨[.prompt _], rfl, .bind (.emit _ _) (.emit _ _)⟩
  | cons line ls ih =>
    have htext : text ≠ "" := by
      rintro rfl
      cases hls
    obtain ⟨line', rest, rfl, hcons, hend⟩ := lines_cons htext
    cases hls.symm.trans hcons
    rw [← String.append_assoc] at hread
    have hend' : EndsLine (source ++ line).toList ∨ rest = "" :=
      hend.imp_left fun h => by rw [String.toList_append]; exact hline.append h
    rcases read_line hend' hread with ⟨front, back, hfront, hback, rfl⟩ | ⟨hends, e, herror, he⟩
    · obtain ⟨eps₁, eps₂, s', rfl, hev₁, hev₂⟩ := hev.of_append
      have htake := takeLine_of_ok hfront hev₁ fun ep hep => hwrite ep (List.mem_append_left _ hep)
      rw [← String.empty_append (s := rest)] at hback
      obtain ⟨es, hes, hrun⟩ := ih endsLine_empty (.inl rfl) hback hev₂
        (fun ep hep => hwrite ep (List.mem_append_right _ hep)) rfl
      obtain ⟨ask, hdoes⟩ := runFrom_cons prompts htake hrun
      refine ⟨.prompt ask :: (eps₁.flatMap Episode.shown ++ es), ?_, ?_⟩
      · rw [List.flatMap_append, ← hes, List.filter_cons_of_neg (by simp [Event.isPrompt]),
          List.filter_append, Episode.filter_shown]
      · rw [List.cons_append, List.append_assoc]
        exact hdoes
    · have htake : (takeLine limit source line).Does s _ s [] := takeLine_of_incomplete herror he
      obtain ⟨es, hes, hrun⟩ := ih hends (.inr ⟨e, herror⟩) hread hev hwrite rfl
      obtain ⟨ask, hdoes⟩ := runFrom_cons prompts htake hrun
      refine ⟨.prompt ask :: es, ?_, hdoes⟩
      rw [← hes, List.filter_cons_of_neg (by simp [Event.isPrompt])]

end Dialogue

/-! ## What an observer sees -/

/-- The form that is about to be evaluated. -/
def Event.form? : Event → Option Value
  | .evaluating form => some form
  | _ => none

/-- Prompts count for nothing where they have no text. -/
theorem Event.join_filter {g : Event → String} (hg : ∀ text, g (.prompt text) = "")
    (es : List Event) :
    String.join ((es.filter (!·.isPrompt)).map g) = String.join (es.map g) := by
  induction es with
  | nil => rfl
  | cons e es ih =>
    cases e with
    | prompt text =>
      rw [List.filter_cons_of_neg (by simp [isPrompt]), ih, List.map_cons, String.join_cons, hg,
        String.empty_append]
    | _ => rw [List.filter_cons_of_pos rfl, List.map_cons, List.map_cons, String.join_cons,
        String.join_cons, ih]

theorem Event.filterMap_form?_filter (es : List Event) :
    (es.filter (!·.isPrompt)).filterMap form? = es.filterMap form? := by
  rw [List.filterMap_filter]
  congr 1
  funext e
  cases e <;> rfl

namespace Episode

theorem join_display {g : Event → String} (hg : ∀ text, g (.display text) = "")
    (texts : List String) : String.join ((texts.map Event.display).map g) = "" := by
  induction texts with
  | nil => rfl
  | cons text texts ih => rw [List.map_cons, List.map_cons, String.join_cons, hg, ih]; rfl

theorem filterMap_form?_shown (eps : List Episode) :
    (eps.flatMap shown).filterMap Event.form? = eps.map Episode.form := by
  induction eps with
  | nil => rfl
  | cons ep eps ih =>
    have hdisplay : (ep.output.map Event.display).filterMap Event.form? = [] := by
      rw [List.filterMap_eq_nil_iff]
      simp [Event.form?]
    rw [List.flatMap_cons, List.filterMap_append, ih, shown, events, List.filterMap_append,
      List.filterMap_cons, hdisplay]
    rfl

/-- The screen shows the values. -/
theorem join_screenText (eps : List Episode) :
    String.join ((eps.flatMap shown).map Event.screenText) =
      String.join (eps.map (·.value.write ++ "\n")) := by
  induction eps with
  | nil => rfl
  | cons ep eps ih =>
    rw [List.flatMap_cons, List.map_append, String.join_append, ih, List.map_cons,
      String.join_cons]
    congr 1
    rw [shown, events, List.map_append, List.map_cons, String.join_append, String.join_cons,
      join_display fun _ => rfl]
    simp [Event.screenText]

/-- Answers are no output of the program. -/
theorem join_outputText (eps : List Episode) :
    String.join ((eps.flatMap shown).map Event.outputText) =
      String.join ((eps.flatMap events).map Event.outputText) := by
  induction eps with
  | nil => rfl
  | cons ep eps ih =>
    rw [List.flatMap_cons, List.map_append, String.join_append, ih, List.flatMap_cons,
      List.map_append, String.join_append]
    congr 1
    simp [shown, Event.outputText, String.join_append]

end Episode

theorem Interpreter.eval_of_evalData [CharacterNames] {text : String} {forms : List Datum}
    (hread : read limit text = .ok forms) (h : evalData limit forms s = (.ok vs, s₁)) :
    eval limit text s = (.ok (result vs), s₁) := by
  obtain ⟨rfl, hfailure⟩ := scan_of_read hread
  have htext : evalText limit text s = (.ok vs, s₁) := by
    rw [evalText, Action.bind_of_ok h, hfailure]
    rfl
  rw [eval, Action.bind_of_ok htext]
  rfl

/-- **The dialogue agrees with the evaluation of the whole text, wherever its lines end.** If the
text can be read, its forms evaluate without failure and each value has a text, then the dialogue
evaluates the forms that were read, each once and in order, and ends with the same frames and the
same output. Between the prompts and the final line break, the screen shows the values, each on a
line of its own. -/
theorem Dialogue.run_agrees_with_eval [CharacterNames] (prompts : Prompts) {text : String}
    {forms : List Datum} (hread : read limit text = .ok forms)
    (heval : Interpreter.evalData limit forms s = (.ok vs, s₁))
    (hwrite : ∀ v ∈ vs, v.write? = .ok v.write) :
    Interpreter.eval limit text s = (.ok (Interpreter.result vs), s₁) ∧
    ∃ s₂ es, Dialogue.run limit prompts text s = (.ok (), s₂) ∧
      s₂.frames = s₁.frames ∧ s₂.nextId = s₁.nextId ∧ s₂.output = s₁.output ∧
      s₂.events.toList = s.events.toList ++ es ++ [.ending false] ∧
      (es.filterMap Event.form?).map Value.toDatum? = forms.map some ∧
      String.join ((es.filter (!·.isPrompt)).map Event.screenText) =
        String.join (vs.map (·.write ++ "\n")) := by
  obtain ⟨eps, hev, rfl⟩ := Evaluates.of_evalData heval
  have hwrite' : ∀ ep ∈ eps, ep.value.write? = .ok ep.value.write :=
    fun ep hep => hwrite _ (List.mem_map_of_mem hep)
  obtain ⟨es, hes, hrun⟩ := runFrom_does prompts endsLine_empty (.inl rfl)
    (by rwa [String.empty_append]) hev hwrite'
  have hs₁ : s₁.events = s.events ++ (eps.flatMap Episode.events).toArray := by
    have h := hev.evalData.apply
    rw [heval] at h
    exact congrArg (·.2.events) h
  refine ⟨Interpreter.eval_of_evalData hread heval, _, es, hrun.apply, rfl, rfl, ?_, ?_, ?_, ?_⟩
  · rw [Store.output_append rfl, Store.output_append hs₁, List.map_append, String.join_append,
      ← Event.join_filter (fun _ => rfl) es, hes, Episode.join_outputText]
    exact congrArg _ String.append_empty
  · simp
  · rw [← Event.filterMap_form?_filter, hes, Episode.filterMap_form?_shown, List.map_map]
    exact hev.toDatum?_form
  · rw [hes, Episode.join_screenText, List.map_map]
    rfl

/-- A definition over two lines, and a quoted form behind it on the second one. -/
theorem Dialogue.run_agrees_with_eval_define : ∃ s₁ s₂ forms,
    read 9 "(define x\n1) 'x" = .ok forms ∧
    Interpreter.evalData 9 forms Store.initial = (.ok [.unspecified, .symbol "x"], s₁) ∧
    Dialogue.run 9 {} "(define x\n1) 'x" Store.initial = (.ok (), s₂) ∧ s₂.frames = s₁.frames ∧
    s₂.output = s₁.output := by
  have hread : read 9 "(define x\n1) 'x" = .ok [.list [.symbol "define", .symbol "x", .int 1],
      .list [.symbol "quote", .symbol "x"]] := by cbv
  have hvalues : (Interpreter.evalData 9 [.list [.symbol "define", .symbol "x", .int 1],
      .list [.symbol "quote", .symbol "x"]] Store.initial).1 =
      .ok [.unspecified, .symbol "x"] := by cbv
  have hwrite : ∀ v ∈ [Value.unspecified, .symbol "x"], v.write? = .ok v.write := by
    simp [Value.write?, Value.fits]
  obtain ⟨-, s₂, es, hrun, hframes, -, houtput, -⟩ :=
    run_agrees_with_eval {} hread (Prod.ext hvalues rfl) hwrite
  exact ⟨_, s₂, _, hread, Prod.ext hvalues rfl, hrun, hframes, houtput⟩

end SmallLisp
