import SmallLisp.Proofs.AnalyzedCode
import SmallLisp.Proofs.ExprGrammar
import SmallLisp.Proofs.Transcript

/-!
# The dialogue chunk by chunk

The lines of an input fall into *chunks*. Each is the shortest run of lines, from where the one
before it ended, whose text is not incomplete; behind the last one a rest may be left that is
(`Dialogue.IsDivision`). `Dialogue.Converses` says in terms of them what happens in a dialogue: the
prompts for the lines of a chunk are shown, then the chunk is dealt with as a whole, then comes the
next one. The dialogue itself only ever sees the lines that have come so far, and does just that
(`Dialogue.run_divides_into_chunks`).
-/

namespace SmallLisp

/-- A store with one more event on record. -/
def Store.record (s : Store) (e : Event) : Store := { s with events := s.events.push e }

/-- A store with more events on record. -/
def Store.recordAll (s : Store) : List Event → Store
  | [] => s
  | e :: es => (s.record e).recordAll es

namespace Dialogue

variable {limit : Nat} {prompts : Prompts} {s s' : Store} {o : Option Fault}

section

variable [CharacterNames]

/-! ## Chunks -/

/-- More input could complete the text. -/
def isOpen (limit : Nat) (text : String) : Bool :=
  match read limit text with
  | .error (.error e) => e.isIncomplete
  | _ => false

/-- The lines are the shortest run that is not incomplete. -/
structure IsChunk (limit : Nat) (chunk : List String) : Prop where
  ne_nil : chunk ≠ []
  complete : isOpen limit (String.join chunk) = false
  shortest : ∀ front, front <+: chunk → front ≠ [] → front ≠ chunk →
    isOpen limit (String.join front)

/-- The lines of an input as chunks, and a rest in which a form is open from its first line on. -/
structure IsDivision (limit : Nat) (lines : List String) (chunks : List (List String))
    (rest : List String) : Prop where
  lines_eq : lines = chunks.flatten ++ rest
  chunk : ∀ c ∈ chunks, IsChunk limit c
  rest : ∀ front, front <+: rest → front ≠ [] → isOpen limit (String.join front)

/-! ## Conversations -/

/-- The prompt before a line, which goes on with a chunk that has begun or begins one. -/
def Prompts.asking (prompts : Prompts) (begun : Bool) : Event :=
  .prompt (if begun then prompts.continuation else prompts.main)

/-- The prompts before some lines in a row. -/
def Prompts.asks (prompts : Prompts) (begun : Bool) : Nat → List Event
  | 0 => []
  | n + 1 => prompts.asking begun :: prompts.asks true n

/-- What is done with forms. They are evaluated in order, and the value of each is shown, up to the
first error, which is reported; what the forms before it have done stays done. A fault is not
reported. -/
inductive Answers (limit : Nat) : List Datum → Store → Option Fault → Store → Prop
  | done (s : Store) : Answers limit [] s none s
  | value {d : Datum} {ds : List Datum} {s s₀ s₁ s₂ : Store} {form v : Value} {text : String}
    {o : Option Fault} : Action.newDatum d s = (.ok form, s₀) →
      Interpreter.evalForm limit form s₀ = (.ok v, s₁) → v.write? = .ok text →
      Answers limit ds (s₁.record (.answer text)) o s₂ → Answers limit (d :: ds) s o s₂
  | error {d : Datum} {ds : List Datum} {s s₀ s₁ : Store} {form : Value} {e : Error} :
      Action.newDatum d s = (.ok form, s₀) →
      Interpreter.evalForm limit form s₀ = (.error (.error e), s₁) →
      Answers limit (d :: ds) s none (s₁.record (.report e))
  | fault {d : Datum} {ds : List Datum} {s s₀ s₁ : Store} {form : Value} {f : Fault} :
      Action.newDatum d s = (.ok form, s₀) →
      Interpreter.evalForm limit form s₀ = (.error (.fault f), s₁) →
      Answers limit (d :: ds) s (some f) s₁
  | unwritable {d : Datum} {ds : List Datum} {s s₀ s₁ : Store} {form v : Value} {f : Fault} :
      Action.newDatum d s = (.ok form, s₀) → Interpreter.evalForm limit form s₀ = (.ok v, s₁) →
      v.write? = .error (.fault f) → Answers limit (d :: ds) s (some f) s₁

/-- What is done with the text of a chunk. Nothing of a text that cannot be read is evaluated. -/
inductive Handles (limit : Nat) (text : String) : Store → Option Fault → Store → Prop
  | unreadable {s : Store} {e : ReadError} : read limit text = .error (.error e) →
      Handles limit text s none (s.record (.report (.read e)))
  | forms {ds : List Datum} {s s' : Store} {o : Option Fault} : read limit text = .ok ds →
      Answers limit ds s o s' → Handles limit text s o s'
  | tooDeep {s : Store} : read limit text = .error .tooDeep → Handles limit text s (some .tooDeep) s

/-- What happens in a dialogue, chunk by chunk up to the end of the input, where a rest is reported,
or up to a fault. -/
inductive Converses (limit : Nat) (prompts : Prompts) :
    List (List String) → List String → Store → Option Fault → Store → Prop
  | ending (rest : List String) (s : Store) : Converses limit prompts [] rest s none
      ((s.recordAll (prompts.asks false (rest.length + 1))).record (.ending (!rest.isEmpty)))
  | chunk {c : List String} {cs : List (List String)} {rest : List String} {s s₁ s₂ : Store}
    {o : Option Fault} :
      Handles limit (String.join c) (s.recordAll (prompts.asks false c.length)) none s₁ →
      Converses limit prompts cs rest s₁ o s₂ → Converses limit prompts (c :: cs) rest s o s₂
  | fault {c : List String} {cs : List (List String)} {rest : List String} {s s₁ : Store}
    {f : Fault} :
      Handles limit (String.join c) (s.recordAll (prompts.asks false c.length)) (some f) s₁ →
      Converses limit prompts (c :: cs) rest s (some f) s₁

/-- How a dialogue ends: never with an error of the program. -/
def result : Option Fault → Except Failure Unit
  | none => .ok ()
  | some f => .error (.fault f)

/-! ## The division of an input -/

theorem isOpen_iff {text : String} :
    isOpen limit text ↔ ∃ e, read limit text = .error (.error e) ∧ e.isIncomplete := by
  unfold isOpen
  split
  · next e h => simp [h]
  · next h => simpa using fun e he => absurd he (h e)

theorem exists_division (limit : Nat) (lines : List String) :
    ∃ chunks rest, IsDivision limit lines chunks rest := by
  -- The lines of a chunk that has begun are gathered until it is complete.
  have hgather : ∀ ls begun : List String,
      (∀ front, front <+: begun → front ≠ [] → isOpen limit (String.join front)) →
      ∃ chunks rest, IsDivision limit (begun ++ ls) chunks rest := by
    intro ls
    induction ls with
    | nil =>
      intro begun hbegun
      exact ⟨[], begun, by simp, nofun, hbegun⟩
    | cons l ls ih =>
      intro begun hbegun
      cases hopen : isOpen limit (String.join (begun ++ [l])) with
      | true =>
        obtain ⟨chunks, rest, h⟩ := ih (begun ++ [l]) fun front hfront hne => by
          rcases List.prefix_concat_iff.mp hfront with rfl | hfront
          · exact hopen
          · exact hbegun front hfront hne
        exact ⟨chunks, rest, by simpa using h⟩
      | false =>
        obtain ⟨chunks, rest, hlines, hchunk, hrest⟩ := ih [] fun front hfront hne =>
          absurd (List.prefix_nil.mp hfront) hne
        refine ⟨(begun ++ [l]) :: chunks, rest, ?_, List.forall_mem_cons.mpr ⟨?_, hchunk⟩, hrest⟩
        · simpa using hlines
        · refine ⟨by simp, hopen, fun front hfront hne hproper => ?_⟩
          exact hbegun front ((List.prefix_concat_iff.mp hfront).resolve_left hproper) hne
  exact hgather lines [] fun front hfront hne => absurd (List.prefix_nil.mp hfront) hne

/-- Only one chunk begins at a line. -/
theorem IsChunk.eq_of_le {c c' lines : List String} (h : IsChunk limit c)
    (h' : IsChunk limit c') (hp : c <+: lines) (hp' : c' <+: lines) : c = c' := by
  by_contra hne
  rcases List.prefix_or_prefix_of_prefix hp hp' with hle | hle
  · exact absurd (h'.shortest c hle h.ne_nil hne) (by simp [h.complete])
  · exact absurd (h.shortest c' hle h'.ne_nil (Ne.symm hne)) (by simp [h'.complete])

/-- No chunk begins in lines that are a rest. -/
theorem IsChunk.not_le {c rest : List String} (h : IsChunk limit c)
    (hrest : ∀ front, front <+: rest → front ≠ [] → isOpen limit (String.join front)) :
    ¬ c <+: rest :=
  fun hp => absurd (hrest c hp h.ne_nil) (by simp [h.complete])

theorem IsDivision.unique {lines : List String} {chunks chunks' : List (List String)}
    {rest rest' : List String} (h : IsDivision limit lines chunks rest)
    (h' : IsDivision limit lines chunks' rest') : chunks = chunks' ∧ rest = rest' := by
  induction chunks generalizing lines chunks' with
  | nil =>
    obtain ⟨rfl, -, hrest⟩ := h
    cases chunks' with
    | nil => exact ⟨rfl, by simpa using h'.lines_eq⟩
    | cons c cs =>
      refine absurd ?_ ((h'.chunk c (.head _)).not_le hrest)
      exact ⟨cs.flatten ++ rest', by simpa using h'.lines_eq.symm⟩
  | cons c cs ih =>
    have hp : c <+: lines := ⟨cs.flatten ++ rest, by simpa using h.lines_eq.symm⟩
    cases chunks' with
    | nil =>
      refine absurd ?_ ((h.chunk c (.head _)).not_le h'.rest)
      simpa [h'.lines_eq] using hp
    | cons c' cs' =>
      have hp' : c' <+: lines := ⟨cs'.flatten ++ rest', by simpa using h'.lines_eq.symm⟩
      obtain rfl := (h.chunk c (.head _)).eq_of_le (h'.chunk c' (.head _)) hp hp'
      have hlines := h.lines_eq.symm.trans h'.lines_eq
      rw [List.flatten_cons, List.flatten_cons, List.append_assoc, List.append_assoc,
        List.append_cancel_left_eq] at hlines
      obtain ⟨rfl, rfl⟩ := ih ⟨rfl, fun c hc => h.chunk c (.tail _ hc), h.rest⟩
        ⟨hlines, fun c hc => h'.chunk c (.tail _ hc), h'.rest⟩
      exact ⟨rfl, rfl⟩

omit [CharacterNames] in
theorem join_lines (text : String) : String.join (lines text) = text := by
  generalize hls : lines text = ls
  induction ls generalizing text with
  | nil =>
    by_contra hne
    obtain ⟨line, rest, -, hcons, -⟩ := lines_cons (Ne.symm hne)
    cases hls.symm.trans hcons
  | cons line ls ih =>
    have hne : text ≠ "" := by
      rintro rfl
      cases hls
    obtain ⟨line', rest, htext, hcons, -⟩ := lines_cons hne
    cases hls.symm.trans hcons
    rw [String.join_cons, ih rest rfl, htext]

/-! ## The dialogue converses -/

variable {source line : String} {ls : List String}

theorem not_isBlankText_of_isOpen (h : isOpen limit source) :
    Text.isBlankText source.toList = false := by
  by_contra hblank
  obtain ⟨e, hread, -⟩ := isOpen_iff.mp h
  cases (read_of_isBlankText (Bool.not_eq_false _ ▸ hblank)).symm.trans hread

theorem ne_empty_of_isOpen (h : isOpen limit source) : source ≠ "" := by
  rintro rfl
  cases not_isBlankText_of_isOpen h

omit [CharacterNames] in
theorem Answers.reporting_eq {ds : List Datum} (h : Answers limit ds s o s') :
    reporting (evalAndShow limit ds) s = (result o, s') := by
  induction h with
  | done s => rfl
  | @value d ds s s₀ s₁ s₂ form v text o hform heval htext _ ih =>
    have hstep : evalAndShow limit (d :: ds) s =
        evalAndShow limit ds (s₁.record (.answer text)) := by
      rw [evalAndShow, Action.bind_of_ok hform, Action.bind_of_ok heval, htext]
      rfl
    rw [reporting, hstep]
    exact ih
  | error hform heval =>
    rw [reporting, evalAndShow, Action.bind_of_ok hform, Action.bind_of_error heval]
    rfl
  | fault hform heval =>
    rw [reporting, evalAndShow, Action.bind_of_ok hform, Action.bind_of_error heval]
    rfl
  | unwritable hform heval htext =>
    rw [reporting, evalAndShow, Action.bind_of_ok hform, Action.bind_of_ok heval, htext]
    rfl

/-- The last line of a chunk. -/
theorem Handles.takeLine_eq (h : Handles limit (source ++ line) s o s')
    (hcomplete : isOpen limit (source ++ line) = false) :
    takeLine limit source line s = ((result o).map fun _ => "", s') := by
  simp only [takeLine]
  split
  · next hblank =>
    have hempty : read limit (source ++ line) = .ok [] := read_of_isBlankText hblank
    cases h with
    | unreadable hread | tooDeep hread => cases hempty.symm.trans hread
    | forms hread hanswers =>
      cases hempty.symm.trans hread
      cases hanswers
      rfl
  · cases h with
    | @unreadable _ e hread =>
      have he : e.isIncomplete = false := by simpa [isOpen, hread] using hcomplete
      rw [hread]
      simp only [he]
      rfl
    | forms hread hanswers =>
      rw [hread]
      dsimp only
      rw [Action.bind_apply, hanswers.reporting_eq]
      cases o <;> rfl
    | tooDeep hread =>
      rw [hread]
      rfl

/-- A line that leaves a chunk incomplete. -/
theorem takeLine_of_isOpen (h : isOpen limit (source ++ line)) :
    takeLine limit source line s = (.ok (source ++ line), s) := by
  obtain ⟨e, hread, he⟩ := isOpen_iff.mp h
  rw [(takeLine_of_incomplete hread he).apply]
  simp

omit [CharacterNames] in
theorem join_concat (begun : List String) (line : String) :
    String.join (begun ++ [line]) = String.join begun ++ line := by
  simp [String.join_append]

omit [CharacterNames] in
theorem isEmpty_concat (begun : List String) (line : String) :
    (!(begun ++ [line]).isEmpty) = true := by
  simp

/-- What comes before the lines of a chunk, or of the rest, that are still to come. -/
theorem ask_eq {begun : List String} (hbegun : begun ≠ [] → isOpen limit (String.join begun)) :
    ask prompts (String.join begun) s = (.ok (), s.record (prompts.asking !begun.isEmpty)) := by
  cases begun with
  | nil => rfl
  | cons l ls => rw [ask, if_neg (ne_empty_of_isOpen (hbegun (by simp)))]; rfl

/-- A line at which nothing is dealt with yet: it is asked for and joins those before it. -/
theorem runFrom_of_isOpen {begun : List String}
    (hbegun : begun ≠ [] → isOpen limit (String.join begun))
    (h : isOpen limit (String.join (begun ++ [line]))) :
    runFrom limit prompts (String.join begun) (line :: ls) s =
      runFrom limit prompts (String.join (begun ++ [line])) ls
        (s.record (prompts.asking !begun.isEmpty)) := by
  rw [join_concat] at h ⊢
  rw [runFrom, Action.bind_of_ok (ask_eq hbegun), Action.bind_of_ok (takeLine_of_isOpen h)]

/-- The lines of a chunk. The induction is over those that are still to come. -/
theorem runFrom_chunk (begun : List String) {todo : List String}
    (hchunk : IsChunk limit (begun ++ todo)) (hne : todo ≠ [])
    (h : Handles limit (String.join (begun ++ todo))
      (s.recordAll (prompts.asks (!begun.isEmpty) todo.length)) o s') :
    runFrom limit prompts (String.join begun) (todo ++ ls) s =
      (Action.ofExcept (result o) >>= fun _ => runFrom limit prompts "" ls) s' := by
  induction todo generalizing begun s with
  | nil => exact absurd rfl hne
  | cons line todo ih =>
    have hbegun : begun ≠ [] → isOpen limit (String.join begun) := fun hb =>
      hchunk.shortest begun (List.prefix_append _ _) hb (by simp)
    cases todo with
    | nil =>
      have hcomplete := hchunk.complete
      rw [join_concat] at h hcomplete
      have htake := h.takeLine_eq hcomplete
      rw [List.singleton_append, runFrom, Action.bind_of_ok (ask_eq hbegun)]
      cases o with
      | none => exact Action.bind_of_ok htake
      | some f => exact Action.bind_of_error htake
    | cons line' todo =>
      have happend : begun ++ line :: line' :: todo = begun ++ [line] ++ line' :: todo := by simp
      rw [happend] at hchunk h
      have hopen : isOpen limit (String.join (begun ++ [line])) :=
        hchunk.shortest _ (List.prefix_append _ _) (by simp) (by simp)
      rw [List.cons_append, runFrom_of_isOpen hbegun hopen]
      refine ih (begun ++ [line]) hchunk (by simp) ?_
      rw [isEmpty_concat]
      exact h

/-- The lines of the rest, and the end of the input. -/
theorem runFrom_rest (begun : List String) {todo : List String}
    (hopen : ∀ front, front <+: begun ++ todo → front ≠ [] → isOpen limit (String.join front)) :
    runFrom limit prompts (String.join begun) todo s =
      (.ok (), (s.recordAll (prompts.asks (!begun.isEmpty) (todo.length + 1))).record
        (.ending (!(begun ++ todo).isEmpty))) := by
  have hbegun : begun ≠ [] → isOpen limit (String.join begun) :=
    hopen begun (List.prefix_append _ _)
  induction todo generalizing begun s with
  | nil =>
    have hending : (!Text.isBlankText (String.join begun).toList) = !begun.isEmpty := by
      cases begun with
      | nil => rfl
      | cons => rw [not_isBlankText_of_isOpen (hbegun (by simp))]; rfl
    rw [runFrom, Action.bind_of_ok (ask_eq hbegun), finish, hending, List.append_nil]
    rfl
  | cons line todo ih =>
    have happend : begun ++ line :: todo = begun ++ [line] ++ todo := by simp
    rw [happend] at hopen ⊢
    have hline := hopen (begun ++ [line]) (List.prefix_append _ _) (by simp)
    rw [runFrom_of_isOpen hbegun hline, ih _ hopen fun _ => hline, isEmpty_concat]
    rfl

theorem Converses.runFrom_eq {chunks : List (List String)} {rest : List String}
    (hchunk : ∀ c ∈ chunks, IsChunk limit c)
    (hrest : ∀ front, front <+: rest → front ≠ [] → isOpen limit (String.join front))
    (h : Converses limit prompts chunks rest s o s') :
    runFrom limit prompts "" (chunks.flatten ++ rest) s = (result o, s') := by
  induction h with
  | ending rest s => exact runFrom_rest [] hrest
  | @chunk c _ _ _ _ _ _ hhandles _ ih =>
    have hc := hchunk c (.head _)
    rw [List.flatten_cons, List.append_assoc]
    exact (runFrom_chunk [] hc hc.ne_nil hhandles).trans
      (ih (fun c hc => hchunk c (.tail _ hc)) hrest)
  | @fault c _ _ _ _ _ hhandles =>
    have hc := hchunk c (.head _)
    rw [List.flatten_cons, List.append_assoc]
    exact runFrom_chunk [] hc hc.ne_nil hhandles

/-! ## Every conversation comes to an end -/

omit [CharacterNames] in
theorem exists_answers (limit : Nat) (ds : List Datum) (s : Store) :
    ∃ o s', Answers limit ds s o s' := by
  induction ds generalizing s with
  | nil => exact ⟨none, s, .done s⟩
  | cons d ds ih =>
    have hform : Action.newDatum d s = (.ok (d.label s.nextId).1,
      { s with nextId := (d.label s.nextId).2 }) := rfl
    rcases heval : Interpreter.evalForm limit (d.label s.nextId).1
      { s with nextId := (d.label s.nextId).2 } with ⟨(e | f) | v, s₁⟩
    · exact ⟨none, _, .error hform heval⟩
    · exact ⟨some f, s₁, .fault hform heval⟩
    · by_cases hfits : v.fits
      · obtain ⟨o, s₂, h⟩ := ih (s₁.record (.answer v.write))
        exact ⟨o, s₂, .value hform heval (if_pos hfits) h⟩
      · exact ⟨_, s₁, .unwritable hform heval (if_neg hfits)⟩

theorem exists_handles (limit : Nat) (text : String) (s : Store) :
    ∃ o s', Handles limit text s o s' := by
  rcases hread : read limit text with (e | _) | ds
  · exact ⟨none, _, .unreadable hread⟩
  · exact ⟨_, s, .tooDeep hread⟩
  · obtain ⟨o, s', h⟩ := exists_answers limit ds s
    exact ⟨o, s', .forms hread h⟩

theorem exists_converses (limit : Nat) (prompts : Prompts) (chunks : List (List String))
    (rest : List String) (s : Store) : ∃ o s', Converses limit prompts chunks rest s o s' := by
  induction chunks generalizing s with
  | nil => exact ⟨none, _, .ending rest s⟩
  | cons c cs ih =>
    obtain ⟨o | f, s₁, hhandles⟩ :=
      exists_handles limit (String.join c) (s.recordAll (prompts.asks false c.length))
    · obtain ⟨o, s₂, h⟩ := ih s₁
      exact ⟨o, s₂, .chunk hhandles h⟩
    · exact ⟨some f, s₁, .fault hhandles⟩

end

/-! ## Faults -/

/-- A failure that is a fault is one of those that a run can end with. -/
def FaultOfRun (e : Failure) : Prop := ∀ f, e = .fault f → (Failure.fault f).isOfRun

theorem faultOfRun_raise (e : Error) : FaultOfRun e.raise := by
  intro f hf
  rw [Error.raise] at hf
  split at hf
  · cases hf
  · cases hf
    rfl

theorem analyzed_faultOfRun : Law.analyzed.Admissible FaultOfRun :=
  Law.analyzed_admissible fun he _ hf => hf ▸ he

theorem obeys_record (hs : s.Obeys .analyzed) (e : Event) : (s.record e).Obeys .analyzed :=
  (Store.Change.record e).obeys analyzed_faultOfRun hs

theorem obeys_recordAll (hs : s.Obeys .analyzed) (es : List Event) :
    (s.recordAll es).Obeys .analyzed := by
  induction es generalizing s with
  | nil => exact hs
  | cons e es ih => exact ih (obeys_record hs e)

/-- One form that was read. -/
theorem evalForm_faultOfRun {d : Datum} {s₀ : Store} {form : Value} {r : Except Failure Value}
    (hd : d.IsRead) (hs : s.Obeys .analyzed) (hform : Action.newDatum d s = (.ok form, s₀))
    (heval : Interpreter.evalForm limit form s₀ = (r, s')) :
    s'.Obeys .analyzed ∧ ∀ e, r = .error e → FaultOfRun e := by
  have hL := analyzed_faultOfRun
  have hP := Law.analyzed_permitsPrograms
  have hnew := Lawful.newDatum hL hP (s := s) hd
  rw [hform] at hnew
  have hs₀ := hnew.changes.obeys hL hs
  have hlawful := Interpreter.evalForm_lawful hL hP limit hs₀ trivial (hnew.value rfl)
    fun _ e he => by
      obtain ⟨_, -, ⟨err, rfl, -⟩, -⟩ := exists_refused_of_analyze form he
      exact faultOfRun_raise err
  rw [heval] at hlawful
  exact ⟨hlawful.changes.obeys hL hs₀, fun e he => hlawful.failure he⟩

theorem Answers.faultOfRun {ds : List Datum} (h : Answers limit ds s o s')
    (hds : Datum.AllRead ds) (hs : s.Obeys .analyzed) :
    s'.Obeys .analyzed ∧ ∀ f ∈ o, (Failure.fault f).isOfRun := by
  induction h with
  | done s => exact ⟨hs, nofun⟩
  | value hform heval _ _ ih =>
    exact ih hds.2 (obeys_record (evalForm_faultOfRun hds.1 hs hform heval).1 _)
  | error hform heval =>
    exact ⟨obeys_record (evalForm_faultOfRun hds.1 hs hform heval).1 _, nofun⟩
  | @fault _ _ _ _ _ _ f hform heval =>
    obtain ⟨hs₁, hfail⟩ := evalForm_faultOfRun hds.1 hs hform heval
    refine ⟨hs₁, fun f' hf' => ?_⟩
    cases hf'
    exact hfail _ rfl f rfl
  | unwritable hform heval htext =>
    refine ⟨(evalForm_faultOfRun hds.1 hs hform heval).1, fun f' hf' => ?_⟩
    cases hf'
    rw [Value.write?] at htext
    split at htext
    · cases htext
    · cases htext
      rfl

theorem Handles.faultOfRun [CharacterNames] {text : String} (h : Handles limit text s o s')
    (hs : s.Obeys .analyzed) : s'.Obeys .analyzed ∧ ∀ f ∈ o, (Failure.fault f).isOfRun := by
  cases h with
  | unreadable => exact ⟨obeys_record hs _, nofun⟩
  | forms hread hanswers =>
    exact hanswers.faultOfRun ((scan_of_read hread).1 ▸ scan_isRead limit text) hs
  | tooDeep => exact ⟨hs, fun f hf => by cases hf; rfl⟩

theorem Converses.faultOfRun [CharacterNames] {chunks : List (List String)}
    {rest : List String} (h : Converses limit prompts chunks rest s o s')
    (hs : s.Obeys .analyzed) : ∀ f ∈ o, (Failure.fault f).isOfRun := by
  induction h with
  | ending => exact nofun
  | chunk hhandles _ ih => exact ih (hhandles.faultOfRun (obeys_recordAll hs _)).1
  | fault hhandles => exact (hhandles.faultOfRun (obeys_recordAll hs _)).2

/-! ## The dialogue -/

/-- **The dialogue deals with its input chunk by chunk.** There is exactly one way to divide the
lines of an input into chunks and a rest. From every store the dialogue ends, and there is just one
conversation over these chunks, the one that it holds: so it ends at the end of the input, or with
a fault, but never with an error. In a state of an interpreter the fault is one of those that the
evaluation or the printing of a number can end with, or that of a reader out of its depth. -/
theorem run_divides_into_chunks [CharacterNames] (limit : Nat) (prompts : Prompts)
    (input : String) :
    ∃ chunks rest, IsDivision limit (lines input) chunks rest ∧
      String.join (chunks.flatten ++ rest) = input ∧
      (∀ chunks' rest', IsDivision limit (lines input) chunks' rest' →
        chunks' = chunks ∧ rest' = rest) ∧
      (∀ s r s', run limit prompts input s = (r, s') ↔
        ∃ o, r = result o ∧ Converses limit prompts chunks rest s o s') ∧
      ∀ s, Interpreter.Reachable Value.IsProgram s → ∀ f s',
        Converses limit prompts chunks rest s (some f) s' → (Failure.fault f).isOfRun := by
  obtain ⟨chunks, rest, h⟩ := exists_division limit (lines input)
  have hrun : ∀ {s o s'}, Converses limit prompts chunks rest s o s' →
      run limit prompts input s = (result o, s') := fun hc => by
    rw [run, h.lines_eq]
    exact hc.runFrom_eq h.chunk h.rest
  refine ⟨chunks, rest, h, ?_, fun chunks' rest' h' => h'.unique h, fun s r s' => ⟨?_, ?_⟩, ?_⟩
  · rw [← h.lines_eq, join_lines]
  · intro hout
    obtain ⟨o, s₁, hc⟩ := exists_converses limit prompts chunks rest s
    cases (hrun hc).symm.trans hout
    exact ⟨o, rfl, hc⟩
  · rintro ⟨o, rfl, hc⟩
    exact hrun hc
  · exact fun s hs f s' hc => hc.faultOfRun hs.analyzed f rfl

/-- A chunk of two lines whose second form fails, a line that cannot be read, and a rest. -/
theorem run_divides_into_chunks_rest :
    let input := "'(1\n2) x\n)\n(y"
    Interpreter.Reachable Value.IsProgram Store.initial ∧ ∃ o s',
      run 9 {} input Store.initial = (result o, s') ∧
      Converses 9 {} [["'(1\n", "2) x\n"], [")\n"]] ["(y"] Store.initial o s' ∧
      ∀ f ∈ o, (Failure.fault f).isOfRun := by
  intro input
  have hreach : Interpreter.Reachable Value.IsProgram Store.initial := .start 9 .none
  have hlines : lines input = [["'(1\n", "2) x\n"], [")\n"]].flatten ++ ["(y"] := by
    decide +kernel
  have hdivision : IsDivision 9 (lines input) [["'(1\n", "2) x\n"], [")\n"]] ["(y"] := by
    refine ⟨hlines, List.forall_mem_cons.mpr ⟨⟨by simp, by decide +kernel, ?_⟩,
      List.forall_mem_singleton.mpr ⟨by simp, by decide +kernel, ?_⟩⟩, ?_⟩
    · intro front hfront hne hproper
      have hfirst : front = ["'(1\n"] := by
        simp only [List.prefix_cons_iff, List.prefix_nil] at hfront
        grind
      subst hfirst
      decide +kernel
    · intro front hfront hne hproper
      simp only [List.prefix_cons_iff, List.prefix_nil] at hfront
      grind
    · intro front hfront hne
      have hfirst : front = ["(y"] := by
        simp only [List.prefix_cons_iff, List.prefix_nil] at hfront
        grind
      subst hfirst
      decide +kernel
  obtain ⟨chunks, rest, -, -, hunique, hrun, hfault⟩ := run_divides_into_chunks 9 {} input
  obtain ⟨rfl, rfl⟩ := hunique _ _ hdivision
  obtain ⟨o, hr, hc⟩ := (hrun Store.initial _ _).mp rfl
  refine ⟨hreach, o, _, Prod.ext hr rfl, hc, fun f hf => ?_⟩
  cases hf
  exact hfault _ hreach f _ hc

/-- A quotient that is too large for a float ends the dialogue: of three lines the last one is never
asked for. -/
theorem run_ends_early :
    let input := "(define (f x) (* x x))\n(/ (f (f (f (f (f 10000000000))))) 1)\n2\n"
    Interpreter.Reachable Value.IsProgram Store.initial ∧ (lines input).length = 3 ∧
      ∃ e s', run 99 {} input Store.initial = (.error e, s') ∧
        s'.textSince 0 Event.screenText = "theta> ok\ntheta> " := by
  intro input
  have hlines : (lines input).length = 3 := by decide +kernel
  have hresult : (run 99 {} input Store.initial).1.isOk = false := by decide +kernel
  have hscreen : (run 99 {} input Store.initial).2.textSince 0 Event.screenText =
      "theta> ok\ntheta> " := by decide +kernel
  refine ⟨.start 99 .none, hlines, ?_⟩
  generalize run 99 {} input Store.initial = out at hresult hscreen ⊢
  rcases out with ⟨e | _, s'⟩
  · exact ⟨e, s', rfl, hscreen⟩
  · cases hresult

end Dialogue

end SmallLisp
