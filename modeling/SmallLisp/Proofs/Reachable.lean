import SmallLisp.Host.Dialogue
import SmallLisp.Proofs.Perform
import SmallLisp.Proofs.ReadData

/-!
# States of an interpreter

`Interpreter.Reachable` collects the stores that an interpreter can be in: after its start, and
after any sequence of calls to its operations, also of calls that failed. All that the operations do
to a store is to record events and to evaluate forms; what both of these keep holds of every state
(`Interpreter.Reachable.keeps`). So each state comes from the initial store by changes that an
admissible law permits, if the law permits what analysis makes and what the reader makes
(`Interpreter.Reachable.changes`), and obeys the law.
-/

namespace SmallLisp

variable {L : Law} {F : Failure → Prop} {s : Store} {x : Extent}

/-! ## Data -/

mutual

/-- A datum from a text as a new value obeys the law. -/
theorem Datum.label_obeys (hL : L.Admissible F) (hP : L.PermitsPrograms) (f next : Nat)
    {d : Datum} (hd : d.IsRead) :
    next ≤ (d.label next).2 ∧ (d.label next).1.Obeys L ⟨f, (d.label next).2⟩ := by
  match d with
  | .nothing => exact hd.elim
  | .bool b => exact ⟨Nat.le_refl _, hL.bool _ b⟩
  | .int n => exact ⟨Nat.le_refl _, hL.int _ n⟩
  | .float r => exact ⟨Nat.le_succ _, hL.float ⟨f, next⟩ r⟩
  | .text s => exact ⟨Nat.le_refl _, hP.text _ s⟩
  | .symbol name => exact ⟨Nat.le_refl _, hP.symbol _ name⟩
  | .list items =>
    obtain ⟨hle, hall⟩ := Datum.labels_obey hL hP f (next + 1) hd
    have hx : (⟨f, next⟩ : Extent).moreIds ≤ ⟨f, (Datum.labels (next + 1) items).2⟩ :=
      ⟨Nat.le_refl _, hle⟩
    exact ⟨Nat.le_of_succ_le hle, hL.value_mono hx (hL.list ⟨f, next⟩ _), hall⟩

theorem Datum.labels_obey (hL : L.Admissible F) (hP : L.PermitsPrograms) (f next : Nat)
    {ds : List Datum} (hds : Datum.AllRead ds) : next ≤ (Datum.labels next ds).2 ∧
      Value.AllObey L ⟨f, (Datum.labels next ds).2⟩ (Datum.labels next ds).1 := by
  match ds with
  | [] => exact ⟨Nat.le_refl _, trivial⟩
  | d :: ds =>
    obtain ⟨hle, hv⟩ := Datum.label_obeys hL hP f next hds.1
    obtain ⟨hle', hvs⟩ := Datum.labels_obey hL hP f (d.label next).2 hds.2
    have hx : (⟨f, (d.label next).2⟩ : Extent) ≤ ⟨f, (Datum.labels (d.label next).2 ds).2⟩ :=
      ⟨Nat.le_refl _, hle'⟩
    exact ⟨Nat.le_trans hle hle', hv.mono (hL.value_mono hx), hvs⟩

end

def Value.isExpr : Value → Bool
  | .node _ => true
  | _ => false

theorem Expr.ofValue_raw {form : Value} (h : form.isExpr = Bool.false) :
    Expr.ofValue form = .raw form := by
  cases form with
  | node => cases h
  | _ => rfl

theorem Datum.label_isExpr (next : Nat) (d : Datum) : (d.label next).1.isExpr = false := by
  cases d <;> rfl

/-- What may be handed over for evaluation under a law: a form, or an expression, that obeys it. -/
def Value.Evaluable (L : Law) (x : Extent) : Value → Prop
  | .node e => e.Obeys L x
  | v => v.Obeys L x

theorem Value.evaluable_iff {v : Value} (h : v.isExpr = false) :
    v.Evaluable L x ↔ v.Obeys L x := by
  cases v with
  | node => cases h
  | _ => exact .rfl

theorem Lawful.newDatum (hL : L.Admissible F) (hP : L.PermitsPrograms) {d : Datum}
    (hd : d.IsRead) : Lawful L F s (fun x v => v.Evaluable L x) (Action.newDatum d s) := by
  obtain ⟨hle, hv⟩ := Datum.label_obeys hL hP s.frames.size s.nextId hd
  refine ⟨.single (.ids hle), fun h => ?_, nofun⟩
  cases h
  exact (Value.evaluable_iff (d.label_isExpr s.nextId)).mpr hv

/-- An interpreter starts with primitives and booleans. -/
theorem Store.initial_obeys
    (hp : ∀ {op : Primitive} {id : Nat}, (op, id) ∈ Primitive.all.zipIdx →
      L.value Store.initial.extent (.primitive op id))
    (hb : ∀ b : Bool, L.value Store.initial.extent (.bool b)) : Store.initial.Obeys L := by
  intro i frame hi _
  cases i with
  | zero =>
    cases hi
    refine ⟨nofun, fun b hmem => ?_⟩
    rcases List.mem_append.mp hmem with hmem | hmem
    · obtain ⟨⟨op, id⟩, hop, rfl⟩ := List.mem_map.mp hmem
      exact hp hop
    · rcases List.mem_cons.mp hmem with rfl | hmem
      · exact hb true
      · cases List.mem_singleton.mp hmem
        exact hb false
  | succ i => cases hi

/-! ## Operations of the interpreter -/

/-- A form is analyzed before anything else happens. -/
theorem perform_raw (depth : Nat) (form : Value) (env : FrameId) (s : Store) :
    perform (depth + 1) (.eval (.raw form) env) s =
      match analyze form with
      | .ok e => perform depth (.eval e env) s
      | .error e => (.error e, s) := by
  cases h : analyze form <;> simp only [perform, step, evalStep, Action.bind_apply,
    Action.ofExcept, h]

theorem perform_ofValue_lawful (hL : L.Admissible F) (hP : L.PermitsPrograms) (hs : s.Obeys L)
    {form : Value} {env : FrameId} (hf : form.Evaluable L s.extent)
    (henv : L.frame s.extent env)
    (herr : form.isExpr = false → ∀ e : Failure, analyze form = .error e → F e) (depth : Nat) :
    Lawful L F s (fun x v => v.Obeys L x) (perform depth (.eval (.ofValue form) env) s) := by
  cases hraw : form.isExpr with
  | true =>
    cases form with
    | node e => exact perform_lawful hL depth hs ⟨hf, henv⟩
    | _ => cases hraw
  | false =>
    rw [Expr.ofValue_raw hraw]
    cases depth with
    | zero => exact .fail (hL.ofRun rfl)
    | succ depth =>
      rw [perform_raw]
      cases h : analyze form with
      | error e => exact .fail (herr hraw e h)
      | ok e =>
        have hobeys := (Value.evaluable_iff hraw).mp hf
        have he := (analyzes_of_analyze h).obeys hP (hL.bool _ _) hobeys
        exact perform_lawful hL depth hs ⟨he, henv⟩

theorem Interpreter.evalForm_lawful (hL : L.Admissible F) (hP : L.PermitsPrograms) (limit : Nat)
    {form : Value} (hs : s.Obeys L) (hg : L.frame s.extent Store.global)
    (hf : form.Evaluable L s.extent)
    (herr : form.isExpr = false → ∀ e : Failure, analyze form = .error e → F e) :
    Lawful L F s (fun x v => v.Obeys L x) (evalForm limit form s) := by
  have hch : s.Change L { s with events := s.events.push (.evaluating form) } := .record _
  have h := (perform_ofValue_lawful hL hP (hch.obeys hL hs) hf hg herr limit).after (.single hch)
  rw [evalForm_eq]
  split
  · next s'' heq =>
    rw [heq] at h
    exact ⟨h.changes, nofun, fun he => by cases he; exact hL.ofRun rfl⟩
  · exact h

/-- The action leads from stores with a property to stores with it. -/
def Action.Keeps {α : Type} (P : Store → Prop) (m : Action α) : Prop := ∀ s : Store, P s → P (m s).2

section

variable {P : Store → Prop}

namespace Action.Keeps

variable {α β : Type} {m : Action α} {f : α → Action β}

protected theorem pure (a : α) : Keeps P (Pure.pure a : Action α) := fun _ hs => hs

theorem fail (e : Failure) : Keeps P (Action.fail e : Action α) := fun _ hs => hs

theorem ofExcept (r : Except Failure α) : Keeps P (Action.ofExcept r) := fun _ hs => hs

theorem bind_at {s : Store} (hm : P (m s).2) (hf : ∀ a, Keeps P (f a)) : P ((m >>= f) s).2 := by
  rw [Action.bind_apply]
  rcases hout : m s with ⟨_ | a, s'⟩ <;> rw [hout] at hm
  · exact hm
  · exact hf a s' hm

protected theorem bind (hm : Keeps P m) (hf : ∀ a, Keeps P (f a)) : Keeps P (m >>= f) :=
  fun s hs => bind_at (hm s hs) hf

end Action.Keeps

/-- What an interpreter does comes down to recording events and to evaluating data that it has read.
A property of stores that both of these keep is kept by every operation. -/
structure Interpreter.Respects (P : Store → Prop) : Prop where
  record : ∀ {s : Store} (e : Event), P s → P { s with events := s.events.push e }
  datum : ∀ {s : Store} (limit : Nat) {d : Datum}, d.IsRead → P s →
    P (evalForm limit (d.label s.nextId).1 { s with nextId := (d.label s.nextId).2 }).2

variable (hP : Interpreter.Respects P)
include hP

theorem Action.Keeps.emit (e : Event) : Keeps P (Action.emit e) := fun _ hs => hP.record e hs

namespace Interpreter

open SmallLisp.Action

/-- Evaluating a datum, whatever is done with its value. -/
theorem datum_keeps {α : Type} (limit : Nat) {d : Datum} (hd : d.IsRead) {k : Value → Action α}
    (hk : ∀ v, Keeps P (k v)) : Keeps P (do
      let form ← Action.newDatum d
      let v ← evalForm limit form
      k v) := by
  intro s hs
  exact Keeps.bind_at (m := evalForm limit (d.label s.nextId).1) (hP.datum limit hd hs) hk

theorem evalData_keeps (limit : Nat) {ds : List Datum} (hds : Datum.AllRead ds) :
    Keeps P (evalData limit ds) := by
  induction ds with
  | nil => exact Keeps.pure []
  | cons d ds ih =>
    exact datum_keeps hP limit hds.1 fun v => Keeps.bind (ih hds.2) fun vs => Keeps.pure (v :: vs)

variable [CharacterNames]

theorem evalText_keeps (limit : Nat) (text : String) : Keeps P (evalText limit text) := by
  refine Keeps.bind (evalData_keeps hP limit (scan_isRead limit text)) fun vs => ?_
  cases (scan limit text).failure with
  | some e => exact Keeps.fail _
  | none => exact Keeps.pure vs

theorem load_keeps (limit : Nat) (text : String) : Keeps P (load limit text) :=
  Keeps.bind (evalText_keeps hP limit text) fun _ => Keeps.pure ()

theorem eval_keeps (limit : Nat) (text : String) : Keeps P (eval limit text) :=
  Keeps.bind (evalText_keeps hP limit text) fun _ => Keeps.pure _

theorem start_keeps (limit : Nat) (prelude : Prelude) : Keeps P (start limit prelude) := by
  cases prelude with
  | none => exact Keeps.pure ()
  | text source => exact load_keeps hP limit source
  | file path contents =>
    refine Keeps.bind (Keeps.emit hP _) fun _ => ?_
    cases contents with
    | none => exact Keeps.fail _
    | some text => exact load_keeps hP limit _

end Interpreter

namespace Dialogue

open SmallLisp.Action

theorem evalAndShow_keeps (limit : Nat) {ds : List Datum} (hds : Datum.AllRead ds) :
    Keeps P (evalAndShow limit ds) := by
  induction ds with
  | nil => exact Keeps.pure ()
  | cons d ds ih =>
    exact Interpreter.datum_keeps hP limit hds.1 fun v =>
      Keeps.bind (Keeps.ofExcept _) fun text => Keeps.bind (Keeps.emit hP _) fun _ => ih hds.2

theorem reporting_keeps {act : Action Unit} (h : Keeps P act) : Keeps P (reporting act) := by
  intro s hs
  have hact := h s hs
  unfold reporting
  split
  · next e s' heq =>
    rw [heq] at hact
    exact hP.record _ hact
  · exact hact

variable [CharacterNames]

theorem takeLine_keeps (limit : Nat) (source line : String) :
    Keeps P (takeLine limit source line) := by
  simp only [takeLine]
  split
  · exact Keeps.pure ""
  · split
    · split
      · exact Keeps.pure _
      · exact Keeps.bind (Keeps.emit hP _) fun _ => Keeps.pure ""
    · exact Keeps.fail _
    · next forms hread =>
      have hforms : Datum.AllRead forms := (scan_of_read hread).1 ▸ scan_isRead limit _
      exact Keeps.bind (reporting_keeps hP (evalAndShow_keeps hP limit hforms))
        fun _ => Keeps.pure ""

theorem runFrom_keeps (limit : Nat) (prompts : Prompts) (source : String)
    (lines : List String) : Keeps P (runFrom limit prompts source lines) := by
  induction lines generalizing source with
  | nil => exact Keeps.bind (Keeps.emit hP _) fun _ => Keeps.emit hP _
  | cons line lines ih =>
    exact Keeps.bind (Keeps.emit hP _) fun _ =>
      Keeps.bind (takeLine_keeps hP limit source line) fun source' => ih source'

end Dialogue

end

namespace Interpreter

variable [CharacterNames]

/-- A store that an interpreter can be in after its start and any operations, of which some may have
failed. Forms and expressions that are handed over without a text are in `given`. -/
inductive Reachable (given : Value → Prop) : Store → Prop
  | start (limit : Nat) (prelude : Prelude) : Reachable given (start limit prelude Store.initial).2
  | eval {s : Store} (limit : Nat) (text : String) : Reachable given s →
    Reachable given (eval limit text s).2
  | load {s : Store} (limit : Nat) (text : String) : Reachable given s →
    Reachable given (load limit text s).2
  | evalForm {s : Store} (limit : Nat) {form : Value} : given form → Reachable given s →
    Reachable given (evalForm limit form s).2
  | dialogue {s : Store} (limit : Nat) (prompts : Dialogue.Prompts) (input : String) :
    Reachable given s → Reachable given (Dialogue.run limit prompts input s).2

theorem Reachable.keeps {given : Value → Prop} {P : Store → Prop} (hP : Respects P)
    (hinitial : P Store.initial)
    (hgiven : ∀ {s : Store} (limit : Nat) {form : Value}, given form → P s →
      P (Interpreter.evalForm limit form s).2)
    (h : Reachable given s) : P s := by
  induction h with
  | start limit prelude => exact start_keeps hP limit prelude _ hinitial
  | eval limit text _ ih => exact eval_keeps hP limit text _ ih
  | load limit text _ ih => exact load_keeps hP limit text _ ih
  | evalForm limit hf _ ih => exact hgiven limit hf ih
  | dialogue limit prompts input _ ih =>
    exact Dialogue.runFrom_keeps hP limit prompts "" (Dialogue.lines input) _ ih

/-- Every state has come from the initial store as a law permits that holds there. -/
theorem Reachable.changes {given : Value → Prop} (hL : L.Admissible fun _ => True)
    (hP : L.PermitsPrograms) (hi : Store.initial.Obeys L)
    (hg : L.frame Store.initial.extent Store.global)
    (hgiven : ∀ {form : Value}, given form → ∀ x : Extent, form.Evaluable L x)
    (h : Reachable given s) : Store.initial.Changes L s := by
  -- The evaluation of one more form.
  have heval : ∀ {s : Store} (limit : Nat) {form : Value}, form.Evaluable L s.extent →
      Store.initial.Changes L s → Store.initial.Changes L (Interpreter.evalForm limit form s).2 :=
    fun limit _ hf h => h.trans (evalForm_lawful hL hP limit (h.obeys hL hi)
      (hL.frame_mono h.extent_le.1 hg) hf fun _ _ _ => trivial).changes
  refine Reachable.keeps (P := Store.initial.Changes L) ⟨fun e h => h.tail (.record e), ?_⟩ .refl
    (fun limit _ hf h => heval limit (hgiven hf _) h) h
  intro s limit d hd h
  have hnew : Lawful L (fun _ => True) s _ (Action.newDatum d s) := .newDatum hL hP hd
  exact heval limit (hnew.value rfl) (h.trans hnew.changes)

end Interpreter

end SmallLisp
