import SmallLisp.Host.Dialogue
import SmallLisp.Proofs.Perform

/-!
# What an action adds to the record

Nothing that runs looks at the events recorded so far. `Action.Does` states an outcome of an action
without them: the result, the store that it leaves and the events that it adds, whatever came
before. The events of an evaluation itself are output only (`perform_does`).
-/

namespace SmallLisp

variable {α β : Type} {s s₁ s₂ s' : Store} {u w : List Event}

/-- From `s`, whatever has been recorded, an action ends with `r` in `s'` and adds the events `u` to
the record. -/
def Action.Does (m : Action α) (s : Store) (r : Except Failure α) (s' : Store) (u : List Event) :
    Prop :=
  ∀ record : Array Event,
    m { s with events := record } = (r, { s' with events := record ++ u.toArray })

namespace Action.Does

variable {m : Action α} {f : α → Action β} {a : α} {r : Except Failure β}

theorem apply {r : Except Failure α} (h : m.Does s r s' u) :
    m s = (r, { s' with events := s.events ++ u.toArray }) := h s.events

theorem bind (hm : m.Does s (.ok a) s₁ u) (hf : (f a).Does s₁ r s₂ w) :
    (m >>= f).Does s r s₂ (u ++ w) := by
  intro record
  rw [Action.bind_of_ok (hm record), hf]
  simp [Array.append_assoc]

theorem pure (a : α) (s : Store) : (Pure.pure a : Action α).Does s (.ok a) s [] := by
  intro record
  simp [Pure.pure, Action.pure]

theorem ofExcept (r : Except Failure α) (s : Store) : (Action.ofExcept r).Does s r s [] := by
  intro record
  simp [Action.ofExcept]

theorem emit (e : Event) (s : Store) : (Action.emit e).Does s (.ok ()) s [e] := by
  intro record
  simp [Action.emit]

theorem newDatum (d : Datum) (s : Store) : (Action.newDatum d).Does s
    (.ok (d.label s.nextId).1) { s with nextId := (d.label s.nextId).2 } [] := by
  intro record
  simp [Action.newDatum]

end Action.Does

/-- Every event adds its text to the output. -/
theorem Store.output_append {u : List Event} (h : s'.events = s.events ++ u.toArray) :
    s'.output = s.output ++ String.join (u.map Event.outputText) := by
  simp [Store.output, Store.textSince, h, String.join_append]

/-- Stores with the same frames and identities, after records to which the same output is added. -/
def Leeway.behind (x y : Array Event) : Leeway where
  record a b := ∃ texts : List String,
    a = x ++ (texts.map Event.display).toArray ∧ b = y ++ (texts.map Event.display).toArray
  record_push text := by
    rintro ⟨texts, rfl, rfl⟩
    exact ⟨texts ++ [text], by simp, by simp⟩
  shallower := False

/-- The events of an evaluation are the output of the program. -/
theorem perform_does {depth : Nat} {task : Task} {r : Except Failure Value}
    (h : perform depth task s = (r, s')) :
    ∃ texts : List String, (perform depth task).Does s r s' (texts.map .display) := by
  have hsim : ∀ record : Array Event, ∃ texts : List String,
      s'.events = s.events ++ (texts.map Event.display).toArray ∧
      perform depth task { s with events := record } =
        (r, { s' with events := record ++ (texts.map Event.display).toArray }) := by
    intro record
    have hagree := perform_agree (k := .behind s.events record) (.inl (Eq.refl depth)) task
      (.of_frames (s := s) (t := { s with events := record }) rfl rfl ⟨[], by simp, by simp⟩)
    rw [h] at hagree
    rcases hagree with ⟨hfalse, -⟩ | ⟨hr, halike⟩
    · exact hfalse.elim
    · have hf := halike.frames_eq
      obtain ⟨-, hn, -, texts, ha, hb⟩ := halike
      refine ⟨texts, ha, ?_⟩
      rcases hout : perform depth task { s with events := record } with ⟨r', t⟩
      rw [hout] at hr hf hn hb
      cases t
      cases hr
      cases hf
      cases hn
      cases hb
      rfl
  obtain ⟨texts, htexts, -⟩ := hsim #[]
  refine ⟨texts, fun record => ?_⟩
  obtain ⟨texts', htexts', hrun⟩ := hsim record
  rw [hrun, Array.append_right_inj s.events |>.mp (htexts.symm.trans htexts')]

namespace Interpreter

/-- The result of a form, where want of depth is an error about the form. -/
def ofRun (form : Value) : Except Failure Value → Except Failure Value
  | .error (.fault .tooDeep) => .error (.error (.depthExceeded form))
  | r => r

theorem evalForm_of_perform {limit : Nat} {form : Value} {r : Except Failure Value}
    (h : perform limit (.eval (.ofValue form) Store.global)
      { s with events := s.events.push (.evaluating form) } = (r, s')) :
    evalForm limit form s = (ofRun form r, s') := by
  rw [evalForm_eq, h]
  unfold ofRun
  split <;> simp_all

theorem evalForm_does {limit : Nat} {form : Value} {r : Except Failure Value}
    (h : evalForm limit form s = (r, s')) : ∃ texts : List String,
      (evalForm limit form).Does s r s' (.evaluating form :: texts.map .display) := by
  rcases hout : perform limit (.eval (.ofValue form) Store.global)
    { s with events := s.events.push (.evaluating form) } with ⟨r₀, s₀⟩
  cases (evalForm_of_perform hout).symm.trans h
  obtain ⟨texts, hdoes⟩ := perform_does hout
  refine ⟨texts, fun record => ?_⟩
  rw [evalForm_of_perform (hdoes (record.push (.evaluating form)))]
  simp

end Interpreter

end SmallLisp
