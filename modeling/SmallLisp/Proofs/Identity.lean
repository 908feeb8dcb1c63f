import SmallLisp.Proofs.Coherence
import SmallLisp.Proofs.Matching

/-!
# Which lists are the same

The predicate `eq?` compares lists by identity. In a session a list that `cons`, `list` or `cdr`
returns is none that has been there before, lists that are the same have the same items at all
times, and quoted data are the same each time they are evaluated (`Session.list_identities`).
-/

namespace SmallLisp

mutual

/-- The lists of a form that is read have new identities. -/
theorem Datum.label_range (next : Nat) (d : Datum) : next ≤ (d.label next).2 ∧
    ∀ {id items}, (Value.list id items).IsIn (d.label next).1 → next ≤ id := by
  match d with
  | .nothing | .bool _ | .int _ | .text _ | .symbol _ => exact ⟨Nat.le_refl _, nofun⟩
  | .float _ => exact ⟨Nat.le_succ _, nofun⟩
  | .list items =>
    obtain ⟨hle, hitems⟩ := Datum.labels_range (next + 1) items
    refine ⟨Nat.le_of_succ_le hle, fun h => ?_⟩
    rcases h with h | h
    · cases h
      exact Nat.le_refl _
    · exact Nat.le_of_succ_le (hitems h)

theorem Datum.labels_range (next : Nat) (ds : List Datum) : next ≤ (Datum.labels next ds).2 ∧
    ∀ {id items}, (Value.list id items).IsInAny (Datum.labels next ds).1 → next ≤ id := by
  match ds with
  | [] => exact ⟨Nat.le_refl _, nofun⟩
  | d :: ds =>
    obtain ⟨hle, hd⟩ := Datum.label_range next d
    obtain ⟨hle', hds⟩ := Datum.labels_range (d.label next).2 ds
    exact ⟨Nat.le_trans hle hle', fun h => h.elim hd fun h => Nat.le_trans hle (hds h)⟩

end

namespace Primitive

variable {call : Value → List Value → Action Value} {op : Primitive} {args : List Value}
  {s s' : Store} {v : Value}

/-- With another number of arguments than it takes, a primitive returns nothing. -/
theorem length_eq_of_run (hop : op.arity ≠ 0) (h : op.run call args s = (.ok v, s')) :
    args.length = op.arity := by
  by_contra hne
  rw [run_of_not_fits fun hfits => hne (hfits (.inl hop))] at h
  cases h

/-- What `cons`, `list` or `cdr` returns is a list with the next identity. -/
theorem run_newList (hop : op ∈ [Primitive.cons, .list, .cdr])
    (h : op.run call args s = (.ok v, s')) :
    ∃ items, v = .list s.nextId items ∧ s'.nextId = s.nextId + 1 := by
  have hnew : ∀ {items : List Value}, Action.newList items s = (.ok v, s') →
      ∃ items, v = .list s.nextId items ∧ s'.nextId = s.nextId + 1 := by
    intro items h
    cases h
    exact ⟨items, rfl, rfl⟩
  simp only [List.mem_cons, List.not_mem_nil, or_false] at hop
  rcases hop with rfl | rfl | rfl
  · obtain ⟨head, tail, rfl⟩ := List.length_eq_two.mp (length_eq_of_run (by decide) h)
    rcases Action.of_bind_eq h with ⟨items, s₁, hitems, h⟩ | ⟨e, -, hv⟩
    · obtain ⟨-, rfl⟩ := Prod.mk.inj hitems
      exact hnew h
    · cases hv
  · exact hnew h
  · obtain ⟨w, rfl⟩ := List.length_eq_one_iff.mp (length_eq_of_run (by decide) h)
    rcases Action.of_bind_eq h with ⟨items, s₁, hitems, h⟩ | ⟨e, -, hv⟩
    · obtain ⟨-, rfl⟩ := Prod.mk.inj hitems
      cases items with
      | nil => cases h
      | cons => exact hnew h
    · cases hv

end Primitive

theorem perform_newList {op : Primitive} (hop : op ∈ [Primitive.cons, .list, .cdr]) {depth id : Nat}
    {args : List Value} {s s' : Store} {v : Value}
    (h : perform depth (.call (.primitive op id) args) s = (.ok v, s')) :
    ∃ items, v = .list s.nextId items ∧ s'.nextId = s.nextId + 1 := by
  cases depth with
  | zero => cases h
  | succ => exact Primitive.run_newList hop h

/-- A list is the same only as a list with its identity. -/
theorem Value.eq_list_eq_false {u : Value} {id : Nat} {items : List Value}
    (h : ∀ {j ys}, u = .list j ys → j ≠ id) : u.eq (.list id items) = false := by
  cases u with
  | list j ys => exact beq_false_of_ne (h rfl)
  | _ => rfl

/-! ## Sessions -/

section

variable {H : Heap} {n n' : Nat} {ms : List Moment}

/-- A list that is there at a moment has an identity that is taken by the end of the moment, and the
items that the heap tells. -/
theorem History.of_list_isAt (h : History H n ms n') {m : Moment} (hm : m ∈ ms) {id : Nat}
    {items : List Value} (hu : (Value.list id items).IsAt m) : id < m.next ∧ H id = items :=
  (h.obeys_of_isAt hm hu).1

/-- A list with an identity that is not taken by the end of a moment is none that is there. -/
theorem History.eq_eq_false_of_isAt (h : History H n ms n') {m : Moment} (hm : m ∈ ms) {u : Value}
    (hu : u.IsAt m) {id : Nat} (hid : m.next ≤ id) (items : List Value) :
    u.eq (.list id items) = false := by
  refine Value.eq_list_eq_false fun hlist => ?_
  subst hlist
  exact Nat.ne_of_lt (Nat.lt_of_lt_of_le (h.of_list_isAt hm hu).1 hid)

/-- A list with an identity that is taken before a form is read is none that is in the form. -/
theorem Datum.eq_eq_false_of_isIn {d : Datum} {u : Value} (hu : u.IsIn (d.label n).1) {id : Nat}
    (hid : id < n) (items : List Value) : u.eq (.list id items) = false := by
  refine Value.eq_list_eq_false fun hlist => ?_
  subst hlist
  exact (Nat.ne_of_lt (Nat.lt_of_lt_of_le hid ((d.label_range n).2 hu))).symm

end

/-- **New and old lists.** Every state of an interpreter that is given texts ends a session, and in
every session: what a call of `cons`, `list` or `cdr` returns is a list, and the same as no value
that has been there until the call began, be it in a frame, in an argument, in a list or in the data
of some code, nor as one in a form that is read later; lists that are the same have the same items,
whenever they are there; and a quoted list is the same list in all evaluations. -/
theorem Session.list_identities [CharacterNames] :
    (∀ s, Interpreter.Reachable (fun _ => False) s → ∃ ms, Session ms s) ∧
    ∀ ms s, Session ms s →
      (∀ earlier later op id args s₀,
        ms = earlier ++ .task (.call (.primitive op id) args) s₀ :: later →
        op ∈ [Primitive.cons, .list, .cdr] →
        ∀ depth v s₁, perform depth (.call (.primitive op id) args) s₀ = (.ok v, s₁) →
          (∃ i items, v = .list i items) ∧
          (∀ m ∈ earlier ++ [.task (.call (.primitive op id) args) s₀], ∀ u : Value, u.IsAt m →
            u.eq v = false) ∧
          ∀ between rest, later = between ++ .value v s₁ :: rest →
            ∀ d s₂, .read d s₂ ∈ rest → ∀ u : Value, u.IsIn (d.label s₂.nextId).1 →
              u.eq v = false) ∧
      (∀ m ∈ ms, ∀ m' ∈ ms, ∀ i j xs ys, (Value.list i xs).IsAt m → (Value.list j ys).IsAt m' →
        (Value.list i xs).eq (.list j ys) → xs = ys) ∧
      ∀ i xs depth depth' env env' t t', ∃ v v',
        perform (depth + 1) (.eval (.quote (.list i xs)) env) t = (.ok v, t) ∧
        perform (depth' + 1) (.eval (.quote (.list i xs)) env') t' = (.ok v', t') ∧ v.eq v' := by
  refine ⟨fun s h => h.session, fun ms s h => ?_⟩
  obtain ⟨H, hms, -⟩ := h.coherent
  refine ⟨?_, ?_, ?_⟩
  · rintro earlier later op id args s₀ rfl hop depth v s₁ hcall
    obtain ⟨items, rfl, hnext⟩ := perform_newList hop hcall
    obtain ⟨-, hlater, hacross⟩ := List.pairwise_append.mp hms.ordered
    refine ⟨⟨_, _, rfl⟩, fun m hm u hu => ?_, ?_⟩
    · rcases List.mem_append.mp hm with hm | hm
      · have hle : m.next ≤ s₀.nextId := hacross m hm _ List.mem_cons_self
        exact hms.eq_eq_false_of_isAt (List.mem_append_left _ hm) hu hle items
      · cases List.mem_singleton.mp hm
        exact hms.eq_eq_false_of_isAt (List.mem_append_right _ List.mem_cons_self) hu
          (Nat.le_refl _) items
    · rintro between rest rfl d s₂ hread u hu
      have hrest := (List.pairwise_append.mp (List.pairwise_cons.mp hlater).2).2.1
      have hle : s₁.nextId ≤ s₂.nextId := (List.pairwise_cons.mp hrest).1 _ hread
      exact Datum.eq_eq_false_of_isIn hu (by omega) items
  · intro m hm m' hm' i j xs ys hx hy heq
    obtain rfl : i = j := eq_of_beq heq
    exact (hms.of_list_isAt hm hx).2.symm.trans (hms.of_list_isAt hm' hy).2
  · intro i xs depth depth' env env' t t'
    exact ⟨_, _, rfl, rfl, beq_self_eq_true i⟩

/-- In `(cdr '(()))` the rest of the list is an empty list, but not the one in the list. -/
theorem Session.list_identities_cdr :
    let form := Value.list 24 [.symbol "cdr", .list 25 [.symbol "quote", .list 26 [.list 27 []]]]
    let call := Task.call (.primitive .cdr 17) [.list 26 [.list 27 []]]
    let s₀ : Store := { Store.initial with nextId := 28, events := #[.evaluating form] }
    ∃ earlier later s s₁, Session (earlier ++ .task call s₀ :: later) s ∧
      perform 1 call s₀ = (.ok (.list 28 []), s₁) ∧
      (Value.list 27 []).eq (.list 28 []) = false := by
  intro form call s₀
  let d : Datum := .list [.symbol "cdr", .list [.symbol "quote", .list [.list []]]]
  have hd : d.IsRead := ⟨trivial, ⟨trivial, ⟨trivial, trivial⟩, trivial⟩, trivial⟩
  have hsession := Session.start.datum 9 hd
  have hmoment : (Traced.evalDatum 9 d Store.initial).2[7]? = some (.task call s₀) := by
    with_unfolding_all rfl
  obtain ⟨earlier, later, hms⟩ := List.append_of_mem (List.mem_of_getElem? hmoment)
  rw [List.nil_append, hms] at hsession
  have hat : (Value.list 27 []).IsAt (.task call s₀) := .inl (.inr (.inl (.inr (.inl (.inl rfl)))))
  have hnew := ((Session.list_identities.2 _ _ hsession).1 _ _ _ _ _ _ rfl (by simp) 1 _ _ rfl).2.1
  have hself : .task call s₀ ∈ earlier ++ [.task call s₀] :=
    List.mem_append_right _ List.mem_cons_self
  exact ⟨earlier, later, _, _, hsession, rfl, hnew _ hself _ hat⟩

end SmallLisp
