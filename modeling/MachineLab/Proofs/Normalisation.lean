import MachineLab.Proofs.Loading

/-!
# The normal form of a document

A document of a machine may name its states by any values that can be keys, write labels and flags as
values of any kind, directions in any case and the symbols of its alphabet in any order.  Its normal
form numbers the states in the order in which they are listed, and writes everything else in the one
way in which machines are written.

The normal form is described here without a machine, as a relation between documents.

## Main definitions

* `Document.Names` — which state a value names.
* `Document.StateForm`, `Document.EdgeForm` — the normal form of the entry of a state, of a transition.
* `Document.Normal` — the normal form of a document, with those of the documents nested in it.

## Main statements

* `Document.Normal.unique` — a document has at most one normal form.
* `Document.Normal.self` — a normal form is its own normal form.
-/

namespace MachineLab

theorem Alphabet.Same.toText_eq {a a' : Alphabet} (h : a.Same a') : a'.toText = a.toText := by
  simp only [toText, h.symbols, h.blank]

/-- What has a field is an object, so it may have any other. -/
theorem Value.exists_optionalItem {e v : Value} {key : String} (h : e.item key = .ok v)
    (other : String) : ∃ u, e.optionalItem other = .ok u := by
  cases e with
  | object fields => exact ⟨_, rfl⟩
  | _ => cases h

namespace Document

/-- A value names the state at a place: it is the first one whose identifier equals the value. -/
def Names (states : List Value) (key : Value) (p : Nat) : Prop :=
  (∃ e id, states[p]? = some e ∧ e.item "id" = .ok id ∧ id.samePart key = true) ∧
    ∀ q < p, ∀ e id, states[q]? = some e → e.item "id" = .ok id → id.samePart key = false

/-- The entry `e'` has the place, the label and the flags of the entry `e` of a state, and a document
inside. -/
def StateForm (place : Nat) (inner e e' : Value) : Prop :=
  ∃ label start final, e.item "label" = .ok label ∧ e.item "start" = .ok start ∧
    e.item "final" = .ok final ∧
    e' = .object [
      ("id", .int place),
      ("label", .text label.display),
      ("start", .bool start.truth),
      ("final", .bool final.truth),
      ("submachine", inner)]

/-- The entry `e'` joins the places that the ends of the entry `e` of a transition name, with the same
input and, for Turing machines, the same direction and output. -/
inductive EdgeForm (states : List Value) : Kind → Value → Value → Prop
  | turing {e source target name input output : Value} {p q : Nat} {direction : Direction}
      (source_eq : e.item "from" = .ok source) (target_eq : e.item "to" = .ok target)
      (source_names : Names states source p) (target_names : Names states target q)
      (input_eq : e.item "input" = .ok input) (output_eq : e.item "output" = .ok output)
      (direction_eq : e.item "direction" = .ok name) (name_eq : Direction.ofName name = .ok direction) :
      EdgeForm states .turing e (.object [
        ("from", .int p), ("to", .int q), ("input", input),
        ("direction", .text direction.name), ("output", output)])
  | acceptor {e source target input : Value} {p q : Nat}
      (source_eq : e.item "from" = .ok source) (target_eq : e.item "to" = .ok target)
      (source_names : Names states source p) (target_names : Names states target q)
      (input_eq : e.item "input" = .ok input) :
      EdgeForm states .acceptor e (.object [("from", .int p), ("to", .int q), ("input", input)])

/-- The normal form of a document: a document with the same kind, name and alphabet, in which the
states have their places for identifiers and the transitions join places.  The documents inside the
states, listed by `inner`, are in normal form too. -/
inductive Normal : Value → Value → Prop
  | intro {v : Value} {kind : Kind} {a : Alphabet} {states states' edges edges' : List Value}
      (inner : Nat → Value)
      (head : Work.readHead v = .ok kind)
      (alphabet : v.item "alphabet" >>= Alphabet.ofValue = .ok a)
      (states_eq : v.item "states" >>= Value.elements = .ok states)
      (edges_eq : v.item "transitions" >>= Value.elements = .ok edges)
      (length : states'.length = states.length)
      (form : ∀ i e e', states[i]? = some e → states'[i]? = some e' → StateForm i (inner i) e e')
      (plain : ∀ i e, states[i]? = some e → e.optionalItem "submachine" = .ok .null →
        inner i = .null)
      (nested : ∀ i e u, states[i]? = some e → e.optionalItem "submachine" = .ok u → u ≠ .null →
        Normal u (inner i))
      (edges_form : List.Forall₂ (EdgeForm states kind) edges edges') :
      Normal v (.object [
        ("format", .text machineFormat),
        ("version", .int formatVersion),
        ("kind", .text kind.tag),
        ("name", (v.field? "name").getD untitled),
        ("alphabet", .text a.toText),
        ("states", .list states'),
        ("transitions", .list edges')])

/-! ## There is at most one normal form -/

theorem Names.unique {states : List Value} {key : Value} {p q : Nat} (hp : Names states key p)
    (hq : Names states key q) : p = q := by
  obtain ⟨⟨e, id, he, hid, same⟩, first⟩ := hp
  obtain ⟨⟨e', id', he', hid', same'⟩, first'⟩ := hq
  obtain lt | eq | gt := Nat.lt_trichotomy p q
  · rw [first' p lt e id he hid] at same
    cases same
  · exact eq
  · rw [first q gt e' id' he' hid'] at same'
    cases same'

theorem StateForm.unique {i : Nat} {inner e e₁ e₂ : Value} (h₁ : StateForm i inner e e₁)
    (h₂ : StateForm i inner e e₂) : e₁ = e₂ := by
  obtain ⟨label, start, final, hlabel, hstart, hfinal, rfl⟩ := h₁
  obtain ⟨label', start', final', hlabel', hstart', hfinal', rfl⟩ := h₂
  obtain rfl := Except.ok.inj (hlabel.symm.trans hlabel')
  obtain rfl := Except.ok.inj (hstart.symm.trans hstart')
  obtain rfl := Except.ok.inj (hfinal.symm.trans hfinal')
  rfl

theorem EdgeForm.unique {states : List Value} {kind : Kind} {e e₁ e₂ : Value}
    (h₁ : EdgeForm states kind e e₁) (h₂ : EdgeForm states kind e e₂) : e₁ = e₂ := by
  cases h₁ with
  | turing source target source_names target_names input output direction name =>
    cases h₂ with
    | turing source' target' source_names' target_names' input' output' direction' name' =>
      obtain rfl := Except.ok.inj (source.symm.trans source')
      obtain rfl := Except.ok.inj (target.symm.trans target')
      obtain rfl := Except.ok.inj (input.symm.trans input')
      obtain rfl := Except.ok.inj (output.symm.trans output')
      obtain rfl := Except.ok.inj (direction.symm.trans direction')
      obtain rfl := Except.ok.inj (name.symm.trans name')
      rw [source_names.unique source_names', target_names.unique target_names']
  | acceptor source target source_names target_names input =>
    cases h₂ with
    | acceptor source' target' source_names' target_names' input' =>
      obtain rfl := Except.ok.inj (source.symm.trans source')
      obtain rfl := Except.ok.inj (target.symm.trans target')
      obtain rfl := Except.ok.inj (input.symm.trans input')
      rw [source_names.unique source_names', target_names.unique target_names']

/-- **A document has at most one normal form.** -/
theorem Normal.unique {v n₁ n₂ : Value} (h₁ : Normal v n₁) (h₂ : Normal v n₂) : n₁ = n₂ := by
  induction h₁ generalizing n₂ with
  | @intro v kind a states states₁ edges edges₁ inner₁ head alphabet states_eq edges_eq length₁ form₁
      plain₁ nested₁ edges_form₁ ih =>
    cases h₂ with
    | @intro _ kind' a' states' states₂ edges' edges₂ inner₂ head' alphabet' states_eq' edges_eq'
        length₂ form₂ plain₂ nested₂ edges_form₂ =>
      obtain rfl := Except.ok.inj (head.symm.trans head')
      obtain rfl := Except.ok.inj (alphabet.symm.trans alphabet')
      obtain rfl := Except.ok.inj (states_eq.symm.trans states_eq')
      obtain rfl := Except.ok.inj (edges_eq.symm.trans edges_eq')
      have states_same : states₁ = states₂ := by
        apply List.ext_getElem (length₁.trans length₂.symm)
        intro i hi₁ hi₂
        have bound : i < states.length := length₁ ▸ hi₁
        have hi : states[i]? = some states[i] := List.getElem?_eq_getElem bound
        have hform₁ := form₁ i _ _ hi (List.getElem?_eq_getElem hi₁)
        have hform₂ := form₂ i _ _ hi (List.getElem?_eq_getElem hi₂)
        have same : inner₁ i = inner₂ i := by
          obtain ⟨label, -, -, hlabel, -⟩ := hform₁
          obtain ⟨u, hu⟩ := Value.exists_optionalItem hlabel "submachine"
          by_cases none : u = .null
          · subst none
            rw [plain₁ i _ hi hu, plain₂ i _ hi hu]
          · exact ih i _ u hi hu none (nested₂ i _ u hi hu none)
        rw [← same] at hform₂
        exact hform₁.unique hform₂
      have one : Relator.RightUnique (EdgeForm states kind) := fun _ _ _ => EdgeForm.unique
      have edges_same : edges₁ = edges₂ := List.right_unique_forall₂' one edges_form₁ edges_form₂
      rw [states_same, edges_same]

/-! ## Normal forms are in normal form -/

section Self

variable {states states' : List Value} {inner : Nat → Value}

/-- The entry of a state is determined by the entry that it is the normal form of. -/
theorem StateForm.self {i : Nat} {inner e e' : Value} (h : StateForm i inner e e') :
    StateForm i inner e' e' := by
  obtain ⟨label, start, final, -, -, -, rfl⟩ := h
  exact ⟨_, _, _, rfl, rfl, rfl, rfl⟩

theorem StateForm.id_eq {i : Nat} {inner e e' : Value} (h : StateForm i inner e e') :
    e'.item "id" = .ok (.int i) := by
  obtain ⟨label, start, final, -, -, -, rfl⟩ := h
  rfl

theorem StateForm.optionalItem_eq {i : Nat} {inner e e' : Value} (h : StateForm i inner e e') :
    e'.optionalItem "submachine" = .ok inner := by
  obtain ⟨label, start, final, -, -, -, rfl⟩ := h
  rfl

variable (length : states'.length = states.length)
  (form : ∀ i e e', states[i]? = some e → states'[i]? = some e' → StateForm i (inner i) e e')
include length form

theorem exists_form {i : Nat} {e' : Value} (h : states'[i]? = some e') :
    ∃ e, states[i]? = some e ∧ StateForm i (inner i) e e' := by
  have bound : i < states.length := by
    rw [← length]
    exact (List.getElem?_eq_some_iff.mp h).1
  have hi : states[i]? = some states[i] := List.getElem?_eq_getElem bound
  exact ⟨_, hi, form i _ _ hi h⟩

/-- In a normal form, a place is named by its number. -/
theorem Names.place {key : Value} {p : Nat} (h : Names states key p) :
    Names states' (.int p) p := by
  obtain ⟨⟨e, -, he, -⟩, -⟩ := h
  have bound : p < states'.length := by
    rw [length]
    exact (List.getElem?_eq_some_iff.mp he).1
  have hp : states'[p]? = some states'[p] := List.getElem?_eq_getElem bound
  refine ⟨⟨_, _, hp, (form p e _ he hp).id_eq, ?_⟩, fun q lt e' id hq hid => ?_⟩
  · rw [Value.samePart_id, beq_self_eq_true]
  · obtain ⟨e, -, hform⟩ := exists_form length form hq
    obtain rfl := Except.ok.inj (hform.id_eq.symm.trans hid)
    rw [Value.samePart_id]
    exact beq_false_of_ne (Nat.ne_of_lt lt)

theorem EdgeForm.self {kind : Kind} {e e' : Value} (h : EdgeForm states kind e e') :
    EdgeForm states' kind e' e' := by
  cases h with
  | turing source target source_names target_names input output direction name =>
    exact .turing rfl rfl (source_names.place length form) (target_names.place length form) rfl rfl
      rfl (Direction.ofName_name _)
  | acceptor source target source_names target_names input =>
    exact .acceptor rfl rfl (source_names.place length form) (target_names.place length form) rfl

end Self

/-- **A normal form is its own normal form.** -/
theorem Normal.self {v n : Value} (h : Normal v n) : Normal n n := by
  induction h with
  | @intro v kind a states states' edges edges' inner head alphabet states_eq edges_eq length form
      plain nested edges_form ih =>
    obtain ⟨a', ofText, same⟩ := a.exists_ofText_toText
    set n : Value := .object [
      ("format", .text machineFormat),
      ("version", .int formatVersion),
      ("kind", .text kind.tag),
      ("name", (v.field? "name").getD untitled),
      ("alphabet", .text a.toText),
      ("states", .list states'),
      ("transitions", .list edges')] with hn
    have again : Normal n (.object [
        ("format", .text machineFormat),
        ("version", .int formatVersion),
        ("kind", .text kind.tag),
        ("name", (n.field? "name").getD untitled),
        ("alphabet", .text a'.toText),
        ("states", .list states'),
        ("transitions", .list edges')]) := by
      refine .intro inner ?_ ?_ rfl rfl rfl ?_ ?_ ?_ ?_
      · simp [n, Work.readHead, Value.item, Value.optionalItem, Dict.find?_cons, Value.eqv_text_self,
          Value.eqv_int_self, Kind.ofTag_tag, bind, Except.bind]
      · simp [n, Value.item, Dict.find?_cons, Alphabet.ofValue, ofText, bind, Except.bind]
      · intro i e e' he he'
        obtain rfl := Option.some.inj (he.symm.trans he')
        obtain ⟨_, -, hform⟩ := exists_form length form he
        exact hform.self
      · intro i e he hnull
        obtain ⟨_, -, hform⟩ := exists_form length form he
        exact Except.ok.inj (hform.optionalItem_eq.symm.trans hnull)
      · intro i e' u he' hu some
        obtain ⟨e, he, hform⟩ := exists_form length form he'
        obtain rfl := Except.ok.inj (hform.optionalItem_eq.symm.trans hu)
        obtain ⟨label, -, -, hlabel, -⟩ := hform
        obtain ⟨u, hu⟩ := Value.exists_optionalItem hlabel "submachine"
        refine ih i e u he hu ?_
        rintro rfl
        exact some (plain i e he hu)
      · exact List.forall₂_same.mpr fun e' he' => by
          obtain ⟨e, -, hform⟩ := exists_of_forall₂_right edges_form he'
          exact hform.self length form
    rw [same.toText_eq] at again
    exact again

end Document

end MachineLab
