import JvmClass.LocalVariableTable
import JvmClass.Proofs.DescriptorFaults
import Mathlib.Data.List.Forall2

/-!
# Declarations of local variables

A variable with a name and with the descriptor of a type is declared by one line. A name and a text
that is no such descriptor are an error, which rendering leaves out, and a variable that lacks
either of the two is left out without one. A table is shown as the lines of the variables of the
first kind.
-/

namespace JvmClass

/-- Values that belong to the items with some property, in their order. -/
theorem forall₂_filter_filterMap {α β : Type} {p : α → Prop} [DecidablePred p] {f : α → Option β}
    {R : α → β → Prop} (hnone : ∀ x, ¬ p x → f x = none)
    (hsome : ∀ x, p x → ∃ y, f x = some y ∧ R x y) (xs : List α) :
    List.Forall₂ R (xs.filter p) (xs.filterMap f) := by
  induction xs with
  | nil => exact .nil
  | cons x xs ih =>
      by_cases hx : p x
      · obtain ⟨y, hy, hxy⟩ := hsome x hx
        have hkept : (x :: xs).filter (fun x => decide (p x)) = x :: xs.filter (fun x => p x) :=
          List.filter_cons_of_pos (decide_eq_true hx)
        rw [hkept, List.filterMap_cons_some hy]
        exact .cons hxy ih
      · have hdropped : (x :: xs).filter (fun x => decide (p x)) = xs.filter (fun x => p x) :=
          List.filter_cons_of_neg (ne_true_of_eq_false (decide_eq_false hx))
        rw [hdropped, List.filterMap_cons_none (hnone x hx)]
        exact ih

/-- What holds of everything that belongs to some item. -/
theorem forall_mem_of_forall₂ {α β : Type} {R : α → β → Prop} {p : β → Prop}
    (hp : ∀ x y, R x y → p y) {xs : List α} {ys : List β} (h : List.Forall₂ R xs ys) :
    ∀ y ∈ ys, p y := by
  induction h with
  | nil => exact nofun
  | cons hxy _ ih => exact List.forall_mem_cons.mpr ⟨hp _ _ hxy, ih⟩

/-! ## Descriptors -/

namespace Descriptor

/-- The text is the descriptor of a type. -/
def SpellsType (d : String) : Prop :=
  ∃ t : FieldType, t.WellFormed ∧ d = t.descriptor

theorem parse_eq_ok_iff {d : String} {t : FieldType} :
    FieldType.parse d = .ok t ↔ t.WellFormed ∧ d = t.descriptor :=
  fieldType_takes.inverts.ok_iff d t

theorem not_spellsType_iff {d : String} :
    ¬ SpellsType d ↔ ∃ e, FieldType.parse d = .error e := by
  constructor
  · intro hnone
    obtain ⟨offset, herror⟩ := fieldType_takes.inverts.malformed d hnone
    exact ⟨_, herror⟩
  · rintro ⟨e, herror⟩ ⟨t, ht⟩
    rw [parse_eq_ok_iff.mpr ht] at herror
    cases herror

instance : DecidablePred SpellsType := fun d =>
  match h : FieldType.parse d with
  | .ok t => .isTrue ⟨t, parse_eq_ok_iff.mp h⟩
  | .error e => .isFalse (not_spellsType_iff.mpr ⟨e, h⟩)

/-- A text that spells no type is refused at the end of its longest viable beginning. -/
theorem parse_of_not_spellsType {d : String} (h : ¬ SpellsType d) :
    ∃ offset, FieldType.parse d = .error (.malformedDescriptor d offset) ∧
      FaultOffset FieldType.parse d offset := by
  obtain ⟨e, herror⟩ := not_spellsType_iff.mp h
  obtain ⟨offset, rfl, hoffset⟩ :=
    whole_faultOffset fieldType_takes (fun _ _ => fieldType_located) herror
  exact ⟨offset, herror, hoffset⟩

end Descriptor

/-- The source name of a type does not begin as a comment does. -/
theorem FieldType.head?_sourceName {t : FieldType} (h : t.WellFormed) :
    ∃ c, t.sourceName.toList.head? = some c ∧ c ≠ '/' := by
  induction t with
  | base type => cases type <;> exact ⟨_, rfl, by decide⟩
  | object className =>
      obtain ⟨c, cs, hname⟩ := List.exists_cons_of_ne_nil h.1
      refine ⟨if c = '/' then '.' else c, ?_, ?_⟩
      · rw [sourceName, binaryName, String.toList_ofList, hname]
        rfl
      · split
        · decide
        · assumption
  | array dimensions element ih =>
      obtain ⟨c, hhead, hc⟩ := ih h.2.2
      refine ⟨c, ?_, hc⟩
      rw [sourceName, String.toList_append, List.head?_append, hhead]
      rfl

/-! ## Variables -/

namespace LocalVariable

variable {v : LocalVariable}

/-- The variable has a name, and the descriptor of a type. -/
def Declarable (v : LocalVariable) : Prop :=
  v.name?.isSome ∧ ∃ d ∈ v.descriptor?, Descriptor.SpellsType d

/-- The variable has a name, and a descriptor that no type has. -/
def Misdescribed (v : LocalVariable) : Prop :=
  v.name?.isSome ∧ ∃ d ∈ v.descriptor?, ¬ Descriptor.SpellsType d

instance : DecidablePred Declarable := fun v =>
  inferInstanceAs (Decidable (v.name?.isSome ∧ ∃ d ∈ v.descriptor?, Descriptor.SpellsType d))

instance : DecidablePred Misdescribed := fun v =>
  inferInstanceAs (Decidable (v.name?.isSome ∧ ∃ d ∈ v.descriptor?, ¬ Descriptor.SpellsType d))

/-- The line declares the variable with its type, its name and its slot. -/
def Declares (v : LocalVariable) (line : String) : Prop :=
  ∃ (name : String) (t : FieldType), v.name? = some name ∧ t.WellFormed ∧
    v.descriptor? = some t.descriptor ∧
    line = t.sourceName ++ " " ++ name ++ "; // index = " ++ toString v.index.toNat

/-- The error says that the descriptor is malformed, and where. -/
def Faults (v : LocalVariable) (e : Error) : Prop :=
  ∃ d offset, v.descriptor? = some d ∧ Descriptor.FaultOffset FieldType.parse d offset ∧
    e = .malformedDescriptor d offset

/-- What becomes of a variable, by its name and its descriptor. -/
theorem declaration_cases (v : LocalVariable) :
    (v.Declarable ∧ ∃ line, v.Declares line ∧ v.declaration = .ok (some line)) ∨
      (v.Misdescribed ∧ ∃ e, v.Faults e ∧ v.declaration = .error e) ∨
      ¬ v.Declarable ∧ ¬ v.Misdescribed ∧ v.declaration = .ok none := by
  obtain ⟨startPc, length, name?, descriptor?, index⟩ := v
  cases name? with
  | none =>
      refine .inr (.inr ⟨?_, ?_, rfl⟩)
      · rintro ⟨hname, -⟩
        cases hname
      · rintro ⟨hname, -⟩
        cases hname
  | some name =>
    cases descriptor? with
    | none =>
        refine .inr (.inr ⟨?_, ?_, rfl⟩)
        · rintro ⟨-, d, hd, -⟩
          cases hd
        · rintro ⟨-, d, hd, -⟩
          cases hd
    | some d =>
        by_cases hd : Descriptor.SpellsType d
        · refine .inl ⟨⟨rfl, d, rfl, hd⟩, ?_⟩
          obtain ⟨t, hwell, rfl⟩ := hd
          refine ⟨_, ⟨name, t, rfl, hwell, rfl, rfl⟩, ?_⟩
          change (Descriptor.sourceName t.descriptor).map _ = _
          rw [Descriptor.sourceName, Descriptor.parse_eq_ok_iff.mpr ⟨hwell, rfl⟩]
          rfl
        · refine .inr (.inl ⟨⟨rfl, d, rfl, hd⟩, ?_⟩)
          obtain ⟨offset, herror, hoffset⟩ := Descriptor.parse_of_not_spellsType hd
          refine ⟨_, ⟨d, offset, rfl, hoffset, rfl⟩, ?_⟩
          change (Descriptor.sourceName d).map _ = _
          rw [Descriptor.sourceName, herror]
          rfl

theorem not_declarable_of_misdescribed (h : v.Misdescribed) : ¬ v.Declarable := by
  rintro ⟨-, d, hd, htype⟩
  obtain ⟨-, d', hd', hnone⟩ := h
  rw [Option.mem_def] at hd hd'
  cases hd.symm.trans hd'
  exact hnone htype

theorem exists_fault (h : v.Misdescribed) : ∃ e, v.Faults e ∧ v.declaration = .error e := by
  obtain ⟨hsome, -⟩ | ⟨-, hfault⟩ | ⟨-, hnone, -⟩ := v.declaration_cases
  · exact absurd hsome (not_declarable_of_misdescribed h)
  · exact hfault
  · exact absurd h hnone

theorem declaration_of_not_misdescribed (h : ¬ v.Misdescribed) :
    ∃ line?, v.declaration = .ok line? := by
  obtain ⟨-, line, -, hdeclaration⟩ | ⟨hmis, -⟩ | ⟨-, -, hdeclaration⟩ := v.declaration_cases
  · exact ⟨_, hdeclaration⟩
  · exact absurd hmis h
  · exact ⟨_, hdeclaration⟩

theorem exists_rendered (h : v.Declarable) :
    ∃ line, v.render.value = some line ∧ v.Declares line := by
  obtain ⟨-, line, hline, hdeclaration⟩ | ⟨hmis, -⟩ | ⟨hnone, -⟩ := v.declaration_cases
  · refine ⟨line, ?_, hline⟩
    rw [render, hdeclaration]
    rfl
  · exact absurd h (not_declarable_of_misdescribed hmis)
  · exact absurd h hnone

theorem value_render_of_not_declarable (h : ¬ v.Declarable) : v.render.value = none := by
  obtain ⟨hsome, -⟩ | ⟨-, e, -, hdeclaration⟩ | ⟨-, -, hdeclaration⟩ := v.declaration_cases
  · exact absurd hsome h
  · rw [render, hdeclaration]
    rfl
  · rw [render, hdeclaration]
    rfl

/-- There is one line only that declares a variable. -/
theorem declares_unique : Relator.RightUnique Declares := by
  rintro v line line' ⟨name, t, hname, hwell, ht, rfl⟩ ⟨name', t', hname', hwell', ht', rfl⟩
  cases hname.symm.trans hname'
  have hsame : t = t' := Descriptor.fieldType_takes.inverts.unique _ t t' ⟨hwell, rfl⟩
    ⟨hwell', Option.some.inj (ht.symm.trans ht')⟩
  rw [hsame]

/-- A declaration is no comment. -/
theorem Declares.head?_ne {line : String} (h : v.Declares line) :
    line.toList.head? ≠ some '/' := by
  obtain ⟨name, t, -, hwell, -, rfl⟩ := h
  obtain ⟨c, hhead, hc⟩ := FieldType.head?_sourceName hwell
  simp only [String.toList_append, List.head?_append, hhead, Option.some_or, ne_eq,
    Option.some.injEq]
  exact hc

end LocalVariable

/-! ## Tables -/

namespace LocalVariableTable

variable (table : LocalVariableTable)

/-- The lines of a table declare the variables that can be declared, and no others. -/
theorem forall₂_declarationLines :
    List.Forall₂ LocalVariable.Declares (table.entries.filter LocalVariable.Declarable)
      table.declarationLines.value :=
  forall₂_filter_filterMap (fun _ => LocalVariable.value_render_of_not_declarable)
    (fun _ => LocalVariable.exists_rendered) table.entries

/-- The lines are those of the variables that can be declared, of which there is one at least. -/
theorem declarations?_eq_some_iff {lines : List String} :
    table.declarations? = some lines ↔ lines ≠ [] ∧
      List.Forall₂ LocalVariable.Declares
        (table.entries.filter LocalVariable.Declarable) lines := by
  have hlines : table.declarations? = some lines ↔
      lines ≠ [] ∧ table.declarationLines.value = lines := by
    rw [declarations?]
    cases table.declarationLines.value with
    | nil => simp
    | cons line others =>
        rw [Option.some.injEq]
        constructor
        · rintro rfl
          exact ⟨List.cons_ne_nil _ _, rfl⟩
        · exact And.right
  have hall := table.forall₂_declarationLines
  rw [hlines]
  refine and_congr_right fun _ => ⟨fun heq => heq ▸ hall, fun hother => ?_⟩
  exact List.right_unique_forall₂' LocalVariable.declares_unique hall hother

theorem declarations?_eq_none_iff :
    table.declarations? = none ↔ ∀ v ∈ table.entries, ¬ v.Declarable := by
  have hnil : table.declarations? = none ↔ table.declarationLines.value = [] := by
    rw [declarations?]
    cases table.declarationLines.value <;> simp
  rw [hnil, declarationLines, List.filterMap_eq_nil_iff]
  refine forall₂_congr fun v _ => ⟨?_, LocalVariable.value_render_of_not_declarable⟩
  intro hnone hdeclarable
  obtain ⟨line, hline, -⟩ := LocalVariable.exists_rendered hdeclarable
  cases hline.symm.trans hnone

theorem declares_of_mem {line : String} (h : line ∈ table.declarationLines.value) :
    ∃ v ∈ table.entries, v.Declares line := by
  obtain ⟨v, hv, hline⟩ := List.mem_filterMap.mp h
  refine ⟨v, hv, ?_⟩
  by_cases hdeclarable : v.Declarable
  · obtain ⟨other, hother, hdeclares⟩ := LocalVariable.exists_rendered hdeclarable
    cases hother.symm.trans hline
    exact hdeclares
  · rw [LocalVariable.value_render_of_not_declarable hdeclarable] at hline
    cases hline

end LocalVariableTable

end JvmClass
