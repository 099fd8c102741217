import JvmClass.Descriptor.Parser
import JvmClass.Descriptor.Printer
import Mathlib.Logic.Basic

/-!
# Descriptors and the types they spell

Each step of the parser takes the printed form of a value off the front of a text, and it takes
nothing else. Since this holds whatever follows, the steps can be put one after the other although
nothing separates the parameters of a method, and no text begins with two printed forms.
-/

namespace JvmClass

/-! ## First characters -/

namespace FieldType

/-- Types that stand under no dimensions. -/
def IsElement (t : FieldType) : Prop :=
  t.isArray = false ∧ t.WellFormed

theorem head_element {t : FieldType} (h : t.IsElement) :
    ∃ c rest, t.descriptorChars = c :: rest ∧ c ≠ '[' ∧ c ≠ ')' ∧ c ≠ 'V' := by
  cases t with
  | base type => exact ⟨type.letter, [], rfl, by cases type <;> decide⟩
  | object name => exact ⟨'L', name.toList ++ [';'], rfl, by decide⟩
  | array dimensions element => cases h.1

open Descriptor in
theorem descriptorChars_withDimensions (n : Nat) (t : FieldType) :
    (withDimensions n t).descriptorChars = List.replicate n '[' ++ t.descriptorChars := by
  cases n <;> rfl

open Descriptor in
/-- A type is an element under some number of dimensions. -/
theorem wellFormed_iff {t : FieldType} :
    t.WellFormed ↔ ∃ n element, element.IsElement ∧ withDimensions n element = t := by
  constructor
  · intro h
    cases t with
    | array dimensions element =>
        exact ⟨dimensions, element, h.2, if_neg (Nat.pos_iff_ne_zero.mp h.1)⟩
    | base type => exact ⟨0, _, ⟨rfl, h⟩, rfl⟩
    | object name => exact ⟨0, _, ⟨rfl, h⟩, rfl⟩
  · intro h
    obtain ⟨n, element, helement, rfl⟩ := h
    cases n with
    | zero => exact helement.2
    | succ n => exact ⟨Nat.succ_pos n, helement⟩

/-- No type begins like the end of a list of parameters or like the absence of a result. -/
theorem head_descriptorChars {t : FieldType} (h : t.WellFormed) :
    ∃ c rest, t.descriptorChars = c :: rest ∧ c ≠ ')' ∧ c ≠ 'V' := by
  obtain ⟨n, element, helement, rfl⟩ := wellFormed_iff.mp h
  rw [descriptorChars_withDimensions]
  cases n with
  | zero =>
      obtain ⟨c, rest, hchars, -, hne⟩ := head_element helement
      exact ⟨c, rest, hchars, hne⟩
  | succ n => exact ⟨'[', _, rfl, by decide⟩

end FieldType

namespace Descriptor

variable {α : Type}

/-- A step that takes the printed forms of some values off a text, and nothing else. -/
def Takes (step : List Char → Step α) (WellFormed : α → Prop) (print : α → List Char) : Prop :=
  ∀ text a rest, step text = .ok (a, rest) ↔ WellFormed a ∧ text = print a ++ rest

/-! ## Class names -/

/-- A text is cut where a predicate first fails. -/
theorem span_iff (p : Char → Bool) {c : Char} (hc : p c = false) (text front rest : List Char) :
    text.takeWhile p = front ∧ text.dropWhile p = c :: rest ↔
      (∀ x ∈ front, p x) ∧ text = front ++ c :: rest := by
  constructor
  · intro h
    obtain ⟨rfl, hdrop⟩ := h
    refine ⟨List.all_eq_true.mp List.all_takeWhile, ?_⟩
    rw [← hdrop, List.takeWhile_append_dropWhile]
  · intro h
    obtain ⟨hfront, rfl⟩ := h
    have hstop : ¬p c := by simp [hc]
    constructor
    · rw [List.takeWhile_append_of_pos hfront, List.takeWhile_cons_of_neg hstop, List.append_nil]
    · rw [List.dropWhile_append_of_pos hfront, List.dropWhile_cons_of_neg hstop]

theorem className_takes :
    Takes className (fun name => name.toList ≠ [] ∧ ';' ∉ name.toList)
      fun name => name.toList ++ [';'] := by
  intro text name rest
  have hpass (front : List Char) : (∀ x ∈ front, (x != ';') = true) ↔ ';' ∉ front := by
    simp only [bne_iff_ne, ne_eq]
    exact ⟨fun h hmem => h _ hmem rfl, fun h x hx heq => h (heq ▸ hx)⟩
  have hspan := span_iff (· != ';') (c := ';') rfl text name.toList rest
  rw [hpass] at hspan
  rw [List.append_assoc, List.singleton_append, and_assoc, ← hspan]
  unfold className
  constructor
  · intro h
    split at h
    · cases h
    · rename_i c after hdrop
      have hc : c = ';' := by
        have hstop := List.head?_dropWhile_not (· != ';') text
        rw [hdrop] at hstop
        simpa using hstop
      split at h
      · cases h
      · rename_i htake
        cases h
        rw [String.toList_ofList, hdrop, hc]
        exact ⟨htake, rfl, rfl⟩
  · intro h
    obtain ⟨hne, htake, hdrop⟩ := h
    rw [hdrop, htake]
    dsimp only
    split
    · contradiction
    · rw [String.ofList_toList]

/-! ## Types -/

theorem elementType_takes : Takes elementType FieldType.IsElement FieldType.descriptorChars := by
  intro text t rest
  constructor
  · intro h
    unfold elementType at h
    split at h
    · cases h
    rename_i c after
    by_cases hc : c = 'L'
    · rw [if_pos hc] at h
      split at h
      · rename_i name rest' hname
        cases h
        obtain ⟨hwf, rfl⟩ := (className_takes _ _ _).mp hname
        exact ⟨⟨rfl, hwf⟩, by rw [hc]; rfl⟩
      · cases h
    · rw [if_neg hc] at h
      split at h
      · rename_i type htype
        cases h
        rw [← BaseType.letter_of_ofLetter? htype]
        exact ⟨⟨rfl, trivial⟩, rfl⟩
      · cases h
  · intro h
    obtain ⟨⟨harray, hwf⟩, rfl⟩ := h
    cases t with
    | base type =>
        have hletter : type.letter ≠ 'L' := by cases type <;> decide
        change elementType (type.letter :: rest) = _
        rw [elementType, if_neg hletter, BaseType.ofLetter?_letter]
    | object name =>
        have hname := (className_takes (name.toList ++ [';'] ++ rest) name rest).mpr ⟨hwf, rfl⟩
        change elementType ('L' :: (name.toList ++ [';'] ++ rest)) = _
        rw [elementType, if_pos rfl, hname]
    | array dimensions element => cases harray

theorem fieldType_takes : Takes fieldType FieldType.WellFormed FieldType.descriptorChars := by
  intro text t rest
  constructor
  · intro h
    unfold fieldType at h
    split at h
    · rename_i element rest' helement
      cases h
      obtain ⟨hwf, hchars⟩ := (elementType_takes _ _ _).mp helement
      have hbrackets : List.replicate (text.takeWhile (· == '[')).length '[' =
          text.takeWhile (· == '[') := by
        symm
        rw [List.eq_replicate_iff]
        refine ⟨rfl, fun x hx => ?_⟩
        simpa using List.all_eq_true.mp List.all_takeWhile x hx
      refine ⟨FieldType.wellFormed_iff.mpr ⟨_, element, hwf, rfl⟩, ?_⟩
      rw [FieldType.descriptorChars_withDimensions, hbrackets, List.append_assoc, ← hchars,
        List.takeWhile_append_dropWhile]
    · cases h
  · intro h
    obtain ⟨hwf, rfl⟩ := h
    obtain ⟨n, element, helement, rfl⟩ := FieldType.wellFormed_iff.mp hwf
    obtain ⟨c, after, hchars, hc, -⟩ := FieldType.head_element helement
    have hstop : (c == '[') = false := by simpa using hc
    have hpass : ∀ x ∈ List.replicate n '[', (x == '[') = true := by
      intro x hx
      rw [List.eq_of_mem_replicate hx]
      rfl
    obtain ⟨htake, hdrop⟩ :=
      (span_iff (· == '[') hstop _ (List.replicate n '[') (after ++ rest)).mpr ⟨hpass, rfl⟩
    have hread : elementType (c :: (after ++ rest)) = .ok (element, rest) := by
      rw [elementType_takes, hchars]
      exact ⟨helement, rfl⟩
    rw [FieldType.descriptorChars_withDimensions, hchars, List.append_assoc, List.cons_append]
    unfold fieldType
    rw [hdrop, htake, hread, List.length_replicate]

/-! ## Methods -/

section

variable {text rest fault : List Char} {first : FieldType}
  (hopen : ∀ rest, text = ')' :: rest → False)
include hopen

theorem parameters_of_error (h : fieldType text = .error fault) :
    parameters text = .error fault := by
  rw [parameters.eq_2 _ hopen]
  split
  · rename_i hread
    rw [h] at hread
    cases hread
    rfl
  · rename_i hread
    rw [h] at hread
    cases hread

theorem parameters_of_ok (h : fieldType text = .ok (first, rest)) :
    parameters text =
      match parameters rest with
      | .error rest => .error rest
      | .ok (others, rest) => .ok (first :: others, rest) := by
  rw [parameters.eq_2 _ hopen]
  split
  · rename_i hread
    rw [h] at hread
    cases hread
  · rename_i hread
    rw [h] at hread
    cases hread
    rfl

end

theorem not_closed {t : FieldType} (h : t.WellFormed) (after rest : List Char) :
    t.descriptorChars ++ after = ')' :: rest → False := by
  obtain ⟨c, tail, hchars, hc, -⟩ := FieldType.head_descriptorChars h
  rw [hchars]
  intro heq
  exact hc (List.cons.inj heq).1

/-- The induction is on the text, of which every parameter takes a part. -/
theorem parameters_sound {text rest : List Char} {ts : List FieldType}
    (h : parameters text = .ok (ts, rest)) :
    (∀ t ∈ ts, t.WellFormed) ∧
      text = ts.flatMap FieldType.descriptorChars ++ ')' :: rest := by
  induction text using parameters.induct generalizing ts with
  | case1 after =>
      rw [parameters] at h
      cases h
      exact ⟨List.forall_mem_nil _, rfl⟩
  | case2 text hopen fault hfault =>
      rw [parameters_of_error hopen hfault] at h
      cases h
  | case3 text hopen first after hfirst hlt fault hfault ih =>
      rw [parameters_of_ok hopen hfirst, hfault] at h
      cases h
  | case4 text hopen first after hfirst hlt others rest' hothers ih =>
      rw [parameters_of_ok hopen hfirst, hothers] at h
      cases h
      obtain ⟨hwf, rfl⟩ := (fieldType_takes _ _ _).mp hfirst
      obtain ⟨hrest, rfl⟩ := ih hothers
      rw [List.forall_mem_cons, List.flatMap_cons, List.append_assoc]
      exact ⟨⟨hwf, hrest⟩, rfl⟩

theorem parameters_complete {ts : List FieldType} (h : ∀ t ∈ ts, t.WellFormed)
    (rest : List Char) :
    parameters (ts.flatMap FieldType.descriptorChars ++ ')' :: rest) = .ok (ts, rest) := by
  induction ts with
  | nil =>
      rw [List.flatMap_nil, List.nil_append, parameters]
  | cons t ts ih =>
      rw [List.forall_mem_cons] at h
      have hfirst := (fieldType_takes
        (t.descriptorChars ++ (ts.flatMap FieldType.descriptorChars ++ ')' :: rest)) _ _).mpr
        ⟨h.1, rfl⟩
      rw [List.flatMap_cons, List.append_assoc, parameters_of_ok (not_closed h.1 _) hfirst, ih h.2]

theorem result?_takes :
    Takes result? (fun t? => ∀ t ∈ t?, t.WellFormed) MethodDescriptor.resultChars := by
  intro text t? rest
  constructor
  · intro h
    unfold result? at h
    split at h
    · cases h
      exact ⟨by simp, rfl⟩
    · split at h
      · rename_i t rest' hread
        cases h
        obtain ⟨hwf, rfl⟩ := (fieldType_takes _ _ _).mp hread
        refine ⟨?_, rfl⟩
        intro u hu
        cases hu
        exact hwf
      · cases h
  · intro h
    obtain ⟨hwf, rfl⟩ := h
    cases t? with
    | none => rfl
    | some t =>
        have hread := (fieldType_takes (t.descriptorChars ++ rest) _ _).mpr ⟨hwf t rfl, rfl⟩
        obtain ⟨c, tail, hchars, -, hc⟩ := FieldType.head_descriptorChars (hwf t rfl)
        rw [MethodDescriptor.resultChars]
        unfold result?
        split
        · rename_i heq
          rw [hchars] at heq
          exact absurd (List.cons.inj heq).1 hc
        · rw [hread]

theorem method_takes :
    Takes method MethodDescriptor.WellFormed MethodDescriptor.descriptorChars := by
  intro text m rest
  constructor
  · intro h
    unfold method at h
    split at h
    · split at h
      · cases h
      rename_i parameters after hparameters
      split at h
      · cases h
      rename_i result? rest' hresult
      cases h
      obtain ⟨hps, rfl⟩ := parameters_sound hparameters
      obtain ⟨hr, rfl⟩ := (result?_takes _ _ _).mp hresult
      refine ⟨⟨hps, hr⟩, ?_⟩
      rw [MethodDescriptor.descriptorChars]
      simp only [List.cons_append, List.append_assoc]
    · cases h
  · intro h
    obtain ⟨⟨hps, hr⟩, rfl⟩ := h
    have hparameters := parameters_complete hps (MethodDescriptor.resultChars m.result? ++ rest)
    have hresult := (result?_takes (MethodDescriptor.resultChars m.result? ++ rest) _ _).mpr
      ⟨hr, rfl⟩
    rw [MethodDescriptor.descriptorChars]
    simp only [List.cons_append, List.append_assoc, method, hparameters, hresult]

/-! ## Whole descriptors -/

/-- A parser that inverts printing on well-formed values and reports every other text. -/
structure Inverts (parse : String → Except Error α) (WellFormed : α → Prop)
    (print : α → String) : Prop where
  ok_iff : ∀ d a, parse d = .ok a ↔ WellFormed a ∧ d = print a
  unique : ∀ d a b, WellFormed a ∧ d = print a → WellFormed b ∧ d = print b → a = b
  malformed : ∀ d, (¬∃ a, WellFormed a ∧ d = print a) →
    ∃ offset, parse d = .error (.malformedDescriptor d offset)

theorem whole_eq_ok_iff {step : List Char → Step α} {d : String} {a : α} :
    whole step d = .ok a ↔ step d.toList = .ok (a, []) := by
  unfold whole
  constructor
  · intro h
    split at h
    · rename_i hstep
      cases h
      exact hstep
    · cases h
    · cases h
  · intro h
    rw [h]

theorem whole_cases (step : List Char → Step α) (d : String) :
    (∃ a, whole step d = .ok a) ∨
      ∃ offset, whole step d = .error (.malformedDescriptor d offset) := by
  unfold whole
  split
  · exact .inl ⟨_, rfl⟩
  · exact .inr ⟨_, rfl⟩
  · exact .inr ⟨_, rfl⟩

theorem Takes.inverts {step : List Char → Step α} {WellFormed : α → Prop} {print : α → List Char}
    (h : Takes step WellFormed print) :
    Inverts (whole step) WellFormed fun a => String.ofList (print a) := by
  have hok (d : String) (a : α) :
      whole step d = .ok a ↔ WellFormed a ∧ d = String.ofList (print a) := by
    rw [whole_eq_ok_iff, h, List.append_nil, ← String.toList_inj, String.toList_ofList]
  constructor
  · exact hok
  · intro d a b ha hb
    rw [← hok] at ha hb
    exact Except.ok.inj (ha.symm.trans hb)
  · intro d hnone
    apply (whole_cases step d).resolve_left
    intro hread
    obtain ⟨a, ha⟩ := hread
    exact hnone ⟨a, (hok d a).mp ha⟩

end Descriptor

/-- The texts accepted as descriptors are the printed types and nothing else, each read as the one
type that is printed so. -/
theorem parse_inverts_descriptor :
    Descriptor.Inverts FieldType.parse FieldType.WellFormed FieldType.descriptor ∧
      Descriptor.Inverts MethodDescriptor.parse MethodDescriptor.WellFormed
        MethodDescriptor.descriptor :=
  ⟨Descriptor.fieldType_takes.inverts, Descriptor.method_takes.inverts⟩

end JvmClass
