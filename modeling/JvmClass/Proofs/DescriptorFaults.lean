import JvmClass.Proofs.DescriptorGrammar
import Mathlib.Data.List.TakeWhile

/-!
# Places of faults in descriptors

A descriptor that is refused is refused at the first character after which nothing could have made
it a descriptor. This takes two facts of every step: the text before the fault can be completed, and
the character at the fault is refused at its place whatever follows it. Both pass from a step to the
steps built on it.
-/

namespace JvmClass

namespace Descriptor

variable {α β : Type}

/-! ## Faults of steps -/

/-- Some text is taken as a whole. -/
def Accepts (step : List Char → Step α) (text : List Char) : Prop :=
  ∃ a, step text = .ok (a, [])

/-- The fault of a step lies behind `front`: some text that begins so is accepted, and the first
character of `fault` is refused at its place whatever follows it. -/
structure FaultBehind (step : List Char → Step α) (front fault : List Char) : Prop where
  viable : ∃ more, Accepts step (front ++ more)
  refused : ∀ c rest, fault = c :: rest → ∀ more, step (front ++ c :: more) = .error (c :: more)

/-- What a step gives for a fault is the end of the text from the fault on. -/
def Located (step : List Char → Step α) (text fault : List Char) : Prop :=
  ∃ front, text = front ++ fault ∧ FaultBehind step front fault

theorem located_nil {step : List Char → Step α} (h : ∃ more, Accepts step more) :
    Located step [] [] :=
  ⟨[], rfl, h, fun _ _ hfault => by cases hfault⟩

/-- A step that does as another one on all texts with the same first character has its faults. -/
theorem Located.congr {step : List Char → Step α} {step' : List Char → Step β} {c : Char}
    {text fault : List Char} (h : Located step (c :: text) fault)
    (hsome : ∃ more, Accepts step' more)
    (herror : ∀ more fault', step (c :: more) = .error fault' → step' (c :: more) = .error fault')
    (hok : ∀ more, Accepts step (c :: more) → ∃ more', Accepts step' (c :: more ++ more')) :
    Located step' (c :: text) fault := by
  obtain ⟨front, htext, ⟨more, haccepts⟩, hrefused⟩ := h
  refine ⟨front, htext, ?_⟩
  cases front with
  | nil =>
      refine ⟨hsome, ?_⟩
      intro x rest hfault more
      have hx : c = x := (List.cons.inj (htext.trans hfault)).1
      rw [← hx] at hfault ⊢
      exact herror more _ (hrefused c rest hfault more)
  | cons x front =>
      obtain ⟨rfl, -⟩ := List.cons.inj htext
      obtain ⟨more', haccepts'⟩ := hok _ haccepts
      refine ⟨⟨more ++ more', ?_⟩, ?_⟩
      · rw [← List.append_assoc]
        exact haccepts'
      · intro y rest hfault more
        exact herror _ _ (hrefused y rest hfault more)

/-- A step that goes on with another one after some text has its faults there. -/
theorem Located.after {step : List Char → Step α} {step' : List Char → Step β}
    {text fault : List Char} (h : Located step text fault) (taken : List Char)
    (herror : ∀ more fault', step more = .error fault' → step' (taken ++ more) = .error fault')
    (hok : ∀ more, Accepts step more → ∃ more', Accepts step' (taken ++ (more ++ more'))) :
    Located step' (taken ++ text) fault := by
  obtain ⟨front, rfl, ⟨more, haccepts⟩, hrefused⟩ := h
  refine ⟨taken ++ front, (List.append_assoc _ _ _).symm, ?_, ?_⟩
  · obtain ⟨more', haccepts'⟩ := hok _ haccepts
    refine ⟨more ++ more', ?_⟩
    rw [List.append_assoc, ← List.append_assoc front]
    exact haccepts'
  · intro c rest hfault more
    rw [List.append_assoc]
    exact herror _ _ (hrefused c rest hfault more)

/-! ## Types -/

theorem className_of_not_mem {text : List Char} (hne : text ≠ []) (hnot : ';' ∉ text) :
    className (text ++ [';']) = .ok (String.ofList text, []) := by
  apply (className_takes _ _ _).mpr
  simp only [String.toList_ofList, List.append_nil]
  exact ⟨⟨hne, hnot⟩, trivial⟩

/-- A text without a semicolon lacks its end, and a semicolon at once lacks a name before it. -/
theorem className_located {text fault : List Char} (h : className text = .error fault) :
    Located className text fault := by
  have hsome : Accepts className ['a', ';'] := ⟨"a", rfl⟩
  unfold className at h
  split at h
  · rename_i hdrop
    cases h
    refine ⟨text, (List.append_nil text).symm, ?_, fun _ _ hfault => by cases hfault⟩
    by_cases hne : text = []
    · rw [hne]
      exact ⟨_, hsome⟩
    · have hnot : ';' ∉ text := fun hmem => by
        simpa using List.dropWhile_eq_nil_iff.mp hdrop ';' hmem
      exact ⟨[';'], _, className_of_not_mem hne hnot⟩
  · split at h
    · rename_i htake
      cases h
      refine ⟨[], rfl, ⟨_, hsome⟩, ?_⟩
      intro c rest hfault more
      have hc : c = ';' := by
        by_cases hc : c = ';'
        · exact hc
        · rw [hfault, List.takeWhile_cons_of_pos (by simpa using hc)] at htake
          cases htake
      rw [hc]
      rfl
    · cases h

theorem accepts_elementType_int : Accepts elementType ['I'] :=
  ⟨.base .int, rfl⟩

theorem elementType_object_error {text fault : List Char} :
    elementType ('L' :: text) = .error fault ↔ className text = .error fault := by
  rw [elementType, if_pos rfl]
  cases className text <;> simp

theorem accepts_elementType_object {text : List Char} (h : Accepts className text) :
    Accepts elementType ('L' :: text) := by
  obtain ⟨name, hok⟩ := h
  refine ⟨.object name, ?_⟩
  rw [elementType, if_pos rfl, hok]

theorem elementType_located {text fault : List Char} (h : elementType text = .error fault) :
    Located elementType text fault := by
  cases text with
  | nil =>
      cases h
      exact located_nil ⟨_, accepts_elementType_int⟩
  | cons c text =>
      by_cases hc : c = 'L'
      · rw [hc] at h ⊢
        apply (className_located (elementType_object_error.mp h)).after ['L']
        · intro more fault' herror
          exact elementType_object_error.mpr herror
        · intro more haccepts
          refine ⟨[], ?_⟩
          rw [List.append_nil]
          exact accepts_elementType_object haccepts
      · rw [elementType, if_neg hc] at h
        split at h
        · cases h
        · rename_i hletter
          cases h
          refine ⟨[], rfl, ⟨_, accepts_elementType_int⟩, ?_⟩
          intro x rest hfault more
          rw [← (List.cons.inj hfault).1, List.nil_append, elementType, if_neg hc, hletter]

theorem accepts_fieldType_int : Accepts fieldType ['I'] :=
  ⟨.base .int, rfl⟩

/-- Without an opening bracket a type is an element. -/
theorem fieldType_of_ne {c : Char} (hc : c ≠ '[') (text : List Char) :
    fieldType (c :: text) = elementType (c :: text) := by
  have hstop : (c == '[') = false := by simpa using hc
  simp only [fieldType, List.dropWhile_cons, List.takeWhile_cons, hstop, Bool.false_eq_true,
    if_false]
  cases elementType (c :: text) <;> rfl

theorem fieldType_bracket_error {text fault : List Char} :
    fieldType ('[' :: text) = .error fault ↔ fieldType text = .error fault := by
  rw [fieldType, fieldType, List.dropWhile_cons_of_pos rfl]
  cases elementType (text.dropWhile (· == '[')) <;> simp

/-- What the parser leaves of a text it leaves also behind a further bracket. -/
theorem fieldType_bracket_ok {text rest : List Char} {t : FieldType}
    (h : fieldType text = .ok (t, rest)) : ∃ t', fieldType ('[' :: text) = .ok (t', rest) := by
  rw [fieldType, List.dropWhile_cons_of_pos rfl]
  rw [fieldType] at h
  split at h
  · cases h
    exact ⟨_, rfl⟩
  · cases h

theorem fieldType_located {text fault : List Char} (h : fieldType text = .error fault) :
    Located fieldType text fault := by
  induction text with
  | nil =>
      cases h
      exact located_nil ⟨_, accepts_fieldType_int⟩
  | cons c text ih =>
      by_cases hc : c = '['
      · rw [hc] at h ⊢
        apply (ih (fieldType_bracket_error.mp h)).after ['[']
        · intro more fault' herror
          exact fieldType_bracket_error.mpr herror
        · intro more haccepts
          obtain ⟨t, hok⟩ := haccepts
          refine ⟨[], ?_⟩
          rw [List.append_nil]
          exact fieldType_bracket_ok hok
      · rw [fieldType_of_ne hc] at h
        apply (elementType_located h).congr ⟨_, accepts_fieldType_int⟩
        · intro more fault' herror
          rwa [fieldType_of_ne hc]
        · intro more haccepts
          obtain ⟨t, hok⟩ := haccepts
          refine ⟨[], t, ?_⟩
          rwa [List.append_nil, fieldType_of_ne hc]

/-! ## Methods -/

theorem accepts_parameters_nil : Accepts parameters [')'] :=
  ⟨[], parameters_complete (List.forall_mem_nil _) []⟩

/-- One type and a closing parenthesis are parameters. -/
theorem accepts_parameters_close {text : List Char} (h : Accepts fieldType text) :
    Accepts parameters (text ++ [')']) := by
  obtain ⟨t, hok⟩ := h
  obtain ⟨hwf, rfl⟩ := (fieldType_takes _ _ _).mp hok
  have hone := parameters_complete (List.forall_mem_singleton.mpr hwf) []
  rw [List.flatMap_singleton] at hone
  refine ⟨[t], ?_⟩
  rwa [List.append_nil]

theorem parameters_located {text fault : List Char} (h : parameters text = .error fault) :
    Located parameters text fault := by
  -- The induction is on the text, of which every parameter takes a part.
  induction text using parameters.induct with
  | case1 after =>
      rw [parameters] at h
      cases h
  | case2 text hopen fault' hfault =>
      rw [parameters_of_error hopen hfault] at h
      cases h
      cases text with
      | nil =>
          cases hfault
          exact located_nil ⟨_, accepts_parameters_nil⟩
      | cons c text =>
          have hc : c ≠ ')' := fun hc => hopen text (by rw [hc])
          apply (fieldType_located hfault).congr ⟨_, accepts_parameters_nil⟩
          · intro more fault' herror
            exact parameters_of_error (fun _ heq => hc (List.cons.inj heq).1) herror
          · intro more haccepts
            exact ⟨[')'], accepts_parameters_close haccepts⟩
  | case3 text hopen first after hfirst hlt fault' hfault ih =>
      rw [parameters_of_ok hopen hfirst, hfault] at h
      cases h
      obtain ⟨hwf, rfl⟩ := (fieldType_takes _ _ _).mp hfirst
      have hnext (more : List Char) := parameters_of_ok (not_closed hwf more)
        ((fieldType_takes (first.descriptorChars ++ more) _ _).mpr ⟨hwf, rfl⟩)
      apply (ih hfault).after first.descriptorChars
      · intro more fault' herror
        rw [hnext, herror]
      · intro more haccepts
        obtain ⟨others, hok⟩ := haccepts
        refine ⟨[], first :: others, ?_⟩
        rw [List.append_nil, hnext, hok]
  | case4 text hopen first after hfirst hlt others rest hothers ih =>
      rw [parameters_of_ok hopen hfirst, hothers] at h
      cases h

theorem accepts_result?_void : Accepts result? ['V'] :=
  ⟨none, rfl⟩

section

variable {c : Char} (hc : c ≠ 'V')
include hc

theorem result?_error {text fault : List Char} :
    result? (c :: text) = .error fault ↔ fieldType (c :: text) = .error fault := by
  unfold result?
  split
  · rename_i heq
    exact absurd (List.cons.inj heq).1 hc
  · cases fieldType (c :: text) <;> simp

theorem accepts_result?_type {text : List Char} (h : Accepts fieldType (c :: text)) :
    Accepts result? (c :: text) := by
  obtain ⟨t, hok⟩ := h
  refine ⟨some t, ?_⟩
  unfold result?
  split
  · rename_i heq
    exact absurd (List.cons.inj heq).1 hc
  · rw [hok]

end

theorem result?_located {text fault : List Char} (h : result? text = .error fault) :
    Located result? text fault := by
  cases text with
  | nil =>
      cases h
      exact located_nil ⟨_, accepts_result?_void⟩
  | cons c text =>
      by_cases hc : c = 'V'
      · rw [hc, result?] at h
        cases h
      · apply (fieldType_located ((result?_error hc).mp h)).congr ⟨_, accepts_result?_void⟩
        · intro more fault' herror
          exact (result?_error hc).mpr herror
        · intro more haccepts
          refine ⟨[], ?_⟩
          rw [List.append_nil]
          exact accepts_result?_type hc haccepts

/-- What stands before the result of a method. -/
def opening (parameters : List FieldType) : List Char :=
  '(' :: (parameters.flatMap FieldType.descriptorChars ++ [')'])

theorem method_opening {ps : List FieldType} (hps : ∀ t ∈ ps, t.WellFormed) (rest : List Char) :
    method (opening ps ++ rest) =
      match result? rest with
      | .error rest => .error rest
      | .ok (r?, rest) => .ok (⟨ps, r?⟩, rest) := by
  have hparameters := parameters_complete hps rest
  rw [opening, List.cons_append, List.append_assoc, List.singleton_append]
  cases hresult : result? rest <;> simp only [method, hparameters, hresult]

theorem accepts_method_void : Accepts method ['(', ')', 'V'] :=
  ⟨⟨[], none⟩, method_opening (List.forall_mem_nil _) ['V']⟩

theorem method_of_ne {c : Char} (hc : c ≠ '(') (text : List Char) :
    method (c :: text) = .error (c :: text) := by
  rw [method.eq_2]
  intro rest heq
  exact hc (List.cons.inj heq).1

theorem method_parameters_error {text fault : List Char} (h : parameters text = .error fault) :
    method ('(' :: text) = .error fault := by
  rw [method, h]

/-- The shortest result completes a method whose parameters are complete. -/
theorem accepts_method_parameters {text : List Char} (h : Accepts parameters text) :
    Accepts method ('(' :: (text ++ ['V'])) := by
  obtain ⟨ps, hok⟩ := h
  obtain ⟨hps, rfl⟩ := parameters_sound hok
  exact ⟨⟨ps, none⟩, method_opening hps ['V']⟩

theorem method_located {text fault : List Char} (h : method text = .error fault) :
    Located method text fault := by
  cases text with
  | nil =>
      cases h
      exact located_nil ⟨_, accepts_method_void⟩
  | cons c text =>
      by_cases hc : c = '('
      · rw [hc] at h ⊢
        cases hparameters : parameters text with
        | error fault' =>
            rw [method_parameters_error hparameters] at h
            cases h
            apply (parameters_located hparameters).after ['(']
            · intro more fault' herror
              exact method_parameters_error herror
            · intro more haccepts
              exact ⟨['V'], accepts_method_parameters haccepts⟩
        | ok read =>
            obtain ⟨ps, rest⟩ := read
            obtain ⟨hps, rfl⟩ := parameters_sound hparameters
            have htext : '(' :: (ps.flatMap FieldType.descriptorChars ++ ')' :: rest) =
                opening ps ++ rest := by
              rw [opening, List.cons_append, List.append_assoc, List.singleton_append]
            rw [htext] at h ⊢
            rw [method_opening hps] at h
            cases hresult : result? rest with
            | error fault' =>
                rw [hresult] at h
                cases h
                apply (result?_located hresult).after (opening ps)
                · intro more fault' herror
                  rw [method_opening hps, herror]
                · intro more haccepts
                  obtain ⟨r?, hok⟩ := haccepts
                  refine ⟨[], ⟨ps, r?⟩, ?_⟩
                  rw [List.append_nil, method_opening hps, hok]
            | ok read =>
                rw [hresult] at h
                cases h
      · rw [method_of_ne hc] at h
        cases h
        refine ⟨[], rfl, ⟨_, accepts_method_void⟩, ?_⟩
        intro x rest hfault more
        rw [← (List.cons.inj hfault).1]
        exact method_of_ne hc more

/-! ## Whole descriptors -/

/-- Some accepted text begins so. -/
def Viable (parse : String → Except Error α) (front : String) : Prop :=
  ∃ more a, parse (front ++ more) = .ok a

/-- A beginning of a text that can be continued to an accepted one, while no longer one can. -/
structure LongestViable (parse : String → Except Error α) (d front : String) : Prop where
  begins : ∃ rest, d = front ++ rest
  viable : Viable parse front
  longest : ∀ other rest, d = other ++ rest → Viable parse other →
    other.utf8ByteSize ≤ front.utf8ByteSize

theorem viable_whole {step : List Char → Step α} {front more : List Char}
    (h : Accepts step (front ++ more)) : Viable (whole step) (String.ofList front) := by
  obtain ⟨a, hok⟩ := h
  refine ⟨String.ofList more, a, ?_⟩
  rw [whole_eq_ok_iff, String.toList_append, String.toList_ofList, String.toList_ofList]
  exact hok

/-- A beginning that goes beyond the fault is not viable. -/
theorem longestViable_whole {step : List Char → Step α} {d : String} {front rest : List Char}
    (hd : d.toList = front ++ rest) (hviable : ∃ more, Accepts step (front ++ more))
    (hrefused : ∀ c tail, rest = c :: tail → ∀ more, ¬Accepts step (front ++ c :: more)) :
    LongestViable (whole step) d (String.ofList front) where
  begins := by
    refine ⟨String.ofList rest, ?_⟩
    rw [← String.ofList_append, ← hd, String.ofList_toList]
  viable := by
    obtain ⟨more, haccepts⟩ := hviable
    exact viable_whole haccepts
  longest other tail hother hviable' := by
    rw [hother, String.toList_append] at hd
    obtain ⟨between, hfront, -⟩ | ⟨beyond, hfront, hrest⟩ := List.append_eq_append_iff.mp hd
    · rw [hfront, String.ofList_append, String.ofList_toList, String.utf8ByteSize_append]
      exact Nat.le_add_right _ _
    · cases beyond with
      | nil =>
          rw [List.append_nil] at hfront
          rw [← hfront, String.ofList_toList]
      | cons c beyond =>
          obtain ⟨more, a, hok⟩ := hviable'
          rw [whole_eq_ok_iff, String.toList_append, hfront, List.append_assoc] at hok
          exact absurd ⟨a, hok⟩ (hrefused c (beyond ++ tail.toList) hrest _)

/-- An offset in a text that is the length of the longest viable beginning. -/
structure FaultOffset (parse : String → Except Error α) (d : String) (offset : Nat) : Prop where
  longest : ∃ front, LongestViable parse d front ∧ offset = front.utf8ByteSize
  le_size : offset ≤ d.utf8ByteSize
  boundary : (String.Pos.Raw.mk offset).IsValid d
  eq_size_iff : offset = d.utf8ByteSize ↔ Viable parse d

theorem LongestViable.size_le {parse : String → Except Error α} {d front : String}
    (h : LongestViable parse d front) : front.utf8ByteSize ≤ d.utf8ByteSize := by
  obtain ⟨rest, rfl⟩ := h.begins
  rw [String.utf8ByteSize_append]
  exact Nat.le_add_right _ _

theorem LongestViable.faultOffset {parse : String → Except Error α} {d front : String}
    (h : LongestViable parse d front) : FaultOffset parse d front.utf8ByteSize where
  longest := ⟨front, h, rfl⟩
  le_size := h.size_le
  boundary := by
    obtain ⟨rest, hd⟩ := h.begins
    exact String.Pos.Raw.isValid_iff_exists_append.mpr ⟨front, rest, hd, rfl⟩
  eq_size_iff := by
    constructor
    · intro hsize
      obtain ⟨rest, hd⟩ := h.begins
      have hrest : rest = "" := by
        rw [hd, String.utf8ByteSize_append] at hsize
        exact String.utf8ByteSize_eq_zero_iff.mp (by omega)
      rw [hd, hrest, String.append_empty]
      exact h.viable
    · intro hviable
      apply Nat.le_antisymm h.size_le
      exact h.longest d "" String.append_empty.symm hviable

theorem whole_faultOffset {step : List Char → Step α} {WellFormed : α → Prop}
    {print : α → List Char} (htakes : Takes step WellFormed print)
    (hlocated : ∀ text fault, step text = .error fault → Located step text fault) {d : String}
    {e : Error} (h : whole step d = .error e) :
    ∃ offset, e = .malformedDescriptor d offset ∧ FaultOffset (whole step) d offset := by
  unfold whole at h
  split at h
  · cases h
  · rename_i a rest hne hstep
    cases h
    -- What was taken is accepted as it stands, and is all that is taken of any longer text.
    obtain ⟨hwf, hd⟩ := (htakes _ _ _).mp hstep
    have hviable : ∃ more, Accepts step (print a ++ more) :=
      ⟨[], a, (htakes _ _ _).mpr ⟨hwf, rfl⟩⟩
    have hlongest := longestViable_whole hd hviable (by
      intro c tail _ more haccepts
      obtain ⟨b, hok⟩ := haccepts
      rw [(htakes _ _ _).mpr ⟨hwf, rfl⟩] at hok
      cases hok)
    exact ⟨_, malformed_eq hd, hlongest.faultOffset⟩
  · rename_i fault hstep
    cases h
    obtain ⟨front, hd, hviable, hrefused⟩ := hlocated _ _ hstep
    have hlongest := longestViable_whole hd hviable (by
      intro c tail hfault more haccepts
      obtain ⟨b, hok⟩ := haccepts
      rw [hrefused c tail hfault more] at hok
      cases hok)
    exact ⟨_, malformed_eq hd, hlongest.faultOffset⟩

end Descriptor

/-- A descriptor that is refused is reported with the length of its longest beginning that could
have been continued to one that is accepted. -/
theorem parse_error_offset (d : String) (e : Error) :
    (FieldType.parse d = .error e →
      ∃ offset, e = .malformedDescriptor d offset ∧
        Descriptor.FaultOffset FieldType.parse d offset) ∧
    (MethodDescriptor.parse d = .error e →
      ∃ offset, e = .malformedDescriptor d offset ∧
        Descriptor.FaultOffset MethodDescriptor.parse d offset) := by
  constructor
  · intro h
    exact Descriptor.whole_faultOffset Descriptor.fieldType_takes
      (fun _ _ => Descriptor.fieldType_located) h
  · intro h
    exact Descriptor.whole_faultOffset Descriptor.method_takes
      (fun _ _ => Descriptor.method_located) h

/-- A class name that lacks its semicolon after a character of two bytes, and a parameter that lacks
its element type. -/
theorem parse_error_offset_at :
    FieldType.parse "[Lé" = .error (.malformedDescriptor "[Lé" 4) ∧
      Descriptor.FaultOffset FieldType.parse "[Lé" 4 ∧
      MethodDescriptor.parse "(Lé;[)V" = .error (.malformedDescriptor "(Lé;[)V" 6) ∧
      Descriptor.FaultOffset MethodDescriptor.parse "(Lé;[)V" 6 := by
  have hfield : FieldType.parse "[Lé" = .error (.malformedDescriptor "[Lé" 4) := rfl
  have hfirst : Descriptor.fieldType "Lé;[)V".toList = .ok (.object "é", "[)V".toList) := rfl
  have hsecond : Descriptor.fieldType "[)V".toList = .error ")V".toList := rfl
  have hparameters : Descriptor.parameters "Lé;[)V".toList = .error ")V".toList := by
    rw [Descriptor.parameters_of_ok (by simp) hfirst,
      Descriptor.parameters_of_error (by simp) hsecond]
  have hstep : Descriptor.method "(Lé;[)V".toList = .error ")V".toList := by
    change Descriptor.method ('(' :: "Lé;[)V".toList) = .error ")V".toList
    rw [Descriptor.method, hparameters]
  have hmethod : MethodDescriptor.parse "(Lé;[)V" =
      .error (.malformedDescriptor "(Lé;[)V" 6) := by
    rw [MethodDescriptor.parse, Descriptor.whole, hstep]
    rfl
  obtain ⟨offset, heq, hoffset⟩ := (parse_error_offset _ _).1 hfield
  obtain ⟨offset', heq', hoffset'⟩ := (parse_error_offset _ _).2 hmethod
  cases heq
  cases heq'
  exact ⟨hfield, hoffset, hmethod, hoffset'⟩

end JvmClass
