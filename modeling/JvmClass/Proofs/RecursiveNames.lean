import JvmClass.Descriptor.SourceName
import JvmClass.Proofs.Declarations
import Mathlib.Tactic.MkIffOfInductiveProp

/-!
# Names by the recursive rule

The class-file format names the types of descriptors by recursion: an array is a bracket before the
descriptor of its component, and its name is that of the component with a pair of brackets. The
parser counts the brackets first and never sees a component. Both give the same names to the same
texts, and a further bracket moves the fault of a text that has none by one place.
-/

namespace JvmClass

/-! ## Names of types -/

namespace FieldType

/-- As many pairs of brackets. -/
def brackets (dimensions : Nat) : String :=
  String.join (List.replicate dimensions "[]")

theorem brackets_add (m n : Nat) : brackets (m + n) = brackets m ++ brackets n := by
  rw [brackets, List.replicate_add, String.join_append]
  rfl

theorem brackets_succ (n : Nat) : brackets (n + 1) = brackets n ++ "[]" :=
  brackets_add n 1

theorem isArray_innermost (t : FieldType) : t.innermost.isArray = false := by
  induction t with
  | base type => rfl
  | object className => rfl
  | array dimensions element ih => exact ih

/-- The dimensions of nested arrays add up, although each array adds its own to the name of its
element. -/
theorem sourceName_eq_innermost (t : FieldType) :
    t.sourceName = t.innermost.sourceName ++ brackets t.totalDimensions := by
  induction t with
  | base type => exact String.append_empty.symm
  | object className => exact String.append_empty.symm
  | array dimensions element ih =>
      calc
        (array dimensions element).sourceName = element.sourceName ++ brackets dimensions := rfl
        _ = element.innermost.sourceName ++
            (brackets element.totalDimensions ++ brackets dimensions) := by
          rw [ih, String.append_assoc]
        _ = element.innermost.sourceName ++ brackets (dimensions + element.totalDimensions) := by
          rw [← brackets_add, Nat.add_comm]

end FieldType

namespace Descriptor

open FieldType

theorem sourceName_withDimensions (n : Nat) (element : FieldType) :
    (withDimensions n element).sourceName = element.sourceName ++ brackets n := by
  cases n with
  | zero => exact String.append_empty.symm
  | succ n => rfl

/-! ## The rule -/

/-- The base types by their letters. -/
def baseNames : List (Char × String) :=
  [('B', "byte"), ('C', "char"), ('D', "double"), ('F', "float"), ('I', "int"), ('J', "long"),
    ('S', "short"), ('Z', "boolean")]

theorem mem_baseNames_iff {letter : Char} {name : String} :
    (letter, name) ∈ baseNames ↔ ∃ type : BaseType, type.letter = letter ∧ type.keyword = name := by
  constructor
  · intro h
    have hall : baseNames = BaseType.all.map fun type => (type.letter, type.keyword) := rfl
    rw [hall] at h
    obtain ⟨type, -, hpair⟩ := List.mem_map.mp h
    exact ⟨type, Prod.mk.inj hpair⟩
  · rintro ⟨type, rfl, rfl⟩
    cases type <;> decide

/-- The text is a descriptor, and this is the name of its type. -/
@[mk_iff]
inductive Names : String → List Char → Prop
  | base {letter : Char} {name : String} : (letter, name) ∈ baseNames → Names name [letter]
  | object {className : List Char} : className ≠ [] → ';' ∉ className →
    Names (String.ofList (className.map fun c => if c = '/' then '.' else c))
      ('L' :: (className ++ [';']))
  | array {name : String} {component : List Char} : Names name component →
    Names (name ++ "[]") ('[' :: component)

/-- Only a class name stands between an `L` and the end of the text. -/
theorem names_object_iff {name : String} {text : List Char} :
    Names name ('L' :: text) ↔ ∃ className : List Char, className ≠ [] ∧ ';' ∉ className ∧
      text = className ++ [';'] ∧ name = binaryName (String.ofList className) := by
  have hbinary (className : List Char) : binaryName (String.ofList className) =
      String.ofList (className.map fun c => if c = '/' then '.' else c) := by
    rw [binaryName, String.toList_ofList]
  simp only [hbinary]
  constructor
  · intro h
    rcases (names_iff _ _).mp h with ⟨letter, hbase, hletter⟩ | ⟨className, hne, hend, hname, htext⟩ |
      ⟨_, _, _, _, htext⟩
    · rw [← (List.cons.inj hletter).1] at hbase
      simp [baseNames] at hbase
    · exact ⟨className, hne, hend, (List.cons.inj htext).2, hname⟩
    · exact absurd (List.cons.inj htext).1 (by decide)
  · rintro ⟨className, hne, hend, rfl, rfl⟩
    exact .object hne hend

theorem names_bracket_iff {name : String} {text : List Char} :
    Names name ('[' :: text) ↔ ∃ component, Names component text ∧ component ++ "[]" = name := by
  constructor
  · intro h
    rcases (names_iff _ _).mp h with ⟨letter, hbase, hletter⟩ | ⟨_, _, _, _, htext⟩ |
      ⟨component, _, hcomponent, hname, htext⟩
    · rw [← (List.cons.inj hletter).1] at hbase
      simp [baseNames] at hbase
    · exact absurd (List.cons.inj htext).1 (by decide)
    · rw [(List.cons.inj htext).2]
      exact ⟨component, hcomponent, hname.symm⟩
  · rintro ⟨component, hcomponent, rfl⟩
    exact hcomponent.array

/-- Any other text is a base letter alone. -/
theorem names_of_head_ne {name : String} {c : Char} {text : List Char} (hbracket : c ≠ '[')
    (hobject : c ≠ 'L') : Names name (c :: text) ↔ (c, name) ∈ baseNames ∧ text = [] := by
  constructor
  · intro h
    rcases (names_iff _ _).mp h with ⟨letter, hbase, hletter⟩ | ⟨_, _, _, _, htext⟩ |
      ⟨_, _, _, _, htext⟩
    · obtain ⟨rfl, rfl⟩ := List.cons.inj hletter
      exact ⟨hbase, rfl⟩
    · exact absurd (List.cons.inj htext).1 hobject
    · exact absurd (List.cons.inj htext).1 hbracket
  · rintro ⟨hbase, rfl⟩
    exact .base hbase

theorem not_names_nil {name : String} : ¬ Names name [] := by
  intro h
  rcases (names_iff _ _).mp h with ⟨_, _, htext⟩ | ⟨_, _, _, _, htext⟩ | ⟨_, _, _, _, htext⟩ <;>
    cases htext

theorem ofLetter?_map_keyword_iff {letter : Char} {name : String} :
    (BaseType.ofLetter? letter).map BaseType.keyword = some name ↔ (letter, name) ∈ baseNames := by
  rw [Option.map_eq_some_iff, mem_baseNames_iff]
  constructor
  · rintro ⟨type, htype, rfl⟩
    exact ⟨type, BaseType.letter_of_ofLetter? htype, rfl⟩
  · rintro ⟨type, rfl, rfl⟩
    exact ⟨type, BaseType.ofLetter?_letter type, rfl⟩

/-- The recursion computes the names of the rule, and nothing where the rule gives no name. -/
theorem recursiveSourceName?_eq_some_iff {text : List Char} {name : String} :
    recursiveSourceName? text = some name ↔ Names name text := by
  fun_induction recursiveSourceName? text generalizing name with
  | case1 component ih =>
      rw [Option.map_eq_some_iff, names_bracket_iff]
      simp only [ih]
  | case2 text className =>
      rename_i h
      obtain ⟨hlast, hne, hend⟩ := h
      rw [names_object_iff]
      constructor
      · rintro ⟨rfl⟩
        exact ⟨className, hne, hend, (List.dropLast_append_getLast? _ hlast).symm, rfl⟩
      · rintro ⟨_, -, -, rfl, rfl⟩
        rw [show className = _ from List.dropLast_concat]
  | case3 text className =>
      rename_i h
      rw [names_object_iff]
      constructor
      · intro hnone
        cases hnone
      · rintro ⟨front, hne, hend, rfl, -⟩
        have hfront : className = front := List.dropLast_concat
        rw [List.getLast?_concat, hfront] at h
        exact absurd ⟨rfl, hne, hend⟩ h
  | case4 letter hbracket hobject =>
      rw [names_of_head_ne hbracket hobject, ofLetter?_map_keyword_iff, eq_self, and_true]
  | case5 text hbracket hobject hletter =>
      constructor
      · intro hnone
        cases hnone
      · intro hnames
        cases text with
        | nil => exact absurd hnames not_names_nil
        | cons c text =>
            have hc : c ≠ '[' := by
              rintro rfl
              exact hbracket text rfl
            have hc' : c ≠ 'L' := by
              rintro rfl
              exact hobject text rfl
            obtain ⟨-, rfl⟩ := (names_of_head_ne hc hc').mp hnames
            exact absurd rfl (hletter c)

/-! ## The parser and the rule -/

theorem names_of_wellFormed {t : FieldType} (h : t.WellFormed) :
    Names t.sourceName t.descriptorChars := by
  obtain ⟨n, element, ⟨harray, hwf⟩, rfl⟩ := wellFormed_iff.mp h
  clear h
  rw [descriptorChars_withDimensions, sourceName_withDimensions]
  induction n with
  | zero =>
      rw [List.replicate_zero, List.nil_append, brackets, List.replicate_zero, String.join_nil,
        String.append_empty]
      cases element with
      | base type => exact .base (mem_baseNames_iff.mpr ⟨type, rfl, rfl⟩)
      | object className => exact .object hwf.1 hwf.2
      | array dimensions element => cases harray
  | succ n ih =>
      rw [List.replicate_succ, List.cons_append, brackets_succ, ← String.append_assoc]
      exact ih.array

/-- An array of a type has one bracket more than the type. -/
theorem exists_arrayOf {t : FieldType} (h : t.WellFormed) :
    ∃ array : FieldType, array.WellFormed ∧ array.descriptorChars = '[' :: t.descriptorChars ∧
      array.sourceName = t.sourceName ++ "[]" := by
  obtain ⟨n, element, helement, rfl⟩ := wellFormed_iff.mp h
  refine ⟨withDimensions (n + 1) element, wellFormed_iff.mpr ⟨n + 1, element, helement, rfl⟩, ?_, ?_⟩
  · rw [descriptorChars_withDimensions, descriptorChars_withDimensions, List.replicate_succ,
      List.cons_append]
  · rw [sourceName_withDimensions, sourceName_withDimensions, brackets_succ, String.append_assoc]

/-- Every text with a name is the descriptor of a type with that name. -/
theorem exists_type_of_names {name : String} {text : List Char} (h : Names name text) :
    ∃ t : FieldType, t.WellFormed ∧ text = t.descriptorChars ∧ t.sourceName = name := by
  induction h with
  | base hbase =>
      obtain ⟨type, rfl, rfl⟩ := mem_baseNames_iff.mp hbase
      exact ⟨.base type, trivial, rfl, rfl⟩
  | @object className hne hend =>
      refine ⟨.object (String.ofList className), ?_, ?_, ?_⟩
      · simp only [WellFormed, String.toList_ofList]
        exact ⟨hne, hend⟩
      · rw [descriptorChars, String.toList_ofList]
        rfl
      · rw [FieldType.sourceName, binaryName, String.toList_ofList]
  | array _ ih =>
      obtain ⟨t, hwf, rfl, rfl⟩ := ih
      obtain ⟨array, harray, hchars, hname⟩ := exists_arrayOf hwf
      exact ⟨array, harray, hchars.symm, hname⟩

theorem sourceName_eq_ok_iff {d name : String} :
    Descriptor.sourceName d = .ok name ↔ Names name d.toList := by
  have hmap : Descriptor.sourceName d = .ok name ↔
      ∃ t, FieldType.parse d = .ok t ∧ t.sourceName = name := by
    rw [Descriptor.sourceName]
    cases FieldType.parse d with
    | error e => simp [Except.map]
    | ok t => simp [Except.map]
  rw [hmap]
  constructor
  · rintro ⟨t, hparse, rfl⟩
    obtain ⟨hwf, rfl⟩ := parse_eq_ok_iff.mp hparse
    rw [descriptor, String.toList_ofList]
    exact names_of_wellFormed hwf
  · intro h
    obtain ⟨t, hwf, htext, hname⟩ := exists_type_of_names h
    refine ⟨t, parse_eq_ok_iff.mpr ⟨hwf, ?_⟩, hname⟩
    rw [descriptor, ← htext, String.ofList_toList]

/-! ## Faults behind a further bracket -/

/-- The fault is at the same characters, which stand one place further on. -/
theorem malformed_bracket {d : String} {front rest : List Char} (h : d.toList = front ++ rest) :
    ∃ offset, malformed d rest = .malformedDescriptor d offset ∧
      malformed ("[" ++ d) rest = .malformedDescriptor ("[" ++ d) (offset + 1) := by
  have hlonger : ("[" ++ d).toList = '[' :: front ++ rest := by
    rw [String.toList_append, h]
    rfl
  have hsize : (String.ofList ('[' :: front)).utf8ByteSize =
      (String.ofList front).utf8ByteSize + 1 := by
    rw [String.ofList_cons, String.utf8ByteSize_append, Nat.add_comm]
    rfl
  exact ⟨_, malformed_eq h, hsize ▸ malformed_eq hlonger⟩

theorem parse_bracket_error {d : String} {e : Error} (h : FieldType.parse d = .error e) :
    ∃ offset, e = .malformedDescriptor d offset ∧
      FieldType.parse ("[" ++ d) = .error (.malformedDescriptor ("[" ++ d) (offset + 1)) := by
  have hlonger : ("[" ++ d).toList = '[' :: d.toList := by
    rw [String.toList_append]
    rfl
  unfold FieldType.parse whole at h ⊢
  rw [hlonger]
  split at h
  · cases h
  · rename_i t rest hrest hread
    cases h
    obtain ⟨-, htext⟩ := (fieldType_takes _ _ _).mp hread
    obtain ⟨offset, hoffset, hmoved⟩ := malformed_bracket htext
    obtain ⟨t', hread'⟩ := fieldType_bracket_ok hread
    refine ⟨offset, hoffset, ?_⟩
    rw [hread', ← hmoved]
    cases rest with
    | nil => exact absurd rfl hrest
    | cons c rest => rfl
  · rename_i fault hread
    cases h
    obtain ⟨front, htext, -⟩ := fieldType_located hread
    obtain ⟨offset, hoffset, hmoved⟩ := malformed_bracket htext
    refine ⟨offset, hoffset, ?_⟩
    rw [fieldType_bracket_error.mpr hread, ← hmoved]

theorem sourceName_bracket_error {d : String} {e : Error}
    (h : Descriptor.sourceName d = .error e) :
    ∃ offset, e = .malformedDescriptor d offset ∧
      Descriptor.sourceName ("[" ++ d) = .error (.malformedDescriptor ("[" ++ d) (offset + 1)) := by
  unfold Descriptor.sourceName at h ⊢
  cases hparse : FieldType.parse d with
  | ok t =>
      rw [hparse] at h
      cases h
  | error cause =>
      rw [hparse] at h
      cases h
      obtain ⟨offset, he, hmoved⟩ := parse_bracket_error hparse
      rw [hmoved]
      exact ⟨offset, he, rfl⟩

end Descriptor

open Descriptor in
/-- The name of a descriptor is the one of the recursive rule, and a text without one has none with
a bracket before it either, with its fault one place further on. The name of any type is that of
what is left when all dimensions are taken off, with a pair of brackets for each of them. -/
theorem source_name_follows_rule :
    (∀ d name : String,
      (Descriptor.sourceName d = .ok name ↔ recursiveSourceName? d.toList = some name) ∧
        (recursiveSourceName? d.toList = some name ↔ Names name d.toList)) ∧
    (∀ (d : String) (e : Error), Descriptor.sourceName d = .error e →
      ∃ offset, e = .malformedDescriptor d offset ∧
        Descriptor.sourceName ("[" ++ d) =
          .error (.malformedDescriptor ("[" ++ d) (offset + 1))) ∧
    ∀ t : FieldType, t.innermost.isArray = false ∧
      t.sourceName = t.innermost.sourceName ++ FieldType.brackets t.totalDimensions := by
  refine ⟨?_, ?_, ?_⟩
  · intro d name
    rw [sourceName_eq_ok_iff, recursiveSourceName?_eq_some_iff]
    exact ⟨Iff.rfl, Iff.rfl⟩
  · intro d e h
    exact sourceName_bracket_error h
  · intro t
    exact ⟨t.isArray_innermost, t.sourceName_eq_innermost⟩

open Descriptor in
/-- A class name that lacks its semicolon, under one bracket and under two, and an array of arrays
of which one has no dimensions. -/
theorem source_name_follows_rule_nested :
    Descriptor.sourceName "[Lé" = .error (.malformedDescriptor "[Lé" 4) ∧
      Descriptor.sourceName "[[Lé" = .error (.malformedDescriptor "[[Lé" 5) ∧
      Descriptor.sourceName "[[Lé/a;" = .ok "é.a[][]" ∧
      (FieldType.array 2 (.array 0 (.array 1 (.object "é/a")))).sourceName = "é.a[][][]" := by
  obtain ⟨hrule, hmoved, hnames⟩ := source_name_follows_rule
  have herror : Descriptor.sourceName "[Lé" = .error (.malformedDescriptor "[Lé" 4) := rfl
  refine ⟨herror, ?_, ?_, ?_⟩
  · obtain ⟨offset, he, hnext⟩ := hmoved _ _ herror
    cases he
    exact hnext
  · exact (hrule _ _).1.mpr (by decide)
  · exact (hnames _).2

end JvmClass
