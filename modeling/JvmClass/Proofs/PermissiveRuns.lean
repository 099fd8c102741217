import JvmClass.Proofs.DamagedMethods
import JvmClass.Proofs.Declarations
import JvmClass.Proofs.ErrorAttribution
import JvmClass.Proofs.PermissiveTables
import Mathlib.Data.List.Flatten

/-!
# Permissive runs

A run in permissive mode shows at least what the strict run over the same files shows: the same
headers, the same declarations in the same order and perhaps others among them, and no more parts
that cannot be read. A table in a class file has all the bytes it declares, so that in this mode it
is unreadable only if these do not even hold a count.
-/

namespace JvmClass

namespace LocalVariableTable

variable {pool : ConstantPool} {name : String}

/-- A whole body that is long enough for a count gives a table in permissive mode. -/
theorem decode_permissive_eq_error_iff {a : Attribute} {e : Error} :
    (decode pool .permissive name a.info.length a.body).1.value = .error e ↔
      a.info.length < 2 ∧
        e = .inAttribute name a.offset (.truncated a.offset 2 a.info.length) := by
  let body := (a.body.split a.info.length).1
  have hremaining : body.remaining = a.info.length := by
    rw [Reader.remaining_split_fst]
    exact Nat.min_self _
  change Except.mapError (Error.inAttribute name a.offset)
    (decodeBody pool .permissive name a.info.length body).value = _ ↔ _
  by_cases hshort : a.info.length < 2
  · rw [decodeBody_of_short (hremaining ▸ hshort), hremaining, and_iff_right hshort]
    exact ⟨fun h => (Except.error.inj h).symm, fun h => congrArg Except.error h.symm⟩
  · have hlong := Nat.not_lt.mp hshort
    rw [decodeBody_permissive_value _ _ _ (hremaining ▸ hlong), if_neg]
    · exact ⟨nofun, fun h => absurd h.1 hshort⟩
    · rw [hremaining]
      exact Nat.not_lt.mpr (fittingCount_le _ hlong)

/-- A table that is unreadable in permissive mode is so in strict mode, for the same reason. -/
theorem decode_strict_of_permissive_error {a : Attribute} {e : Error}
    (h : (decode pool .permissive name a.info.length a.body).1.value = .error e) :
    (decode pool .strict name a.info.length a.body).1.value = .error e := by
  have hshort := (decode_permissive_eq_error_iff.mp h).1
  rw [← h, decode_of_not_mismatched]
  rintro ⟨hword, -⟩
  rw [Reader.remaining_split_fst] at hword
  omega

/-- A table that is decoded in strict mode is the same one in permissive mode. -/
theorem decode_permissive_of_strict_ok {declared : Nat} {r : Reader} {table : LocalVariableTable}
    (h : (decode pool .strict name declared r).1.value = .ok table) :
    (decode pool .permissive name declared r).1.value = .ok table := by
  rw [decode_of_not_mismatched, h]
  intro hmismatched
  rw [decode_strict_of_mismatched hmismatched] at h
  cases h

end LocalVariableTable

namespace Listing

variable (pool : ConstantPool)

/-! ## What a method shows -/

theorem declared_sublist (a : Attribute) :
    (declared .strict pool a).Sublist (declared .permissive pool a) := by
  cases hstrict : (LocalVariableTable.decode pool .strict "LocalVariableTable" a.info.length
    a.body).1.value with
  | error e =>
      rw [declared, hstrict]
      exact List.nil_sublist _
  | ok table =>
      rw [declared, declared, hstrict,
        LocalVariableTable.decode_permissive_of_strict_ok hstrict]

/-- What is declared under a header is never taken for a comment. -/
theorem head?_ne_of_mem_declared {check : LengthCheck} {a : Attribute} {line : String}
    (h : line ∈ declared check pool a) : line.toList.head? ≠ some '/' := by
  rw [declared] at h
  split at h
  · rename_i table _
    obtain ⟨v, -, hline⟩ := table.declares_of_mem h
    exact hline.head?_ne
  · cases h

theorem mem_declarationsOrNone {line : String} {declarations : List String} :
    line ∈ declarationsOrNone declarations ↔
      line ∈ declarations ∨
        declarations = [] ∧ line = "// no local variable information" := by
  cases declarations with
  | nil => simp [declarationsOrNone]
  | cons first others => simp [declarationsOrNone]

/-- Under a header the second of two listings shows all declarations of the first one in their
order. Comments stand there as in the first one, unless there are declarations to show. -/
structure Body.ExtendedBy (s p : Body) : Prop where
  declarations : s.declarations.Sublist p.declarations
  below :
    (s.lines = ["// no code"] ∧ p.lines = ["// no code"]) ∨ (s.lines = [] ∧ p.lines = []) ∨
    (s.lines = declarationsOrNone s.declarations ∧ p.lines = declarationsOrNone p.declarations)
  noCode : "// no code" ∈ p.lines ↔ "// no code" ∈ s.lines
  noInformation : "// no local variable information" ∈ p.lines →
    "// no local variable information" ∈ s.lines

theorem Body.extendedBy_tables {s p : List (Except Error (List String))}
    (hsublist : (tables s).declarations.Sublist (tables p).declarations)
    (hcomment : ∀ line ∈ (tables p).declarations, line.toList.head? ≠ some '/') :
    (tables s).ExtendedBy (tables p) := by
  have hnoCode {body : List (Except Error (List String))}
      (hbody : (tables body).declarations ⊆ (tables p).declarations) :
      "// no code" ∉ (tables body).lines := by
    rw [lines_tables, mem_declarationsOrNone]
    rintro (hmem | ⟨-, heq⟩)
    · exact hcomment _ (hbody hmem) (by decide)
    · exact absurd heq (by decide)
  refine ⟨hsublist, .inr (.inr ⟨lines_tables s, lines_tables p⟩), ?_, ?_⟩
  · exact iff_of_false (hnoCode (List.Subset.refl _)) (hnoCode hsublist.subset)
  · rw [lines_tables, lines_tables, mem_declarationsOrNone, mem_declarationsOrNone]
    rintro (hmem | ⟨hnone, -⟩)
    · exact absurd (by decide) (hcomment _ hmem)
    · rw [hnone, List.sublist_nil] at hsublist
      exact .inr ⟨hsublist, rfl⟩

/-- The second of two listings of a method has the same header and shows at least as much under
it. -/
structure Method.ExtendedBy (s p : Method) : Prop where
  header : p.header = s.header
  body : s.body.ExtendedBy p.body

/-- The second of two listings of a class has the same methods, shows at least as much of each, and
counts no more parts as unreadable. -/
structure Block.ExtendedBy (s p : Block) : Prop where
  className : p.className = s.className
  methods : List.Forall₂ Method.ExtendedBy s.methods p.methods
  failures : p.failures.Sublist s.failures

/-- The second of two listings of a file shows at least as much as the first one, or both show
nothing for the same reason. -/
inductive File.ExtendedBy : File → File → Prop where
  | unread (e : Error) : ExtendedBy ⟨.error e⟩ ⟨.error e⟩
  | listed {block block' : Block} (h : block.ExtendedBy block') :
    ExtendedBy ⟨.ok block⟩ ⟨.ok block'⟩

theorem File.ExtendedBy.failed {s p : File} (h : s.ExtendedBy p) (hp : p.failed = true) :
    s.failed = true := by
  cases h with
  | unread e => rfl
  | listed h =>
      rw [File.failed, Bool.not_eq_true', List.isEmpty_eq_false_iff, ne_eq] at hp ⊢
      intro hnone
      exact hp (List.sublist_nil.mp (hnone ▸ h.failures))

section

variable {options options' : Options} (hstrict : options.lengthCheck = .strict)
  (hpermissive : options'.lengthCheck = .permissive) (path : String)
include hstrict hpermissive

theorem extendedBy_listBody (m : Member) :
    (listBody options path pool m).value.ExtendedBy (listBody options' path pool m).value := by
  cases hcode : m.code? pool with
  | error e =>
      rw [listBody, listBody, hcode]
      exact ⟨.slnil, .inr (.inl ⟨rfl, rfl⟩), Iff.rfl, id⟩
  | ok code? =>
    cases code? with
    | none =>
        rw [listBody, listBody, hcode]
        exact ⟨.slnil, .inl ⟨rfl, rfl⟩, Iff.rfl, id⟩
    | some code =>
        have hs := declarations_listBody options path pool hcode
        have hp := declarations_listBody options' path pool hcode
        rw [hstrict] at hs
        rw [hpermissive] at hp
        rw [value_listBody options path pool hcode] at hs ⊢
        rw [value_listBody options' path pool hcode] at hp ⊢
        apply Body.extendedBy_tables
        · rw [hs, hp]
          exact .flatMap_right _ fun a _ => declared_sublist pool a
        · intro line hline
          rw [hp] at hline
          obtain ⟨a, -, ha⟩ := List.mem_flatMap.mp hline
          exact head?_ne_of_mem_declared pool ha

theorem extendedBy_listMethod (className : String) (m : Member) :
    (listMethod options path pool className m).value.ExtendedBy
      (listMethod options' path pool className m).value where
  header := by
    rw [listMethod, listMethod]
    split <;> rfl
  body := by
    rw [body_listMethod, body_listMethod]
    exact extendedBy_listBody pool hstrict hpermissive path m

end

/-! ## What cannot be read -/

theorem unreadableBody_sublist (m : Member) :
    (unreadableBody .permissive pool m).Sublist (unreadableBody .strict pool m) := by
  rw [unreadableBody, unreadableBody]
  split
  · exact .slnil
  · rename_i code _
    rw [List.filterMap_eq_flatMap_toList, List.filterMap_eq_flatMap_toList,
      Code.localVariableTables, Code.localVariableTables, LocalVariableTable.decodeAll,
      LocalVariableTable.decodeAll, List.flatMap_map, List.flatMap_map]
    refine .flatMap_right _ fun a _ => ?_
    cases hpermissive : (LocalVariableTable.decode pool .permissive
      LocalVariableTable.attributeName a.info.length a.body).1.value with
    | ok table => exact List.nil_sublist _
    | error e =>
        rw [LocalVariableTable.decode_strict_of_permissive_error hpermissive]
  · exact List.Sublist.refl _

theorem unreadableClassParts_sublist (c : ClassFile) (className : String) :
    (unreadableClassParts .permissive c className).Sublist
      (unreadableClassParts .strict c className) :=
  .flatMap_right _ fun m _ => (unreadableBody_sublist c.pool m).append_left _

/-- In permissive mode only a table without the bytes of a count is unreadable. -/
theorem table_mem_unreadableClassParts_permissive {c : ClassFile} {className : String}
    {e : Error} :
    .table e ∈ unreadableClassParts .permissive c className ↔
      ∃ m ∈ c.methods, ∃ code, m.code? c.pool = .ok (some code) ∧
        ∃ a ∈ Attribute.named "LocalVariableTable" c.pool code.attributes,
          a.info.length < 2 ∧ e = .inAttribute "LocalVariableTable" a.offset
            (.truncated a.offset 2 a.info.length) := by
  rw [unreadableClassParts, List.mem_flatMap]
  simp only [table_mem_unreadableParts, TableFails,
    LocalVariableTable.decode_permissive_eq_error_iff]

theorem extendedBy_listFile {options options' : Options} (hstrict : options.lengthCheck = .strict)
    (hpermissive : options'.lengthCheck = .permissive) (path : String)
    (contents : Except String (List UInt8)) :
    (listFile options path contents).value.ExtendedBy
      (listFile options' path contents).value := by
  rw [value_listFile, value_listFile]
  cases (loadNamed contents).value with
  | error e => exact .unread e
  | ok loaded =>
      obtain ⟨c, className⟩ := loaded
      refine .listed ⟨?_, ?_, ?_⟩
      · dsimp only
        rw [value_listClass, value_listClass]
      · dsimp only
        rw [value_listClass, value_listClass, List.forall₂_map_left_iff,
          List.forall₂_map_right_iff, List.forall₂_same]
        intro m _
        exact extendedBy_listMethod c.pool hstrict hpermissive path className m
      · dsimp only
        rw [failures_listClass, failures_listClass, hstrict, hpermissive]
        exact (unreadableClassParts_sublist c className).map _

end Listing

open CommandLine Listing in
/-- Runs over the same files, one without and one with the word that makes decoding permissive. What
the first one prints of a file is contained in what the second one prints of it, which counts no
more parts as unreadable and fails only if the first one does. The tables among these parts are the
ones that are too short for a count. -/
theorem permissive_recovers_more (contents : String → Except String (List UInt8))
    (threshold threshold' : Log.Threshold) (arguments arguments' : List String)
    (hstrict : "--permissive" ∉ arguments) (hpermissive : "--permissive" ∈ arguments')
    (hpaths : (ofArguments arguments').paths = (ofArguments arguments).paths) :
    let paths := (ofArguments arguments).paths
    let strict path := (listFile (ofArguments arguments).options path (contents path)).value
    let permissive path := (listFile (ofArguments arguments').options path (contents path)).value
    (run contents threshold arguments).output = paths.flatMap (fun path => (strict path).lines) ∧
    (run contents threshold' arguments').output =
      paths.flatMap (fun path => (permissive path).lines) ∧
    ((run contents threshold arguments).exitStatus = 0 →
      (run contents threshold' arguments').exitStatus = 0) ∧
    ∀ path, (strict path).ExtendedBy (permissive path) ∧
      ∀ c className, (loadNamed (contents path)).value = .ok (c, className) →
        ∃ block, (permissive path).block = .ok block ∧
          block.failures = (unreadableClassParts .permissive c className).map Unreadable.cause ∧
          ∀ e, .table e ∈ unreadableClassParts .permissive c className ↔
            ∃ m ∈ c.methods, ∃ code, m.code? c.pool = .ok (some code) ∧
              ∃ a ∈ Attribute.named "LocalVariableTable" c.pool code.attributes,
                a.info.length < 2 ∧ e = .inAttribute "LocalVariableTable" a.offset
                  (.truncated a.offset 2 a.info.length) := by
  intro paths strict permissive
  have hcheck : (ofArguments arguments).options.lengthCheck = .strict := if_neg hstrict
  have hcheck' : (ofArguments arguments').options.lengthCheck = .permissive := if_pos hpermissive
  have hextended (path : String) : (strict path).ExtendedBy (permissive path) :=
    extendedBy_listFile hcheck hcheck' path (contents path)
  refine ⟨output_run contents threshold arguments, ?_, ?_, ?_⟩
  · rw [output_run, hpaths]
  · rw [exitStatus_run, exitStatus_run, hpaths]
    intro hzero
    split at hzero
    · cases hzero
    · rename_i hnone
      apply if_neg
      rintro (hempty | ⟨path, hpath, hfailed⟩)
      · exact hnone (.inl hempty)
      · exact hnone (.inr ⟨path, hpath, (hextended path).failed hfailed⟩)
  · intro path
    refine ⟨hextended path, ?_⟩
    intro c className hloaded
    refine ⟨(listClass (ofArguments arguments').options path c className).value, ?_, ?_, ?_⟩
    · change (listFile _ path (contents path)).value.block = _
      rw [value_listFile, hloaded]
      rfl
    · rw [failures_listClass, hcheck']
    · intro e
      exact table_mem_unreadableClassParts_permissive

/-- The class with a table of a single record, where the count announces two. -/
def overcountedImage : ClassImage :=
  { mismatchedImage with
    poolCount := 8
    entries := mismatchedImage.entries ++ [.text (Bytes.Utf8.encode "I")]
    methods := [⟨1, 3, 4, [⟨5, (returnCode [⟨6, [0, 2] ++
      VariableRecord.encode ⟨0, 1, 3, 7, 1⟩⟩]).bytes⟩]⟩] }

open CommandLine Listing in
theorem permissive_recovers_more_overcounted :
    let contents : String → Except String (List UInt8) := fun _ => .ok overcountedImage.bytes
    let listed (arguments : List String) :=
      (listFile (ofArguments arguments).options "B.class" (contents "B.class")).value
    let lines (below : String) :=
      ["class T \x7b", "", "    public void run()", "        " ++ below, "\x7d"]
    "--permissive" ∉ ["B.class"] ∧ "--permissive" ∈ ["B.class", "--permissive"] ∧
      (ofArguments ["B.class", "--permissive"]).paths = (ofArguments ["B.class"]).paths ∧
      (listed ["B.class"]).ExtendedBy (listed ["B.class", "--permissive"]) ∧
      run contents none ["B.class"] = ⟨lines "// no local variable information", [], 1⟩ ∧
      run contents none ["B.class", "--permissive"] = ⟨lines "int run; // index = 1", [], 0⟩ := by
  intro contents listed lines
  have hstrict : "--permissive" ∉ ["B.class"] := by decide
  have hpermissive : "--permissive" ∈ ["B.class", "--permissive"] := by decide
  have hpaths : (ofArguments ["B.class", "--permissive"]).paths =
      (ofArguments ["B.class"]).paths := by decide +kernel
  obtain ⟨-, -, -, hfiles⟩ := permissive_recovers_more contents none none ["B.class"]
    ["B.class", "--permissive"] hstrict hpermissive hpaths
  exact ⟨hstrict, hpermissive, hpaths, (hfiles "B.class").1, by decide +kernel, by decide +kernel⟩

end JvmClass
