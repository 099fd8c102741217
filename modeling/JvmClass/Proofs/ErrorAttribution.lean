import JvmClass.Proofs.ErrorRecords

/-!
# Files named in errors

In a run over several files an error can be traced to its file if the message begins with the path.
Every error does so but that of a table, which names its attribute and its place and no more.
-/

namespace JvmClass

/-- The message begins with the path. -/
def NamesFile (path message : String) : Prop :=
  ∃ rest, message = path ++ ": " ++ rest

/-- A piece of text that a colon follows begins with everything colon-free that the text begins
with. -/
theorem isPrefix_of_append_colon {before after front rest : List Char} (hfront : ':' ∉ front)
    (h : before ++ ':' :: after = front ++ rest) : front <+: before := by
  obtain ⟨middle, hfrontEq, hrest⟩ | ⟨middle, hbefore, -⟩ := List.append_eq_append_iff.mp h
  · cases middle with
    | nil => exact ⟨[], by rw [hfrontEq, List.append_nil, List.append_nil]⟩
    | cons c middle =>
        obtain ⟨rfl, -⟩ := List.cons.inj hrest
        exact absurd (hfrontEq ▸ List.mem_append_right _ List.mem_cons_self) hfront
  · exact ⟨middle, hbefore.symm⟩

/-- A path that the message begins with begins with everything colon-free that the message begins
with. -/
theorem NamesFile.path_begins {path message front rest : String} (h : NamesFile path message)
    (hfront : ':' ∉ front.toList) (hmessage : message = front ++ rest) :
    ∃ back, path = front ++ back := by
  obtain ⟨after, hafter⟩ := h
  have hcolon : ": ".toList = [':', ' '] := by decide +kernel
  have hsame : path.toList ++ ':' :: ' ' :: after.toList = front.toList ++ rest.toList := by
    have htoList := congrArg String.toList (hafter.symm.trans hmessage)
    rwa [String.toList_append, String.toList_append, String.toList_append, hcolon,
      List.append_assoc] at htoList
  obtain ⟨back, hback⟩ := isPrefix_of_append_colon hfront hsame
  refine ⟨String.ofList back, ?_⟩
  rw [← String.toList_inj, String.toList_append, String.toList_ofList, hback]

theorem Error.message_inAttribute (name : String) (offset : Nat) (cause : Error) :
    (inAttribute name offset cause).message =
      "In attribute " ++ name ++ " at offset " ++ toString offset ++ ": " ++ cause.message := rfl

namespace Listing

/-- A table in the code of a method cannot be decoded, for the given reason. -/
def TableFails (check : LengthCheck) (pool : ConstantPool) (m : Member) (e : Error) : Prop :=
  ∃ code, m.code? pool = .ok (some code) ∧
    ∃ a ∈ Attribute.named "LocalVariableTable" pool code.attributes,
      (LocalVariableTable.decode pool check "LocalVariableTable" a.info.length a.body).1.value =
        .error e

theorem ofTable?_eq_some_iff {table : Except Error LocalVariableTable} {u : Unreadable} :
    Unreadable.ofTable? table = some u ↔ ∃ e, table = .error e ∧ u = .table e := by
  cases table with
  | error e => simp [Unreadable.ofTable?, eq_comm]
  | ok t => simp [Unreadable.ofTable?]

theorem table_mem_unreadableParts {check : LengthCheck} {pool : ConstantPool}
    {className : String} {m : Member} {e : Error} :
    .table e ∈ unreadableParts check pool className m ↔ TableFails check pool m e := by
  have hheader : .table e ∉ unreadableHeader pool className m := by
    rw [unreadableHeader]
    split <;> simp
  rw [unreadableParts, List.mem_append, or_iff_right hheader, unreadableBody, TableFails]
  split
  · rename_i hcode
    simp [hcode]
  · rename_i code hcode
    rw [hcode]
    simp [Code.localVariableTables, LocalVariableTable.decodeAll, ofTable?_eq_some_iff,
      LocalVariableTable.attributeName]
  · rename_i cause hcode
    simp [hcode]

/-- A table of the class in a file cannot be decoded, for the given reason. -/
def FileTableFails (check : LengthCheck) (contents : Except String (List UInt8)) (e : Error) :
    Prop :=
  ∃ c className, (loadNamed contents).value = .ok (c, className) ∧
    ∃ m ∈ c.methods, TableFails check c.pool m e

/-- The error of a table names the attribute first. -/
theorem TableFails.message {check : LengthCheck} {pool : ConstantPool} {m : Member} {e : Error}
    (h : TableFails check pool m e) :
    ∃ rest, e.message = "In attribute LocalVariableTable at offset " ++ rest := by
  obtain ⟨code, -, a, -, hvalue⟩ := h
  obtain ⟨cause, -, rfl⟩ := LocalVariableTable.decode_eq_error hvalue
  have hattribute : ("In attribute " ++ "LocalVariableTable" ++ " at offset " : String) =
      "In attribute LocalVariableTable at offset " := by decide +kernel
  refine ⟨toString a.body.position ++ ": " ++ cause.message, ?_⟩
  rw [← hattribute, Error.message_inAttribute]
  simp only [String.append_assoc]

section

variable (options : Options) (path : String) (contents : Except String (List UInt8))

theorem names_file_or_table_fails {r : Log.Record}
    (h : r ∈ Log.errors (listFile options path contents).log) :
    NamesFile path r.message ∨
      ∃ e, FileTableFails options.lengthCheck contents e ∧ r.message = e.message := by
  rw [errors_listFile] at h
  cases hloaded : (loadNamed contents).value with
  | error e =>
      rw [hloaded] at h
      rw [List.mem_singleton.mp h]
      exact .inl ⟨e.message, rfl⟩
  | ok loaded =>
      obtain ⟨c, className⟩ := loaded
      rw [hloaded] at h
      obtain hpart | hcount := List.mem_append.mp h
      · obtain ⟨u, hu, rfl⟩ := List.mem_map.mp hpart
        cases u with
        | header e => exact .inl ⟨e.message, rfl⟩
        | code e => exact .inl ⟨e.message, rfl⟩
        | table e =>
            obtain ⟨m, hm, hfails⟩ := List.mem_flatMap.mp hu
            have htable := table_mem_unreadableParts.mp hfails
            exact .inr ⟨e, ⟨c, className, hloaded, m, hm, htable⟩, rfl⟩
      · split at hcount
        · cases hcount
        · rw [List.mem_singleton.mp hcount]
          refine .inl ⟨s!"{unreadableCount options.lengthCheck c} unreadable attribute(s)", ?_⟩
          simp only [Log.Record.failure, String.append_assoc]
          rfl

theorem mem_errors_of_tableFails {e : Error}
    (h : FileTableFails options.lengthCheck contents e) :
    .failure e.message ∈ Log.errors (listFile options path contents).log := by
  obtain ⟨c, className, hloaded, m, hm, htable⟩ := h
  rw [errors_listFile, hloaded]
  refine List.mem_append_left _ (List.mem_map.mpr ⟨.table e, ?_, rfl⟩)
  exact List.mem_flatMap.mpr ⟨m, hm, table_mem_unreadableParts.mpr htable⟩

end

end Listing

open Listing in
/-- Which errors of a run name their file: all but those of tables, and so all of them exactly if
each table that cannot be decoded happens to have an error that begins with the path. It does so
only for a path that itself begins as the error of a table. -/
theorem errors_name_file_iff (contents : String → Except String (List UInt8))
    (arguments : List String) :
    let command := CommandLine.ofArguments arguments
    let log path := (listFile command.options path (contents path)).log
    let fails path := FileTableFails command.options.lengthCheck (contents path)
    CommandLine.records contents arguments = command.paths.flatMap log ∧
    ∀ path,
      (∀ r ∈ Log.errors (log path),
        NamesFile path r.message ∨ ∃ e, fails path e ∧ r.message = e.message) ∧
      ((∀ r ∈ Log.errors (log path), NamesFile path r.message) ↔
        ∀ e, fails path e → NamesFile path e.message) ∧
      ∀ e, fails path e → NamesFile path e.message →
        ∃ rest, path = "In attribute LocalVariableTable at offset " ++ rest := by
  intro command log fails
  refine ⟨CommandLine.records_eq contents arguments, ?_⟩
  intro path
  refine ⟨fun r hr => names_file_or_table_fails _ path _ hr, ⟨?_, ?_⟩, ?_⟩
  · intro hall e he
    exact hall _ (mem_errors_of_tableFails _ path _ he)
  · intro htables r hr
    obtain hnamed | ⟨e, he, hmessage⟩ := names_file_or_table_fails _ path _ hr
    · exact hnamed
    · exact hmessage ▸ htables e he
  · rintro e ⟨c, className, -, m, -, htable⟩ hnamed
    obtain ⟨rest, hrest⟩ := htable.message
    exact hnamed.path_begins (by decide +kernel) hrest

/-- A class whose only table has a declared length of two bytes but announces a record. -/
def mismatchedImage : ClassImage where
  minor := 0
  major := 52
  poolCount := 7
  entries :=
    [.text (Bytes.Utf8.encode "T"), .other (.classInfo 1), .text (Bytes.Utf8.encode "run"),
      .text (Bytes.Utf8.encode "()V"), .text (Bytes.Utf8.encode "Code"),
      .text (Bytes.Utf8.encode "LocalVariableTable")]
  flags := 0x21
  thisClass := 2
  superClass := 0
  interfaces := []
  fields := []
  methods := [⟨1, 3, 4, [⟨5, (returnCode [⟨6, [0, 1]⟩]).bytes⟩]⟩]
  attributes := []

/-- Of the two errors of this run only the second one names the file. -/
theorem mismatched_table_unnamed :
    let contents : String → Except String (List UInt8) := fun _ => .ok mismatchedImage.bytes
    let message := "In attribute LocalVariableTable at offset " ++
      "102: Attribute length mismatch: declared 2 bytes, records require 12"
    (CommandLine.run contents (some .error) ["B.class"]).errors =
      [" ERROR javad > " ++ message, " ERROR javad > B.class: 1 unreadable attribute(s)"] ∧
    ¬ ∀ r ∈ Log.errors (CommandLine.records contents ["B.class"]),
      NamesFile "B.class" r.message := by
  intro contents message
  refine ⟨by decide +kernel, ?_⟩
  intro hall
  have hrecord : .failure message ∈ Log.errors (CommandLine.records contents ["B.class"]) := by
    decide +kernel
  obtain ⟨back, hback⟩ := (hall _ hrecord).path_begins (by decide +kernel) rfl
  have hlength := congrArg String.length hback
  have hpath : "B.class".length = 7 := by decide +kernel
  have hfront : "In attribute LocalVariableTable at offset ".length = 42 := by decide +kernel
  rw [String.length_append, hpath, hfront] at hlength
  omega

end JvmClass
