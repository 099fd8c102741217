import JvmClass.Proofs.DamagedMethods
import JvmClass.Proofs.Declarations
import JvmClass.Proofs.ErrorAttribution

/-!
# Warnings about descriptors

A run can be told to warn about malformed descriptors. It then logs one record more for each entry
that has a name and a descriptor that no type has, ahead of what is logged when the table of the
entry is rendered. Everything else is as without the warnings: what is printed, how the run ends and
the rest of the log.
-/

namespace JvmClass

/-! ## Records about a variable -/

/-- The record is a warning of the command line itself. Decoding warns under a name of its own. -/
def Log.Record.IsOwnWarning (r : Log.Record) : Prop :=
  r.level = .warn ∧ r.source = .commandLine

instance : DecidablePred Log.Record.IsOwnWarning := fun r =>
  inferInstanceAs (Decidable (r.level = .warn ∧ r.source = .commandLine))

namespace LocalVariable

/-- The record warns about the descriptor of the variable. -/
def WarnedBy (v : LocalVariable) (r : Log.Record) : Prop :=
  ∃ e, v.Faults e ∧
    r = ⟨.warn, .commandLine, s!"Local variable in slot {v.index}: {e.message}"⟩

/-- The record says that the variable is left out for its descriptor. -/
def SkippedBy (v : LocalVariable) (r : Log.Record) : Prop :=
  ∃ e, v.Faults e ∧
    r = ⟨.debug, .localVariableTable, s!"Skipping local variable in slot {v.index}: {e.message}"⟩

theorem WarnedBy.isOwnWarning {v : LocalVariable} {r : Log.Record} (h : v.WarnedBy r) :
    r.IsOwnWarning := by
  obtain ⟨e, -, rfl⟩ := h
  exact ⟨rfl, rfl⟩

theorem SkippedBy.not_isOwnWarning {v : LocalVariable} {r : Log.Record} (h : v.SkippedBy r) :
    ¬ r.IsOwnWarning := by
  obtain ⟨e, -, rfl⟩ := h
  rintro ⟨hlevel, -⟩
  cases hlevel

end LocalVariable

/-! ## Records about a table -/

namespace LocalVariableTable

variable (table : LocalVariableTable)

/-- The entries with a name and a descriptor that no type has. -/
def misdescribed : List LocalVariable :=
  table.entries.filter LocalVariable.Misdescribed

/-- Records that follow the errors of the declarations belong to the misdescribed entries. -/
theorem forall₂_misdescribed {R : LocalVariable → Log.Record → Prop}
    {f : LocalVariable → Option Log.Record}
    (hok : ∀ v line?, v.declaration = .ok line? → f v = none)
    (herror : ∀ v e, v.Faults e → v.declaration = .error e → ∃ r, f v = some r ∧ R v r) :
    List.Forall₂ R table.misdescribed (table.entries.filterMap f) := by
  apply forall₂_filter_filterMap
  · intro v hv
    obtain ⟨line?, hdeclaration⟩ := LocalVariable.declaration_of_not_misdescribed hv
    exact hok v line? hdeclaration
  · intro v hv
    obtain ⟨e, hfault, hdeclaration⟩ := LocalVariable.exists_fault hv
    exact herror v e hfault hdeclaration

theorem forall₂_descriptorWarnings :
    List.Forall₂ LocalVariable.WarnedBy table.misdescribed (Listing.descriptorWarnings table) := by
  apply forall₂_misdescribed
  · intro v line? hdeclaration
    rw [hdeclaration]
  · intro v e hfault hdeclaration
    rw [hdeclaration]
    exact ⟨_, rfl, e, hfault, rfl⟩

/-- Rendering logs the entries that it leaves out for their descriptors, and nothing else. -/
theorem forall₂_log_declarationLines :
    List.Forall₂ LocalVariable.SkippedBy table.misdescribed table.declarationLines.log := by
  -- An entry logs one record at most.
  have hlog : table.declarationLines.log =
      table.entries.filterMap fun v => v.render.log.head? := by
    rw [List.filterMap_eq_flatMap_toList, declarationLines]
    refine List.flatMap_congr fun v _ => ?_
    rw [LocalVariable.render]
    split <;> rfl
  rw [hlog]
  apply forall₂_misdescribed
  · intro v line? hdeclaration
    rw [LocalVariable.render, hdeclaration]
    rfl
  · intro v e hfault hdeclaration
    rw [LocalVariable.render, hdeclaration]
    exact ⟨_, rfl, e, hfault, rfl⟩

end LocalVariableTable

theorem isOwnWarning_of_warned {vs : List LocalVariable} {warnings : List Log.Record}
    (h : List.Forall₂ LocalVariable.WarnedBy vs warnings) : ∀ r ∈ warnings, r.IsOwnWarning :=
  forall_mem_of_forall₂ (fun _ _ hr => hr.isOwnWarning) h

theorem not_isOwnWarning_declarationLines (table : LocalVariableTable) :
    ∀ r ∈ table.declarationLines.log, ¬ r.IsOwnWarning :=
  forall_mem_of_forall₂ (fun _ _ hr => hr.not_isOwnWarning) table.forall₂_log_declarationLines

/-! ## Annotated logs -/

/-- Two logs, of which the second one warns about the descriptors in some tables: before a table is
rendered there is a warning for each entry whose descriptor is malformed. Otherwise they are the
same and hold no such warning. -/
inductive Annotated : List LocalVariableTable → List Log.Record → List Log.Record → Prop where
  | nil : Annotated [] [] []
  | record {tables : List LocalVariableTable} {log log' : List Log.Record} {r : Log.Record}
    (hr : ¬ r.IsOwnWarning) (rest : Annotated tables log log') :
    Annotated tables (r :: log) (r :: log')
  | table {tables : List LocalVariableTable} {log log' : List Log.Record}
    (table : LocalVariableTable) {warnings : List Log.Record}
    (hwarnings : List.Forall₂ LocalVariable.WarnedBy table.misdescribed warnings)
    (rest : Annotated tables log log') :
    Annotated (table :: tables) (table.declarationLines.log ++ log)
      (warnings ++ table.declarationLines.log ++ log')

namespace Annotated

variable {tables tables' : List LocalVariableTable} {log log' more more' : List Log.Record}

theorem same (h : ∀ r ∈ log, ¬ r.IsOwnWarning) : Annotated [] log log := by
  induction log with
  | nil => exact .nil
  | cons r log ih =>
      obtain ⟨hr, hlog⟩ := List.forall_mem_cons.mp h
      exact .record hr (ih hlog)

theorem append (h : Annotated tables log log') (hmore : Annotated tables' more more') :
    Annotated (tables ++ tables') (log ++ more) (log' ++ more') := by
  induction h with
  | nil => exact hmore
  | record hr _ ih => exact .record hr ih
  | table table hwarnings _ ih =>
      rw [List.append_assoc, List.append_assoc]
      exact .table table hwarnings ih

theorem flatMap {α : Type} {xs : List α} {f : α → List LocalVariableTable}
    {g g' : α → List Log.Record} (h : ∀ x ∈ xs, Annotated (f x) (g x) (g' x)) :
    Annotated (xs.flatMap f) (xs.flatMap g) (xs.flatMap g') := by
  induction xs with
  | nil => exact .nil
  | cons x xs ih =>
      obtain ⟨hx, hxs⟩ := List.forall_mem_cons.mp h
      simp only [List.flatMap_cons]
      exact hx.append (ih hxs)

/-- Without the warnings the second log is the first one. -/
theorem filter_not (h : Annotated tables log log') :
    log'.filter (fun r => ¬ r.IsOwnWarning) = log := by
  induction h with
  | nil => rfl
  | @record _ log log' r hr _ ih =>
      have hkept : (r :: log').filter (fun r => ¬ r.IsOwnWarning) =
          r :: log'.filter fun r => ¬ r.IsOwnWarning :=
        List.filter_cons_of_pos (decide_eq_true hr)
      rw [hkept, ih]
  | @table _ log log' table warnings hwarnings _ ih =>
      have hnone : warnings.filter (fun r => ¬ r.IsOwnWarning) = [] := by
        rw [List.filter_eq_nil_iff]
        intro r hr
        rw [decide_eq_true_iff, not_not]
        exact isOwnWarning_of_warned hwarnings r hr
      have hall : table.declarationLines.log.filter (fun r => ¬ r.IsOwnWarning) =
          table.declarationLines.log := by
        rw [List.filter_eq_self]
        intro r hr
        exact decide_eq_true (not_isOwnWarning_declarationLines table r hr)
      rw [List.filter_append, List.filter_append, ih, hnone, hall, List.nil_append]

/-- There is one warning for each entry whose descriptor is malformed, in their order. -/
theorem forall₂_filter (h : Annotated tables log log') :
    List.Forall₂ LocalVariable.WarnedBy (tables.flatMap LocalVariableTable.misdescribed)
      (log'.filter fun r => r.IsOwnWarning) := by
  induction h with
  | nil => exact .nil
  | @record _ log log' r hr _ ih =>
      have hdropped : (r :: log').filter (fun r => r.IsOwnWarning) =
          log'.filter fun r => r.IsOwnWarning :=
        List.filter_cons_of_neg (ne_true_of_eq_false (decide_eq_false hr))
      rw [hdropped]
      exact ih
  | @table _ log log' table warnings hwarnings _ ih =>
      have hall : warnings.filter (fun r => r.IsOwnWarning) = warnings := by
        rw [List.filter_eq_self]
        intro r hr
        exact decide_eq_true (isOwnWarning_of_warned hwarnings r hr)
      have hnone : table.declarationLines.log.filter (fun r => r.IsOwnWarning) = [] := by
        rw [List.filter_eq_nil_iff]
        intro r hr
        rw [decide_eq_true_iff]
        exact not_isOwnWarning_declarationLines table r hr
      rw [List.flatMap_cons, List.filter_append, List.filter_append, hall, hnone, List.append_nil]
      exact List.rel_append hwarnings ih

end Annotated

/-! ## Listings without their logs -/

namespace Listing

section

variable {options options' : Options} (hcheck : options'.lengthCheck = options.lengthCheck)
  (path : String)
include hcheck

theorem value_listBody_congr (pool : ConstantPool) (m : Member) :
    (listBody options' path pool m).value = (listBody options path pool m).value := by
  cases hcode : m.code? pool with
  | error e => rw [listBody, listBody, hcode]
  | ok code? =>
    cases code? with
    | none => rw [listBody, listBody, hcode]
    | some code =>
        rw [value_listBody options' path pool hcode, value_listBody options path pool hcode, hcheck]

theorem value_listMethod_congr (pool : ConstantPool) (className : String) (m : Member) :
    (listMethod options' path pool className m).value =
      (listMethod options path pool className m).value := by
  have hbody := value_listBody_congr hcheck path pool m
  rw [listMethod, listMethod]
  cases header pool className m with
  | ok found => exact congrArg (Method.mk found none) hbody
  | error e => exact congrArg (Method.mk (fallbackHeader pool m) (some e)) hbody

theorem value_listClass_congr (c : ClassFile) (className : String) :
    (listClass options' path c className).value = (listClass options path c className).value := by
  rw [value_listClass, value_listClass]
  exact congrArg (Block.mk className)
    (List.map_congr_left fun m _ => value_listMethod_congr hcheck path c.pool className m)

theorem value_listFile_congr (contents : Except String (List UInt8)) :
    (listFile options' path contents).value = (listFile options path contents).value := by
  simp only [value_listFile, value_listClass_congr hcheck]

end

end Listing

/-! ## Logs of listings -/

namespace LocalVariableTable

/-- Decoding logs under a name of its own. -/
theorem source_of_mem_decode {pool : ConstantPool} {check : LengthCheck} {name : String}
    {declared : Nat} {r : Reader} {record : Log.Record}
    (h : record ∈ (decode pool check name declared r).1.log) :
    record.source = .localVariableTable := by
  change record ∈ (decodeBody pool check name declared (r.split declared).1).log at h
  rw [decodeBody] at h
  split at h
  · cases h
  split at h
  · cases h
  rw [decodeRecords, List.mem_append, List.mem_flatMap] at h
  obtain hmismatch | ⟨v, -, hv⟩ := h
  · rw [mismatchLog] at hmismatch
    split at hmismatch
    · cases hmismatch
    · rw [List.mem_singleton.mp hmismatch]
  · have hreference {index : UInt16} (hr : record ∈ VariableRecord.referenceLog pool index) :
        record.source = .localVariableTable := by
      rw [VariableRecord.referenceLog] at hr
      split at hr
      · rw [List.mem_singleton.mp hr]
      · cases hr
    rw [VariableRecord.log, List.mem_append, List.mem_cons] at hv
    obtain (rfl | hname) | hdescriptor := hv
    · rfl
    · exact hreference hname
    · exact hreference hdescriptor

end LocalVariableTable

theorem Code.not_isOwnWarning_localVariableTables {pool : ConstantPool} {check : LengthCheck}
    {code : Code} {table : Logged (Except Error LocalVariableTable)}
    (h : table ∈ code.localVariableTables pool check) : ∀ r ∈ table.log, ¬ r.IsOwnWarning := by
  obtain ⟨a, -, rfl⟩ := List.mem_map.mp h
  rintro r hr ⟨-, hsource⟩
  cases hsource.symm.trans (LocalVariableTable.source_of_mem_decode hr)

theorem ClassFile.source_of_mem_parse {bytes : List UInt8} {r : Log.Record}
    (h : r ∈ (parse bytes).log) : r.source = .classFile := by
  rw [parse] at h
  split at h
  · rw [List.mem_singleton.mp h]
    rfl
  · cases h

namespace Listing

theorem source_of_mem_loadNamed {contents : Except String (List UInt8)} {r : Log.Record}
    (h : r ∈ (loadNamed contents).log) : r.source = .classFile := by
  have hload (hr : r ∈ (load contents).log) : r.source = .classFile := by
    unfold load at hr
    split at hr
    · cases hr
    · cases hr
    · exact ClassFile.source_of_mem_parse hr
  rw [loadNamed, Logged.log_bind, List.mem_append] at h
  obtain hr | hr := h
  · exact hload hr
  · split at hr
    · cases hr
    · split at hr <;> cases hr

/-- The tables in the code of a method that can be decoded, in their order. -/
def decodedTables (check : LengthCheck) (pool : ConstantPool) (m : Member) :
    List LocalVariableTable :=
  match m.code? pool with
  | .ok (some code) =>
    (code.localVariableTables pool check).filterMap fun table => table.value.toOption
  | _ => []

/-- The tables in a file that can be decoded, in their order. -/
def decodedFileTables (check : LengthCheck) (contents : Except String (List UInt8)) :
    List LocalVariableTable :=
  match (loadNamed contents).value with
  | .ok (c, _) => c.methods.flatMap (decodedTables check c.pool)
  | .error _ => []

theorem not_isOwnWarning_report (message : String) :
    ∀ r ∈ (report message).log, ¬ r.IsOwnWarning := by
  intro r hr
  rw [List.mem_singleton.mp hr]
  rintro ⟨hlevel, -⟩
  cases hlevel

section

variable {options options' : Options} (hquiet : options.warnDescriptors = false)
  (hwarn : options'.warnDescriptors = true)
include hquiet hwarn

theorem annotated_listTable {table : Logged (Except Error LocalVariableTable)}
    (htable : ∀ r ∈ table.log, ¬ r.IsOwnWarning) :
    Annotated table.value.toOption.toList (listTable options table).log
      (listTable options' table).log := by
  rw [listTable, listTable, Logged.log_bind, Logged.log_bind]
  refine (Annotated.same htable).append ?_
  cases table.value with
  | error e => exact .same (not_isOwnWarning_report _)
  | ok t =>
      dsimp only
      rw [hquiet, hwarn, if_neg Bool.false_ne_true, if_pos rfl]
      simp only [Logged.log_bind, Logged.log_pure, List.append_nil, Except.toOption]
      have h := Annotated.table t t.forall₂_descriptorWarnings .nil
      rwa [List.append_nil, List.append_nil] at h

variable (hcheck : options'.lengthCheck = options.lengthCheck) (path : String)
include hcheck

theorem annotated_listBody (pool : ConstantPool) (m : Member) :
    Annotated (decodedTables options.lengthCheck pool m) (listBody options path pool m).log
      (listBody options' path pool m).log := by
  rw [decodedTables]
  cases hcode : m.code? pool with
  | error e =>
      rw [listBody, listBody, hcode]
      exact .same (not_isOwnWarning_report _)
  | ok code? =>
    cases code? with
    | none =>
        rw [listBody, listBody, hcode]
        exact .nil
    | some code =>
        rw [log_listBody options path pool hcode, log_listBody options' path pool hcode, hcheck]
        dsimp only
        rw [List.filterMap_eq_flatMap_toList]
        exact .flatMap fun table htable =>
          annotated_listTable hquiet hwarn (Code.not_isOwnWarning_localVariableTables htable)

theorem annotated_listMethod (pool : ConstantPool) (className : String) (m : Member) :
    Annotated (decodedTables options.lengthCheck pool m)
      (listMethod options path pool className m).log
      (listMethod options' path pool className m).log := by
  have hbody := annotated_listBody hquiet hwarn hcheck path pool m
  rw [log_listMethod, log_listMethod]
  cases header pool className m with
  | ok found => exact hbody
  | error e => exact .append (.same (not_isOwnWarning_report _)) hbody

theorem annotated_listFile (contents : Except String (List UInt8)) :
    Annotated (decodedFileTables options.lengthCheck contents) (listFile options path contents).log
      (listFile options' path contents).log := by
  have hload : ∀ r ∈ (loadNamed contents).log, ¬ r.IsOwnWarning := by
    rintro r hr ⟨-, hsource⟩
    cases hsource.symm.trans (source_of_mem_loadNamed hr)
  rw [listFile, listFile, Logged.log_bind, Logged.log_bind, decodedFileTables]
  refine (Annotated.same hload).append ?_
  cases (loadNamed contents).value with
  | error e => exact .same (not_isOwnWarning_report _)
  | ok loaded =>
      obtain ⟨c, className⟩ := loaded
      have hclass : Annotated (c.methods.flatMap (decodedTables options.lengthCheck c.pool))
          (listClass options path c className).log (listClass options' path c className).log := by
        rw [log_listClass, log_listClass]
        exact .flatMap fun m _ =>
          annotated_listMethod hquiet hwarn hcheck path c.pool className m
      -- Both runs count the same failures, so that they report the same number.
      dsimp only
      rw [Logged.log_bind, Logged.log_bind, value_listClass_congr hcheck,
        ← List.append_nil (c.methods.flatMap _)]
      refine hclass.append ?_
      split
      · exact .same (not_isOwnWarning_report _)
      · exact .nil

end

end Listing

/-! ## Runs -/

open CommandLine Listing in
/-- Runs over the same files in the same mode print the same and end in the same way, whether they
warn about descriptors or not and whatever is shown of their logs. The log of the run that warns is
the other one with a warning for each entry whose descriptor is malformed, put in before the table
of the entry is rendered. -/
theorem diagnostics_do_not_interfere (contents : String → Except String (List UInt8))
    (arguments arguments' : List String)
    (hpaths : (ofArguments arguments').paths = (ofArguments arguments).paths)
    (hmode : "--permissive" ∈ arguments' ↔ "--permissive" ∈ arguments) :
    let check := if "--permissive" ∈ arguments then LengthCheck.permissive else .strict
    let tables := (ofArguments arguments).paths.flatMap fun path =>
      decodedFileTables check (contents path)
    let log := records contents arguments
    let log' := records contents arguments'
    (∀ threshold threshold',
      (run contents threshold' arguments').output = (run contents threshold arguments).output ∧
      (run contents threshold' arguments').exitStatus =
        (run contents threshold arguments).exitStatus) ∧
    ("--warn-descriptors" ∉ arguments → "--warn-descriptors" ∈ arguments' →
      Annotated tables log log' ∧
      log'.filter (fun r => ¬ r.IsOwnWarning) = log ∧
      List.Forall₂ LocalVariable.WarnedBy (tables.flatMap LocalVariableTable.misdescribed)
        (log'.filter fun r => r.IsOwnWarning) ∧
      ∀ table ∈ tables,
        List.Forall₂ LocalVariable.SkippedBy table.misdescribed table.declarationLines.log) := by
  intro check tables log log'
  have hcheck : (ofArguments arguments').options.lengthCheck =
      (ofArguments arguments).options.lengthCheck := if_congr hmode rfl rfl
  constructor
  · intro threshold threshold'
    constructor
    · simp only [output_run, hpaths, value_listFile_congr hcheck]
    · simp only [exitStatus_run, hpaths, value_listFile_congr hcheck]
  · intro hquiet hwarn
    have hannotated : Annotated tables log log' := by
      simp only [log, log', records_eq, hpaths]
      exact .flatMap fun path _ =>
        annotated_listFile (decide_eq_false hquiet) (decide_eq_true hwarn) hcheck path
          (contents path)
    exact ⟨hannotated, hannotated.filter_not, hannotated.forall₂_filter,
      fun table _ => table.forall₂_log_declarationLines⟩

/-- A class with a table of two variables, the first of which has the descriptor of a method. -/
def misdescribedImage : ClassImage :=
  { mismatchedImage with
    poolCount := 8
    entries := mismatchedImage.entries ++ [.text (Bytes.Utf8.encode "I")]
    methods := [⟨1, 3, 4, [⟨5, (returnCode [⟨6,
      LocalVariableTable.encode [⟨0, 1, 3, 4, 2⟩, ⟨0, 1, 3, 7, 1⟩]⟩]).bytes⟩]⟩] }

open CommandLine in
theorem diagnostics_do_not_interfere_misdescribed :
    let contents : String → Except String (List UInt8) := fun _ => .ok misdescribedImage.bytes
    let quiet := ["B.class"]
    let warning := ["--warn-descriptors", "B.class"]
    (ofArguments warning).paths = (ofArguments quiet).paths ∧
      ("--permissive" ∈ warning ↔ "--permissive" ∈ quiet) ∧
      "--warn-descriptors" ∉ quiet ∧ "--warn-descriptors" ∈ warning ∧
      (run contents (some .trace) warning).output = ["class T \x7b", "",
        "    public void run()", "        int run; // index = 1", "\x7d"] ∧
      (records contents warning).filter (fun r => ¬ r.IsOwnWarning) = records contents quiet ∧
      (records contents warning).filter (fun r => r.IsOwnWarning) = [⟨.warn, .commandLine,
        "Local variable in slot 2: Malformed descriptor \"()V\" at offset 0"⟩] := by
  intro contents quiet warning
  have hpaths : (ofArguments warning).paths = (ofArguments quiet).paths := by decide +kernel
  have hmode : "--permissive" ∈ warning ↔ "--permissive" ∈ quiet := by decide
  have hquiet : "--warn-descriptors" ∉ quiet := by decide
  have hwarn : "--warn-descriptors" ∈ warning := by decide
  obtain ⟨hsame, hlogs⟩ := diagnostics_do_not_interfere contents quiet warning hpaths hmode
  obtain ⟨-, hrest, -⟩ := hlogs hquiet hwarn
  refine ⟨hpaths, hmode, hquiet, hwarn, ?_, hrest, by decide +kernel⟩
  rw [(hsame none (some .trace)).1]
  decide +kernel

end JvmClass
