import JvmClass.Proofs.CommandRuns
import JvmClass.Proofs.Failures
import Mathlib.Algebra.GroupWithZero.Nat

/-!
# Errors that are reported

A file that cannot be loaded is reported with one error. Of a class each part that cannot be read is
reported where it stands: the header of a method, then its code or the tables in it. Their number is
reported after the class, and decides about the exit status. Nothing else is logged as an error.
-/

namespace JvmClass

/-! ## Records of errors -/

namespace Log

/-- The records of errors, in their order. -/
def errors (records : List Record) : List Record :=
  records.filter fun r => r.level == .error

/-- The record of an error that the command line reports. -/
def Record.failure (message : String) : Record :=
  ⟨.error, .commandLine, message⟩

@[simp] theorem errors_append (front back : List Record) :
    errors (front ++ back) = errors front ++ errors back :=
  List.filter_append front back

theorem errors_flatMap {α : Type} (f : α → List Record) (xs : List α) :
    errors (xs.flatMap f) = xs.flatMap fun x => errors (f x) :=
  List.filter_flatMap

theorem errors_eq_nil {records : List Record} (h : ∀ r ∈ records, r.level ≠ .error) :
    errors records = [] := by
  rw [errors, List.filter_eq_nil_iff]
  intro r hr
  rw [beq_iff_eq]
  exact h r hr

end Log

/-! ## Logs without errors -/

theorem VariableRecord.errors_log (pool : ConstantPool) (v : VariableRecord) :
    Log.errors (v.log pool) = [] := by
  have hreference (index : UInt16) : Log.errors (referenceLog pool index) = [] := by
    rw [referenceLog]
    split <;> rfl
  rw [log, Log.errors_append, hreference, List.append_nil]
  exact hreference v.nameIndex

namespace LocalVariableTable

theorem errors_mismatchLog (declared count : Nat) :
    Log.errors (mismatchLog declared count) = [] := by
  rw [mismatchLog]
  split <;> rfl

/-- Decoding a table warns, but leaves it to others to report its error. -/
theorem errors_decode (pool : ConstantPool) (check : LengthCheck) (name : String)
    (declared : Nat) (r : Reader) :
    Log.errors (decode pool check name declared r).1.log = [] := by
  change Log.errors (decodeBody pool check name declared (r.split declared).1).log = []
  rw [decodeBody]
  split
  · rfl
  split
  · rfl
  · rw [decodeRecords, Log.errors_append, errors_mismatchLog, List.nil_append, Log.errors_flatMap,
      List.flatMap_eq_nil_iff]
    exact fun v _ => v.errors_log pool

theorem errors_declarationLines (table : LocalVariableTable) :
    Log.errors table.declarationLines.log = [] := by
  rw [declarationLines, Log.errors_flatMap, List.flatMap_eq_nil_iff]
  intro v _
  rw [LocalVariable.render]
  split <;> rfl

end LocalVariableTable

theorem Code.errors_localVariableTables {pool : ConstantPool} {check : LengthCheck} {code : Code}
    {table : Logged (Except Error LocalVariableTable)}
    (h : table ∈ code.localVariableTables pool check) : Log.errors table.log = [] := by
  obtain ⟨a, -, rfl⟩ := List.mem_map.mp h
  exact LocalVariableTable.errors_decode pool check _ _ _

theorem Listing.errors_descriptorWarnings (table : LocalVariableTable) :
    Log.errors (descriptorWarnings table) = [] := by
  apply Log.errors_eq_nil
  intro r hr
  obtain ⟨v, -, hv⟩ := List.mem_filterMap.mp hr
  split at hv
  · cases hv
  · cases hv
    exact nofun

theorem ClassFile.errors_parse (bytes : List UInt8) : Log.errors (parse bytes).log = [] := by
  rw [parse]
  split <;> rfl

theorem Listing.errors_loadNamed (contents : Except String (List UInt8)) :
    Log.errors (loadNamed contents).log = [] := by
  have hload : Log.errors (load contents).log = [] := by
    unfold load
    split
    · rfl
    · rfl
    · exact ClassFile.errors_parse _
  rw [loadNamed, Logged.log_bind, Log.errors_append, hload, List.nil_append]
  split
  · rfl
  · split <;> rfl

/-! ## Parts that cannot be read -/

namespace Listing

/-- A part of a class that cannot be read, and why. -/
inductive Unreadable where
  | header (cause : Error)
  | code (cause : Error)
  | table (cause : Error)
deriving DecidableEq, Repr

namespace Unreadable

def cause : Unreadable → Error
  | header e | code e | table e => e

/-- What is reported of it. Only a table is reported without the file it is in. -/
def message (path : String) : Unreadable → String
  | header e | code e => path ++ ": " ++ e.message
  | table e => e.message

def ofTable? : Except Error LocalVariableTable → Option Unreadable
  | .ok _ => none
  | .error e => some (.table e)

end Unreadable

def unreadableHeader (pool : ConstantPool) (className : String) (m : Member) : List Unreadable :=
  match header pool className m with
  | .ok _ => []
  | .error e => [.header e]

def unreadableBody (check : LengthCheck) (pool : ConstantPool) (m : Member) : List Unreadable :=
  match m.code? pool with
  | .ok none => []
  | .ok (some code) =>
    (code.localVariableTables pool check).filterMap fun table => Unreadable.ofTable? table.value
  | .error e => [.code e]

/-- The parts of a method that cannot be read, in their order. -/
def unreadableParts (check : LengthCheck) (pool : ConstantPool) (className : String)
    (m : Member) : List Unreadable :=
  unreadableHeader pool className m ++ unreadableBody check pool m

/-! ## Their records -/

theorem errors_listTable (options : Options) {table : Logged (Except Error LocalVariableTable)}
    (hquiet : Log.errors table.log = []) (path : String) :
    Log.errors (listTable options table).log =
      (Unreadable.ofTable? table.value).toList.map fun u => .failure (u.message path) := by
  rw [listTable, Logged.log_bind, Log.errors_append, hquiet, List.nil_append]
  cases table.value with
  | error e => rfl
  | ok t =>
      dsimp only
      split
      · rw [Logged.log_bind, Logged.log_bind, Logged.log_pure, List.append_nil,
          Log.errors_append, errors_descriptorWarnings, t.errors_declarationLines]
        rfl
      · rw [Logged.log_bind, Logged.log_pure, List.append_nil, t.errors_declarationLines]
        rfl

theorem errors_listBody (options : Options) (path : String) (pool : ConstantPool) (m : Member) :
    Log.errors (listBody options path pool m).log =
      (unreadableBody options.lengthCheck pool m).map fun u => .failure (u.message path) := by
  rw [unreadableBody]
  cases hcode : m.code? pool with
  | error e =>
      rw [listBody, hcode]
      rfl
  | ok code? =>
    cases code? with
    | none =>
        rw [listBody, hcode]
        rfl
    | some code =>
        rw [log_listBody options path pool hcode, Log.errors_flatMap]
        dsimp only
        rw [List.filterMap_eq_flatMap_toList, List.map_flatMap]
        apply List.flatMap_congr
        intro table htable
        exact errors_listTable options (Code.errors_localVariableTables htable) path

theorem errors_listMethod (options : Options) (path : String) (pool : ConstantPool)
    (className : String) (m : Member) :
    Log.errors (listMethod options path pool className m).log =
      (unreadableParts options.lengthCheck pool className m).map
        fun u => .failure (u.message path) := by
  rw [log_listMethod, Log.errors_append, errors_listBody, unreadableParts, unreadableHeader,
    List.map_append]
  cases header pool className m <;> rfl

/-! ## Their number -/

theorem failures_listBody (options : Options) (path : String) (pool : ConstantPool) (m : Member) :
    (listBody options path pool m).value.failures =
      (unreadableBody options.lengthCheck pool m).map Unreadable.cause := by
  rw [listBody, unreadableBody]
  cases m.code? pool with
  | error e => rfl
  | ok code? =>
    cases code? with
    | none => rfl
    | some code =>
        dsimp only
        rw [Logged.value_bind, Logged.value_pure, Logged.value_all, List.map_map, Body.failures,
          List.filterMap_map, List.map_filterMap]
        apply List.filterMap_congr
        intro table _
        rw [Function.comp_apply, Function.comp_apply, value_listTable]
        cases table.value <;> rfl

/-- As many failures are counted in a method as errors are reported. -/
theorem failures_listMethod (options : Options) (path : String) (pool : ConstantPool)
    (className : String) (m : Member) :
    (listMethod options path pool className m).value.failures =
      (unreadableParts options.lengthCheck pool className m).map Unreadable.cause := by
  rw [listMethod, unreadableParts, unreadableHeader, List.map_append,
    ← failures_listBody options path]
  cases header pool className m with
  | ok found => rfl
  | error e => rfl

/-- The method has no name, or is no class initializer and has no descriptor or one that no method
has. -/
def HeaderUnreadable (pool : ConstantPool) (m : Member) : Prop :=
  pool.text? m.nameIndex = none ∨
    pool.text? m.nameIndex ≠ some "<clinit>" ∧
      ¬ ∃ d : MethodDescriptor, d.WellFormed ∧ pool.text? m.descriptorIndex = some d.descriptor

theorem methodDescriptor_eq_ok_iff {pool : ConstantPool} {m : Member} {d : MethodDescriptor} :
    m.methodDescriptor pool = .ok d ↔
      d.WellFormed ∧ pool.text? m.descriptorIndex = some d.descriptor := by
  have hparse (text : String) :
      MethodDescriptor.parse text = .ok d ↔ d.WellFormed ∧ text = d.descriptor :=
    Descriptor.method_takes.inverts.ok_iff text d
  rw [← ConstantPool.text_eq_ok_iff]
  change (pool.text m.descriptorIndex >>= MethodDescriptor.parse) = .ok d ↔ _
  cases pool.text m.descriptorIndex with
  | error e => simp [bind, Except.bind]
  | ok text => simpa [bind, Except.bind] using hparse text

theorem header_eq_ok_iff {pool : ConstantPool} {className : String} {m : Member} :
    (∃ text, header pool className m = .ok text) ↔ ¬ HeaderUnreadable pool m := by
  have hname (name : String) : m.name pool = .ok name ↔ pool.text? m.nameIndex = some name :=
    ConstantPool.text_eq_ok_iff
  rw [header, HeaderUnreadable]
  cases hfound : m.name pool with
  | error e =>
      have hnone : pool.text? m.nameIndex = none := by
        rw [Option.eq_none_iff_forall_ne_some]
        intro name htext
        rw [(hname name).mpr htext] at hfound
        cases hfound
      simp [hnone, bind, Except.bind]
  | ok name =>
      rw [(hname name).mp hfound]
      by_cases hinitializer : name = initializerName
      · simp [hinitializer, bind, Except.bind, initializerName, pure, Except.pure]
      · have hsource : some name ≠ some "<clinit>" := fun h => hinitializer (Option.some.inj h)
        simp only [hsource, ne_eq, not_false_eq_true, true_and, reduceCtorEq, false_or, not_not,
          ← methodDescriptor_eq_ok_iff]
        change (∃ text, (if name = initializerName then _ else _) = Except.ok text) ↔ _
        rw [if_neg hinitializer]
        cases m.methodDescriptor pool with
        | error e => simp [bind, Except.bind]
        | ok d => simp [bind, Except.bind, pure, Except.pure]

instance (pool : ConstantPool) : DecidablePred (HeaderUnreadable pool) := fun m =>
  match h : header pool "" m with
  | .ok text => .isFalse (header_eq_ok_iff.mp ⟨text, h⟩)
  | .error _ => .isTrue (not_not.mp fun hreadable => by
    obtain ⟨text, htext⟩ := header_eq_ok_iff.mpr hreadable
    exact nomatch h.symm.trans htext)

/-- The first attribute of the method with the name of code holds none. -/
def CodeUnreadable (pool : ConstantPool) (m : Member) : Prop :=
  ∃ a, (Attribute.named "Code" pool m.attributes).head? = some a ∧
    ∀ code rest, Code.decode a.body ≠ .ok code rest

theorem codeUnreadable_iff {pool : ConstantPool} {m : Member} :
    CodeUnreadable pool m ↔ ∃ e, m.code? pool = .error e := by
  constructor
  · rintro ⟨a, hhead, hnone⟩
    obtain ⟨others, hnamed⟩ := List.head?_eq_some_iff.mp hhead
    rw [Member.code?, Code.attributeName, hnamed]
    dsimp only
    cases hdecode : Code.decode a.body with
    | ok code rest => exact absurd hdecode (hnone code rest)
    | error e rest =>
        rw [Code.ofAttribute_of_decode_error hdecode]
        exact ⟨_, rfl⟩
  · rintro ⟨e, he⟩
    obtain ⟨a, _, _, hhead, hdecode, -⟩ := Member.code?_eq_error he
    refine ⟨a, hhead, ?_⟩
    intro code rest hok
    rw [hdecode] at hok
    cases hok

instance (pool : ConstantPool) : DecidablePred (CodeUnreadable pool) := fun m =>
  match h : m.code? pool with
  | .error e => .isTrue (codeUnreadable_iff.mpr ⟨e, h⟩)
  | .ok _ => .isFalse fun hcode => by
    obtain ⟨e, he⟩ := codeUnreadable_iff.mp hcode
    exact nomatch h.symm.trans he

/-- How many tables in the code of a method cannot be decoded, if the code itself can be read. -/
def unreadableTables (check : LengthCheck) (pool : ConstantPool) (m : Member) : Nat :=
  match m.code? pool with
  | .ok (some code) =>
    (Attribute.named "LocalVariableTable" pool code.attributes).countP fun a =>
      (LocalVariableTable.decode pool check "LocalVariableTable" a.info.length
        a.body).1.value.toOption.isNone
  | _ => 0

/-- How many headers, codes and tables of a class cannot be read. -/
def unreadableCount (check : LengthCheck) (c : ClassFile) : Nat :=
  c.methods.countP (HeaderUnreadable c.pool) + c.methods.countP (CodeUnreadable c.pool) +
    (c.methods.map (unreadableTables check c.pool)).sum

section

variable (check : LengthCheck) (pool : ConstantPool) (className : String) (m : Member)

theorem length_unreadableHeader :
    (unreadableHeader pool className m).length = if HeaderUnreadable pool m then 1 else 0 := by
  rw [unreadableHeader]
  split
  · rename_i text htext
    rw [if_neg (header_eq_ok_iff.mp ⟨text, htext⟩)]
    rfl
  · rename_i e he
    rw [if_pos]
    · rfl
    · refine not_not.mp fun hreadable => ?_
      obtain ⟨text, htext⟩ := header_eq_ok_iff.mpr hreadable
      cases he.symm.trans htext

theorem length_unreadableBody :
    (unreadableBody check pool m).length =
      (if CodeUnreadable pool m then 1 else 0) + unreadableTables check pool m := by
  have hreadable {code? : Option Code} (h : m.code? pool = .ok code?) :
      ¬ CodeUnreadable pool m := by
    rw [codeUnreadable_iff, h]
    exact nofun
  rw [unreadableBody, unreadableTables]
  split
  · rename_i hcode
    rw [if_neg (hreadable hcode), hcode]
    rfl
  · rename_i code hcode
    rw [if_neg (hreadable hcode), hcode, Nat.zero_add]
    dsimp only
    rw [List.length_filterMap_eq_countP, Code.localVariableTables, LocalVariableTable.decodeAll,
      List.countP_map]
    apply List.countP_congr
    intro a _
    rw [Function.comp_apply, LocalVariableTable.attributeName]
    cases (LocalVariableTable.decode pool check "LocalVariableTable" a.info.length
      a.body).1.value <;> exact Iff.rfl
  · rename_i e hcode
    rw [if_pos (codeUnreadable_iff.mpr ⟨e, hcode⟩), hcode]
    rfl

end

theorem length_flatMap_unreadableParts (check : LengthCheck) (pool : ConstantPool)
    (className : String) (ms : List Member) :
    (ms.flatMap (unreadableParts check pool className)).length =
      ms.countP (HeaderUnreadable pool) + ms.countP (CodeUnreadable pool) +
        (ms.map (unreadableTables check pool)).sum := by
  induction ms with
  | nil => rfl
  | cons m ms ih =>
      rw [List.flatMap_cons, List.length_append, ih, unreadableParts, List.length_append,
        length_unreadableHeader, length_unreadableBody, List.countP_cons, List.countP_cons,
        List.map_cons, List.sum_cons]
      simp only [decide_eq_true_eq]
      omega

/-! ## Files -/

variable (options : Options) (path : String)

/-- The parts of a class that cannot be read, in their order. -/
def unreadableClassParts (check : LengthCheck) (c : ClassFile) (className : String) :
    List Unreadable :=
  c.methods.flatMap (unreadableParts check c.pool className)

theorem failures_listClass (c : ClassFile) (className : String) :
    (listClass options path c className).value.failures =
      (unreadableClassParts options.lengthCheck c className).map Unreadable.cause := by
  rw [value_listClass, Block.failures, List.flatMap_map, unreadableClassParts, List.map_flatMap]
  exact List.flatMap_congr fun m _ => failures_listMethod options path c.pool className m

theorem errors_listClass (c : ClassFile) (className : String) :
    Log.errors (listClass options path c className).log =
      (unreadableClassParts options.lengthCheck c className).map
        fun u => .failure (u.message path) := by
  rw [log_listClass, Log.errors_flatMap, unreadableClassParts, List.map_flatMap]
  exact List.flatMap_congr fun m _ => errors_listMethod options path c.pool className m

theorem length_failures_listClass (c : ClassFile) (className : String) :
    (listClass options path c className).value.failures.length =
      unreadableCount options.lengthCheck c := by
  rw [failures_listClass, List.length_map, unreadableClassParts, length_flatMap_unreadableParts,
    unreadableCount]

theorem errors_listFile (contents : Except String (List UInt8)) :
    Log.errors (listFile options path contents).log =
      match (loadNamed contents).value with
      | .error e => [.failure (path ++ ": " ++ e.message)]
      | .ok (c, className) =>
        let count := unreadableCount options.lengthCheck c
        (unreadableClassParts options.lengthCheck c className).map
            (fun u => .failure (u.message path)) ++
          if count = 0 then [] else [.failure s!"{path}: {count} unreadable attribute(s)"] := by
  rw [listFile, Logged.log_bind, Log.errors_append, errors_loadNamed, List.nil_append]
  cases (loadNamed contents).value with
  | error e => rfl
  | ok loaded =>
      obtain ⟨c, className⟩ := loaded
      dsimp only
      rw [Logged.log_bind, Log.errors_append, errors_listClass, length_failures_listClass]
      congr 1
      by_cases hcount : unreadableCount options.lengthCheck c = 0
      · rw [if_pos hcount, if_neg (not_not.mpr hcount)]
        rfl
      · rw [if_neg hcount, if_pos hcount]
        rfl

theorem failed_listFile (contents : Except String (List UInt8)) :
    (listFile options path contents).value.failed = true ↔
      (∃ e, Unlisted contents e) ∨ ∃ c className, Listed contents c className ∧
        0 < unreadableCount options.lengthCheck c := by
  simp only [← loadNamed_eq_error_iff, ← loadNamed_eq_ok_iff]
  rw [value_listFile]
  cases (loadNamed contents).value with
  | error e => exact iff_of_true rfl (.inl ⟨e, rfl⟩)
  | ok loaded =>
      obtain ⟨c, className⟩ := loaded
      dsimp only [Except.map, File.failed]
      rw [Bool.not_eq_true', List.isEmpty_eq_false_iff, ← List.length_pos_iff,
        length_failures_listClass]
      constructor
      · intro hpos
        exact .inr ⟨c, className, rfl, hpos⟩
      · rintro (⟨e, he⟩ | ⟨_, _, hloaded, hpos⟩)
        · cases he
        · cases hloaded
          exact hpos

end Listing

/-! ## Runs -/

open Listing in
/-- Which errors a run reports, and how it ends. A file that cannot be listed is reported once, with
the reason; of a class each header, code or table that cannot be read is reported where it stands, and their number
after them if there are any. The exit status tells whether there was anything to report. -/
theorem error_records_accounted (contents : String → Except String (List UInt8))
    (threshold : Log.Threshold) (arguments : List String) :
    let command := CommandLine.ofArguments arguments
    let check := command.options.lengthCheck
    let log path := (listFile command.options path (contents path)).log
    CommandLine.records contents arguments = command.paths.flatMap log ∧
    (∀ path,
      match (loadNamed (contents path)).value with
      | .error e => Unlisted (contents path) e ∧
        Log.errors (log path) = [⟨.error, .commandLine, path ++ ": " ++ e.message⟩]
      | .ok (c, className) => Listed (contents path) c className ∧
        ∃ failures : List Log.Record,
          failures = c.methods.flatMap (fun m => (unreadableParts check c.pool className m).map
            fun u => ⟨.error, .commandLine, u.message path⟩) ∧
          failures.length = c.methods.countP (HeaderUnreadable c.pool) +
            c.methods.countP (CodeUnreadable c.pool) +
            (c.methods.map (unreadableTables check c.pool)).sum ∧
          Log.errors (log path) = failures ++
            if failures.length = 0 then []
            else [⟨.error, .commandLine,
              s!"{path}: {failures.length} unreadable attribute(s)"⟩]) ∧
    ((CommandLine.run contents threshold arguments).exitStatus = 1 ↔
      command.paths = [] ∨ ∃ path ∈ command.paths,
        (∃ e, Unlisted (contents path) e) ∨
          ∃ c className, Listed (contents path) c className ∧
            0 < c.methods.countP (HeaderUnreadable c.pool) +
              c.methods.countP (CodeUnreadable c.pool) +
              (c.methods.map (unreadableTables check c.pool)).sum) := by
  intro command check log
  refine ⟨CommandLine.records_eq contents arguments, ?_, ?_⟩
  · intro path
    have herrors := errors_listFile command.options path (contents path)
    cases hloaded : (loadNamed (contents path)).value with
    | error e =>
        rw [hloaded] at herrors
        exact ⟨loadNamed_eq_error_iff.mp hloaded, herrors⟩
    | ok loaded =>
        obtain ⟨c, className⟩ := loaded
        rw [hloaded] at herrors
        have hlength := length_flatMap_unreadableParts check c.pool className c.methods
        refine ⟨loadNamed_eq_ok_iff.mp hloaded, _, rfl, ?_, ?_⟩
        · rw [← List.map_flatMap, List.length_map, hlength]
        · rw [← List.map_flatMap, List.length_map, hlength]
          exact herrors
  · rw [CommandLine.exitStatus_run]
    simp only [failed_listFile, ite_eq_left_iff, Nat.zero_ne_one, imp_false, not_not]
    exact Iff.rfl

end JvmClass
