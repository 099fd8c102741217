import JvmClass.Proofs.ChangedBodies
import JvmClass.Proofs.CommandRuns

/-!
# Damaged methods

Bytes that change in the attributes of one method change nothing that is listed of a class but the
lines under the header of this method. If they change within one table of its code, the other tables
still contribute the same declarations. For this the bodies are told apart by their places: those in
front of the changed ones and those after them have the same bytes in both files.
-/

namespace JvmClass

open Attribute (InOrder)

/-! ## Bodies apart from the changed ones -/

namespace Attribute

variable {file file' : List UInt8} {lower upper : Nat}

theorem InOrder.sublist {part attributes : List Attribute}
    (h : InOrder file lower upper attributes) (hpart : part.Sublist attributes) :
    InOrder file lower upper part where
  stand a ha := h.stand a (hpart.subset ha)
  lower_le a ha := h.lower_le a (hpart.subset ha)
  le_upper a ha := h.le_upper a (hpart.subset ha)
  apart := h.apart.sublist hpart

/-- The bodies in front of the changed ones and those after them have not changed. -/
theorem InOrder.map_inFile {front bodies back : List Attribute}
    (h : InOrder file lower upper (front ++ bodies ++ back))
    (hdiffer : DifferOnlyIn bodies file file') :
    front.map (inFile file') = front ∧ back.map (inFile file') = back := by
  obtain ⟨hbefore, -, hbehind⟩ := List.pairwise_append.mp h.apart
  obtain ⟨-, -, hahead⟩ := List.pairwise_append.mp hbefore
  constructor
  · refine (List.map_congr_left fun a ha => ?_).trans (List.map_id' front)
    have hstands := h.stand a (List.mem_append_left _ (List.mem_append_left _ ha))
    refine hstands.inFile_eq_self hdiffer ?_
    rintro p - hlimit ⟨b, hb, hoffset, -⟩
    have hapart := hahead a ha b hb
    omega
  · refine (List.map_congr_left fun a ha => ?_).trans (List.map_id' back)
    have hstands := h.stand a (List.mem_append_right _ ha)
    refine hstands.inFile_eq_self hdiffer ?_
    rintro p hoffset - ⟨b, hb, -, hlimit⟩
    have hapart := hbehind b (List.mem_append_right _ hb) a ha
    omega

end Attribute

/-! ## The method and its class -/

namespace Member

variable {file file' : List UInt8} {pool : ConstantPool} {m : Member} {code : Code}

theorem inFile_eq_self (h : m.attributes.map (Attribute.inFile file) = m.attributes) :
    m.inFile file = m := by
  rw [inFile, h]

/-- The body that the code of a method is read from stands in the file. -/
theorem exists_codeBody (hstands : ∀ a ∈ m.attributes, a.StandsIn file)
    (hcode : m.code? pool = .ok (some code)) :
    ∃ a others s, Attribute.named Code.attributeName pool m.attributes = a :: others ∧
      a.StandsIn file ∧ Code.decode a.body = .ok code s := by
  obtain ⟨a, s, hhead, hdecode⟩ := code?_eq_some hcode
  obtain ⟨others, hnamed⟩ := List.head?_eq_some_iff.mp hhead
  have ha : a ∈ m.attributes := (List.mem_filter.mp (List.mem_of_mem_head? hhead)).1
  exact ⟨a, others, s, hnamed, hstands a ha, hdecode⟩

theorem inOrder_code (hstands : ∀ a ∈ m.attributes, a.StandsIn file)
    (hcode : m.code? pool = .ok (some code)) :
    ∃ lower upper, InOrder file lower upper code.attributes := by
  obtain ⟨a, -, s, -, ha, hdecode⟩ := exists_codeBody hstands hcode
  obtain ⟨image, hfits, rfl, hmoves⟩ := (Code.decode_reads _ _ _).mp hdecode
  exact ⟨_, _, CodeImage.placesInOrder _ _ _ ha.views_body hfits hmoves⟩

/-- Changes to bodies in the code leave it readable. -/
theorem code?_inFile (hstands : ∀ a ∈ m.attributes, a.StandsIn file)
    (hcode : m.code? pool = .ok (some code)) (hdiffer : DifferOnlyIn code.attributes file file') :
    (m.inFile file').code? pool = .ok (some (code.inFile file')) := by
  obtain ⟨a, others, s, hnamed, ha, hdecode⟩ := exists_codeBody hstands hcode
  obtain ⟨u, hdecode'⟩ := Code.decode_inFile ha hdecode hdiffer
  rw [code?, inFile, Attribute.named_map (Attribute.inFile file') fun _ => rfl, hnamed]
  change (Code.ofAttribute (a.inFile file')).map some = _
  rw [Code.ofAttribute_of_decode hdecode']
  rfl

end Member

namespace ClassFile

variable {file file' : List UInt8} {c : ClassFile} {before after : List Member} {m : Member}

theorem inOrder_of_decode {s : Reader} (h : decode (Reader.ofBytes file 0) = .ok c s) :
    ∃ lower upper, InOrder file lower upper c.allAttributes := by
  obtain ⟨image, hfits, rfl, hmoves⟩ := (decode_reads _ _ _).mp h
  exact ⟨_, _, ClassImage.placesInOrder _ _ _ (Reader.views_ofBytes file) hfits hmoves⟩

theorem allAttributes_split (h : c.methods = before ++ m :: after) :
    c.allAttributes = (c.fields.flatMap Member.attributes ++ before.flatMap Member.attributes) ++
      m.attributes ++ (after.flatMap Member.attributes ++ c.attributes) := by
  simp only [allAttributes, h, List.flatMap_append, List.flatMap_cons, List.append_assoc]

theorem map_inFile_members {members : List Member}
    (h : (members.flatMap Member.attributes).map (Attribute.inFile file) =
      members.flatMap Member.attributes) :
    members.map (Member.inFile file) = members := by
  induction members with
  | nil => rfl
  | cons m members ih =>
      rw [List.flatMap_cons, List.map_append] at h
      obtain ⟨hfirst, hrest⟩ := List.append_inj h (List.length_map _)
      rw [List.map_cons, Member.inFile_eq_self hfirst, ih hrest]

/-- Only the damaged method is another one. -/
theorem methods_inFile {lower upper : Nat} (horder : InOrder file lower upper c.allAttributes)
    (hmethods : c.methods = before ++ m :: after)
    (hdiffer : DifferOnlyIn m.attributes file file') :
    (c.inFile file').methods = before ++ m.inFile file' :: after := by
  rw [allAttributes_split hmethods] at horder
  obtain ⟨hfront, hback⟩ := horder.map_inFile hdiffer
  rw [List.map_append] at hfront hback
  obtain ⟨-, hbefore⟩ := List.append_inj hfront (List.length_map _)
  obtain ⟨hafter, -⟩ := List.append_inj hback (List.length_map _)
  rw [inFile, hmethods, List.map_append, List.map_cons, map_inFile_members hbefore,
    map_inFile_members hafter]

end ClassFile

/-! ## What is listed -/

namespace Listing

/-- The declarations that a table contributes. -/
def declared (check : LengthCheck) (pool : ConstantPool) (a : Attribute) : List String :=
  match (LocalVariableTable.decode pool check "LocalVariableTable" a.info.length
    a.body).1.value with
  | .ok table => table.declarationLines.value
  | .error _ => []

/-- The lines under the header of a method that has code. -/
def declarationsOrNone : List String → List String
  | [] => ["// no local variable information"]
  | declarations => declarations

theorem lines_tables (results : List (Except Error (List String))) :
    (Body.tables results).lines = declarationsOrNone (Body.tables results).declarations := rfl

variable (options : Options) (path : String) (pool : ConstantPool)

theorem value_listBody {m : Member} {code : Code} (h : m.code? pool = .ok (some code)) :
    (listBody options path pool m).value =
      .tables ((Attribute.named "LocalVariableTable" pool code.attributes).map fun a =>
        (LocalVariableTable.decode pool options.lengthCheck "LocalVariableTable" a.info.length
          a.body).1.value.map fun table => table.declarationLines.value) := by
  rw [listBody, h, Logged.value_bind, Logged.value_pure, Logged.value_all, List.map_map,
    Code.localVariableTables, LocalVariableTable.decodeAll, List.map_map]
  refine congrArg Body.tables (List.map_congr_left fun a _ => ?_)
  rw [Function.comp_apply, Function.comp_apply, value_listTable]
  rfl

theorem declarations_listBody {m : Member} {code : Code} (h : m.code? pool = .ok (some code)) :
    (listBody options path pool m).value.declarations =
      (Attribute.named "LocalVariableTable" pool code.attributes).flatMap
        (declared options.lengthCheck pool) := by
  rw [value_listBody options path pool h, Body.declarations, List.flatMap_map]
  refine List.flatMap_congr fun a _ => ?_
  rw [declared]
  cases (LocalVariableTable.decode pool options.lengthCheck "LocalVariableTable"
    a.info.length a.body).1.value with
  | ok table => rfl
  | error e => rfl

theorem lines_listBody {m : Member} {code : Code} (h : m.code? pool = .ok (some code)) :
    (listBody options path pool m).value.lines =
      declarationsOrNone ((Attribute.named "LocalVariableTable" pool code.attributes).flatMap
        (declared options.lengthCheck pool)) := by
  rw [← declarations_listBody options path pool h, value_listBody options path pool h, lines_tables]

variable (className : String) (m : Member)

theorem body_listMethod :
    (listMethod options path pool className m).value.body =
      (listBody options path pool m).value := by
  rw [listMethod]
  split <;> rfl

/-- The header does not depend on the attributes. -/
theorem header_listMethod_inFile (file : List UInt8) :
    (listMethod options path pool className (m.inFile file)).value.header =
      (listMethod options path pool className m).value.header := by
  have hheader : header pool className (m.inFile file) = header pool className m := rfl
  rw [listMethod, listMethod, hheader]
  split <;> rfl

/-- Bytes that change in one table change only its own declarations. -/
theorem lines_listBody_inFile {file file' : List UInt8} {code : Code}
    {first last : List Attribute} {t : Attribute} {m : Member}
    (hstands : ∀ a ∈ m.attributes, a.StandsIn file) (hcode : m.code? pool = .ok (some code))
    (hnamed : Attribute.named "LocalVariableTable" pool code.attributes = first ++ t :: last)
    (hdiffer : DifferOnlyIn [t] file file') :
    let declared := declared options.lengthCheck pool
    (listBody options path pool (m.inFile file')).value.lines = declarationsOrNone
      (first.flatMap declared ++ declared (t.inFile file') ++ last.flatMap declared) := by
  intro declared
  have hsublist : (first ++ [t] ++ last).Sublist code.attributes := by
    rw [List.append_assoc, List.singleton_append, ← hnamed]
    exact List.filter_sublist
  have htable : [t] ⊆ code.attributes := by
    rw [List.cons_subset, and_iff_left (List.nil_subset _)]
    exact hsublist.subset (by simp)
  obtain ⟨lower, upper, horder⟩ := Member.inOrder_code hstands hcode
  obtain ⟨hfirst, hlast⟩ := (horder.sublist hsublist).map_inFile hdiffer
  have hcode' := Member.code?_inFile hstands hcode (hdiffer.mono htable)
  have hnamed' : Attribute.named "LocalVariableTable" pool (code.inFile file').attributes =
      first ++ t.inFile file' :: last := by
    rw [Code.inFile, Attribute.named_map (Attribute.inFile file') fun _ => rfl, hnamed,
      List.map_append, List.map_cons, hfirst, hlast]
  rw [lines_listBody options path pool hcode', hnamed', List.flatMap_append, List.flatMap_cons,
    ← List.append_assoc]

end Listing

open Listing

/-- What is printed of a file, taken apart at one of its methods. -/
theorem CommandLine.output_run_at {contents : String → Except String (List UInt8)}
    (threshold : Log.Threshold) {arguments : List String} {path : String}
    (hpath : (ofArguments arguments).paths = [path]) {file : List UInt8}
    (hfile : contents path = .ok file) {c : ClassFile} {name : String}
    (hc : (ClassFile.parse file).value = .ok c) (hname : c.name = .ok name)
    {before after : List Member} {m : Member} (hmethods : c.methods = before ++ m :: after) :
    let listed (m : Member) :=
      (listMethod (ofArguments arguments).options path c.pool (binaryName name) m).value
    (run contents threshold arguments).output =
      ("class " ++ binaryName name ++ " \x7b") ::
        before.flatMap (fun m => (listed m).lines) ++ ["", "    " ++ (listed m).header] ++
        (listed m).body.lines.map ("        " ++ ·) ++
        (after.flatMap (fun m => (listed m).lines) ++ ["\x7d"]) := by
  intro listed
  rw [output_run, hpath, List.flatMap_singleton, lines_listFile, hfile,
    loadNamed_of_parse hc hname]
  dsimp only
  rw [hmethods, List.flatMap_append, List.flatMap_cons, Method.lines]
  simp only [List.cons_append, List.append_assoc, List.nil_append]
  rfl

/-- A file in which the attributes of one method have other bytes is listed with the same lines but
for those under the header of this method, whatever these bytes are. If they stand in one of the
tables in its code, only what this table contributes to them is different. -/
theorem damage_stays_in_method (contents contents' : String → Except String (List UInt8))
    (threshold : Log.Threshold) (arguments : List String) (path : String)
    (hpath : (CommandLine.ofArguments arguments).paths = [path]) (file file' : List UInt8)
    (hfile : contents path = .ok file) (hfile' : contents' path = .ok file') (c : ClassFile)
    (name : String) (hc : (ClassFile.parse file).value = .ok c) (hname : c.name = .ok name)
    (before after : List Member) (m : Member) (hmethods : c.methods = before ++ m :: after)
    (hdiffer : DifferOnlyIn m.attributes file file') :
    let options := (CommandLine.ofArguments arguments).options
    let listed (m : Member) := (listMethod options path c.pool (binaryName name) m).value
    let above := ("class " ++ binaryName name ++ " \x7b") ::
      before.flatMap (fun m => (listed m).lines) ++ ["", "    " ++ (listed m).header]
    let below := after.flatMap (fun m => (listed m).lines) ++ ["\x7d"]
    let indented (body : Body) := body.lines.map ("        " ++ ·)
    (CommandLine.run contents threshold arguments).output =
      above ++ indented (listed m).body ++ below ∧
    (CommandLine.run contents' threshold arguments).output =
      above ++ indented (listed (m.inFile file')).body ++ below ∧
    ∀ code first t last, m.code? c.pool = .ok (some code) →
      Attribute.named "LocalVariableTable" c.pool code.attributes = first ++ t :: last →
      DifferOnlyIn [t] file file' →
      let declared := declared options.lengthCheck c.pool
      (listed m).body.lines = declarationsOrNone
        (first.flatMap declared ++ declared t ++ last.flatMap declared) ∧
      (listed (m.inFile file')).body.lines = declarationsOrNone
        (first.flatMap declared ++ declared (t.inFile file') ++ last.flatMap declared) := by
  intro options listed above below indented
  obtain ⟨s, hdecode⟩ := ClassFile.parse_eq_ok_iff.mp hc
  obtain ⟨lower, upper, horder⟩ := ClassFile.inOrder_of_decode hdecode
  have hattributes : m.attributes ⊆ c.allAttributes := by
    intro a ha
    rw [ClassFile.allAttributes_split hmethods]
    exact List.mem_append_left _ (List.mem_append_right _ ha)
  refine ⟨?_, ?_, ?_⟩
  · exact CommandLine.output_run_at threshold hpath hfile hc hname hmethods
  · obtain ⟨u, hdecode'⟩ := ClassFile.decode_inFile hdecode (hdiffer.mono hattributes)
    have hc' := ClassFile.parse_eq_ok_iff.mpr ⟨u, hdecode'⟩
    have hmethods' := ClassFile.methods_inFile horder hmethods hdiffer
    rw [CommandLine.output_run_at threshold hpath hfile' hc' hname hmethods',
      header_listMethod_inFile]
    rfl
  · intro code first t last hcode hnamed htable declared
    have hstands : ∀ a ∈ m.attributes, a.StandsIn file := fun a ha =>
      horder.stand a (hattributes ha)
    simp only [listed, body_listMethod]
    constructor
    · rw [lines_listBody options path c.pool hcode, hnamed, List.flatMap_append,
        List.flatMap_cons, ← List.append_assoc]
    · exact lines_listBody_inFile options path c.pool hstands hcode hnamed htable

/-- The first table of the method with two tables, where it stands in the file. -/
def keptTable : Attribute :=
  ⟨4, 206, LocalVariableTable.encode [⟨0, 1, 11, 12, 2⟩, ⟨0, 1, 5, 12, 4⟩]⟩

/-- The second one. It declares nothing as long as no text gives the type of its only variable. -/
def damagedTable : Attribute :=
  ⟨4, 241, LocalVariableTable.encode [⟨0, 1, 11, 99, 0⟩]⟩

def damagedCode : Code :=
  ⟨2, 6, [0xB1], [], [keptTable, ⟨0, 234, [7]⟩, damagedTable]⟩

def damagedMethod : Member :=
  ⟨AccessFlags.ofWord 0x19, 7, 8, [⟨3, 187, (returnCode sampleTables).bytes⟩]⟩

/-- A byte of the second table is changed so that its variable has a type. -/
theorem damage_stays_in_method_sample :
    let file := sampleImage.bytes
    let file' := file.set 250 12
    let lines (declarations : List String) :=
      ["class demo.Sample \x7b", "", "    public Sample()",
        "        // no local variable information", "",
        "    public static final long sum(int[], java.lang.String)"] ++
        declarations.map ("        " ++ ·) ++
        ["", "    static \x7b\x7d", "        // no code", "\x7d"]
    let output (file : List UInt8) :=
      (CommandLine.run (fun _ => .ok file) none ["Sample.class"]).output
    DifferOnlyIn damagedMethod.attributes file file' ∧ DifferOnlyIn [damagedTable] file file' ∧
      output file = lines ["long total; // index = 2"] ∧
      output file' = lines ["long total; // index = 2", "long total; // index = 0"] := by
  intro file file' lines output
  have hdiffer : DifferOnlyIn damagedMethod.attributes file file' :=
    differOnlyIn_set (by decide +kernel) file 12
  have htable : DifferOnlyIn [damagedTable] file file' :=
    differOnlyIn_set (by decide +kernel) file 12
  have hpath : (CommandLine.ofArguments ["Sample.class"]).paths = ["Sample.class"] := by
    decide +kernel
  have hmethods : (sampleImage.placed 0).methods =
      (sampleImage.placed 0).methods.take 1 ++ damagedMethod ::
        (sampleImage.placed 0).methods.drop 2 := by decide +kernel
  have hcode : damagedMethod.code? (sampleImage.placed 0).pool = .ok (some damagedCode) := by
    decide +kernel
  have hnamed : Attribute.named "LocalVariableTable" (sampleImage.placed 0).pool
      damagedCode.attributes = [keptTable] ++ damagedTable :: [] := by decide +kernel
  obtain ⟨houtput, houtput', htables⟩ := damage_stays_in_method (fun _ => .ok file)
    (fun _ => .ok file') none ["Sample.class"] "Sample.class" hpath file file' rfl rfl _ _
    sampleOutline_writtenAs.parse sampleOutline_writtenAs.className _ _ _ hmethods hdiffer
  obtain ⟨hbody, hbody'⟩ := htables damagedCode [keptTable] damagedTable [] hcode hnamed htable
  dsimp only at houtput houtput' hbody hbody'
  refine ⟨hdiffer, htable, ?_, ?_⟩
  · rw [hbody] at houtput
    exact houtput.trans (by decide +kernel)
  · rw [hbody'] at houtput'
    exact houtput'.trans (by decide +kernel)

end JvmClass
