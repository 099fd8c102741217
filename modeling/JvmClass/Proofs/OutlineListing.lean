import JvmClass.CommandLine
import JvmClass.Proofs.DescriptorGrammar
import JvmClass.Proofs.WrittenOutline

/-!
# Listings of written outlines

A file with some outline is listed with the lines of the outline. Each part of the listing is
compared with its part of the outline, from the declarations of one table up to the output of a
run: what is read of the part is known, so it only remains that it is shown in the right form and
that no part counts as unreadable.
-/

namespace JvmClass

open EntryImage

/-! ## Rows -/

theorem map_eq_of_forall₂ {α β γ : Type} {R : α → β → Prop} {f : β → γ} {g : α → γ} {xs : List α}
    {ys : List β} (h : List.Forall₂ R xs ys) (heq : ∀ x ∈ xs, ∀ y, R x y → f y = g x) :
    ys.map f = xs.map g := by
  induction h with
  | nil => rfl
  | cons hxy _ ih =>
      rw [List.forall_mem_cons] at heq
      rw [List.map_cons, List.map_cons, heq.1 _ hxy, ih heq.2]

theorem filterMap_eq_of_forall₂ {α β γ : Type} {R : α → β → Prop} {f : β → Option γ}
    {g : α → Option γ} {xs : List α} {ys : List β} (h : List.Forall₂ R xs ys)
    (heq : ∀ x ∈ xs, ∀ y, R x y → f y = g x) : ys.filterMap f = xs.filterMap g := by
  have hmap := congrArg (List.filterMap id) (map_eq_of_forall₂ h heq)
  rwa [List.filterMap_map, List.filterMap_map, Function.id_comp, Function.id_comp] at hmap

/-! ## Declarations -/

theorem FieldType.sourceName_descriptor {t : FieldType} (h : t.WellFormed) :
    Descriptor.sourceName t.descriptor = .ok t.sourceName := by
  have hparse : parse t.descriptor = .ok t :=
    (Descriptor.fieldType_takes.inverts.ok_iff _ _).mpr ⟨h, rfl⟩
  rw [Descriptor.sourceName, hparse]
  rfl

theorem VariableOutline.render_eq {v : VariableOutline} (h : v.WellFormed)
    (startPc length : UInt16) :
    (LocalVariable.mk startPc length v.name? (v.type?.map FieldType.descriptor) v.slot).render =
      pure v.declaration? := by
  obtain ⟨name?, type?, slot⟩ := v
  have hdeclaration : (LocalVariable.mk startPc length name? (type?.map FieldType.descriptor)
      slot).declaration = .ok (declaration? ⟨name?, type?, slot⟩) := by
    cases name? with
    | none => cases type? <;> rfl
    | some name =>
      cases type? with
      | none => rfl
      | some type =>
          dsimp only [Option.map_some, LocalVariable.declaration]
          rw [FieldType.sourceName_descriptor (h type rfl)]
          rfl
  rw [LocalVariable.render, hdeclaration]

theorem Listing.value_listTable (options : Options)
    (table : Logged (Except Error LocalVariableTable)) :
    (listTable options table).value = table.value.map fun t => t.declarationLines.value := by
  obtain ⟨check, warnDescriptors⟩ := options
  rw [listTable, Logged.value_bind]
  cases table.value with
  | error e => rfl
  | ok t => cases warnDescriptors <;> rfl

/-! ## Bodies -/

/-- The body that is listed for the tables of a method. -/
def listedBody : Option (List (List VariableOutline)) → Listing.Body
  | none => .noCode
  | some tables =>
    .tables (tables.map fun table => .ok (table.filterMap VariableOutline.declaration?))

theorem failures_listedBody (tables? : Option (List (List VariableOutline))) :
    (listedBody tables?).failures = [] := by
  cases tables? with
  | none => rfl
  | some tables =>
      rw [listedBody, Listing.Body.failures, List.filterMap_map, List.filterMap_eq_nil_iff]
      intro table _
      rfl

theorem lines_listedBody (m : MethodOutline) : (listedBody m.tables?).lines = m.bodyLines := by
  rw [MethodOutline.bodyLines]
  cases m.tables? with
  | none => rfl
  | some tables =>
      have hdeclarations : (listedBody (some tables)).declarations =
          tables.flatten.filterMap VariableOutline.declaration? := by
        rw [listedBody, Listing.Body.declarations, List.flatMap_map, List.filterMap_flatten]
        rfl
      dsimp only
      rw [← hdeclarations]
      rfl

section

variable {entries : List EntryImage} (hfits : ∀ e ∈ entries, e.Fits)
include hfits

theorem TableWrittenAs.listTable {table : List VariableOutline} {a : Attribute}
    (h : TableWrittenAs entries table a.image) (hwell : TableWellFormed table)
    (options : Listing.Options) (check : LengthCheck) (name : String) :
    (Listing.listTable options (LocalVariableTable.decode (EntryImage.pool entries) check name
      a.info.length a.body).1).value = .ok (table.filterMap VariableOutline.declaration?) := by
  obtain ⟨records, hrecords, hdecode⟩ := h.decode hwell.length check name
  have hrender (v : VariableOutline) (hv : v ∈ table) (r : VariableRecord)
      (hr : v.WrittenAs entries r) :
      (LocalVariable.ofRecord (EntryImage.pool entries) r).render.value = v.declaration? := by
    rw [hr.ofRecord hfits, VariableOutline.render_eq (hwell.entries v hv), Logged.value_pure]
  rw [Listing.value_listTable, hdecode, ← filterMap_eq_of_forall₂ hrecords hrender]
  simp only [Except.map, LocalVariableTable.declarationLines, List.filterMap_map,
    Function.comp_def]

theorem BodyWrittenAs.listBody {tables? : Option (List (List VariableOutline))} {m : Member}
    (h : BodyWrittenAs entries (m.attributes.map Attribute.image) tables?)
    (hwell : ∀ tables ∈ tables?, ∀ table ∈ tables, TableWellFormed table)
    (options : Listing.Options) (path : String) :
    (Listing.listBody options path (EntryImage.pool entries) m).value = listedBody tables? := by
  have hread := h.code? hfits
  rw [Listing.listBody]
  cases tables? with
  | none =>
      rw [show m.code? (EntryImage.pool entries) = .ok none from hread]
      rfl
  | some tables =>
      obtain ⟨code, hcode, htables⟩ := hread
      have hvalues := map_eq_of_forall₂ htables fun table htable a ha =>
        ha.listTable hfits (hwell tables rfl table htable) options options.lengthCheck
          LocalVariableTable.attributeName
      rw [hcode]
      dsimp only
      rw [Logged.value_bind, Logged.value_all, Code.localVariableTables,
        LocalVariableTable.decodeAll, List.map_map, List.map_map]
      exact congrArg Listing.Body.tables hvalues

end

/-! ## Methods -/

theorem afterLastDot_eq (cs : List Char) :
    afterLastDot cs = (cs.reverse.takeWhile (· != '.')).reverse := by
  induction cs with
  | nil => rfl
  | cons c rest ih =>
      rw [afterLastDot, List.reverse_cons]
      by_cases hdot : '.' ∈ rest
      · have hstop : (rest.reverse.takeWhile (· != '.')).length ≠ rest.reverse.length := by
          intro hlength
          have hwhole := (List.takeWhile_sublist (· != '.')).eq_of_length hlength
          have hpass : '.' ∈ rest.reverse.takeWhile (· != '.') := by
            rw [hwhole]
            exact List.mem_reverse.mpr hdot
          cases List.all_eq_true.mp List.all_takeWhile '.' hpass
        rw [if_pos hdot, ih, List.takeWhile_append, if_neg hstop]
      · have hpass : ∀ x ∈ rest.reverse, (x != '.') = true := by
          intro x hx
          rw [bne_iff_ne]
          rintro rfl
          exact hdot (List.mem_reverse.mp hx)
        rw [if_neg hdot, List.takeWhile_append_of_pos hpass, List.reverse_append,
          List.reverse_reverse]
        by_cases hc : c = '.'
        · rw [if_pos hc, List.takeWhile_cons_of_neg (by simp [hc])]
          rfl
        · rw [if_neg hc, List.takeWhile_cons_of_pos (by simp [hc])]
          rfl

theorem has_ofWord (word : UInt16) (flag : AccessFlag) :
    (AccessFlags.ofWord word).has flag = word.toNat.testBit flag.bit := by
  have hbit : flag.bit < 15 := by cases flag <;> decide
  rw [AccessFlags.has, AccessFlags.ofWord, BitVec.getLsbD_setWidth, decide_eq_true hbit,
    Bool.true_and]
  rfl

theorem methodModifiers_ofWord (word : UInt16) :
    (AccessFlags.ofWord word).methodModifiers =
      (MethodOutline.modifiers.filter fun (_, bit) => word.toNat.testBit bit).map (·.1) := by
  have htable : MethodOutline.modifiers =
      AccessFlag.methodModifiers.map fun entry => (entry.2, entry.1.bit) := rfl
  rw [AccessFlags.methodModifiers, htable, List.filter_map, List.map_map]
  simp only [has_ofWord, Function.comp_def]

theorem intercalate_append_singleton (separator : String) (words : List String) (last : String) :
    separator.intercalate (words ++ [last]) =
      String.join (words.map (· ++ separator)) ++ last := by
  induction words with
  | nil =>
      rw [List.nil_append, String.intercalate_singleton, List.map_nil, String.join_nil,
        String.empty_append]
  | cons word words ih =>
      have hne : words ++ [last] ≠ [] := List.append_ne_nil_of_right_ne_nil _ (List.cons_ne_nil _ _)
      rw [List.cons_append, String.intercalate_cons_of_ne_nil hne, ih, List.map_cons,
        String.join_cons]
      simp only [String.append_assoc]

/-- A method that is listed in full. -/
def listedMethod (className : String) (m : MethodOutline) : Listing.Method :=
  ⟨m.header className, none, listedBody m.tables?⟩

namespace MethodOutline

theorem listing_title (className : String) (m : MethodOutline) :
    (if m.name = Listing.constructorName then Listing.simpleName className
      else m.descriptor.resultName ++ " " ++ m.name) = m.title className := by
  rw [title, Listing.simpleName, ← afterLastDot_eq]
  rfl

theorem listing_source (m : MethodOutline) (title : String) :
    " ".intercalate ((AccessFlags.ofWord m.flags).methodModifiers ++
      [title ++ "(" ++ Text.commaSeparated (m.descriptor.parameters.map FieldType.sourceName) ++
        ")"]) = m.modifierText ++ title ++ m.parameterText := by
  rw [methodModifiers_ofWord, intercalate_append_singleton, List.map_map, modifierText,
    parameterText, Text.commaSeparated]
  simp only [Function.comp_def, String.append_assoc]

end MethodOutline

section

variable {entries : List EntryImage} (hfits : ∀ e ∈ entries, e.Fits) {m : MethodOutline}
  {i : MemberImage} (h : m.WrittenAs entries i) (hwell : m.WellFormed)
include hfits h hwell

theorem MethodOutline.WrittenAs.methodDescriptor (position : Nat) :
    (i.placed position).methodDescriptor (EntryImage.pool entries) = .ok m.descriptor := by
  have htext : (i.placed position).descriptor (EntryImage.pool entries) =
      .ok m.descriptor.descriptor :=
    EntryImage.text_of_holds hfits h.descriptor
  have hparse : MethodDescriptor.parse m.descriptor.descriptor = .ok m.descriptor :=
    (Descriptor.method_takes.inverts.ok_iff _ _).mpr ⟨hwell.descriptor, rfl⟩
  rw [Member.methodDescriptor, htext]
  exact hparse

theorem MethodOutline.WrittenAs.header (position : Nat) (className : String) :
    Listing.header (EntryImage.pool entries) className (i.placed position) =
      .ok (m.header className) := by
  have hname : (i.placed position).name (EntryImage.pool entries) = .ok m.name :=
    EntryImage.text_of_holds hfits h.name
  have hflags : (i.placed position).flags = AccessFlags.ofWord m.flags := by
    rw [← h.flags]
    rfl
  rw [Listing.header, hname, MethodOutline.header]
  by_cases hinitializer : m.name = "<clinit>"
  · rw [if_pos hinitializer]
    exact if_pos hinitializer
  · rw [if_neg hinitializer]
    refine (if_neg hinitializer).trans ?_
    simp only [bind, Except.bind, h.methodDescriptor hfits hwell]
    rw [hflags, listing_title, listing_source]
    rfl

theorem MethodOutline.WrittenAs.listMethod (position : Nat) (options : Listing.Options)
    (path className : String) :
    (Listing.listMethod options path (EntryImage.pool entries) className
      (i.placed position)).value = listedMethod className m := by
  have hattributes : (i.placed position).attributes.map Attribute.image = i.attributes :=
    Attribute.map_image_meanings _ _
  have hbody : BodyWrittenAs entries ((i.placed position).attributes.map Attribute.image)
      m.tables? := by
    rw [hattributes]
    exact h.body
  have hlisted := hbody.listBody hfits hwell.tables options path
  rw [Listing.listMethod, h.header hfits hwell]
  dsimp only
  rw [Logged.value_bind, hlisted]
  rfl

end

/-! ## Classes -/

/-- A class that is listed in full. -/
def listedBlock (c : ClassOutline) : Listing.Block :=
  ⟨binaryName c.name, c.methods.map (listedMethod (binaryName c.name))⟩

theorem lines_listedBlock (c : ClassOutline) : (listedBlock c).lines = c.lines := by
  have hmethod (m : MethodOutline) :
      (listedMethod (binaryName c.name) m).lines = m.lines (binaryName c.name) := by
    rw [Listing.Method.lines, listedMethod, lines_listedBody]
    rfl
  rw [Listing.Block.lines, listedBlock, List.flatMap_map]
  simp only [hmethod]
  rfl

theorem failures_listedBlock (c : ClassOutline) : (listedBlock c).failures = [] := by
  rw [Listing.Block.failures, List.flatMap_eq_nil_iff]
  intro m hm
  obtain ⟨outline, -, rfl⟩ := List.mem_map.mp hm
  exact failures_listedBody outline.tables?

theorem failed_listedBlock (c : ClassOutline) :
    Listing.File.failed ⟨.ok (listedBlock c)⟩ = false := by
  rw [Listing.File.failed]
  dsimp only
  rw [failures_listedBlock]
  rfl

theorem Listing.loadNamed_of_parse {file : List UInt8} {c : ClassFile} {name : String}
    (hc : (ClassFile.parse file).value = .ok c) (hname : c.name = .ok name) :
    (loadNamed (.ok file)).value = .ok (c, binaryName name) :=
  Listed.loadNamed ⟨file, name, rfl, hc, hname, rfl⟩

namespace ClassOutline.WrittenAs

variable {c : ClassOutline} {i : ClassImage} (h : c.WrittenAs i)
include h

theorem loadNamed :
    (Listing.loadNamed (.ok i.bytes)).value = .ok (i.placed 0, binaryName c.name) :=
  Listing.loadNamed_of_parse h.parse h.className

theorem listClass (hwell : c.WellFormed) (options : Listing.Options) (path : String) :
    (Listing.listClass options path (i.placed 0) (binaryName c.name)).value = listedBlock c := by
  have hmethod (m : MethodOutline) (hm : m ∈ c.methods) (member : Member)
      (hmember : ∃ image position,
        MethodOutline.WrittenAs i.entries m image ∧ image.placed position = member) :
      (Listing.listMethod options path (EntryImage.pool i.entries) (binaryName c.name)
        member).value = listedMethod (binaryName c.name) m := by
    obtain ⟨image, position, hwritten, rfl⟩ := hmember
    exact hwritten.listMethod h.fits.entries.1 (hwell m hm) position options path _
  rw [Listing.listClass, Logged.value_bind, Logged.value_all, List.map_map]
  exact congrArg (Listing.Block.mk (binaryName c.name))
    (map_eq_of_forall₂ h.forall₂_methods hmethod)

theorem listFile (hwell : c.WellFormed) (options : Listing.Options) (path : String) :
    (Listing.listFile options path (.ok i.bytes)).value = ⟨.ok (listedBlock c)⟩ := by
  rw [Listing.listFile, Logged.value_bind, h.loadNamed]
  dsimp only
  rw [Logged.value_bind, h.listClass hwell options path]
  -- The count of failures is zero, so nothing is reported after the block.
  simp only [failures_listedBlock]
  rfl

end ClassOutline.WrittenAs

/-! ## Runs -/

/-- A file is listed with the lines of its outline, however the outline is written in it and in
either mode, and nothing in it counts as unreadable. -/
theorem run_prints_outline (c : ClassOutline) (i : ClassImage) (hwell : c.WellFormed)
    (h : c.WrittenAs i) (contents : String → Except String (List UInt8)) (path : String)
    (hcontents : contents path = .ok i.bytes) (threshold : Log.Threshold)
    (arguments : List String) (hpath : (CommandLine.ofArguments arguments).paths = [path]) :
    (CommandLine.run contents threshold arguments).output = c.lines ∧
      (CommandLine.run contents threshold arguments).exitStatus = 0 := by
  have hfiles : ((CommandLine.ofArguments arguments).listings contents).value =
      [⟨.ok (listedBlock c)⟩] := by
    rw [CommandLine.listings, hpath, Logged.value_all, List.map_singleton, List.map_singleton,
      hcontents, h.listFile hwell]
  have hsome : (CommandLine.ofArguments arguments).paths.isEmpty = false := by
    rw [hpath]
    rfl
  rw [CommandLine.run, hsome]
  dsimp only
  rw [if_neg Bool.false_ne_true, hfiles, List.flatMap_singleton, List.any_cons,
    failed_listedBlock]
  exact ⟨lines_listedBlock c, rfl⟩

/-- A class with a constructor without tables, a method with two of them and a class initializer. In
the tables a variable lacks its name and another one its type. -/
def sampleOutline : ClassOutline where
  name := "demo/Sample"
  methods :=
    [⟨1, "<init>", ⟨[], none⟩, some []⟩,
      ⟨0x19, "sum", ⟨[.array 1 (.base .int), .object "java/lang/String"], some (.base .long)⟩,
        some [[⟨some "total", some (.base .long), 2⟩, ⟨none, some (.base .long), 4⟩],
          [⟨some "total", none, 0⟩]]⟩,
      ⟨8, "<clinit>", ⟨[], none⟩, none⟩]

/-- Code with the given attributes and a single instruction. -/
def returnCode (attributes : List AttributeImage) : CodeImage :=
  ⟨2, 6, [0xB1], [], attributes⟩

theorem returnCode_fits {attributes : List AttributeImage}
    (h : AttributeImage.list.Fits attributes) : (returnCode attributes).Fits where
  instructions := (by decide : 1 < UInt32.size)
  handlers := ⟨(by decide : 0 < UInt16.size), List.forall_mem_nil _⟩
  attributes := h

/-- Two tables with another attribute between them. One index leads to a number and one leads out of
the pool. -/
def sampleTables : List AttributeImage :=
  [⟨4, LocalVariableTable.encode [⟨0, 1, 11, 12, 2⟩, ⟨0, 1, 5, 12, 4⟩]⟩, ⟨0, [7]⟩,
    ⟨4, LocalVariableTable.encode [⟨0, 1, 11, 99, 0⟩]⟩]

/-- The outline in a file whose pool holds an unused number of two slots as well. -/
def sampleImage : ClassImage where
  minor := 0
  major := 52
  poolCount := 14
  entries :=
    [.text (Bytes.Utf8.encode "demo/Sample"), .other (.classInfo 1),
      .text (Bytes.Utf8.encode "Code"), .text (Bytes.Utf8.encode "LocalVariableTable"),
      .other (.long 9), .text (Bytes.Utf8.encode "sum"),
      .text (Bytes.Utf8.encode "([ILjava/lang/String;)J"), .text (Bytes.Utf8.encode "<clinit>"),
      .text (Bytes.Utf8.encode "()V"), .text (Bytes.Utf8.encode "total"),
      .text (Bytes.Utf8.encode "J"), .text (Bytes.Utf8.encode "<init>")]
  flags := 0x21
  thisClass := 2
  superClass := 0
  interfaces := []
  fields := []
  methods :=
    [⟨1, 13, 10, [⟨3, (returnCode []).bytes⟩]⟩,
      ⟨0x19, 7, 8, [⟨3, (returnCode sampleTables).bytes⟩]⟩,
      ⟨8, 9, 10, []⟩]
  attributes := []

theorem sampleOutline_wellFormed : sampleOutline.WellFormed := by
  rw [ClassOutline.WellFormed, sampleOutline, List.forall_mem_cons, List.forall_mem_cons,
    List.forall_mem_singleton]
  refine ⟨⟨⟨by decide, by decide⟩, ?_⟩, ⟨⟨by decide, by decide⟩, ?_⟩, ⟨by decide, by decide⟩, ?_⟩
  · intro tables htables
    cases htables
    exact List.forall_mem_nil _
  · intro tables htables
    cases htables
    rw [List.forall_mem_cons, List.forall_mem_singleton]
    exact ⟨⟨by decide, by decide⟩, by decide, by decide⟩
  · intro tables htables
    cases htables

theorem sampleTables_writtenAs :
    CodeWrittenAs sampleImage.entries
      [[⟨some "total", some (.base .long), 2⟩, ⟨none, some (.base .long), 4⟩],
        [⟨some "total", none, 0⟩]] ⟨3, (returnCode sampleTables).bytes⟩ := by
  have hinfos : ∀ i ∈ sampleTables, i.info.length < UInt32.size := by decide +kernel
  have htables : named sampleImage.entries "LocalVariableTable" sampleTables =
      [⟨4, LocalVariableTable.encode [⟨0, 1, 11, 12, 2⟩, ⟨0, 1, 5, 12, 4⟩]⟩,
        ⟨4, LocalVariableTable.encode [⟨0, 1, 11, 99, 0⟩]⟩] := by decide +kernel
  refine ⟨returnCode sampleTables, returnCode_fits ⟨by decide, hinfos⟩, rfl, ?_⟩
  rw [returnCode, htables]
  refine .cons ⟨_, .cons ?_ (.cons ?_ .nil), rfl⟩ (.cons ⟨_, .cons ?_ .nil, rfl⟩ .nil)
  all_goals exact ⟨by decide +kernel, by decide +kernel, rfl⟩

theorem sampleOutline_writtenAs : sampleOutline.WrittenAs sampleImage where
  fits :=
    { entries := ⟨by decide +kernel, by decide +kernel⟩
      interfaces := by decide
      fields := ⟨by decide, List.forall_mem_nil _⟩
      methods := by
        refine ⟨by decide, ?_⟩
        change ∀ i ∈ sampleImage.methods, i.attributes.length < UInt16.size ∧
          ∀ a ∈ i.attributes, a.info.length < UInt32.size
        decide +kernel
      attributes := ⟨by decide, List.forall_mem_nil _⟩ }
  name := ⟨1, by decide +kernel, by decide +kernel⟩
  methods := by
    have hcode (info : List UInt8) :
        named sampleImage.entries "Code" [⟨3, info⟩] = [⟨3, info⟩] := by
      have hthree : Holds sampleImage.entries 3 "Code" := by decide +kernel
      exact List.filter_cons_of_pos (decide_eq_true hthree)
    have hnone : CodeWrittenAs sampleImage.entries [] ⟨3, (returnCode []).bytes⟩ :=
      ⟨returnCode [], returnCode_fits ⟨by decide, List.forall_mem_nil _⟩, rfl, .nil⟩
    refine .cons ?_ (.cons ?_ (.cons ?_ .nil))
    · exact ⟨rfl, by decide +kernel, by decide +kernel, _, _, hcode _, hnone⟩
    · exact ⟨rfl, by decide +kernel, by decide +kernel, _, _, hcode _, sampleTables_writtenAs⟩
    · exact ⟨rfl, by decide +kernel, by decide +kernel, rfl⟩

theorem run_prints_outline_sample :
    let contents : String → Except String (List UInt8) := fun _ => .ok sampleImage.bytes
    let lines :=
      ["class demo.Sample \x7b", "", "    public Sample()",
        "        // no local variable information", "",
        "    public static final long sum(int[], java.lang.String)",
        "        long total; // index = 2", "", "    static \x7b\x7d", "        // no code", "\x7d"]
    sampleOutline.WellFormed ∧ sampleOutline.WrittenAs sampleImage ∧
      ∀ arguments ∈ [["Sample.class"], ["--permissive", "Sample.class"]],
        (CommandLine.run contents none arguments).output = lines ∧
          (CommandLine.run contents none arguments).exitStatus = 0 := by
  intro contents lines
  refine ⟨sampleOutline_wellFormed, sampleOutline_writtenAs, ?_⟩
  intro arguments harguments
  have hpath : (CommandLine.ofArguments arguments).paths = ["Sample.class"] := by
    rw [List.mem_cons, List.mem_singleton] at harguments
    cases harguments with
    | inl h => rw [h]; decide +kernel
    | inr h => rw [h]; decide +kernel
  have hlines : sampleOutline.lines = lines := by decide +kernel
  rw [← hlines]
  exact run_prints_outline sampleOutline sampleImage sampleOutline_wellFormed
    sampleOutline_writtenAs contents "Sample.class" rfl none arguments hpath

end JvmClass
