import JvmClass.Proofs.LossyText
import JvmClass.Proofs.Outline
import JvmClass.Proofs.RoundTrip
import JvmClass.Proofs.TableDecoding

/-!
# What is read of a written outline

Whoever reads a file with some outline finds its parts again: the texts of the pool under their
indices, the attributes with a given name, the code and its tables. Where a part stands in the file
has no influence on this, so attributes are compared by their images.
-/

namespace JvmClass

open Bytes

/-! ## Pools -/

namespace EntryImage

variable {entries : List EntryImage} {index : UInt16} {s : String}

/-- The pool that is read from the entries. -/
abbrev pool (entries : List EntryImage) : ConstantPool :=
  ConstantPool.ofEntries (entries.map constant)

/-- What is read in a slot. -/
def slotConstant : Option EntryImage → Constant
  | some e => e.constant
  | none => .unusable

theorem toList_pool (entries : List EntryImage) :
    (pool entries).toList = (slots entries).map slotConstant := by
  rw [ConstantPool.toList_ofEntries, List.flatMap_map, slots, List.map_flatMap]
  congr 1
  funext e
  unfold Constant.slots
  split <;> rfl

theorem get?_pool (hindex : index ≠ 0) :
    (pool entries).get? index = ((slots entries)[index.toNat - 1]?).map slotConstant := by
  rw [ConstantPool.get?, if_neg hindex, ← List.getElem?_map, ← toList_pool]
  exact Array.getElem?_toList.symm

theorem inSlot?_eq_some_iff {e : EntryImage} :
    inSlot? entries index = some e ↔
      index ≠ 0 ∧ (slots entries)[index.toNat - 1]? = some (some e) := by
  unfold inSlot?
  by_cases hindex : index = 0
  · simp [hindex]
  · rw [if_neg hindex, Option.join_eq_some_iff]
    exact ⟨fun hslot => ⟨hindex, hslot⟩, And.right⟩

theorem get?_of_inSlot? {e : EntryImage} (h : inSlot? entries index = some e) :
    (pool entries).get? index = some e.constant := by
  obtain ⟨hindex, hslot⟩ := inSlot?_eq_some_iff.mp h
  rw [get?_pool hindex, hslot]
  rfl

theorem mem_of_inSlot? {e : EntryImage} (h : inSlot? entries index = some e) : e ∈ entries := by
  obtain ⟨-, hslot⟩ := inSlot?_eq_some_iff.mp h
  obtain ⟨e', he', hmem⟩ := List.mem_flatMap.mp (List.mem_of_getElem? hslot)
  have hsame : e = e' := by
    split at hmem
    all_goals simpa using hmem
  rwa [hsame]

section

variable (hfits : ∀ e ∈ entries, e.Fits)
include hfits

/-- A text is read from the bytes of an entry, and from nothing else. -/
theorem text?_pool_eq_some_iff :
    (pool entries).text? index = some s ↔
      ∃ payload, inSlot? entries index = some (.text payload) ∧ Utf8.decodeLossy payload = s := by
  constructor
  · intro h
    obtain ⟨c, hget, hc⟩ := Option.bind_eq_some_iff.mp h
    have hindex : index ≠ 0 := by
      rintro rfl
      cases hget
    rw [get?_pool hindex] at hget
    obtain ⟨e?, hslot, rfl⟩ := Option.map_eq_some_iff.mp hget
    cases e? with
    | none => cases hc
    | some e =>
        have hin : inSlot? entries index = some e := inSlot?_eq_some_iff.mpr ⟨hindex, hslot⟩
        cases e with
        | text payload => exact ⟨payload, hin, Option.some.inj hc⟩
        | other c =>
            -- Only entries that are written as texts are read as texts.
            have hkind : c.kind? ≠ some .utf8 := (hfits _ (mem_of_inSlot? hin)).2
            cases c
            case utf8 text => exact absurd rfl hkind
            all_goals cases hc
  · intro h
    obtain ⟨payload, hin, rfl⟩ := h
    rw [ConstantPool.text?, get?_of_inSlot? hin]
    rfl

theorem text?_of_holds (h : Holds entries index s) : (pool entries).text? index = some s :=
  (text?_pool_eq_some_iff hfits).mpr ⟨_, h, Utf8.decodeLossy_encode s⟩

theorem text_of_holds (h : Holds entries index s) : (pool entries).text index = .ok s :=
  ConstantPool.text_eq_ok_iff.mpr (text?_of_holds hfits h)

theorem text?_of_holdsOption {s? : Option String} (h : HoldsOption entries index s?) :
    (pool entries).text? index = s? := by
  cases s? with
  | some s => exact text?_of_holds hfits h
  | none =>
      rw [Option.eq_none_iff_forall_ne_some]
      intro s hs
      obtain ⟨payload, hin, -⟩ := (text?_pool_eq_some_iff hfits).mp hs
      exact h payload hin

/-- A plain text is read from its own bytes only. -/
theorem text?_eq_plain_iff (hplain : Utf8.Plain s) :
    (pool entries).text? index = some s ↔ Holds entries index s := by
  constructor
  · intro h
    obtain ⟨payload, hin, hs⟩ := (text?_pool_eq_some_iff hfits).mp h
    rw [(Utf8.decodeLossy_eq_plain_iff hplain).mp hs] at hin
    exact hin
  · exact text?_of_holds hfits

/-- Attributes with a plain name are found by the bytes of the name. -/
theorem map_image_named (hplain : Utf8.Plain s) (attributes : List Attribute) :
    (Attribute.named s (pool entries) attributes).map Attribute.image =
      named entries s (attributes.map Attribute.image) := by
  rw [Attribute.named, named, List.filter_map]
  congr 2
  funext a
  rw [Function.comp_apply, Bool.eq_iff_iff, beq_iff_eq, decide_eq_true_iff]
  exact text?_eq_plain_iff hfits hplain

end

end EntryImage

/-- What is written for a row of things is read for each of them, at its place. -/
theorem Format.forall₂_meanings {α β ι : Type} {f : Format ι α} {R : β → ι → Prop} {xs : List β}
    {is : List ι} (h : List.Forall₂ R xs is) (position : Nat) :
    List.Forall₂ (fun x a => ∃ i start, R x i ∧ f.meaning start i = a) xs
      (f.meanings position is) := by
  induction h generalizing position with
  | nil => exact .nil
  | cons hx _ ih => exact .cons ⟨_, position, hx, rfl⟩ (ih _)

/-! ## Tables -/

namespace VariableRecord

theorem decode_append (v : VariableRecord) (position : Nat) (rest : List UInt8) :
    decode ⟨position, v.encode ++ rest⟩ = .ok v ⟨position + size, rest⟩ := by
  simp only [decode, encode, List.append_assoc, bind, EStateM.bind, Decoder.u16_append]
  rfl

theorem available_flatMap_encode (records : List VariableRecord) (position : Nat) :
    decode.available records.length ⟨position, records.flatMap encode⟩ = (records, none) := by
  induction records generalizing position with
  | nil => rfl
  | cons v records ih =>
      rw [List.length_cons, List.flatMap_cons, Decoder.available, decode_append]
      dsimp only
      rw [ih]

theorem length_flatMap_encode (records : List VariableRecord) :
    (records.flatMap encode).length = records.length * size := by
  induction records with
  | nil => rfl
  | cons v records ih =>
      rw [List.flatMap_cons, List.length_append, ih, List.length_cons, Nat.succ_mul, Nat.add_comm]
      rfl

end VariableRecord

namespace LocalVariableTable

theorem length_encode (records : List VariableRecord) :
    (encode records).length = requiredLength records.length := by
  rw [encode, Encoder.counted, List.length_append, Encoder.length_u16,
    VariableRecord.length_flatMap_encode, requiredLength]

/-- A table with the length it declares is read in either mode. -/
theorem decode_encode (pool : ConstantPool) (check : LengthCheck) (name : String)
    {records : List VariableRecord} (hcount : records.length < UInt16.size) (offset : Nat) :
    let body := encode records
    (decode pool check name body.length (Reader.ofBytes body offset)).1.value =
      .ok ⟨name, body.length, records.map (LocalVariable.ofRecord pool)⟩ := by
  intro body
  have hlength : body.length = requiredLength records.length := length_encode records
  have hread : Decoder.u16 ⟨offset, body⟩ =
      .ok (UInt16.ofNat records.length) ⟨offset + 2, records.flatMap VariableRecord.encode⟩ :=
    Decoder.u16_append _ _ _
  have hnumber : (UInt16.ofNat records.length).toNat = records.length :=
    UInt16.toNat_ofNat_of_lt' hcount
  have hrecords : (decodeRecords pool name body.length (UInt16.ofNat records.length)
      ⟨offset + 2, records.flatMap VariableRecord.encode⟩).value =
      .ok ⟨name, body.length, records.map (LocalVariable.ofRecord pool)⟩ := by
    rw [decodeRecords, toNat_decodedCount, hnumber, fittingCount_of_requiredLength hlength.symm,
      VariableRecord.available_flatMap_encode]
  rw [decode, Reader.split, Reader.ofBytes]
  dsimp only
  rw [List.take_length, decodeBody, hread]
  dsimp only
  rw [hnumber, if_neg (fun h => h.1 hlength.symm), hrecords]
  rfl

end LocalVariableTable

/-- A written table is read as the variables of its records. -/
theorem TableWrittenAs.decode {entries : List EntryImage} {table : List VariableOutline}
    {a : Attribute} (h : TableWrittenAs entries table a.image) (hlength : table.length ≤ 65535)
    (check : LengthCheck) (name : String) :
    ∃ records, List.Forall₂ (VariableOutline.WrittenAs entries) table records ∧
      (LocalVariableTable.decode (EntryImage.pool entries) check name a.info.length
        a.body).1.value =
        .ok ⟨name, a.info.length,
          records.map (LocalVariable.ofRecord (EntryImage.pool entries))⟩ := by
  obtain ⟨records, hrecords, hinfo⟩ := h
  have hbody : a.info = LocalVariableTable.encode records := hinfo
  have hcount : records.length < UInt16.size := by
    rw [← hrecords.length_eq]
    exact Nat.lt_succ_of_le hlength
  refine ⟨records, hrecords, ?_⟩
  rw [Attribute.body, hbody]
  exact LocalVariableTable.decode_encode _ check name hcount a.offset

section

variable {entries : List EntryImage} (hfits : ∀ e ∈ entries, e.Fits)
include hfits

/-- The variable read from a record has the name, the descriptor and the slot of the outline. -/
theorem VariableOutline.WrittenAs.ofRecord {v : VariableOutline} {r : VariableRecord}
    (h : v.WrittenAs entries r) :
    LocalVariable.ofRecord (EntryImage.pool entries) r =
      ⟨r.startPc, r.length, v.name?, v.type?.map FieldType.descriptor, v.slot⟩ := by
  rw [LocalVariable.ofRecord, EntryImage.text?_of_holdsOption hfits h.name,
    EntryImage.text?_of_holdsOption hfits h.descriptor, h.slot]

/-! ## Code -/

/-- The tables of written code are the attributes with their name, in the same order. -/
theorem CodeWrittenAs.ofAttribute {tables : List (List VariableOutline)} {a : Attribute}
    (h : CodeWrittenAs entries tables a.image) :
    ∃ code, Code.ofAttribute a = .ok code ∧
      List.Forall₂ (fun table (a : Attribute) => TableWrittenAs entries table a.image) tables
        (Attribute.named LocalVariableTable.attributeName (EntryImage.pool entries)
          code.attributes) := by
  obtain ⟨image, himage, hinfo, htables⟩ := h
  have hbody : a.info = image.bytes := hinfo
  have hread : Code.decode a.body =
      .ok (image.placed a.offset) ⟨a.offset + image.bytes.length, []⟩ := by
    have happend := Code.decode_reads.append himage a.offset []
    rw [List.append_nil] at happend
    rw [Attribute.body, hbody]
    exact happend
  have hattributes : (image.placed a.offset).attributes.map Attribute.image = image.attributes :=
    Attribute.map_image_meanings _ _
  refine ⟨image.placed a.offset, Code.ofAttribute_of_decode hread, ?_⟩
  rw [← List.forall₂_map_right_iff, EntryImage.map_image_named hfits (by decide), hattributes]
  exact htables

/-- A method has code if it is written with code, and then the code that is written. -/
theorem BodyWrittenAs.code? {tables? : Option (List (List VariableOutline))} {m : Member}
    (h : BodyWrittenAs entries (m.attributes.map Attribute.image) tables?) :
    match tables? with
    | none => m.code? (EntryImage.pool entries) = .ok none
    | some tables => ∃ code, m.code? (EntryImage.pool entries) = .ok (some code) ∧
      List.Forall₂ (fun table (a : Attribute) => TableWrittenAs entries table a.image) tables
        (Attribute.named LocalVariableTable.attributeName (EntryImage.pool entries)
          code.attributes) := by
  have hnamed := EntryImage.map_image_named hfits (s := "Code") (by decide) m.attributes
  cases tables? with
  | none =>
      have hnone : Attribute.named Code.attributeName (EntryImage.pool entries) m.attributes = [] :=
        List.map_eq_nil_iff.mp (hnamed.trans h)
      dsimp only
      rw [Member.code?, hnone]
  | some tables =>
      obtain ⟨first, others, hfirst, hcode⟩ := h
      obtain ⟨a, rest, hsome, rfl, -⟩ := List.map_eq_cons_iff.mp (hnamed.trans hfirst)
      obtain ⟨code, hread, htables⟩ := CodeWrittenAs.ofAttribute hfits hcode
      refine ⟨code, ?_, htables⟩
      rw [Member.code?, Code.attributeName, hsome]
      dsimp only
      rw [hread]
      rfl

end

/-! ## Classes -/

namespace ClassOutline.WrittenAs

variable {c : ClassOutline} {i : ClassImage} (h : c.WrittenAs i)
include h

theorem parse : (ClassFile.parse i.bytes).value = .ok (i.placed 0) := by
  have hread := ClassFile.decode_reads.append h.fits 0 []
  rw [List.append_nil] at hread
  exact ClassFile.parse_eq_ok_iff.mpr ⟨_, hread⟩

theorem className : (i.placed 0).name = .ok c.name := by
  obtain ⟨nameIndex, hclass, hname⟩ := h.name
  have hentry : (EntryImage.pool i.entries).entry i.thisClass = .ok (.classInfo nameIndex) := by
    rw [ConstantPool.entry, EntryImage.get?_of_inSlot? hclass]
    rfl
  change (EntryImage.pool i.entries).className i.thisClass = .ok c.name
  rw [ConstantPool.className, hentry]
  exact EntryImage.text_of_holds h.fits.entries.1 hname

/-- Every method of the outline is read, each at the place where it is written. -/
theorem forall₂_methods :
    List.Forall₂ (fun m member => ∃ image position,
      MethodOutline.WrittenAs i.entries m image ∧ image.placed position = member) c.methods
      (i.placed 0).methods :=
  Format.forall₂_meanings (f := MemberImage.format) h.methods _

end ClassOutline.WrittenAs

end JvmClass
