import JvmClass.Proofs.Offsets

/-!
# Writing and reading class files

Reading what has been written gives the same class, with its attributes at the places where they
were written, whatever follows. Writing what has been read gives the bytes it was read from, as far
as its texts were UTF-8 and its flags known. Both directions go through images: a class that can be
written has one, and so does every class that has been read.
-/

namespace JvmClass

open Bytes

/-! ## What can be written -/

/-- Entries that can be written: texts are limited in length, and the slot after a wide entry is
none. -/
def Constant.Encodable : Constant → Prop
  | utf8 text => (Utf8.encode text).length < UInt16.size
  | unusable => False
  | _ => True

instance : DecidablePred Constant.Encodable
  | .utf8 text => Nat.decLt (Utf8.encode text).length UInt16.size
  | .unusable => .isFalse id
  | .integer _ | .float _ | .long _ | .double _ | .classInfo _ | .stringInfo _ | .fieldRef _ _
  | .methodRef _ _ | .interfaceMethodRef _ _ | .nameAndType _ _ | .methodHandle _ _
  | .methodType _ | .dynamic _ _ | .invokeDynamic _ _ | .moduleInfo _ | .packageInfo _ =>
    .isTrue trivial

def Attribute.Encodable (a : Attribute) : Prop :=
  a.info.length < UInt32.size

instance : DecidablePred Attribute.Encodable :=
  fun a => Nat.decLt a.info.length UInt32.size

structure Member.Encodable (m : Member) : Prop where
  count : m.attributes.length < UInt16.size
  attributes : ∀ a ∈ m.attributes, a.Encodable

/-- Classes whose lists and texts have lengths that fit their fields, and whose pool is a row of
entries in as many slots as each needs. -/
structure ClassFile.Encodable (c : ClassFile) : Prop where
  pool : ∃ entries, c.pool = ConstantPool.ofEntries entries ∧ ∀ e ∈ entries, e.Encodable
  poolCount : c.pool.size + 1 < UInt16.size
  interfaces : c.interfaces.length < UInt16.size
  fieldCount : c.fields.length < UInt16.size
  fields : ∀ m ∈ c.fields, m.Encodable
  methodCount : c.methods.length < UInt16.size
  methods : ∀ m ∈ c.methods, m.Encodable
  attributeCount : c.attributes.length < UInt16.size
  attributes : ∀ a ∈ c.attributes, a.Encodable

/-! ## Images of constants -/

namespace Constant

def image : Constant → EntryImage
  | utf8 text => .text (Utf8.encode text)
  | c => .other c

@[simp] theorem constant_image (c : Constant) : c.image.constant = c := by
  cases c with
  | utf8 text => exact congrArg utf8 (Utf8.decodeLossy_encode text)
  | _ => rfl

theorem map_constant_image (entries : List Constant) :
    (entries.map image).map EntryImage.constant = entries := by
  rw [List.map_map]
  exact List.map_id'' constant_image entries

theorem bytes_image (c : Constant) : c.image.bytes = c.encode := by
  cases c <;> rfl

theorem Encodable.fits_image {c : Constant} (h : c.Encodable) : c.image.Fits := by
  cases c with
  | utf8 text => exact h
  | unusable => exact h.elim
  | _ => exact ⟨Option.some_ne_none _, fun h => by cases h⟩

/-- The slot after a wide entry has no bytes. -/
theorem flatMap_encode_slots (entries : List Constant) :
    (entries.flatMap slots).flatMap encode = entries.flatMap encode := by
  rw [List.flatMap_assoc]
  congr 1
  funext c
  unfold slots
  split
  · exact List.append_nil _
  · exact List.append_nil _

end Constant

namespace ConstantPool

theorem toList_ofEntries (entries : List Constant) :
    (ofEntries entries).toList = entries.flatMap Constant.slots := by
  simp [ofEntries, ofSlots, toList]

theorem size_ofEntries (entries : List Constant) :
    (ofEntries entries).size = (entries.flatMap Constant.slots).length := by
  simp [ofEntries, ofSlots, size]

/-- Entries fill the slots they take up. -/
theorem fills_length (entries : List Constant) :
    Fills (entries.flatMap Constant.slots).length entries := by
  induction entries with
  | nil => rfl
  | cons c rest ih =>
      have hpos := length_slots_pos c
      rw [List.flatMap_cons, List.length_append]
      refine ⟨by omega, ?_⟩
      rwa [Nat.add_sub_cancel_left]

theorem encode_ofEntries (count : UInt16) (entries : List Constant) :
    (ofEntries entries).encode count = Encoder.u16 count ++ entries.flatMap Constant.encode := by
  rw [encode, toList_ofEntries, Constant.flatMap_encode_slots]

end ConstantPool

/-! ## Images of attributes and members -/

namespace Attribute

def image (a : Attribute) : AttributeImage :=
  ⟨a.nameIndex, a.info⟩

theorem placed_eq_meanings (start : Nat) (attributes : List Attribute) :
    placed start attributes = AttributeImage.format.meanings start (attributes.map image) := by
  induction attributes generalizing start with
  | nil => rfl
  | cons a rest ih =>
      have hlength : (AttributeImage.format.bytes a.image).length = headerSize + a.info.length :=
        a.image.length_bytes
      rw [placed, List.map_cons, Format.meanings, ih, hlength, ← Nat.add_assoc]
      rfl

/-- An image is read back from what it means. -/
theorem map_image_meanings (position : Nat) (is : List AttributeImage) :
    (AttributeImage.format.meanings position is).map image = is := by
  induction is generalizing position with
  | nil => rfl
  | cons i is ih =>
      rw [Format.meanings, List.map_cons, ih]
      rfl

theorem list_bytes_image (attributes : List Attribute) :
    AttributeImage.list.bytes (attributes.map image) = Encoder.counted encode attributes := by
  simp only [AttributeImage.list, Format.counted, Encoder.counted, List.length_map,
    List.flatMap_map]
  rfl

theorem list_fits_image {attributes : List Attribute} (hcount : attributes.length < UInt16.size)
    (h : ∀ a ∈ attributes, a.Encodable) : AttributeImage.list.Fits (attributes.map image) := by
  constructor
  · rwa [List.length_map]
  · intro i hi
    obtain ⟨a, ha, rfl⟩ := List.mem_map.mp hi
    exact h a ha

end Attribute

namespace Member

def image (m : Member) : MemberImage :=
  ⟨m.flags.toWord, m.nameIndex, m.descriptorIndex, m.attributes.map Attribute.image⟩

theorem bytes_image (m : Member) : m.image.bytes = m.encode := by
  rw [MemberImage.bytes, image, Attribute.list_bytes_image]
  rfl

theorem placed_eq_meanings (start : Nat) (members : List Member) :
    placed start members = MemberImage.format.meanings start (members.map image) := by
  induction members generalizing start with
  | nil => rfl
  | cons m rest ih =>
      have hlength : (MemberImage.format.bytes m.image).length = m.encode.length := by
        rw [← bytes_image]
        rfl
      rw [placed, List.map_cons, Format.meanings, ih, hlength, Attribute.placed_eq_meanings]
      congr 1
      simp only [MemberImage.format, MemberImage.placed, image, AccessFlags.ofWord_toWord]
      rfl

theorem list_bytes_image (members : List Member) :
    MemberImage.list.bytes (members.map image) = Encoder.counted encode members := by
  simp only [MemberImage.list, Format.counted, Encoder.counted, List.length_map,
    List.flatMap_map, MemberImage.format, bytes_image]

theorem list_fits_image {members : List Member} (hcount : members.length < UInt16.size)
    (h : ∀ m ∈ members, m.Encodable) : MemberImage.list.Fits (members.map image) := by
  constructor
  · rwa [List.length_map]
  · intro i hi
    obtain ⟨m, hm, rfl⟩ := List.mem_map.mp hi
    exact Attribute.list_fits_image (h m hm).count (h m hm).attributes

end Member

/-! ## Reading what has been written -/

namespace ClassFile

/-- The image of a class whose pool holds the given entries. -/
def image (entries : List Constant) (c : ClassFile) : ClassImage where
  minor := c.minor
  major := c.major
  poolCount := c.pool.count
  entries := entries.map Constant.image
  flags := c.flags.toWord
  thisClass := c.thisClass
  superClass := c.superClass
  interfaces := c.interfaces
  fields := c.fields.map Member.image
  methods := c.methods.map Member.image
  attributes := c.attributes.map Attribute.image

variable {entries : List Constant} {c : ClassFile}

theorem front_image (hpool : c.pool = ConstantPool.ofEntries entries) :
    (c.image entries).front = c.encodeFront c.pool.count := by
  have hentries : (entries.map Constant.image).flatMap EntryImage.bytes =
      entries.flatMap Constant.encode := by
    simp only [List.flatMap_map, Constant.bytes_image]
  rw [ClassImage.front, encodeFront, hpool, ConstantPool.encode_ofEntries, ← hentries, ← hpool]
  rfl

theorem bytes_image (hpool : c.pool = ConstantPool.ofEntries entries) :
    (c.image entries).bytes = c.encode := by
  rw [ClassImage.bytes, front_image hpool, image, Member.list_bytes_image,
    Member.list_bytes_image, Attribute.list_bytes_image]
  rfl

theorem placed_image (hpool : c.pool = ConstantPool.ofEntries entries) (start : Nat) :
    (c.image entries).placed start = c.placed start := by
  rw [ClassImage.placed, placed, front_image hpool]
  simp only [image, Member.list_bytes_image, Constant.map_constant_image, Member.placed_eq_meanings,
    Attribute.placed_eq_meanings, AccessFlags.ofWord_toWord, ← hpool]
  rfl

theorem Encodable.fits_image (h : c.Encodable) (hpool : c.pool = ConstantPool.ofEntries entries)
    (hentries : ∀ e ∈ entries, e.Encodable) : (c.image entries).Fits where
  entries := by
    constructor
    · intro e he
      obtain ⟨constant, hconstant, rfl⟩ := List.mem_map.mp he
      exact (hentries constant hconstant).fits_image
    · have hcount : c.pool.count.toNat - 1 = (entries.flatMap Constant.slots).length := by
        rw [ConstantPool.count, UInt16.toNat_ofNat_of_lt' h.poolCount, Nat.add_sub_cancel, hpool,
          ConstantPool.size_ofEntries]
      rw [image, hcount, Constant.map_constant_image]
      exact ConstantPool.fills_length entries
  interfaces := h.interfaces
  fields := Member.list_fits_image h.fieldCount h.fields
  methods := Member.list_fits_image h.methodCount h.methods
  attributes := Attribute.list_fits_image h.attributeCount h.attributes

theorem Encodable.exists_image (h : c.Encodable) :
    ∃ i : ClassImage, i.Fits ∧ i.bytes = c.encode ∧ ∀ start, i.placed start = c.placed start := by
  obtain ⟨entries, hpool, hentries⟩ := h.pool
  exact ⟨c.image entries, h.fits_image hpool hentries, bytes_image hpool, placed_image hpool⟩

theorem decode_encode (h : c.Encodable) (start : Nat) (trailing : List UInt8) :
    decode ⟨start, c.encode ++ trailing⟩ =
      .ok (c.placed start) ⟨start + c.encode.length, trailing⟩ := by
  obtain ⟨i, hfits, hbytes, hplaced⟩ := h.exists_image
  rw [← hbytes, ← hplaced]
  exact decode_reads.append hfits start trailing

/-- The attributes stand in the encoding where they are placed. -/
theorem inOrder_placed (h : c.Encodable) :
    Attribute.InOrder c.encode 0 c.encode.length (c.placed 0).allAttributes := by
  obtain ⟨i, hfits, hbytes, hplaced⟩ := h.exists_image
  have hviews := Reader.views_ofBytes c.encode
  have hmoves : (Reader.ofBytes c.encode 0).Moves i.bytes ⟨c.encode.length, []⟩ := by
    rw [hbytes]
    exact ⟨(List.append_nil _).symm, (Nat.zero_add _).symm⟩
  rw [← hplaced]
  exact ClassImage.placesInOrder _ _ i hviews hfits hmoves

end ClassFile

/-! ## Places of attributes left aside -/

def Attribute.unplaced (a : Attribute) : Attribute :=
  { a with offset := 0 }

def Member.unplaced (m : Member) : Member :=
  { m with attributes := m.attributes.map Attribute.unplaced }

/-- The class with every attribute taken from its place. -/
def ClassFile.unplaced (c : ClassFile) : ClassFile :=
  { c with
    fields := c.fields.map Member.unplaced
    methods := c.methods.map Member.unplaced
    attributes := c.attributes.map Attribute.unplaced }

theorem Attribute.map_unplaced_placed (start : Nat) (attributes : List Attribute) :
    (placed start attributes).map unplaced = attributes.map unplaced := by
  induction attributes generalizing start with
  | nil => rfl
  | cons a rest ih =>
      rw [placed, List.map_cons, ih, List.map_cons]
      rfl

theorem Member.map_unplaced_placed (start : Nat) (members : List Member) :
    (placed start members).map unplaced = members.map unplaced := by
  induction members generalizing start with
  | nil => rfl
  | cons m rest ih =>
      rw [placed, List.map_cons, ih, List.map_cons, unplaced, Attribute.map_unplaced_placed]
      rfl

theorem ClassFile.unplaced_placed (start : Nat) (c : ClassFile) :
    (c.placed start).unplaced = c.unplaced := by
  simp only [placed, unplaced, Member.map_unplaced_placed, Attribute.map_unplaced_placed]

/-! ## Writing what has been read -/

/-- Bytes that some text is written in. -/
def Bytes.Utf8.WellFormed (payload : List UInt8) : Prop :=
  ∃ text, Utf8.encode text = payload

namespace EntryImage

/-- The bytes of a text. -/
def payload? : EntryImage → Option (List UInt8)
  | text payload => some payload
  | other _ => none

theorem encode_constant {e : EntryImage} (h : ∀ payload ∈ e.payload?, Utf8.WellFormed payload) :
    e.constant.encode = e.bytes := by
  cases e with
  | text payload =>
      obtain ⟨text, rfl⟩ := h payload rfl
      rw [constant, Utf8.decodeLossy_encode]
      rfl
  | other c => rfl

end EntryImage

theorem ConstantPool.encode_constants {es : List EntryImage}
    (h : ∀ payload ∈ es.filterMap EntryImage.payload?, Utf8.WellFormed payload) (count : UInt16) :
    (ofEntries (es.map EntryImage.constant)).encode count =
      Encoder.u16 count ++ es.flatMap EntryImage.bytes := by
  have hentries (e : EntryImage) (he : e ∈ es) : e.constant.encode = e.bytes := by
    apply EntryImage.encode_constant
    intro payload hpayload
    exact h payload (List.mem_filterMap.mpr ⟨e, he, hpayload⟩)
  rw [encode_ofEntries, List.flatMap_map]
  congr 1
  simp only [List.flatMap_def, List.map_congr_left hentries]

theorem AttributeImage.list_encode_meaning (position : Nat) (is : List AttributeImage) :
    Encoder.counted Attribute.encode (list.meaning position is) = list.bytes is :=
  Format.counted_meaning (fun _ _ _ => rfl) position

namespace MemberImage

theorem encode_placed {i : MemberImage} (h : i.flags.toBitVec.getLsbD 15 = false)
    (position : Nat) : (i.placed position).encode = i.bytes := by
  rw [Member.encode, placed, AccessFlags.toWord_ofWord h, AttributeImage.list_encode_meaning]
  rfl

theorem list_encode_meaning {is : List MemberImage}
    (h : ∀ i ∈ is, i.flags.toBitVec.getLsbD 15 = false) (position : Nat) :
    Encoder.counted Member.encode (list.meaning position is) = list.bytes is :=
  Format.counted_meaning (fun i hi => encode_placed (h i hi)) position

end MemberImage

namespace ClassImage

/-- The bytes of all texts. -/
def payloads (i : ClassImage) : List (List UInt8) :=
  i.entries.filterMap EntryImage.payload?

/-- The words of flags of the class and of its members. -/
def flagWords (i : ClassImage) : List UInt16 :=
  i.flags :: (i.fields ++ i.methods).map MemberImage.flags

theorem encode_placed {i : ClassImage} (htexts : ∀ payload ∈ i.payloads, Utf8.WellFormed payload)
    (hflags : ∀ word ∈ i.flagWords, word.toBitVec.getLsbD 15 = false) (position : Nat) :
    (i.placed position).encodeWithCount i.poolCount = i.bytes := by
  rw [flagWords, List.forall_mem_cons, List.forall_mem_map, List.forall_mem_append] at hflags
  obtain ⟨hclass, hfields, hmethods⟩ := hflags
  rw [ClassFile.encodeWithCount, ClassFile.encodeFront, placed, ConstantPool.encode_constants htexts,
    AccessFlags.toWord_ofWord hclass, MemberImage.list_encode_meaning hfields,
    MemberImage.list_encode_meaning hmethods, AttributeImage.list_encode_meaning]
  rfl

end ClassImage

/-! ## The round trip -/

theorem ClassFile.parse_eq_ok_iff {bytes : List UInt8} {c : ClassFile} :
    (parse bytes).value = .ok c ↔ ∃ s, decode (Reader.ofBytes bytes 0) = .ok c s := by
  simp only [parse, Decoder.result, Decoder.outcome]
  cases decode (Reader.ofBytes bytes 0) <;> simp

/-- A class that can be written is read back from its bytes, whatever follows them, with its
attributes where they were written. Bytes that are accepted are those of one image, which is all
that is read of them, and writing the class gives these bytes again unless a text was not UTF-8 or
an unknown flag was set. -/
theorem parse_encode_round_trip :
    (∀ (c : ClassFile) (trailing : List UInt8), c.Encodable →
      (ClassFile.parse (c.encode ++ trailing)).value = .ok (c.placed 0) ∧
        (c.placed 0).unplaced = c.unplaced ∧
        Attribute.InOrder c.encode 0 c.encode.length (c.placed 0).allAttributes) ∧
    (∀ (bytes : List UInt8) (c : ClassFile), (ClassFile.parse bytes).value = .ok c →
      ∃ (image : ClassImage) (rest : List UInt8),
        image.Fits ∧ bytes = image.bytes ++ rest ∧
        (∀ (other : ClassImage) (rest' : List UInt8), other.Fits →
          bytes = other.bytes ++ rest' → other = image) ∧
        ClassFile.decode (Reader.ofBytes bytes 0) = .ok c ⟨image.bytes.length, rest⟩ ∧
        ((∀ payload ∈ image.payloads, Utf8.WellFormed payload) →
          (∀ word ∈ image.flagWords, word.toBitVec.getLsbD 15 = false) →
          c.encodeWithCount image.poolCount = image.bytes)) := by
  constructor
  · intro c trailing h
    refine ⟨?_, c.unplaced_placed 0, ClassFile.inOrder_placed h⟩
    exact ClassFile.parse_eq_ok_iff.mpr ⟨_, ClassFile.decode_encode h 0 trailing⟩
  · intro bytes c h
    obtain ⟨s, hdecode⟩ := ClassFile.parse_eq_ok_iff.mp h
    obtain ⟨image, hfits, rfl, hmoves⟩ := (ClassFile.decode_reads _ _ _).mp hdecode
    have hs : s = ⟨image.bytes.length, s.bytes⟩ := by
      have hposition : s.position = image.bytes.length := by
        rw [hmoves.2, Reader.ofBytes, Nat.zero_add]
        rfl
      rw [← hposition]
    refine ⟨image, s.bytes, hfits, hmoves.1, ?_, hs ▸ hdecode, ?_⟩
    · intro other rest' hother heq
      exact ClassImage.format_prefixFree other image hother hfits _ _ (heq.symm.trans hmoves.1)
    · intro htexts hflags
      exact ClassImage.encode_placed htexts hflags 0

/-- A class with a text and a number of two slots, a field with an attribute, and an attribute. -/
def wideClass : ClassFile where
  major := 52
  minor := 3
  pool := ConstantPool.ofEntries [.utf8 "é", .long (-2)]
  flags := AccessFlags.ofWord 0x21
  thisClass := 1
  superClass := 0
  interfaces := [1, 1]
  fields := [⟨AccessFlags.ofWord 2, 1, 1, [⟨1, 0, [7]⟩]⟩]
  methods := []
  attributes := [⟨1, 0, []⟩]

/-- The image of a file whose count gives a number of two slots only one. -/
def shortImage : ClassImage where
  minor := 0
  major := 52
  poolCount := 3
  entries := [.text [0xC3, 0xA9], .other (.double 1)]
  flags := 0x20
  thisClass := 0
  superClass := 0
  interfaces := []
  fields := []
  methods := []
  attributes := []

def shortClass : ClassFile :=
  shortImage.placed 0

theorem wideClass_encodable : wideClass.Encodable where
  pool := ⟨_, rfl, by decide +kernel⟩
  poolCount := by decide +kernel
  interfaces := by decide
  fieldCount := by decide
  fields := by
    intro m hm
    rw [List.mem_singleton.mp hm]
    exact ⟨by decide, by decide +kernel⟩
  methodCount := by decide
  methods := List.forall_mem_nil _
  attributeCount := by decide
  attributes := by decide +kernel

theorem parse_encode_round_trip_wide :
    wideClass.Encodable ∧
      (ClassFile.parse (wideClass.encode ++ [1, 2])).value = .ok (wideClass.placed 0) ∧
      (ClassFile.parse (shortImage.bytes ++ [1, 2])).value = .ok shortClass ∧
      shortClass.encodeWithCount 3 = shortImage.bytes := by
  have hshort : (ClassFile.parse (shortImage.bytes ++ [1, 2])).value = .ok shortClass :=
    ClassFile.parse_eq_ok_iff.mpr
      ⟨⟨shortImage.bytes.length, [1, 2]⟩,
        Decoder.eq_ok_of_outcome (by decide +kernel) (by decide +kernel)⟩
  have htexts : ∀ payload ∈ shortImage.payloads, Utf8.WellFormed payload := by
    intro payload hpayload
    rw [List.mem_singleton.mp hpayload]
    exact ⟨"é", by decide +kernel⟩
  have hflags : ∀ word ∈ shortImage.flagWords, word.toBitVec.getLsbD 15 = false := by
    intro word hword
    rw [List.mem_singleton.mp hword]
    decide
  have hfits : shortImage.Fits :=
    ⟨⟨by decide +kernel, by decide +kernel⟩, by decide, ⟨by decide, List.forall_mem_nil _⟩,
      ⟨by decide, List.forall_mem_nil _⟩, ⟨by decide, List.forall_mem_nil _⟩⟩
  obtain ⟨image, rest, -, -, hunique, -, hencode⟩ := parse_encode_round_trip.2 _ _ hshort
  obtain rfl := hunique shortImage [1, 2] hfits rfl
  refine ⟨wideClass_encodable, ?_, hshort, ?_⟩
  · exact (parse_encode_round_trip.1 wideClass [1, 2] wideClass_encodable).1
  · exact hencode htexts hflags

end JvmClass
