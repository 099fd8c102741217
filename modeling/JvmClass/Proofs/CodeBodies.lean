import JvmClass.Proofs.FixedWidth
import JvmClass.Proofs.Truncation

/-!
# Bodies of code

What the code of a method is read from is the first attribute with its name, and of this attribute
the bytes that the code is written in. No read can fail but for want of bytes, and bytes that are
wanting can always be supplied. So a body either begins with the bytes of a code, and then it is
read as this code, or ends within the bytes of a code, and then it is truncated.
-/

namespace JvmClass

namespace Decoder

variable {α β : Type} {d : Decoder α}

/-! ## Bytes that can be completed -/

/-- Whatever bytes the decoder finds, it succeeds if the right ones come after them. -/
def Completable (d : Decoder α) : Prop :=
  ∀ r : Reader, ∃ (more : List UInt8) (a : α) (s : Reader), ∀ rest,
    d ⟨r.position, r.bytes ++ (more ++ rest)⟩ = .ok a ⟨s.position, s.bytes ++ rest⟩

namespace Completable

theorem pure (a : α) : Completable (Pure.pure a) :=
  fun r => ⟨[], a, r, fun _ => rfl⟩

theorem position : Completable Decoder.position :=
  fun r => ⟨[], r.position, r, fun _ => rfl⟩

/-- What completes the second decoder goes after what completes the first. -/
theorem bind {f : α → Decoder β} (hd : Completable d) (hf : ∀ a, Completable (f a)) :
    Completable (d >>= f) := by
  intro r
  obtain ⟨more, a, s, hfirst⟩ := hd r
  obtain ⟨others, b, t, hthen⟩ := hf a s
  refine ⟨more ++ others, b, t, fun rest => ?_⟩
  rw [bind_eq_ok_iff, List.append_assoc]
  exact ⟨a, _, hfirst (others ++ rest), hthen rest⟩

theorem times (h : Completable d) (n : Nat) : Completable (d.times n) := by
  induction n with
  | zero => exact pure []
  | succ n ih => exact h.bind fun _ => ih.bind fun _ => pure _

end Completable

/-- A read is completed by as many bytes as it asks for, whichever they are. -/
theorem Spells.completable {width : Nat} {f : List UInt8 → α} (h : Spells d width f) :
    Completable d := by
  intro r
  let padded := r.bytes ++ List.replicate width 0
  have hwidth : width ≤ padded.length := by
    rw [List.length_append, List.length_replicate]
    exact Nat.le_add_left _ _
  refine ⟨List.replicate width 0, f (padded.take width),
    ⟨r.position + width, padded.drop width⟩, fun rest => ?_⟩
  rw [← List.append_assoc]
  have hroom : width ≤ (Reader.mk r.position (padded ++ rest)).remaining := by
    rw [Reader.remaining, List.length_append]
    exact Nat.le_add_right_of_le hwidth
  rw [h.ok _ hroom, List.take_append_of_le_length hwidth, List.drop_append_of_le_length hwidth]

theorem Completable.counted (h : Completable d) : Completable d.counted :=
  Spells.u16.completable.bind fun _ => h.times _

end Decoder

open Decoder (Completable Spells)

theorem Attribute.decode_completable : Completable Attribute.decode :=
  Spells.u16.completable.bind fun _ => Spells.u32.completable.bind fun _ =>
    Completable.position.bind fun _ => (Spells.bytes _).completable.bind fun _ => .pure _

theorem ExceptionHandler.decode_completable : Completable ExceptionHandler.decode :=
  Spells.u16.completable.bind fun _ => Spells.u16.completable.bind fun _ =>
    Spells.u16.completable.bind fun _ => Spells.u16.completable.bind fun _ => .pure _

theorem Code.decode_completable : Completable Code.decode :=
  Spells.u16.completable.bind fun _ => Spells.u16.completable.bind fun _ =>
    Spells.u32.completable.bind fun _ => (Spells.bytes _).completable.bind fun _ =>
      ExceptionHandler.decode_completable.counted.bind fun _ =>
        Attribute.decode_completable.counted.bind fun _ => .pure _

/-! ## Code that can be written -/

/-- Code whose instructions and lists have lengths that fit their fields. -/
structure Code.Encodable (c : Code) : Prop where
  instructions : c.instructions.length < UInt32.size
  handlers : c.handlers.length < UInt16.size
  attributeCount : c.attributes.length < UInt16.size
  attributes : ∀ a ∈ c.attributes, a.Encodable

/-- When the bytes of the code begin at `start`, the body of each nested attribute stands behind
what comes before the attributes, the attributes before it and its own header. -/
def Code.NestedFrom (start : Nat) (c : Code) : Prop :=
  ∀ before a after, c.attributes = before ++ a :: after →
    a.offset = start + (c.encodeFront ++ before.flatMap Attribute.encode).length +
      Attribute.headerSize

namespace Attribute

theorem length_encode (a : Attribute) : a.encode.length = headerSize + a.info.length :=
  a.image.length_bytes

theorem placed_eq_self_iff {start : Nat} {attributes : List Attribute} :
    placed start attributes = attributes ↔ ∀ before a after, attributes = before ++ a :: after →
      a.offset = start + (before.flatMap encode).length + headerSize := by
  induction attributes generalizing start with
  | nil =>
      refine iff_of_true rfl ?_
      intro before a after h
      cases before <;> cases h
  | cons b rest ih =>
      have hhead : ({ b with offset := start + headerSize } : Attribute) = b ↔
          b.offset = start + headerSize := by
        cases b
        simp only [mk.injEq, true_and, and_true]
        exact eq_comm
      rw [placed, List.cons.injEq, hhead, ih]
      constructor
      · intro hplaced before a after h
        obtain ⟨hb, hrest⟩ := hplaced
        cases before with
        | nil =>
            cases h
            exact hb
        | cons _ before =>
            cases h
            rw [hrest before a after rfl, List.flatMap_cons, List.length_append, length_encode]
            omega
      · intro h
        refine ⟨h [] b rest rfl, fun before a after hrest => ?_⟩
        rw [h (b :: before) a after (congrArg _ hrest), List.flatMap_cons, List.length_append,
          length_encode]
        omega

end Attribute

namespace Code

theorem placed_eq_self_iff {start : Nat} {c : Code} : c.placed start = c ↔ c.NestedFrom start := by
  have hattributes : c.placed start = c ↔
      Attribute.placed (start + c.encodeFront.length) c.attributes = c.attributes := by
    cases c
    simp only [placed, mk.injEq, true_and]
  rw [hattributes, Attribute.placed_eq_self_iff]
  simp only [NestedFrom, List.length_append, Nat.add_assoc]

def image (c : Code) : CodeImage :=
  ⟨c.maxStack, c.maxLocals, c.instructions, c.handlers, c.attributes.map Attribute.image⟩

theorem encodeFront_eq (c : Code) :
    c.encodeFront = c.image.front ++ Encoder.u16 (UInt16.ofNat c.attributes.length) := by
  simp only [encodeFront, CodeImage.front, image, List.append_assoc]

theorem bytes_image (c : Code) : c.image.bytes = c.encode := by
  rw [CodeImage.bytes, encode, encodeFront_eq, List.append_assoc]
  congr 1
  exact Attribute.list_bytes_image c.attributes

theorem placed_image (start : Nat) (c : Code) : c.image.placed start = c.placed start := by
  rw [placed, encodeFront_eq, List.length_append, Encoder.length_u16, ← Nat.add_assoc,
    Attribute.placed_eq_meanings]
  rfl

theorem fits_image_iff {c : Code} : c.image.Fits ↔ c.Encodable := by
  constructor
  · intro h
    refine ⟨h.instructions, h.handlers.1, ?_, ?_⟩
    · have hcount := h.attributes.1
      rwa [image, List.length_map] at hcount
    · intro a ha
      exact h.attributes.2 a.image (List.mem_map_of_mem ha)
  · intro h
    exact ⟨h.instructions, ⟨h.handlers, fun _ _ => trivial⟩,
      Attribute.list_fits_image h.attributeCount h.attributes⟩

theorem image_placed (start : Nat) (i : CodeImage) : (i.placed start).image = i := by
  simp only [image, CodeImage.placed, AttributeImage.list, Format.counted,
    Attribute.map_image_meanings]

/-- Code is read exactly from the bytes it is written in, as it stands at their place. -/
theorem decode_eq_ok_iff {r s : Reader} {c : Code} :
    decode r = .ok c s ↔ c.Encodable ∧ c.NestedFrom r.position ∧ r.Moves c.encode s := by
  rw [decode_reads r c s, ← placed_eq_self_iff, ← fits_image_iff, ← bytes_image, ← placed_image]
  constructor
  · intro h
    obtain ⟨i, hfits, rfl, hmoves⟩ := h
    change (i.placed r.position).image.Fits ∧ (i.placed r.position).image.placed r.position =
      i.placed r.position ∧ r.Moves (i.placed r.position).image.bytes s
    rw [image_placed]
    exact ⟨hfits, rfl, hmoves⟩
  · intro h
    obtain ⟨hfits, hplaced, hmoves⟩ := h
    exact ⟨c.image, hfits, hplaced, hmoves⟩

theorem decode_encode {c : Code} (h : c.Encodable) (start : Nat) (trailing : List UInt8) :
    decode ⟨start, c.encode ++ trailing⟩ =
      .ok (c.placed start) ⟨start + c.encode.length, trailing⟩ := by
  rw [← bytes_image, ← placed_image]
  exact decode_reads.append (fits_image_iff.mpr h) start trailing

/-- No code is written in a part of the bytes of another. -/
theorem encode_eq_of_prefix {c c' : Code} (h : c.Encodable) (h' : c'.Encodable)
    (hpart : c.encode <+: c'.encode) : c.encode = c'.encode := by
  obtain ⟨rest, hrest⟩ := hpart
  have hsame : c.image.bytes ++ rest = c'.image.bytes ++ [] := by
    rw [bytes_image, bytes_image, hrest, List.append_nil]
  calc
    c.encode = c.image.bytes := (bytes_image c).symm
    _ = c'.image.bytes :=
      (decode_reads.unique (fits_image_iff.mpr h) (fits_image_iff.mpr h') hsame).1
    _ = c'.encode := bytes_image c'

/-! ## Bodies -/

/-- The body begins with the bytes of a code. -/
def Begins (info : List UInt8) : Prop :=
  ∃ c : Code, c.Encodable ∧ c.encode <+: info

/-- The body ends within the bytes of a code. -/
def CutOff (info : List UInt8) : Prop :=
  ∃ c : Code, c.Encodable ∧ info <+: c.encode ∧ info ≠ c.encode

theorem begins_or_cutOff (info : List UInt8) : Begins info ∨ CutOff info := by
  obtain ⟨more, c, s, hread⟩ := decode_completable ⟨0, info⟩
  obtain ⟨hc, -, hbytes, -⟩ := decode_eq_ok_iff.mp (hread [])
  have hboth : c.encode <+: info ++ (more ++ []) := ⟨_, hbytes.symm⟩
  rcases List.prefix_or_prefix_of_prefix hboth (List.prefix_append _ _) with hbegins | hends
  · exact .inl ⟨c, hc, hbegins⟩
  · by_cases heq : info = c.encode
    · exact .inl ⟨c, hc, heq ▸ List.prefix_refl _⟩
    · exact .inr ⟨c, hc, hends, heq⟩

theorem not_begins_and_cutOff (info : List UInt8) : ¬ (Begins info ∧ CutOff info) := by
  intro h
  obtain ⟨⟨c, hc, hbegins⟩, c', hc', hends, hne⟩ := h
  have heq : c.encode = c'.encode := encode_eq_of_prefix hc hc' (hbegins.trans hends)
  apply hne
  apply hends.eq_of_length_le
  rw [← heq]
  exact hbegins.length_le

theorem ofAttribute_eq_ok_iff {a : Attribute} {c : Code} :
    ofAttribute a = .ok c ↔ c.Encodable ∧ c.encode <+: a.info ∧ c.NestedFrom a.offset := by
  constructor
  · intro h
    cases hread : decode a.body with
    | error cause s =>
        rw [ofAttribute_of_decode_error hread] at h
        cases h
    | ok found s =>
        rw [ofAttribute_of_decode hread] at h
        cases h
        obtain ⟨hc, hnested, hbytes, -⟩ := decode_eq_ok_iff.mp hread
        exact ⟨hc, ⟨s.bytes, hbytes.symm⟩, hnested⟩
  · intro h
    obtain ⟨hc, ⟨rest, hrest⟩, hnested⟩ := h
    have hread : decode a.body = .ok c ⟨a.offset + c.encode.length, rest⟩ :=
      decode_eq_ok_iff.mpr ⟨hc, hnested, hrest.symm, rfl⟩
    exact ofAttribute_of_decode hread

/-- A body that begins with the bytes of a code is read as this code, at the place of the body. -/
theorem exists_ofAttribute_eq_ok {a : Attribute} (h : Begins a.info) :
    ∃ c, ofAttribute a = .ok c := by
  obtain ⟨c, hc, rest, hrest⟩ := h
  have hread := decode_encode hc a.offset rest
  rw [hrest] at hread
  exact ⟨c.placed a.offset, ofAttribute_of_decode hread⟩

/-- A body that ends within the bytes of a code is truncated where it ends. -/
theorem ofAttribute_eq_error {a : Attribute} (h : CutOff a.info) :
    ∃ offset needed remaining,
      ofAttribute a = .error (.inAttribute attributeName a.offset
        (.truncated offset needed remaining)) ∧
      offset + remaining = a.limit ∧ remaining < needed := by
  obtain ⟨c, hc, hends, hne⟩ := h
  have hshort : a.info.length < c.encode.length :=
    Nat.lt_of_le_of_ne hends.length_le fun hlength => hne (hends.eq_of_length hlength)
  obtain ⟨front, ⟨hbytes, -⟩, hconsumes⟩ :=
    decode_composed.consumes (decode_encode hc a.offset [])
  have hfront : c.encode = front := List.append_cancel_right hbytes
  rw [← hfront] at hconsumes
  obtain ⟨offset, needed, remaining, s, hread, hstop, hlack, -⟩ := hconsumes.cut _ hshort
  rw [← List.prefix_iff_eq_take.mp hends] at hread
  exact ⟨offset, needed, remaining, ofAttribute_of_decode_error hread, hstop, hlack⟩

end Code

/-! ## Methods -/

/-- No attribute before this one has the name. -/
def Attribute.FirstNamed (name : String) (pool : ConstantPool) (attributes : List Attribute)
    (a : Attribute) : Prop :=
  ∃ before after, attributes = before ++ a :: after ∧ pool.text? a.nameIndex = some name ∧
    ∀ b ∈ before, pool.text? b.nameIndex ≠ some name

namespace Attribute

variable {name : String} {pool : ConstantPool} {attributes : List Attribute}

theorem named_eq_nil_iff :
    named name pool attributes = [] ↔ ∀ a ∈ attributes, pool.text? a.nameIndex ≠ some name := by
  simp only [named, List.filter_eq_nil_iff, beq_iff_eq]

theorem exists_firstNamed (h : ∃ a ∈ attributes, pool.text? a.nameIndex = some name) :
    ∃ a, FirstNamed name pool attributes a := by
  induction attributes with
  | nil =>
      obtain ⟨a, ha, -⟩ := h
      cases ha
  | cons b rest ih =>
      by_cases hb : pool.text? b.nameIndex = some name
      · exact ⟨b, [], rest, rfl, hb, List.forall_mem_nil _⟩
      · have hrest : ∃ a ∈ rest, pool.text? a.nameIndex = some name := by
          obtain ⟨a, ha, hname⟩ := h
          rcases List.mem_cons.mp ha with rfl | ha
          · exact absurd hname hb
          · exact ⟨a, ha, hname⟩
        obtain ⟨a, before, after, rfl, ha, hbefore⟩ := ih hrest
        exact ⟨a, b :: before, after, rfl, ha, List.forall_mem_cons.mpr ⟨hb, hbefore⟩⟩

theorem FirstNamed.named_eq {a : Attribute} (h : FirstNamed name pool attributes a) :
    ∃ others, named name pool attributes = a :: others := by
  obtain ⟨before, after, rfl, ha, hbefore⟩ := h
  refine ⟨named name pool after, ?_⟩
  calc
    named name pool (before ++ a :: after) = named name pool before ++ named name pool (a :: after) :=
      List.filter_append _ _
    _ = named name pool (a :: after) := by rw [named_eq_nil_iff.mpr hbefore, List.nil_append]
    _ = a :: named name pool after := List.filter_cons_of_pos (beq_iff_eq.mpr ha)

end Attribute

namespace Member

variable {pool : ConstantPool} {m : Member}

theorem code?_of_firstNamed {a : Attribute}
    (h : a.FirstNamed Code.attributeName pool m.attributes) :
    m.code? pool = (Code.ofAttribute a).map some := by
  obtain ⟨others, hnamed⟩ := h.named_eq
  rw [code?, hnamed]

theorem code?_eq_none_iff :
    m.code? pool = .ok none ↔
      ∀ a ∈ m.attributes, pool.text? a.nameIndex ≠ some Code.attributeName := by
  rw [← Attribute.named_eq_nil_iff, code?]
  cases Attribute.named Code.attributeName pool m.attributes with
  | nil => simp only
  | cons a others =>
      cases hcode : Code.ofAttribute a <;> simp [Except.map, hcode]

theorem exists_firstNamed (h : m.code? pool ≠ .ok none) :
    ∃ a : Attribute, a.FirstNamed Code.attributeName pool m.attributes := by
  rw [ne_eq, code?_eq_none_iff] at h
  simp only [not_forall, not_not, exists_prop] at h
  exact Attribute.exists_firstNamed h

end Member

/-- A method has no code if none of its attributes has the name. Otherwise its code depends on the
first of them alone: it is read from the bytes it is written in, at their place in the file and
whatever follows them, and if the body ends before that it is truncated where the body ends. There
is no third kind of body. -/
theorem code_read_exactly :
    (∀ (pool : ConstantPool) (m : Member),
      (m.code? pool = .ok none ↔ ∀ a ∈ m.attributes, pool.text? a.nameIndex ≠ some "Code") ∧
      (m.code? pool ≠ .ok none → ∃ a : Attribute, a.FirstNamed "Code" pool m.attributes) ∧
      ∀ a : Attribute, a.FirstNamed "Code" pool m.attributes →
        (∀ (pool' : ConstantPool) (m' : Member), a.FirstNamed "Code" pool' m'.attributes →
          m'.code? pool' = m.code? pool) ∧
        (∀ c, m.code? pool = .ok (some c) ↔
          c.Encodable ∧ c.encode <+: a.info ∧ c.NestedFrom a.offset) ∧
        (Code.Begins a.info → ∃ c, m.code? pool = .ok (some c)) ∧
        (Code.CutOff a.info → ∃ offset needed remaining,
          m.code? pool = .error (.inAttribute "Code" a.offset
            (.truncated offset needed remaining)) ∧
          offset + remaining = a.limit ∧ remaining < needed)) ∧
    ∀ info, (Code.Begins info ∨ Code.CutOff info) ∧ ¬ (Code.Begins info ∧ Code.CutOff info) := by
  constructor
  · intro pool m
    refine ⟨Member.code?_eq_none_iff, Member.exists_firstNamed, fun a hfirst => ?_⟩
    have hcode := Member.code?_of_firstNamed hfirst
    refine ⟨?_, ?_, ?_, ?_⟩
    · intro pool' m' hfirst'
      rw [hcode]
      exact Member.code?_of_firstNamed hfirst'
    · intro c
      rw [hcode, ← Code.ofAttribute_eq_ok_iff]
      cases Code.ofAttribute a <;> simp [Except.map]
    · intro hbegins
      obtain ⟨c, hc⟩ := Code.exists_ofAttribute_eq_ok hbegins
      refine ⟨c, ?_⟩
      rw [hcode, hc]
      rfl
    · intro hcut
      obtain ⟨offset, needed, remaining, herror, hplace⟩ := Code.ofAttribute_eq_error hcut
      refine ⟨offset, needed, remaining, ?_, hplace⟩
      rw [hcode, herror]
      rfl
  · intro info
    exact ⟨Code.begins_or_cutOff info, Code.not_begins_and_cutOff info⟩

/-- Code with an attribute, as it stands in a body at position 50 of a file. -/
def nestingCode : Code :=
  ⟨1, 1, [0xB1], [], [⟨1, 69, [7]⟩]⟩

/-- A method whose second attribute has the given body, and the same name as the third. -/
def methodWithBody (info : List UInt8) : Member :=
  ⟨AccessFlags.ofWord 0, 0, 0, [⟨1, 40, [9]⟩, ⟨2, 50, info⟩, ⟨2, 90, []⟩]⟩

theorem code_read_exactly_second :
    let pool := ConstantPool.ofSlots [.utf8 "Other", .utf8 "Code"]
    (methodWithBody (nestingCode.encode ++ [0xFF])).code? pool = .ok (some nestingCode) ∧
      (∃ offset needed remaining,
        (methodWithBody (nestingCode.encode.take 5)).code? pool =
          .error (.inAttribute "Code" 50 (.truncated offset needed remaining)) ∧
        offset + remaining = 55 ∧ remaining < needed) ∧
      ∃ a : Attribute, a.FirstNamed "Code" pool (methodWithBody []).attributes := by
  intro pool
  have hother : pool.text? 1 ≠ some "Code" := by decide +kernel
  have hname : pool.text? 2 = some "Code" := by decide +kernel
  have hfirst (info : List UInt8) :
      (⟨2, 50, info⟩ : Attribute).FirstNamed "Code" pool (methodWithBody info).attributes :=
    ⟨[⟨1, 40, [9]⟩], [⟨2, 90, []⟩], rfl, hname, List.forall_mem_singleton.mpr hother⟩
  have hencodable : nestingCode.Encodable :=
    ⟨by decide, by decide, by decide, by decide +kernel⟩
  have hnested : nestingCode.NestedFrom 50 := by
    rw [← Code.placed_eq_self_iff]
    decide +kernel
  refine ⟨?_, ?_, ?_⟩
  · obtain ⟨-, hread, -⟩ := (code_read_exactly.1 pool (methodWithBody _)).2.2 _ (hfirst _)
    exact (hread nestingCode).mpr ⟨hencodable, List.prefix_append _ _, hnested⟩
  · obtain ⟨-, -, -, hcut⟩ := (code_read_exactly.1 pool (methodWithBody _)).2.2 _ (hfirst _)
    obtain ⟨offset, needed, remaining, herror, hstop, hlack⟩ :=
      hcut ⟨nestingCode, hencodable, List.take_prefix 5 _, by decide +kernel⟩
    exact ⟨offset, needed, remaining, herror, hstop, hlack⟩
  · apply (code_read_exactly.1 pool (methodWithBody [])).2.1
    rw [ne_eq, (code_read_exactly.1 pool (methodWithBody [])).1]
    intro hnone
    exact hnone ⟨2, 50, []⟩ (by decide) hname

end JvmClass
