import JvmClass.ClassFile
import JvmClass.Proofs.Reading

/-!
# Class files as they are written

An image is what the bytes of a class file spell before any of it is interpreted: texts are still
rows of bytes, flags are whole words, and attributes have no place yet. This file gives the format
of every part of a class file in terms of images and shows that the decoders read these formats, so
that a decoded class file always comes from one image and can be read off it.
-/

namespace JvmClass

open Bytes

/-! ## Constants -/

/-- An entry of a pool. A text is the bytes it is written in. -/
inductive EntryImage where
  | text (payload : List UInt8)
  | other (c : Constant)
deriving DecidableEq, Repr

namespace EntryImage

def constant : EntryImage → Constant
  | text payload => .utf8 (Utf8.decodeLossy payload)
  | other c => c

def Fits : EntryImage → Prop
  | text payload => payload.length < UInt16.size
  | other c => c.kind? ≠ none ∧ c.kind? ≠ some .utf8

instance : DecidablePred Fits
  | text payload => Nat.decLt payload.length UInt16.size
  | other c => inferInstanceAs (Decidable (c.kind? ≠ none ∧ c.kind? ≠ some .utf8))

def bytes : EntryImage → List UInt8
  | text payload =>
    Encoder.u8 ConstantKind.utf8.tag ++ (Encoder.u16 (UInt16.ofNat payload.length) ++ payload)
  | other c => c.encode

def format : Format EntryImage Constant :=
  ⟨Fits, bytes, fun _ => constant⟩

end EntryImage

/-- An entry other than a text is the bytes of its fields. -/
theorem Constant.decodeFields_eq_ok_iff {kind : ConstantKind} (hkind : kind ≠ .utf8)
    {r s : Reader} {c : Constant} :
    decodeFields kind r = .ok c s ↔ c.kind? = some kind ∧ r.Moves c.encodeFields s := by
  open Decoder in
  cases kind with
  | utf8 => exact absurd rfl hkind
  | fieldRef | methodRef | interfaceMethodRef | nameAndType | methodHandle | dynamic
  | invokeDynamic =>
      simp only [decodeFields, pair_eq_ok_iff u16_eq_ok_iff u16_eq_ok_iff,
        pair_eq_ok_iff u8_eq_ok_iff u16_eq_ok_iff]
      constructor
      · intro h
        obtain ⟨first, second, rfl, hmoves⟩ := h
        exact ⟨rfl, hmoves⟩
      · intro h
        obtain ⟨hc, hmoves⟩ := h
        cases c <;> cases hc
        exact ⟨_, _, rfl, hmoves⟩
  | _ =>
      simp only [decodeFields, single_eq_ok_iff u16_eq_ok_iff, single_eq_ok_iff u32_eq_ok_iff,
        single_eq_ok_iff u64_eq_ok_iff, single_eq_ok_iff i32_eq_ok_iff,
        single_eq_ok_iff i64_eq_ok_iff]
      constructor
      · intro h
        obtain ⟨field, rfl, hmoves⟩ := h
        exact ⟨rfl, hmoves⟩
      · intro h
        obtain ⟨hc, hmoves⟩ := h
        cases c <;> cases hc
        exact ⟨_, rfl, hmoves⟩

/-- A text is its length and its bytes, whatever these are. -/
theorem Constant.decodeFields_utf8_eq_ok_iff {r t : Reader} {c : Constant} :
    decodeFields .utf8 r = .ok c t ↔
      ∃ payload : List UInt8, payload.length < UInt16.size ∧
        .utf8 (Utf8.decodeLossy payload) = c ∧
        r.Moves (Encoder.u16 (UInt16.ofNat payload.length) ++ payload) t := by
  simp only [decodeFields, Decoder.bind_eq_ok_iff, Decoder.u16_eq_ok_iff,
    Decoder.bytes_eq_ok_iff, Decoder.pure_eq_ok_iff, Reader.moves_nil_iff, Reader.moves_append_iff]
  constructor
  · intro h
    obtain ⟨length, s, hcount, payload, _, ⟨hlength, hpayload⟩, heq, rfl⟩ := h
    refine ⟨payload, hlength ▸ length.toNat_lt, heq, s, ?_, hpayload⟩
    rwa [hlength, UInt16.ofNat_toNat]
  · intro h
    obtain ⟨payload, hfits, heq, s, hcount, hpayload⟩ := h
    refine ⟨_, s, hcount, payload, t, ⟨?_, hpayload⟩, heq, rfl⟩
    rw [UInt16.toNat_ofNat_of_lt' hfits]

theorem Constant.decode_reads : Constant.decode.Reads EntryImage.format := by
  intro r c t
  simp only [decode, Decoder.bind_eq_ok_iff, Decoder.u8_eq_ok_iff]
  constructor
  · intro h
    obtain ⟨tag, s, htag, hfields⟩ := h
    cases hkind : ConstantKind.ofTag? tag with
    | none =>
        rw [hkind] at hfields
        exact absurd hfields Decoder.throw_ne_ok
    | some kind =>
      rw [hkind] at hfields
      rw [← ConstantKind.tag_of_ofTag? hkind] at htag
      by_cases hutf8 : kind = .utf8
      · subst hutf8
        obtain ⟨payload, hfits, rfl, hmoves⟩ := decodeFields_utf8_eq_ok_iff.mp hfields
        exact ⟨.text payload, hfits, rfl, Reader.moves_append_iff.mpr ⟨s, htag, hmoves⟩⟩
      · obtain ⟨hc, hmoves⟩ := (decodeFields_eq_ok_iff hutf8).mp hfields
        refine ⟨.other c, ⟨by simp [hc], by simp [hc, hutf8]⟩, rfl, ?_⟩
        simp only [EntryImage.format, EntryImage.bytes, encode, hc]
        exact Reader.moves_append_iff.mpr ⟨s, htag, hmoves⟩
  · intro h
    obtain ⟨payload | c', hfits, rfl, hmoves⟩ := h
    · obtain ⟨s, htag, hfields⟩ := Reader.moves_append_iff.mp hmoves
      exact ⟨_, s, htag, decodeFields_utf8_eq_ok_iff.mpr ⟨payload, hfits, rfl, hfields⟩⟩
    · obtain ⟨hkind, hutf8⟩ := hfits
      obtain ⟨kind, hc⟩ := Option.ne_none_iff_exists'.mp hkind
      simp only [EntryImage.format, EntryImage.bytes, encode, hc] at hmoves
      obtain ⟨s, htag, hfields⟩ := Reader.moves_append_iff.mp hmoves
      refine ⟨_, s, htag, ?_⟩
      rw [ConstantKind.ofTag?_tag]
      exact (decodeFields_eq_ok_iff (by simpa [hc] using hutf8)).mpr ⟨hc, hfields⟩

theorem EntryImage.format_prefixFree : format.PrefixFree := by
  intro i j hi hj s t heq
  obtain ⟨hbytes, hconstant⟩ := Constant.decode_reads.unique hi hj heq
  specialize hconstant 0
  cases i with
  | text payload =>
      cases j with
      | text payload' =>
          simp only [format, bytes] at hbytes
          obtain ⟨-, hrest⟩ := List.append_inj hbytes rfl
          rw [(List.append_inj hrest (by simp)).2]
      | other c =>
          have hc : Constant.utf8 (Utf8.decodeLossy payload) = c := hconstant
          exact absurd (by rw [← hc]; rfl) hj.2
  | other c =>
      cases j with
      | text payload' =>
          have hc : c = Constant.utf8 (Utf8.decodeLossy payload') := hconstant
          exact absurd (by rw [hc]; rfl) hi.2
      | other c' => exact congrArg other hconstant

/-! ## Constant pools -/

namespace ConstantPool

/-- Whether entries fill a number of slots, the last one perhaps going beyond them. -/
def Fills : Nat → List Constant → Prop
  | n, [] => n = 0
  | n, c :: rest => 0 < n ∧ Fills (n - c.slots.length) rest

instance decidableFills : (n : Nat) → (cs : List Constant) → Decidable (Fills n cs)
  | n, [] => inferInstanceAs (Decidable (n = 0))
  | n, c :: rest =>
    have := decidableFills (n - c.slots.length) rest
    inferInstanceAs (Decidable (0 < n ∧ Fills (n - c.slots.length) rest))

theorem length_slots (c : Constant) : c.slots.length = if c.isWide then 2 else 1 := by
  unfold Constant.slots
  split <;> rfl

theorem length_slots_pos (c : Constant) : 0 < c.slots.length := by
  rw [length_slots]
  split <;> decide

theorem decodeEntries_succ (n : Nat) :
    decodeEntries (n + 1) = do
      let first ← Constant.decode
      let others ← decodeEntries (n + 1 - first.slots.length)
      return first :: others := by
  cases n with
  | zero =>
      have hrest (c : Constant) : decodeEntries (0 + 1 - c.slots.length) = pure [] := by
        have hpos := length_slots_pos c
        have hzero : 0 + 1 - c.slots.length = 0 := by omega
        rw [hzero, decodeEntries]
      simp only [decodeEntries, hrest, pure_bind]
  | succ n =>
      rw [decodeEntries]
      congr 1
      funext first
      rw [length_slots]
      cases first.isWide <;> rfl

/-- Entries of a pool that announces `n` slots. -/
def EntriesFit (n : Nat) (es : List EntryImage) : Prop :=
  (∀ e ∈ es, e.Fits) ∧ Fills n (es.map EntryImage.constant)

def entriesFormat (n : Nat) : Format (List EntryImage) (List Constant) where
  Fits := EntriesFit n
  bytes es := es.flatMap EntryImage.bytes
  meaning _ es := es.map EntryImage.constant

theorem decodeEntries_reads (n : Nat) : (decodeEntries n).Reads (entriesFormat n) := by
  -- An entry takes one or two slots off the number, so the induction is not from `n` to `n + 1`.
  induction n using Nat.strongRecOn with
  | ind n ih =>
      intro r cs t
      cases n with
      | zero =>
          rw [decodeEntries, Decoder.pure_eq_ok_iff]
          constructor
          · intro h
            obtain ⟨rfl, hmoves⟩ := h
            exact ⟨[], ⟨List.forall_mem_nil _, rfl⟩, rfl, hmoves⟩
          · intro h
            obtain ⟨_ | ⟨e, es⟩, ⟨-, hfills⟩, hmeaning, hmoves⟩ := h
            · exact ⟨hmeaning, hmoves⟩
            · exact absurd hfills.1 (Nat.lt_irrefl 0)
      | succ n =>
          simp only [decodeEntries_succ, Decoder.bind_eq_ok_iff, Decoder.pure_eq_ok_iff,
            Reader.moves_nil_iff]
          have hless (c : Constant) : n + 1 - c.slots.length < n + 1 := by
            have hpos := length_slots_pos c
            omega
          constructor
          · intro h
            obtain ⟨c, s, hfirst, others, _, hothers, rfl, rfl⟩ := h
            obtain ⟨e, he, hc, hmoves⟩ := (Constant.decode_reads r c s).mp hfirst
            obtain ⟨es, ⟨hes, hfills⟩, rfl, hrest⟩ := (ih _ (hless c) s others _).mp hothers
            subst hc
            refine ⟨e :: es, ⟨List.forall_mem_cons.mpr ⟨he, hes⟩, Nat.succ_pos n, hfills⟩, rfl, ?_⟩
            exact Reader.moves_append_iff.mpr ⟨s, hmoves, hrest⟩
          · intro h
            obtain ⟨_ | ⟨e, es⟩, ⟨hes, hfills⟩, rfl, hmoves⟩ := h
            · cases hfills
            · rw [List.forall_mem_cons] at hes
              obtain ⟨s, hfirst, hrest⟩ := Reader.moves_append_iff.mp hmoves
              have hothers := (ih _ (hless e.constant) s _ t).mpr
                ⟨es, ⟨hes.2, hfills.2⟩, rfl, hrest⟩
              have he := (Constant.decode_reads r e.constant s).mpr ⟨e, hes.1, rfl, hfirst⟩
              exact ⟨_, s, he, _, t, hothers, rfl, rfl⟩

theorem entriesFormat_prefixFree (n : Nat) : (entriesFormat n).PrefixFree := by
  induction n using Nat.strongRecOn with
  | ind n ih =>
      rintro (_ | ⟨i, is⟩) (_ | ⟨j, js⟩) ⟨hi, hifills⟩ ⟨hj, hjfills⟩ s t heq
      · rfl
      · exact absurd hifills (Nat.pos_iff_ne_zero.mp hjfills.1)
      · exact absurd hjfills (Nat.pos_iff_ne_zero.mp hifills.1)
      · rw [List.forall_mem_cons] at hi hj
        simp only [entriesFormat, List.flatMap_cons, List.append_assoc] at heq
        have hhead : i = j := EntryImage.format_prefixFree i j hi.1 hj.1 _ _ heq
        subst hhead
        have hless : n - i.constant.slots.length < n := by
          have hpos := length_slots_pos i.constant
          have hn := hifills.1
          omega
        rw [ih _ hless is js ⟨hi.2, hifills.2⟩ ⟨hj.2, hjfills.2⟩ s t
          (List.append_cancel_left heq)]

end ConstantPool

/-! ## Attributes -/

structure AttributeImage where
  nameIndex : UInt16
  info : List UInt8
deriving DecidableEq, Repr

namespace AttributeImage

def Fits (i : AttributeImage) : Prop :=
  i.info.length < UInt32.size

/-- The bytes before the body. -/
def header (i : AttributeImage) : List UInt8 :=
  Encoder.u16 i.nameIndex ++ Encoder.u32 (UInt32.ofNat i.info.length)

def bytes (i : AttributeImage) : List UInt8 :=
  i.header ++ i.info

@[simp] theorem length_header (i : AttributeImage) : i.header.length = Attribute.headerSize := by
  rw [header, List.length_append, Encoder.length_u16, Encoder.length_u32]
  rfl

/-- The attribute whose bytes begin at a position of the file. -/
def placed (position : Nat) (i : AttributeImage) : Attribute :=
  ⟨i.nameIndex, position + Attribute.headerSize, i.info⟩

def format : Format AttributeImage Attribute :=
  ⟨Fits, bytes, placed⟩

def list : Format (List AttributeImage) (List Attribute) :=
  format.counted

end AttributeImage

theorem Attribute.decode_reads : Attribute.decode.Reads AttributeImage.format := by
  intro r a t
  simp only [Attribute.decode, Decoder.bind_eq_ok_iff, Decoder.u16_eq_ok_iff,
    Decoder.u32_eq_ok_iff, Decoder.position_eq_ok_iff, Decoder.bytes_eq_ok_iff,
    Decoder.pure_eq_ok_iff, Reader.moves_nil_iff, AttributeImage.format]
  constructor
  · intro h
    obtain ⟨nameIndex, s₁, hname, length, s₂, hlength, _, _, ⟨rfl, rfl⟩, info, _, ⟨hinfo, hbody⟩,
      rfl, rfl⟩ := h
    have hfits : info.length < UInt32.size := by
      rw [hinfo]
      exact length.toNat_lt
    have hsize : length = UInt32.ofNat info.length := by
      rw [hinfo, UInt32.ofNat_toNat]
    rw [hsize] at hlength
    refine ⟨⟨nameIndex, info⟩, hfits, ?_, (hname.append hlength).append hbody⟩
    rw [hlength.2, hname.2]
    rfl
  · intro h
    obtain ⟨i, hfits, rfl, hmoves⟩ := h
    obtain ⟨s₂, hheader, hbody⟩ := Reader.moves_append_iff.mp hmoves
    obtain ⟨s₁, hname, hlength⟩ := Reader.moves_append_iff.mp hheader
    refine ⟨_, s₁, hname, _, s₂, hlength, _, _, ⟨rfl, rfl⟩, i.info, t, ⟨?_, hbody⟩, ?_, rfl⟩
    · rw [UInt32.toNat_ofNat_of_lt' hfits]
    · rw [hlength.2, hname.2]
      rfl

theorem AttributeImage.format_prefixFree : format.PrefixFree := by
  intro i j hi hj s t heq
  obtain ⟨-, hplaced⟩ := Attribute.decode_reads.unique hi hj heq
  have hsame : i.placed 0 = j.placed 0 := hplaced 0
  simp only [placed, Attribute.mk.injEq] at hsame
  cases i
  cases j
  exact congrArg₂ mk hsame.1 hsame.2.2

/-! ## Members -/

structure MemberImage where
  flags : UInt16
  nameIndex : UInt16
  descriptorIndex : UInt16
  attributes : List AttributeImage
deriving DecidableEq, Repr

namespace MemberImage

/-- The bytes before the attributes. -/
def header (i : MemberImage) : List UInt8 :=
  Encoder.u16 i.flags ++ Encoder.u16 i.nameIndex ++ Encoder.u16 i.descriptorIndex

@[simp] theorem length_header (i : MemberImage) : i.header.length = 6 := rfl

def Fits (i : MemberImage) : Prop :=
  AttributeImage.list.Fits i.attributes

def bytes (i : MemberImage) : List UInt8 :=
  i.header ++ AttributeImage.list.bytes i.attributes

/-- The member whose bytes begin at a position of the file. -/
def placed (position : Nat) (i : MemberImage) : Member where
  flags := AccessFlags.ofWord i.flags
  nameIndex := i.nameIndex
  descriptorIndex := i.descriptorIndex
  attributes := AttributeImage.list.meaning (position + 6) i.attributes

def format : Format MemberImage Member :=
  ⟨Fits, bytes, placed⟩

def list : Format (List MemberImage) (List Member) :=
  format.counted

end MemberImage

theorem Member.decode_reads : Member.decode.Reads MemberImage.format := by
  intro r m t
  simp only [Member.decode, Decoder.bind_eq_ok_iff, Decoder.u16_eq_ok_iff,
    Attribute.decode_reads.counted _ _ _, Decoder.pure_eq_ok_iff, Reader.moves_nil_iff,
    MemberImage.format, MemberImage.bytes, MemberImage.header, Reader.moves_append_iff]
  constructor
  · intro h
    obtain ⟨flags, s₁, hflags, name, s₂, hname, descriptor, s₃, hdescriptor, _, _, ⟨attributes,
      hfits, rfl, hattributes⟩, rfl, rfl⟩ := h
    refine ⟨⟨flags, name, descriptor, attributes⟩, hfits, ?_,
      s₃, ⟨s₂, ⟨s₁, hflags, hname⟩, hdescriptor⟩, hattributes⟩
    rw [hdescriptor.2, hname.2, hflags.2]
    simp [MemberImage.placed, AttributeImage.list, Nat.add_assoc]
  · intro h
    obtain ⟨i, hfits, rfl, s₃, ⟨s₂, ⟨s₁, hflags, hname⟩, hdescriptor⟩, hattributes⟩ := h
    refine ⟨_, s₁, hflags, _, s₂, hname, _, s₃, hdescriptor, _, t,
      ⟨i.attributes, hfits, rfl, hattributes⟩, ?_, rfl⟩
    rw [hdescriptor.2, hname.2, hflags.2]
    simp [MemberImage.placed, AttributeImage.list, Nat.add_assoc]

theorem MemberImage.format_prefixFree : format.PrefixFree := by
  intro i j hi hj s t heq
  simp only [format, bytes, header, List.append_assoc] at heq
  obtain ⟨hflags, heq⟩ := List.append_inj heq (by simp)
  obtain ⟨hname, heq⟩ := List.append_inj heq (by simp)
  obtain ⟨hdescriptor, heq⟩ := List.append_inj heq (by simp)
  have hattributes := AttributeImage.format_prefixFree.counted _ _ hi hj _ _ heq
  cases i
  cases j
  simp only [mk.injEq]
  exact ⟨Encoder.u16_inj.mp hflags, Encoder.u16_inj.mp hname, Encoder.u16_inj.mp hdescriptor,
    hattributes⟩

/-! ## Code -/

structure CodeImage where
  maxStack : UInt16
  maxLocals : UInt16
  instructions : List UInt8
  handlers : List ExceptionHandler
  attributes : List AttributeImage
deriving DecidableEq, Repr

def ExceptionHandler.format : Format ExceptionHandler ExceptionHandler :=
  ⟨fun _ => True, encode, fun _ h => h⟩

theorem ExceptionHandler.decode_reads : ExceptionHandler.decode.Reads format := by
  intro r h t
  simp only [decode, Decoder.bind_eq_ok_iff, Decoder.u16_eq_ok_iff, Decoder.pure_eq_ok_iff,
    Reader.moves_nil_iff, format, encode]
  constructor
  · intro h
    obtain ⟨_, s₁, hstart, _, s₂, hend, _, s₃, hhandler, _, _, hcatch, rfl, rfl⟩ := h
    exact ⟨_, trivial, rfl, ((hstart.append hend).append hhandler).append hcatch⟩
  · intro h
    obtain ⟨_, -, rfl, hmoves⟩ := h
    simp only [Reader.moves_append_iff] at hmoves
    obtain ⟨s₃, ⟨s₂, ⟨s₁, hstart, hend⟩, hhandler⟩, hcatch⟩ := hmoves
    exact ⟨_, s₁, hstart, _, s₂, hend, _, s₃, hhandler, _, t, hcatch, rfl, rfl⟩

@[simp] theorem ExceptionHandler.meanings_format (position : Nat) (hs : List ExceptionHandler) :
    format.meanings position hs = hs := by
  induction hs generalizing position with
  | nil => rfl
  | cons h hs ih => rw [Format.meanings, ih, format]

namespace CodeImage

structure Fits (i : CodeImage) : Prop where
  instructions : i.instructions.length < UInt32.size
  handlers : ExceptionHandler.format.counted.Fits i.handlers
  attributes : AttributeImage.list.Fits i.attributes

/-- The bytes before the attributes. -/
def front (i : CodeImage) : List UInt8 :=
  Encoder.u16 i.maxStack ++ Encoder.u16 i.maxLocals ++
    (Encoder.u32 (UInt32.ofNat i.instructions.length) ++ i.instructions) ++
    Encoder.counted ExceptionHandler.encode i.handlers

def bytes (i : CodeImage) : List UInt8 :=
  i.front ++ AttributeImage.list.bytes i.attributes

/-- The code whose bytes begin at a position of the file. -/
def placed (position : Nat) (i : CodeImage) : Code where
  maxStack := i.maxStack
  maxLocals := i.maxLocals
  instructions := i.instructions
  handlers := i.handlers
  attributes := AttributeImage.list.meaning (position + i.front.length) i.attributes

def format : Format CodeImage Code :=
  ⟨Fits, bytes, placed⟩

end CodeImage

theorem Code.decode_reads : Code.decode.Reads CodeImage.format := by
  intro r c t
  simp only [decode, Decoder.bind_eq_ok_iff, Decoder.u16_eq_ok_iff, Decoder.u32_eq_ok_iff,
    Decoder.bytes_eq_ok_iff, ExceptionHandler.decode_reads.counted _ _ _,
    Attribute.decode_reads.counted _ _ _, Decoder.pure_eq_ok_iff, Reader.moves_nil_iff]
  constructor
  · intro h
    obtain ⟨maxStack, s₁, hstack, maxLocals, s₂, hlocals, count, s₃, hcount, instructions, s₄,
      ⟨hlength, hinstructions⟩, _, s₅, ⟨handlers, hhandlersFit, rfl, hhandlers⟩, _, _,
      ⟨attributes, hattributesFit, rfl, hattributes⟩, rfl, rfl⟩ := h
    let image : CodeImage := ⟨maxStack, maxLocals, instructions, handlers, attributes⟩
    have hfits : instructions.length < UInt32.size := by
      rw [hlength]
      exact count.toNat_lt
    have hsize : count = UInt32.ofNat instructions.length := by
      rw [hlength, UInt32.ofNat_toNat]
    rw [hsize] at hcount
    have hfront : r.Moves image.front s₅ :=
      ((hstack.append hlocals).append (hcount.append hinstructions)).append hhandlers
    refine ⟨image, ⟨hfits, hhandlersFit, hattributesFit⟩, ?_, hfront.append hattributes⟩
    simp only [CodeImage.format, CodeImage.placed, image, hfront.2, Format.counted,
      ExceptionHandler.meanings_format]
    rfl
  · intro h
    obtain ⟨image, hfits, rfl, hmoves⟩ := h
    obtain ⟨s₅, hfront, hattributes⟩ := Reader.moves_append_iff.mp hmoves
    have hparts := hfront
    simp only [CodeImage.front, Reader.moves_append_iff] at hparts
    obtain ⟨s₄, ⟨s₂, ⟨s₁, hstack, hlocals⟩, s₃, hcount, hinstructions⟩, hhandlers⟩ := hparts
    refine ⟨_, s₁, hstack, _, s₂, hlocals, _, s₃, hcount, _, s₄, ⟨?_, hinstructions⟩, _, s₅,
      ⟨_, hfits.handlers, rfl, hhandlers⟩, _, t, ⟨_, hfits.attributes, rfl, hattributes⟩, ?_, rfl⟩
    · rw [UInt32.toNat_ofNat_of_lt' hfits.instructions]
    · simp only [hfront.2, Format.counted, ExceptionHandler.meanings_format]
      rfl

/-! ## Class files -/

/-- Numbers behind their count, read one after the other. -/
theorem moves_counted_u16_iff {r t : Reader} {ns : List UInt16} :
    (∃ (count : UInt16) (s : Reader), r.Moves (Encoder.u16 count) s ∧
      ns.length = count.toNat ∧ s.Moves (ns.flatMap Encoder.u16) t) ↔
      ns.length < UInt16.size ∧ r.Moves (Encoder.counted Encoder.u16 ns) t := by
  simp only [Encoder.counted, Reader.moves_append_iff]
  constructor
  · intro h
    obtain ⟨count, s, hcount, hlength, hmoves⟩ := h
    refine ⟨hlength ▸ count.toNat_lt, s, ?_, hmoves⟩
    rwa [hlength, UInt16.ofNat_toNat]
  · intro h
    obtain ⟨hfits, s, hcount, hmoves⟩ := h
    refine ⟨_, s, hcount, ?_, hmoves⟩
    rw [UInt16.toNat_ofNat_of_lt' hfits]

theorem u16s_prefixFree (ms ns : List UInt16) (hm : ms.length < UInt16.size)
    (hn : ns.length < UInt16.size) (s t : List UInt8)
    (heq : Encoder.counted Encoder.u16 ms ++ s = Encoder.counted Encoder.u16 ns ++ t) :
    ms = ns := by
  let number : Format UInt16 UInt16 := ⟨fun _ => True, Encoder.u16, fun _ n => n⟩
  have hnumber : number.PrefixFree := fun _ _ _ _ _ _ h =>
    Encoder.u16_inj.mp (List.append_inj h (by simp [number])).1
  exact hnumber.counted ms ns ⟨hm, fun _ _ => trivial⟩ ⟨hn, fun _ _ => trivial⟩ s t heq

structure ClassImage where
  minor : UInt16
  major : UInt16
  poolCount : UInt16
  entries : List EntryImage
  flags : UInt16
  thisClass : UInt16
  superClass : UInt16
  interfaces : List UInt16
  fields : List MemberImage
  methods : List MemberImage
  attributes : List AttributeImage
deriving DecidableEq, Repr

namespace ClassImage

/-- The lengths of the lists have room in front of them, and the entries fill the pool. -/
structure Fits (i : ClassImage) : Prop where
  entries : ConstantPool.EntriesFit (i.poolCount.toNat - 1) i.entries
  interfaces : i.interfaces.length < UInt16.size
  fields : MemberImage.list.Fits i.fields
  methods : MemberImage.list.Fits i.methods
  attributes : AttributeImage.list.Fits i.attributes

/-- The bytes before the fields. -/
def front (i : ClassImage) : List UInt8 :=
  Encoder.u32 ClassFile.magic ++ Encoder.u16 i.minor ++ Encoder.u16 i.major ++
    (Encoder.u16 i.poolCount ++ i.entries.flatMap EntryImage.bytes) ++ Encoder.u16 i.flags ++
    Encoder.u16 i.thisClass ++ Encoder.u16 i.superClass ++
    Encoder.counted Encoder.u16 i.interfaces

def bytes (i : ClassImage) : List UInt8 :=
  i.front ++ MemberImage.list.bytes i.fields ++ MemberImage.list.bytes i.methods ++
    AttributeImage.list.bytes i.attributes

/-- The class file whose bytes begin at a position of the file. -/
def placed (position : Nat) (i : ClassImage) : ClassFile :=
  let fieldsAt := position + i.front.length
  let methodsAt := fieldsAt + (MemberImage.list.bytes i.fields).length
  let attributesAt := methodsAt + (MemberImage.list.bytes i.methods).length
  { major := i.major
    minor := i.minor
    pool := ConstantPool.ofEntries (i.entries.map EntryImage.constant)
    flags := AccessFlags.ofWord i.flags
    thisClass := i.thisClass
    superClass := i.superClass
    interfaces := i.interfaces
    fields := MemberImage.list.meaning fieldsAt i.fields
    methods := MemberImage.list.meaning methodsAt i.methods
    attributes := AttributeImage.list.meaning attributesAt i.attributes }

def format : Format ClassImage ClassFile :=
  ⟨Fits, bytes, placed⟩

end ClassImage

namespace ClassFile

theorem decodeMagic_eq_ok_iff {r s : Reader} {u : Unit} :
    decodeMagic r = .ok u s ↔ r.Moves (Encoder.u32 magic) s := by
  simp only [decodeMagic, Decoder.bind_eq_ok_iff, Decoder.u32_eq_ok_iff]
  constructor
  · intro h
    obtain ⟨found, s', hmoves, hcheck⟩ := h
    split at hcheck
    · exact absurd hcheck Decoder.throw_ne_ok
    · rename_i hfound
      rw [Decoder.pure_eq_ok_iff, Reader.moves_nil_iff] at hcheck
      rw [← hcheck.2, ← not_not.mp hfound]
      exact hmoves
  · intro hmoves
    exact ⟨magic, s, hmoves, rfl⟩

theorem decodePool_eq_ok_iff {r t : Reader} {pool : ConstantPool} :
    ConstantPool.decode r = .ok pool t ↔
      ∃ (count : UInt16) (es : List EntryImage),
        ConstantPool.EntriesFit (count.toNat - 1) es ∧
        ConstantPool.ofEntries (es.map EntryImage.constant) = pool ∧
        r.Moves (Encoder.u16 count ++ es.flatMap EntryImage.bytes) t := by
  simp only [ConstantPool.decode, Decoder.bind_eq_ok_iff, Decoder.u16_eq_ok_iff,
    ConstantPool.decodeEntries_reads _ _ _ _, Decoder.pure_eq_ok_iff, Reader.moves_nil_iff,
    ConstantPool.entriesFormat, Reader.moves_append_iff]
  constructor
  · intro h
    obtain ⟨count, s, hcount, _, _, ⟨es, hfits, rfl, hes⟩, rfl, rfl⟩ := h
    exact ⟨count, es, hfits, rfl, s, hcount, hes⟩
  · intro h
    obtain ⟨count, es, hfits, rfl, s, hcount, hes⟩ := h
    exact ⟨count, s, hcount, _, t, ⟨es, hfits, rfl, hes⟩, rfl, rfl⟩

theorem decode_reads : decode.Reads ClassImage.format := by
  intro r c t
  simp only [decode, Decoder.bind_eq_ok_iff, decodeMagic_eq_ok_iff, Decoder.u16_eq_ok_iff,
    Decoder.u16s_eq_ok_iff, decodePool_eq_ok_iff, Member.decode_reads.counted _ _ _,
    Attribute.decode_reads.counted _ _ _, Decoder.pure_eq_ok_iff, Reader.moves_nil_iff]
  constructor
  · intro h
    obtain ⟨_, s₁, hmagic, minor, s₂, hminor, major, s₃, hmajor, _, s₄,
      ⟨poolCount, entries, hentries, rfl, hpool⟩, flags, s₅, hflags, this, s₆, hthis, super, s₇,
      hsuper, count, s₈, hcount, interfaces, s₉, ⟨hlength, hnumbers⟩, _, s₁₀,
      ⟨fields, hfieldsFit, rfl, hfields⟩, _, s₁₁, ⟨methods, hmethodsFit, rfl, hmethods⟩, _, _,
      ⟨attributes, hattributesFit, rfl, hattributes⟩, rfl, rfl⟩ := h
    obtain ⟨hfits, hinterfaces⟩ := moves_counted_u16_iff.mp ⟨count, s₈, hcount, hlength, hnumbers⟩
    let image : ClassImage :=
      ⟨minor, major, poolCount, entries, flags, this, super, interfaces, fields, methods,
        attributes⟩
    have hfront : r.Moves image.front s₉ :=
      ((((((hmagic.append hminor).append hmajor).append hpool).append hflags).append hthis).append
        hsuper).append hinterfaces
    refine ⟨image, ⟨hentries, hfits, hfieldsFit, hmethodsFit, hattributesFit⟩, ?_, ?_⟩
    · simp only [ClassImage.format, ClassImage.placed, image, hmethods.2, hfields.2, hfront.2]
      rfl
    · exact ((hfront.append hfields).append hmethods).append hattributes
  · intro h
    obtain ⟨image, hfits, rfl, hmoves⟩ := h
    simp only [ClassImage.format, ClassImage.bytes, Reader.moves_append_iff] at hmoves
    obtain ⟨s₁₁, ⟨s₁₀, ⟨s₉, hfront, hfields⟩, hmethods⟩, hattributes⟩ := hmoves
    have hparts := hfront
    simp only [ClassImage.front, Reader.moves_append_iff] at hparts
    obtain ⟨s₇, ⟨s₆, ⟨s₅, ⟨s₄, ⟨s₃, ⟨s₂, ⟨s₁, hmagic, hminor⟩, hmajor⟩, _, hpoolCount, hentries⟩,
      hflags⟩, hthis⟩, hsuper⟩, hinterfaces⟩ := hparts
    obtain ⟨count, s₈, hcount, hlength, hnumbers⟩ :=
      moves_counted_u16_iff.mpr ⟨hfits.interfaces, hinterfaces⟩
    refine ⟨(), s₁, hmagic, _, s₂, hminor, _, s₃, hmajor, _, s₄,
      ⟨_, _, hfits.entries, rfl, hpoolCount.append hentries⟩, _, s₅, hflags, _, s₆, hthis, _, s₇,
      hsuper, count, s₈, hcount, _, s₉, ⟨hlength, hnumbers⟩, _, s₁₀,
      ⟨_, hfits.fields, rfl, hfields⟩, _, s₁₁, ⟨_, hfits.methods, rfl, hmethods⟩, _, t,
      ⟨_, hfits.attributes, rfl, hattributes⟩, ?_, rfl⟩
    simp only [hmethods.2, hfields.2, hfront.2]
    rfl

end ClassFile

/-- The bytes of a class file have one image only. -/
theorem ClassImage.format_prefixFree : format.PrefixFree := by
  intro i j hi hj s t heq
  simp only [format, bytes, front, List.append_assoc] at heq
  have heq := List.append_cancel_left heq
  -- Each part is as long as its counterpart, or cannot be taken for another one, and is taken off.
  obtain ⟨hminor, heq⟩ := List.append_inj heq (by simp)
  obtain ⟨hmajor, heq⟩ := List.append_inj heq (by simp)
  obtain ⟨hcount, heq⟩ := List.append_inj heq (by simp)
  rw [Encoder.u16_inj] at hminor hmajor hcount
  have hjentries := hj.entries
  rw [← hcount] at hjentries
  have hentries := ConstantPool.entriesFormat_prefixFree _ _ _ hi.entries hjentries _ _ heq
  rw [hentries] at heq
  have heq := List.append_cancel_left heq
  obtain ⟨hflags, heq⟩ := List.append_inj heq (by simp)
  obtain ⟨hthis, heq⟩ := List.append_inj heq (by simp)
  obtain ⟨hsuper, heq⟩ := List.append_inj heq (by simp)
  rw [Encoder.u16_inj] at hflags hthis hsuper
  have hinterfaces := u16s_prefixFree _ _ hi.interfaces hj.interfaces _ _ heq
  rw [hinterfaces] at heq
  have heq := List.append_cancel_left heq
  have hfields := MemberImage.format_prefixFree.counted _ _ hi.fields hj.fields _ _ heq
  rw [hfields] at heq
  have heq := List.append_cancel_left heq
  have hmethods := MemberImage.format_prefixFree.counted _ _ hi.methods hj.methods _ _ heq
  rw [hmethods] at heq
  have heq := List.append_cancel_left heq
  have hattributes :=
    AttributeImage.format_prefixFree.counted _ _ hi.attributes hj.attributes _ _ heq
  cases i
  cases j
  simp only [mk.injEq]
  exact ⟨hminor, hmajor, hcount, hentries, hflags, hthis, hsuper, hinterfaces, hfields, hmethods,
    hattributes⟩

end JvmClass
