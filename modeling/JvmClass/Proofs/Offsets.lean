import JvmClass.Proofs.Composition

/-!
# Places of attributes

Every attribute remembers where in the file its body begins. This file shows that it remembers
right: the bytes of the file from there on are the body, its name index and its length stand in
front of it, and attributes follow one another without touching. It holds for the attributes of a
class and its members and for those nested in code, whose decoder reads a copy of a body.
-/

namespace JvmClass

/-! ## Readers on a file -/

namespace Reader

/-- What the reader has not read yet stands in the file at the reader's position. -/
def Views (file : List UInt8) (r : Reader) : Prop :=
  ∃ before after, file = before ++ r.bytes ++ after ∧ r.position = before.length

theorem views_ofBytes (file : List UInt8) : (ofBytes file 0).Views file :=
  ⟨[], [], (List.append_nil _).symm, rfl⟩

theorem Views.moves {file front : List UInt8} {r s : Reader} (hr : r.Views file)
    (h : r.Moves front s) : s.Views file := by
  obtain ⟨before, after, hfile, hposition⟩ := hr
  refine ⟨before ++ front, after, ?_, ?_⟩
  · rw [hfile, h.1, List.append_assoc, List.append_assoc, List.append_assoc, List.append_assoc]
  · rw [h.2, hposition, List.length_append]

theorem Views.drop_position {file : List UInt8} {r : Reader} (h : r.Views file) :
    ∃ after, file.drop r.position = r.bytes ++ after := by
  obtain ⟨before, after, hfile, hposition⟩ := h
  exact ⟨after, by rw [hfile, hposition, List.append_assoc, List.drop_left]⟩

theorem Views.position_le {file : List UInt8} {r : Reader} (h : r.Views file) :
    r.position ≤ file.length := by
  obtain ⟨before, after, hfile, hposition⟩ := h
  rw [hfile, hposition, List.length_append, List.length_append]
  omega

/-- Moving through a file from its start leaves the rest of it. -/
theorem Moves.bytes_eq_drop {file front : List UInt8} {r : Reader}
    (h : (ofBytes file 0).Moves front r) : r.bytes = file.drop r.position := by
  obtain ⟨hbytes, hposition⟩ := h
  have hfile : file = front ++ r.bytes := hbytes
  rw [hposition, hfile]
  simp [ofBytes]

theorem Moves.position_le_limit {r s : Reader} {front : List UInt8} (h : r.Moves front s) :
    s.position ≤ r.limit := by
  rw [limit, remaining, h.1, h.2, List.length_append]
  omega

theorem Moves.position_le {r s : Reader} {front : List UInt8} (h : r.Moves front s) :
    r.position ≤ s.position := by
  rw [h.2]
  exact Nat.le_add_right _ _

end Reader

/-! ## Attributes on a file -/

namespace Attribute

/-- The file has the attribute's body at its offset, and its name index and length before that. -/
structure StandsIn (file : List UInt8) (a : Attribute) : Prop where
  length_lt : a.info.length < UInt32.size
  header_le : headerSize ≤ a.offset
  header : (file.drop (a.offset - headerSize)).take headerSize =
    Encoder.u16 a.nameIndex ++ Encoder.u32 (UInt32.ofNat a.info.length)
  body : (file.drop a.offset).take a.info.length = a.info

/-- Attributes stand in the file in their order, without touching, between two positions. -/
structure InOrder (file : List UInt8) (lower upper : Nat) (attributes : List Attribute) : Prop where
  stand : ∀ a ∈ attributes, a.StandsIn file
  lower_le : ∀ a ∈ attributes, lower + headerSize ≤ a.offset
  le_upper : ∀ a ∈ attributes, a.limit ≤ upper
  apart : attributes.Pairwise fun a b => a.limit + headerSize ≤ b.offset

variable {file : List UInt8} {lower middle upper : Nat}

theorem inOrder_nil : InOrder file lower upper [] where
  stand := List.forall_mem_nil _
  lower_le := List.forall_mem_nil _
  le_upper := List.forall_mem_nil _
  apart := List.Pairwise.nil

theorem InOrder.weaken {attributes : List Attribute} {lower' upper' : Nat}
    (h : InOrder file lower upper attributes) (hlower : lower' ≤ lower) (hupper : upper ≤ upper') :
    InOrder file lower' upper' attributes where
  stand := h.stand
  lower_le a ha := Nat.le_trans (Nat.add_le_add_right hlower _) (h.lower_le a ha)
  le_upper a ha := Nat.le_trans (h.le_upper a ha) hupper
  apart := h.apart

theorem InOrder.append {front back : List Attribute} (hfront : InOrder file lower middle front)
    (hback : InOrder file middle upper back) (hlower : lower ≤ middle) (hupper : middle ≤ upper) :
    InOrder file lower upper (front ++ back) where
  stand := List.forall_mem_append.mpr ⟨hfront.stand, hback.stand⟩
  lower_le := List.forall_mem_append.mpr
    ⟨hfront.lower_le, (hback.weaken hlower (Nat.le_refl _)).lower_le⟩
  le_upper := List.forall_mem_append.mpr
    ⟨(hfront.weaken (Nat.le_refl _) hupper).le_upper, hback.le_upper⟩
  apart := by
    refine List.pairwise_append.mpr ⟨hfront.apart, hback.apart, ?_⟩
    intro a ha b hb
    exact Nat.le_trans (Nat.add_le_add_right (hfront.le_upper a ha) _) (hback.lower_le b hb)

end Attribute

namespace Format

variable {ι α : Type}

/-- The attributes of an item that is read from the file stand in order in the bytes of the item. -/
def PlacesInOrder (file : List UInt8) (f : Format ι α) (attributes : α → List Attribute) : Prop :=
  ∀ (r s : Reader) (i : ι), r.Views file → f.Fits i → r.Moves (f.bytes i) s →
    Attribute.InOrder file r.position s.position (attributes (f.meaning r.position i))

variable {file : List UInt8} {f : Format ι α} {attributes : α → List Attribute}

theorem PlacesInOrder.meanings (h : f.PlacesInOrder file attributes) {r s : Reader}
    (hr : r.Views file) {is : List ι} (his : ∀ i ∈ is, f.Fits i)
    (hmoves : r.Moves (is.flatMap f.bytes) s) :
    Attribute.InOrder file r.position s.position
      ((f.meanings r.position is).flatMap attributes) := by
  induction is generalizing r with
  | nil => exact Attribute.inOrder_nil
  | cons i is ih =>
      rw [List.forall_mem_cons] at his
      obtain ⟨m, hfirst, hrest⟩ := Reader.moves_append_iff.mp hmoves
      have hone := h r m i hr his.1 hfirst
      have hothers := ih (hr.moves hfirst) his.2 hrest
      have hboth := hone.append hothers hfirst.position_le hrest.position_le
      rw [hfirst.2] at hboth
      exact hboth

theorem PlacesInOrder.counted (h : f.PlacesInOrder file attributes) :
    f.counted.PlacesInOrder file fun items => items.flatMap attributes := by
  intro r s is hr his hmoves
  obtain ⟨m, hcount, hrest⟩ := Reader.moves_append_iff.mp hmoves
  have hrow := h.meanings (hr.moves hcount) his.2 hrest
  rw [hcount.2, Encoder.length_u16] at hrow
  exact hrow.weaken (Nat.le_add_right _ _) (Nat.le_refl _)

end Format

namespace AttributeImage

variable {file : List UInt8}

theorem length_bytes (i : AttributeImage) :
    i.bytes.length = Attribute.headerSize + i.info.length := by
  rw [bytes, List.length_append, length_header]

theorem standsIn_placed {r s : Reader} (hr : r.Views file) {i : AttributeImage} (hi : i.Fits)
    (h : r.Moves i.bytes s) : (i.placed r.position).StandsIn file := by
  obtain ⟨after, hdrop⟩ := hr.drop_position
  rw [h.1, bytes, List.append_assoc, List.append_assoc] at hdrop
  have hheader : (i.placed r.position).offset - Attribute.headerSize = r.position :=
    Nat.add_sub_cancel _ _
  refine ⟨hi, Nat.le_add_left _ _, ?_, ?_⟩
  · rw [hheader, hdrop]
    exact List.take_left' i.length_header
  · rw [placed, ← List.drop_drop, hdrop, List.drop_left' i.length_header]
    exact List.take_left

theorem placesInOrder : format.PlacesInOrder file fun a => [a] := by
  intro r s i hr hi h
  have hlimit : (i.placed r.position).limit = s.position := by
    have hbytes : (format.bytes i).length = Attribute.headerSize + i.info.length := length_bytes i
    rw [h.2, hbytes, Attribute.limit, placed, Nat.add_assoc]
  refine ⟨?_, ?_, ?_, List.pairwise_singleton _ _⟩ <;> rw [List.forall_mem_singleton]
  · exact standsIn_placed hr hi h
  · exact Nat.le_refl _
  · exact Nat.le_of_eq hlimit

theorem list_placesInOrder : list.PlacesInOrder file fun attributes => attributes := by
  have h : list.PlacesInOrder file fun attributes => attributes.flatMap fun a => [a] :=
    placesInOrder.counted
  simp only [List.flatMap_singleton'] at h
  exact h

end AttributeImage

theorem MemberImage.placesInOrder {file : List UInt8} :
    format.PlacesInOrder file Member.attributes := by
  intro r s i hr hi h
  obtain ⟨m, hheader, hattributes⟩ := Reader.moves_append_iff.mp h
  have hlist := AttributeImage.list_placesInOrder m s _ (hr.moves hheader) hi hattributes
  rw [hheader.2, length_header] at hlist
  exact hlist.weaken (Nat.le_add_right _ _) (Nat.le_refl _)

/-! ## Class files -/

/-- All attributes outside of code, in the order of the file. -/
def ClassFile.allAttributes (c : ClassFile) : List Attribute :=
  c.fields.flatMap Member.attributes ++ c.methods.flatMap Member.attributes ++ c.attributes

theorem ClassImage.placesInOrder {file : List UInt8} :
    format.PlacesInOrder file ClassFile.allAttributes := by
  intro r t i hr hi h
  simp only [format, bytes, Reader.moves_append_iff] at h
  obtain ⟨s₃, ⟨s₂, ⟨s₁, hfront, hfields⟩, hmethods⟩, hattributes⟩ := h
  have hr₁ := hr.moves hfront
  have hr₂ := hr₁.moves hfields
  have hfieldsOrder := MemberImage.placesInOrder.counted s₁ s₂ _ hr₁ hi.fields hfields
  have hmethodsOrder := MemberImage.placesInOrder.counted s₂ s₃ _ hr₂ hi.methods hmethods
  have hattributesOrder :=
    AttributeImage.list_placesInOrder s₃ t _ (hr₂.moves hmethods) hi.attributes hattributes
  have hmembers := hfieldsOrder.append hmethodsOrder hfields.position_le hmethods.position_le
  have hall := hmembers.append hattributesOrder
    (Nat.le_trans hfields.position_le hmethods.position_le) hattributes.position_le
  rw [hmethods.2, hfields.2, hfront.2] at hall
  exact hall.weaken (Nat.le_add_right _ _) (Nat.le_refl _)

/-! ## Code -/

theorem CodeImage.placesInOrder {file : List UInt8} :
    format.PlacesInOrder file Code.attributes := by
  intro r t i hr hi h
  obtain ⟨s, hfront, hattributes⟩ := Reader.moves_append_iff.mp h
  have hlist :=
    AttributeImage.list_placesInOrder s t _ (hr.moves hfront) hi.attributes hattributes
  rw [hfront.2] at hlist
  exact hlist.weaken (Nat.le_add_right _ _) (Nat.le_refl _)

/-- A body read on its own is read at its place in the file. -/
theorem Attribute.StandsIn.views_body {file : List UInt8} {a : Attribute} (h : a.StandsIn file) :
    a.body.Views file := by
  have hlength := congrArg List.length h.header
  simp only [List.length_take, List.length_drop, List.length_append, Encoder.length_u16,
    Encoder.length_u32, headerSize] at hlength
  have hle := h.header_le
  simp only [headerSize] at hle
  refine ⟨file.take a.offset, (file.drop a.offset).drop a.info.length, ?_, ?_⟩
  · have hbody : file.drop a.offset = a.info ++ (file.drop a.offset).drop a.info.length := by
      conv => lhs; rw [← List.take_append_drop a.info.length (file.drop a.offset), h.body]
    rw [List.append_assoc]
    change file = _ ++ (a.info ++ _)
    rw [← hbody, List.take_append_drop]
  · rw [List.length_take]
    change a.offset = _
    omega

namespace Code

variable {a : Attribute}

theorem ofAttribute_of_decode {c : Code} {s : Reader} (h : decode a.body = .ok c s) :
    ofAttribute a = .ok c := by
  rw [ofAttribute, Decoder.result, Decoder.outcome, h]
  rfl

theorem ofAttribute_of_decode_error {cause : Error} {s : Reader}
    (h : decode a.body = .error cause s) :
    ofAttribute a = .error (.inAttribute attributeName a.offset cause) := by
  rw [ofAttribute, Decoder.result, Decoder.outcome, h]
  rfl

end Code

/-- The code of a method comes from the first attribute with its name. -/
theorem Member.code?_eq_some {pool : ConstantPool} {m : Member} {code : Code}
    (h : m.code? pool = .ok (some code)) :
    ∃ a s, (Attribute.named Code.attributeName pool m.attributes).head? = some a ∧
      Code.decode a.body = .ok code s := by
  rw [code?] at h
  split at h
  · cases h
  · rename_i a _ hnamed
    refine ⟨a, ?_⟩
    rw [hnamed]
    cases hdecode : Code.decode a.body with
    | ok found s =>
        rw [Code.ofAttribute_of_decode hdecode] at h
        cases h
        exact ⟨s, rfl, rfl⟩
    | error e s =>
        rw [Code.ofAttribute_of_decode_error hdecode] at h
        cases h

/-- After any number of calls on one file, whatever became of them, a call that succeeds gives
attributes at their places in the file: in order, apart from one another, and within what the call
took off. Attributes nested in the code of a method lie in the same way within the body that the
code was read from. -/
theorem decode_attributes_stand (file : List UInt8) (n : Nat) (r t : Reader) (c : ClassFile)
    (hr : (Decoder.calls ClassFile.decode n (Reader.ofBytes file 0)).2 = r)
    (hc : ClassFile.decode r = .ok c t) :
    r.bytes = file.drop r.position ∧ t.bytes = file.drop t.position ∧
      t.position ≤ file.length ∧
      Attribute.InOrder file r.position t.position c.allAttributes ∧
      ∀ m ∈ c.methods, ∀ code, m.code? c.pool = .ok (some code) →
        ∃ a, (Attribute.named Code.attributeName c.pool m.attributes).head? = some a ∧
          Attribute.InOrder file a.offset a.limit code.attributes := by
  obtain ⟨front, hfront⟩ := ClassFile.decode_composed.moves_calls n (Reader.ofBytes file 0)
  rw [hr] at hfront
  have hviews : r.Views file := (Reader.views_ofBytes file).moves hfront
  obtain ⟨image, hfits, rfl, hmoves⟩ := (ClassFile.decode_reads r c t).mp hc
  have hall : Attribute.InOrder file r.position t.position (image.placed r.position).allAttributes :=
    ClassImage.placesInOrder r t image hviews hfits hmoves
  have hend := hfront.append hmoves
  refine ⟨hfront.bytes_eq_drop, hend.bytes_eq_drop, (hviews.moves hmoves).position_le, hall, ?_⟩
  intro m hm code hcode
  obtain ⟨a, s, hhead, hdecode⟩ := Member.code?_eq_some hcode
  have ha : a ∈ m.attributes := (List.mem_filter.mp (List.mem_of_mem_head? hhead)).1
  have hstands : a.StandsIn file := by
    apply hall.stand
    simp only [ClassFile.allAttributes, List.mem_append, List.mem_flatMap]
    exact .inl (.inr ⟨m, hm, ha⟩)
  obtain ⟨codeImage, hcodeFits, rfl, hcodeMoves⟩ := (Code.decode_reads _ _ _).mp hdecode
  have hnested := CodeImage.placesInOrder _ _ _ hstands.views_body hcodeFits hcodeMoves
  exact ⟨a, hhead, hnested.weaken (Nat.le_refl _) hcodeMoves.position_le_limit⟩

/-- A class file with one method, whose code holds an attribute of two bytes. -/
def smallClass : List UInt8 :=
  [0xCA, 0xFE, 0xBA, 0xBE, 0, 0, 0, 52, 0, 2, 1, 0, 4, 67, 111, 100, 101, 0, 0, 0, 0, 0, 0, 0, 0,
    0, 0, 0, 1, 0, 0, 0, 0, 0, 0, 0, 1, 0, 1, 0, 0, 0, 21, 0, 1, 0, 1, 0, 0, 0, 1, 0xB1, 0, 0,
    0, 1, 0, 1, 0, 0, 0, 2, 0, 0, 0, 0]

def secondCode : Code where
  maxStack := 1
  maxLocals := 1
  instructions := [0xB1]
  handlers := []
  attributes := [⟨1, 128, [0, 0]⟩]

def secondBody : Attribute :=
  ⟨1, 109, [0, 1, 0, 1, 0, 0, 0, 1, 0xB1, 0, 0, 0, 1, 0, 1, 0, 0, 0, 2, 0, 0]⟩

def secondMethod : Member :=
  ⟨AccessFlags.ofWord 0, 0, 0, [secondBody]⟩

/-- What the second of two calls gives on two copies of it. -/
def secondClass : ClassFile where
  major := 52
  minor := 0
  pool := ConstantPool.ofSlots [.utf8 "Code"]
  flags := AccessFlags.ofWord 0
  thisClass := 0
  superClass := 0
  interfaces := []
  fields := []
  methods := [secondMethod]
  attributes := []

theorem decode_attributes_stand_second :
    let file := smallClass ++ smallClass
    (Decoder.calls ClassFile.decode 1 (Reader.ofBytes file 0)).2 = ⟨66, smallClass⟩ ∧
      ClassFile.decode ⟨66, smallClass⟩ = .ok secondClass ⟨132, []⟩ ∧
      secondMethod.code? secondClass.pool = .ok (some secondCode) ∧
      Attribute.InOrder file 66 132 secondClass.allAttributes ∧
      Attribute.InOrder file 109 130 secondCode.attributes := by
  intro file
  have hr : (Decoder.calls ClassFile.decode 1 (Reader.ofBytes file 0)).2 = ⟨66, smallClass⟩ := by
    decide +kernel
  have hc : ClassFile.decode ⟨66, smallClass⟩ = .ok secondClass ⟨132, []⟩ :=
    Decoder.eq_ok_of_outcome (by decide +kernel) (by decide +kernel)
  have hnamed : Attribute.named Code.attributeName secondClass.pool [secondBody] = [secondBody] :=
    by decide +kernel
  have hcode : Code.decode secondBody.body = .ok secondCode ⟨130, []⟩ :=
    Decoder.eq_ok_of_outcome (by decide +kernel) (by decide +kernel)
  have hm : secondMethod.code? secondClass.pool = .ok (some secondCode) := by
    rw [Member.code?, secondMethod, hnamed]
    change (Code.ofAttribute secondBody).map some = _
    rw [Code.ofAttribute, Decoder.result, Decoder.outcome, hcode]
    rfl
  obtain ⟨-, -, -, hall, hnested⟩ := decode_attributes_stand file 1 _ _ _ hr hc
  obtain ⟨a, ha, horder⟩ := hnested secondMethod (List.mem_singleton_self _) secondCode hm
  rw [secondMethod, hnamed] at ha
  cases ha
  exact ⟨hr, hc, hm, hall, horder⟩

end JvmClass
