import JvmClass.Proofs.Offsets

/-!
# Files that differ in bodies

Nothing in the body of an attribute has a say in how the bytes around it are read. A file that
differs from a class file only in bodies of its attributes is therefore read as the same class with
these bodies taken from it, whatever they hold, and in the same way code is read from a body that
differs only in the bodies nested in it. Each format passes this on from its parts: where the two
readers agree is known by positions in the file, and the bodies of one part lie outside the others.
-/

namespace JvmClass

/-! ## Bodies -/

namespace Attribute

/-- The position lies in one of the bodies. -/
def Covers (bodies : List Attribute) (p : Nat) : Prop :=
  ∃ a ∈ bodies, a.offset ≤ p ∧ p < a.limit

instance (bodies : List Attribute) : DecidablePred (Covers bodies) :=
  fun p => inferInstanceAs (Decidable (∃ a ∈ bodies, a.offset ≤ p ∧ p < a.limit))

/-- The attribute with what another file has in the place of its body. -/
def inFile (file : List UInt8) (a : Attribute) : Attribute :=
  { a with info := (file.drop a.offset).take a.info.length }

theorem covers_append {front back : List Attribute} {p : Nat} :
    Covers (front ++ back) p ↔ Covers front p ∨ Covers back p := by
  simp only [Covers, List.mem_append, or_and_right, exists_or]

theorem Covers.mono {bodies bodies' : List Attribute} {p : Nat} (h : Covers bodies p)
    (hsubset : bodies ⊆ bodies') : Covers bodies' p := by
  obtain ⟨a, ha, hp⟩ := h
  exact ⟨a, hsubset ha, hp⟩

namespace InOrder

variable {file : List UInt8} {lower upper p : Nat} {attributes : List Attribute}
  (h : InOrder file lower upper attributes)
include h

theorem between_of_covers (hp : Covers attributes p) : lower + headerSize ≤ p ∧ p < upper := by
  obtain ⟨a, ha, hoffset, hlimit⟩ := hp
  exact ⟨Nat.le_trans (h.lower_le a ha) hoffset, Nat.lt_of_lt_of_le hlimit (h.le_upper a ha)⟩

/-- What is covered before the bodies of a list begin is covered by those in front of them. -/
theorem covers_front {front : List Attribute} (hlt : p < lower)
    (hp : Covers (front ++ attributes) p) : Covers front p := by
  refine (covers_append.mp hp).resolve_right fun hcovers => ?_
  have hbetween := h.between_of_covers hcovers
  omega

theorem covers_back {back : List Attribute} (hle : upper ≤ p)
    (hp : Covers (attributes ++ back) p) : Covers back p := by
  refine (covers_append.mp hp).resolve_left fun hcovers => ?_
  have hbetween := h.between_of_covers hcovers
  omega

end InOrder

end Attribute

open Attribute (Covers)

/-- The files have equally many bytes, and the same ones outside of the bodies. -/
def DifferOnlyIn (bodies : List Attribute) (file file' : List UInt8) : Prop :=
  file'.length = file.length ∧ ∀ p < file.length, file'[p]? ≠ file[p]? → Covers bodies p

instance (bodies : List Attribute) (file file' : List UInt8) :
    Decidable (DifferOnlyIn bodies file file') :=
  inferInstanceAs (Decidable (_ ∧ ∀ p < file.length, _ → Covers bodies p))

theorem DifferOnlyIn.getElem?_eq {bodies : List Attribute} {file file' : List UInt8}
    (h : DifferOnlyIn bodies file file') {p : Nat} (hp : ¬ Covers bodies p) :
    file'[p]? = file[p]? := by
  obtain hlt | hle := Nat.lt_or_ge p file.length
  · exact not_not.mp fun hne => hp (h.2 p hlt hne)
  · rw [List.getElem?_eq_none hle, List.getElem?_eq_none (h.1 ▸ hle)]

theorem DifferOnlyIn.mono {bodies bodies' : List Attribute} {file file' : List UInt8}
    (h : DifferOnlyIn bodies file file') (hsubset : bodies ⊆ bodies') :
    DifferOnlyIn bodies' file file' :=
  ⟨h.1, fun p hp hne => (h.2 p hp hne).mono hsubset⟩

theorem differOnlyIn_set {bodies : List Attribute} {p : Nat} (h : Covers bodies p)
    (file : List UInt8) (b : UInt8) : DifferOnlyIn bodies file (file.set p b) := by
  refine ⟨List.length_set, ?_⟩
  intro q _ hne
  obtain rfl | hq := eq_or_ne p q
  · exact h
  · exact absurd (List.getElem?_set_ne hq) hne

/-! ## Readers on two files -/

namespace Reader

/-- The readers stand at one place before equally many bytes, and these are the same in both at the
positions of the file that do not count as `inside`. -/
structure AgreesOutside (inside : Nat → Prop) (r s : Reader) : Prop where
  position : s.position = r.position
  remaining : s.remaining = r.remaining
  bytes : ∀ n, ¬ inside (r.position + n) → s.bytes[n]? = r.bytes[n]?

variable {inside : Nat → Prop} {r s t : Reader} {front : List UInt8}

/-- What one reader moves past, the other one moves past as many bytes. -/
theorem AgreesOutside.moves (h : r.AgreesOutside inside s) (hmoves : r.Moves front t) :
    ∃ front' u, s.Moves front' u ∧ t.AgreesOutside inside u ∧ front'.length = front.length ∧
      ∀ n < front.length, ¬ inside (r.position + n) → front'[n]? = front[n]? := by
  obtain ⟨hbytes, hposition⟩ := hmoves
  have hremaining : s.bytes.length = front.length + t.bytes.length := by
    rw [← List.length_append, ← hbytes]
    exact h.remaining
  refine ⟨s.bytes.take front.length, ⟨s.position + front.length, s.bytes.drop front.length⟩,
    ⟨(List.take_append_drop _ _).symm, ?_⟩, ⟨?_, ?_, ?_⟩, ?_, ?_⟩
  · rw [List.length_take, Nat.min_eq_left (by omega)]
  · rw [hposition, h.position]
  · change (s.bytes.drop front.length).length = t.bytes.length
    rw [List.length_drop, hremaining, Nat.add_sub_cancel_left]
  · intro n hn
    rw [hposition, Nat.add_assoc] at hn
    rw [List.getElem?_drop, h.bytes _ hn, hbytes,
      List.getElem?_append_right (Nat.le_add_right _ _), Nat.add_sub_cancel_left]
  · rw [List.length_take, Nat.min_eq_left (by omega)]
  · intro n hlt hn
    rw [List.getElem?_take, if_pos hlt, h.bytes _ hn, hbytes, List.getElem?_append_left hlt]

/-- Both readers move past the same bytes in front of all bodies. -/
theorem AgreesOutside.moves_front {file : List UInt8} {lower upper : Nat}
    {attributes : List Attribute} (h : r.AgreesOutside inside s) (hmoves : r.Moves front t)
    (horder : Attribute.InOrder file lower upper attributes)
    (hbefore : t.position ≤ lower + Attribute.headerSize)
    (hinside : ∀ p, r.position ≤ p → p < t.position → inside p → Covers attributes p) :
    ∃ u, s.Moves front u ∧ t.AgreesOutside inside u := by
  have hout (p : Nat) (hlower : r.position ≤ p) (hupper : p < t.position) : ¬ inside p := by
    intro hp
    have hbeyond := horder.between_of_covers (hinside p hlower hupper hp)
    omega
  obtain ⟨front', u, hmoves', hagrees, hlength, hsame⟩ := h.moves hmoves
  have hfront : front' = front := by
    apply List.ext_getElem?
    intro n
    by_cases hn : n < front.length
    · apply hsame n hn
      apply hout _ (Nat.le_add_right _ _)
      rw [hmoves.2]
      exact Nat.add_lt_add_left hn _
    · rw [List.getElem?_eq_none (by omega), List.getElem?_eq_none (by omega)]
  exact ⟨u, hfront ▸ hmoves', hagrees⟩

end Reader

theorem DifferOnlyIn.agreesOutside {bodies : List Attribute} {file file' : List UInt8}
    (h : DifferOnlyIn bodies file file') :
    (Reader.ofBytes file 0).AgreesOutside (Covers bodies) (Reader.ofBytes file' 0) where
  position := rfl
  remaining := h.1
  bytes n hn := h.getElem?_eq (by rwa [← Nat.zero_add n])

/-! ## Formats -/

namespace Format

variable {ι α : Type}

/-- Wherever the second file differs from the first one only in bodies of an item, it has the item
with its own bytes in these bodies. -/
def Rereads (file file' : List UInt8) (f : Format ι α) (attributes : α → List Attribute)
    (reread : α → α) : Prop :=
  ∀ (inside : Nat → Prop) (r s t : Reader) (i : ι), r.Views file → s.Views file' →
    r.AgreesOutside inside s → f.Fits i → r.Moves (f.bytes i) t →
    (∀ p, r.position ≤ p → p < t.position → inside p →
      Covers (attributes (f.meaning r.position i)) p) →
    ∃ j u, f.Fits j ∧ s.Moves (f.bytes j) u ∧ t.AgreesOutside inside u ∧
      f.meaning r.position j = reread (f.meaning r.position i)

variable {file file' : List UInt8} {f : Format ι α} {attributes : α → List Attribute}
  {reread : α → α} (h : f.Rereads file file' attributes reread)
  (hplaces : f.PlacesInOrder file attributes)
include h hplaces

theorem Rereads.meanings {inside : Nat → Prop} {r s t : Reader} (hr : r.Views file)
    (hs : s.Views file') (hagrees : r.AgreesOutside inside s) {is : List ι}
    (his : ∀ i ∈ is, f.Fits i) (hmoves : r.Moves (is.flatMap f.bytes) t)
    (hinside : ∀ p, r.position ≤ p → p < t.position → inside p →
      Covers ((f.meanings r.position is).flatMap attributes) p) :
    ∃ js u, (∀ j ∈ js, f.Fits j) ∧ s.Moves (js.flatMap f.bytes) u ∧ t.AgreesOutside inside u ∧
      f.meanings r.position js = (f.meanings r.position is).map reread := by
  induction is generalizing r s with
  | nil =>
      have hsame : r = t := Reader.moves_nil_iff.mp hmoves
      subst hsame
      exact ⟨[], s, List.forall_mem_nil _, Reader.moves_nil_iff.mpr rfl, hagrees, rfl⟩
  | cons i is ih =>
      rw [List.forall_mem_cons] at his
      obtain ⟨m, hfirst, hrest⟩ := Reader.moves_append_iff.mp hmoves
      have hone := hplaces r m i hr his.1 hfirst
      have hothers := PlacesInOrder.meanings hplaces (hr.moves hfirst) his.2 hrest
      simp only [Format.meanings, List.flatMap_cons, ← hfirst.2] at hinside
      have hstart := hfirst.position_le
      have hlast := hrest.position_le
      -- A position in the bytes of one part is in none of the bodies of the other.
      obtain ⟨j, n, hj, hmovesFirst, hagreesFirst, hmeaning⟩ :=
        h inside r s m i hr hs hagrees his.1 hfirst fun p hlower hupper hp =>
          hothers.covers_front hupper (hinside p hlower (by omega) hp)
      obtain ⟨js, u, hjs, hmovesRest, hagreesRest, hmeanings⟩ :=
        ih (hr.moves hfirst) (hs.moves hmovesFirst) hagreesFirst his.2 hrest
          fun p hlower hupper hp => hone.covers_back hlower (hinside p (by omega) hupper hp)
      refine ⟨j :: js, u, List.forall_mem_cons.mpr ⟨hj, hjs⟩, hmovesFirst.append hmovesRest,
        hagreesRest, ?_⟩
      have hnext : r.position + (f.bytes j).length = m.position := by
        rw [← hagrees.position, ← hmovesFirst.2, hagreesFirst.position]
      rw [Format.meanings, Format.meanings, hnext, ← hfirst.2, List.map_cons, hmeaning, hmeanings]

theorem Rereads.counted :
    f.counted.Rereads file file' (fun items => items.flatMap attributes)
      fun items => items.map reread := by
  intro inside r s t is hr hs hagrees his hmoves hinside
  obtain ⟨m, hcount, hrest⟩ := Reader.moves_append_iff.mp hmoves
  have hstart : m.position = r.position + 2 := by rw [hcount.2, Encoder.length_u16]
  have hlast := hrest.position_le
  have horder := PlacesInOrder.meanings hplaces (hr.moves hcount) his.2 hrest
  simp only [Format.counted, ← hstart] at hinside
  obtain ⟨n, hcount', hagreesCount⟩ :=
    hagrees.moves_front hcount horder (Nat.le_add_right _ _) fun p hlower hupper hp =>
      hinside p hlower (by omega) hp
  obtain ⟨js, u, hjs, hmovesRest, hagreesRest, hmeanings⟩ :=
    h.meanings hplaces (hr.moves hcount) (hs.moves hcount') hagreesCount his.2 hrest
      fun p hlower hupper hp => hinside p (by omega) hupper hp
  have hlength : js.length = is.length := by
    have hmapped := congrArg List.length hmeanings
    rwa [length_meanings, List.length_map, length_meanings] at hmapped
  refine ⟨js, u, ⟨hlength ▸ his.1, hjs⟩, ?_, hagreesRest, ?_⟩
  · simp only [Format.counted, Encoder.counted, hlength]
    exact hcount'.append hmovesRest
  · simp only [Format.counted, ← hstart, hmeanings]

end Format

/-! ## Attributes and members -/

namespace AttributeImage

variable {file file' : List UInt8}

theorem rereads : format.Rereads file file' (fun a => [a]) (Attribute.inFile file') := by
  intro inside r s t i hr hs hagrees hi hmoves hinside
  obtain ⟨m, hheader, hinfo⟩ := Reader.moves_append_iff.mp hmoves
  have horder : Attribute.InOrder file r.position t.position [i.placed r.position] :=
    placesInOrder r t i hr hi hmoves
  have hstart : m.position = r.position + Attribute.headerSize := by
    rw [hheader.2, length_header]
  have hlast := hinfo.position_le
  obtain ⟨n, hheader', hagreesHeader⟩ :=
    hagrees.moves_front hheader horder (Nat.le_of_eq hstart) fun p hlower hupper hp =>
      hinside p hlower (by omega) hp
  obtain ⟨info, u, hinfo', hagreesInfo, hlength, -⟩ := hagreesHeader.moves hinfo
  have hmoves' : s.Moves (bytes ⟨i.nameIndex, info⟩) u := by
    rw [bytes, header, hlength]
    exact hheader'.append hinfo'
  have hfits : Fits ⟨i.nameIndex, info⟩ := by
    rw [Fits, hlength]
    exact hi
  have hstands := standsIn_placed hs hfits hmoves'
  refine ⟨⟨i.nameIndex, info⟩, u, hfits, hmoves', hagreesInfo, ?_⟩
  have hbody : info = (file'.drop (r.position + Attribute.headerSize)).take i.info.length := by
    rw [← hagrees.position, ← hlength]
    exact hstands.body.symm
  exact congrArg (Attribute.mk i.nameIndex (r.position + Attribute.headerSize)) hbody

theorem list_rereads :
    list.Rereads file file' (fun attributes => attributes)
      fun attributes => attributes.map (Attribute.inFile file') := by
  have h : list.Rereads file file' (fun attributes => attributes.flatMap fun a => [a])
      fun attributes => attributes.map (Attribute.inFile file') :=
    rereads.counted placesInOrder
  simp only [List.flatMap_singleton'] at h
  exact h

end AttributeImage

/-- The member with what another file has in the place of its bodies. -/
def Member.inFile (file : List UInt8) (m : Member) : Member :=
  { m with attributes := m.attributes.map (Attribute.inFile file) }

theorem MemberImage.rereads {file file' : List UInt8} :
    format.Rereads file file' Member.attributes (Member.inFile file') := by
  intro inside r s t i hr hs hagrees hi hmoves hinside
  obtain ⟨m, hheader, hattributes⟩ := Reader.moves_append_iff.mp hmoves
  have hstart : m.position = r.position + 6 := by rw [hheader.2, length_header]
  have hlast := hattributes.position_le
  have horder := AttributeImage.list_placesInOrder m t _ (hr.moves hheader) hi hattributes
  simp only [format, placed, ← hstart] at hinside
  obtain ⟨n, hheader', hagreesHeader⟩ :=
    hagrees.moves_front hheader horder (Nat.le_add_right _ _) fun p hlower hupper hp =>
      hinside p hlower (by omega) hp
  obtain ⟨attributes, u, hfits, hattributes', hagreesAttributes, hmeaning⟩ :=
    AttributeImage.list_rereads inside m n t _ (hr.moves hheader) (hs.moves hheader')
      hagreesHeader hi hattributes fun p hlower hupper hp => hinside p (by omega) hupper hp
  refine ⟨{ i with attributes }, u, hfits, hheader'.append hattributes', hagreesAttributes, ?_⟩
  simp only [format, placed, Member.inFile, ← hstart, hmeaning]

theorem MemberImage.list_rereads {file file' : List UInt8} :
    list.Rereads file file' (fun members => members.flatMap Member.attributes)
      fun members => members.map (Member.inFile file') :=
  rereads.counted placesInOrder

/-! ## Class files -/

/-- The class with what another file has in the place of its bodies. -/
def ClassFile.inFile (file : List UInt8) (c : ClassFile) : ClassFile :=
  { c with
    fields := c.fields.map (Member.inFile file)
    methods := c.methods.map (Member.inFile file)
    attributes := c.attributes.map (Attribute.inFile file) }

theorem ClassImage.rereads {file file' : List UInt8} :
    format.Rereads file file' ClassFile.allAttributes (ClassFile.inFile file') := by
  intro inside r s t i hr hs hagrees hi hmoves hinside
  simp only [format, bytes, Reader.moves_append_iff] at hmoves
  obtain ⟨r₃, ⟨r₂, ⟨r₁, hfront, hfields⟩, hmethods⟩, hattributes⟩ := hmoves
  have hr₁ := hr.moves hfront
  have hr₂ := hr₁.moves hfields
  have hr₃ := hr₂.moves hmethods
  have hfieldsOrder := MemberImage.placesInOrder.counted r₁ r₂ _ hr₁ hi.fields hfields
  have hmethodsOrder := MemberImage.placesInOrder.counted r₂ r₃ _ hr₂ hi.methods hmethods
  have hattributesOrder :=
    AttributeImage.list_placesInOrder r₃ t _ hr₃ hi.attributes hattributes
  have h₀ := hfront.position_le
  have h₁ := hfields.position_le
  have h₂ := hmethods.position_le
  have h₃ := hattributes.position_le
  simp only [format, placed, ClassFile.allAttributes, ← hfront.2, ← hfields.2, ← hmethods.2]
    at hinside
  have hmembersOrder := hfieldsOrder.append hmethodsOrder h₁ h₂
  have hallOrder := hmembersOrder.append hattributesOrder (Nat.le_trans h₁ h₂) h₃
  -- The place of a position tells which of the three lists a body over it belongs to.
  obtain ⟨s₁, hfront', hagrees₁⟩ :=
    hagrees.moves_front hfront hallOrder (Nat.le_add_right _ _) fun p hlower hupper hp =>
      hinside p hlower (by omega) hp
  have hs₁ := hs.moves hfront'
  obtain ⟨fields, s₂, hfieldsFit, hfields', hagrees₂, hfieldsMeaning⟩ :=
    MemberImage.list_rereads inside r₁ s₁ r₂ _ hr₁ hs₁ hagrees₁
      hi.fields hfields fun p hlower hupper hp =>
        hmethodsOrder.covers_front hupper
          (hattributesOrder.covers_front (by omega) (hinside p (by omega) (by omega) hp))
  have hs₂ := hs₁.moves hfields'
  obtain ⟨methods, s₃, hmethodsFit, hmethods', hagrees₃, hmethodsMeaning⟩ :=
    MemberImage.list_rereads inside r₂ s₂ r₃ _ hr₂ hs₂ hagrees₂
      hi.methods hmethods fun p hlower hupper hp =>
        hfieldsOrder.covers_back hlower
          (hattributesOrder.covers_front hupper (hinside p (by omega) (by omega) hp))
  obtain ⟨attributes, u, hattributesFit, hattributes', hagrees₄, hattributesMeaning⟩ :=
    AttributeImage.list_rereads inside r₃ s₃ t _ hr₃ (hs₂.moves hmethods') hagrees₃
      hi.attributes hattributes fun p hlower hupper hp =>
        hmembersOrder.covers_back hlower (hinside p (by omega) hupper hp)
  refine ⟨{ i with fields, methods, attributes }, u,
    ⟨hi.entries, hi.interfaces, hfieldsFit, hmethodsFit, hattributesFit⟩,
    ((hfront'.append hfields').append hmethods').append hattributes', hagrees₄, ?_⟩
  have hmethodsAt : r₁.position + (MemberImage.list.bytes fields).length = r₂.position := by
    rw [← hagrees₁.position, ← hagrees₂.position]
    exact hfields'.2.symm
  have hattributesAt : r₂.position + (MemberImage.list.bytes methods).length = r₃.position := by
    rw [← hagrees₂.position, ← hagrees₃.position]
    exact hmethods'.2.symm
  have hfieldsAt : r.position + ({ i with fields, methods, attributes } : ClassImage).front.length =
      r₁.position :=
    hfront.2.symm
  simp only [format, placed, ClassFile.inFile, hfieldsAt, hmethodsAt, hattributesAt, ← hfront.2,
    ← hfields.2, ← hmethods.2, hfieldsMeaning, hmethodsMeaning, hattributesMeaning]

/-- A file that differs from a class file only in its bodies is the same class with these bodies. -/
theorem ClassFile.decode_inFile {file file' : List UInt8} {c : ClassFile} {t : Reader}
    (hc : decode (Reader.ofBytes file 0) = .ok c t)
    (h : DifferOnlyIn c.allAttributes file file') :
    ∃ u, decode (Reader.ofBytes file' 0) = .ok (c.inFile file') u := by
  obtain ⟨i, hi, rfl, hmoves⟩ := (decode_reads _ _ _).mp hc
  obtain ⟨j, u, hj, hmoves', -, hmeaning⟩ := ClassImage.rereads _ _ _ t i
    (Reader.views_ofBytes file) (Reader.views_ofBytes file') h.agreesOutside hi hmoves
    fun _ _ _ hp => hp
  exact ⟨u, (decode_reads _ _ _).mpr ⟨j, hj, hmeaning, hmoves'⟩⟩

/-! ## Code -/

/-- The code with what another file has in the place of its bodies. -/
def Code.inFile (file : List UInt8) (c : Code) : Code :=
  { c with attributes := c.attributes.map (Attribute.inFile file) }

theorem CodeImage.rereads {file file' : List UInt8} :
    format.Rereads file file' Code.attributes (Code.inFile file') := by
  intro inside r s t i hr hs hagrees hi hmoves hinside
  obtain ⟨m, hfront, hattributes⟩ := Reader.moves_append_iff.mp hmoves
  have hstart := hfront.position_le
  have hlast := hattributes.position_le
  have horder :=
    AttributeImage.list_placesInOrder m t _ (hr.moves hfront) hi.attributes hattributes
  simp only [format, placed, ← hfront.2] at hinside
  obtain ⟨n, hfront', hagreesFront⟩ :=
    hagrees.moves_front hfront horder (Nat.le_add_right _ _) fun p hlower hupper hp =>
      hinside p hlower (by omega) hp
  obtain ⟨attributes, u, hfits, hattributes', hagreesAttributes, hmeaning⟩ :=
    AttributeImage.list_rereads inside m n t _ (hr.moves hfront) (hs.moves hfront') hagreesFront
      hi.attributes hattributes fun p hlower hupper hp => hinside p (by omega) hupper hp
  refine ⟨{ i with attributes }, u, ⟨hi.instructions, hi.handlers, hfits⟩,
    hfront'.append hattributes', hagreesAttributes, ?_⟩
  have hat : r.position + ({ i with attributes } : CodeImage).front.length = m.position :=
    hfront.2.symm
  simp only [format, placed, Code.inFile, hat, ← hfront.2, hmeaning]

namespace Attribute

variable {file file' : List UInt8} {a : Attribute}

theorem StandsIn.limit_le (h : a.StandsIn file) : a.limit ≤ file.length := by
  have hlength := congrArg List.length h.body
  have hle : a.offset ≤ file.length := h.views_body.position_le
  rw [List.length_take, List.length_drop] at hlength
  rw [limit]
  omega

theorem length_info_inFile (h : a.limit ≤ file.length) :
    (a.inFile file).info.length = a.info.length := by
  rw [limit] at h
  rw [inFile, List.length_take, List.length_drop]
  omega

/-- The body in a file is read at its place in that file. -/
theorem views_body_inFile (h : a.limit ≤ file.length) : (a.inFile file).body.Views file := by
  rw [limit] at h
  refine ⟨file.take a.offset, (file.drop a.offset).drop a.info.length, ?_, ?_⟩
  · rw [List.append_assoc]
    change file = _ ++ ((file.drop a.offset).take a.info.length ++ _)
    rw [List.take_append_drop, List.take_append_drop]
  · rw [List.length_take, Nat.min_eq_left (by omega)]
    rfl

theorem StandsIn.agreesOutside_body {bodies : List Attribute} (ha : a.StandsIn file)
    (h : DifferOnlyIn bodies file file') :
    a.body.AgreesOutside (Covers bodies) (a.inFile file').body where
  position := rfl
  remaining := length_info_inFile (h.1 ▸ ha.limit_le)
  bytes n hn := by
    have hsame : file'[a.offset + n]? = file[a.offset + n]? := h.getElem?_eq hn
    change ((file'.drop a.offset).take a.info.length)[n]? = a.info[n]?
    conv => rhs; rw [← ha.body]
    rw [List.getElem?_take, List.getElem?_take, List.getElem?_drop, List.getElem?_drop, hsame]

/-- A body that lies apart from those in which the files differ is the same in both. -/
theorem StandsIn.inFile_eq_self {bodies : List Attribute} (ha : a.StandsIn file)
    (h : DifferOnlyIn bodies file file')
    (hapart : ∀ p, a.offset ≤ p → p < a.limit → ¬ Covers bodies p) : a.inFile file' = a := by
  have hinfo : (a.inFile file').info = a.info := by
    apply List.ext_getElem?
    intro n
    by_cases hn : n < a.info.length
    · apply (ha.agreesOutside_body h).bytes n
      exact hapart _ (Nat.le_add_right _ _) (Nat.add_lt_add_left hn _)
    · have hlength : (a.inFile file').info.length = a.info.length :=
        length_info_inFile (h.1 ▸ ha.limit_le)
      rw [List.getElem?_eq_none (by omega), List.getElem?_eq_none (by omega)]
  exact congrArg (Attribute.mk a.nameIndex a.offset) hinfo

end Attribute

/-- Code is read from a body that differs only in the bodies nested in it. -/
theorem Code.decode_inFile {file file' : List UInt8} {a : Attribute} {c : Code} {t : Reader}
    (ha : a.StandsIn file) (hc : decode a.body = .ok c t)
    (h : DifferOnlyIn c.attributes file file') :
    ∃ u, decode (a.inFile file').body = .ok (c.inFile file') u := by
  obtain ⟨i, hi, rfl, hmoves⟩ := (decode_reads _ _ _).mp hc
  obtain ⟨j, u, hj, hmoves', -, hmeaning⟩ := CodeImage.rereads _ _ _ t i ha.views_body
    (Attribute.views_body_inFile (h.1 ▸ ha.limit_le)) (ha.agreesOutside_body h) hi hmoves
    fun _ _ _ hp => hp
  exact ⟨u, (decode_reads _ _ _).mpr ⟨j, hj, hmeaning, hmoves'⟩⟩

end JvmClass
