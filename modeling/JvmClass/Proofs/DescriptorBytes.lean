import JvmClass.Descriptor.Scan

/-!
# Bytes of descriptors

Between two characters a descriptor goes on with the first byte of the latter. A character of one
byte is known by it, because no other character begins with that byte, and so the byte under a
cursor that stands between characters tells which of these characters comes next, if any does.
-/

namespace JvmClass.Descriptor

variable {d : String}

/-! ## First bytes of characters -/

def leadByte (c : Char) : UInt8 :=
  (String.utf8EncodeChar c).headD 0

theorem utf8Size_of_ascii {c : Char} (h : c.toNat < 0x80) : c.utf8Size = 1 := by
  rw [Char.utf8Size_eq_one_iff, UInt32.le_iff_toNat_le]
  exact Nat.le_of_lt_succ h

theorem leadByte_of_ascii {c : Char} (h : c.toNat < 0x80) : leadByte c = c.toUInt8 := by
  rw [leadByte, String.utf8EncodeChar_eq_singleton (utf8Size_of_ascii h), List.headD_cons,
    Char.toUInt8_val]

theorem toNat_toUInt8_of_ascii {c : Char} (h : c.toNat < 0x80) : c.toUInt8.toNat = c.toNat := by
  have hlt : c.val.toNat < 0x80 := h
  rw [Char.toUInt8, UInt32.toNat_toUInt8]
  exact Nat.mod_eq_of_lt (Nat.lt_trans hlt (by decide))

theorem ofUInt8_toUInt8_of_ascii {c : Char} (h : c.toNat < 0x80) :
    Char.ofUInt8 c.toUInt8 = c := by
  apply Char.toNat_inj.mp
  rw [← toNat_toUInt8_of_ascii h]
  rfl

/-- A character of more than one byte does not begin with the byte of another one. -/
theorem le_leadByte {c : Char} (h : 0x80 ≤ c.toNat) : 0x80 ≤ (leadByte c).toNat := by
  have hgt : ¬c.val.toNat ≤ 127 := Nat.not_le.mpr h
  simp only [leadByte, String.utf8EncodeChar, hgt, if_false]
  split
  · simp
    omega
  split
  · simp
    omega
  · simp
    omega

theorem leadByte_eq_iff {c x : Char} (hx : x.toNat < 0x80) : leadByte c = x.toUInt8 ↔ c = x := by
  constructor
  · intro h
    have hbyte : (leadByte c).toNat = x.toNat := by rw [h, toNat_toUInt8_of_ascii hx]
    obtain hc | hc := Nat.lt_or_ge c.toNat 0x80
    · rw [leadByte_of_ascii hc, toNat_toUInt8_of_ascii hc] at hbyte
      exact Char.toNat_inj.mp hbyte
    · have hle := le_leadByte hc
      omega
  · rintro rfl
    exact leadByte_of_ascii hx

theorem toNat_letter_lt {c : Char} {b : BaseType} (h : BaseType.ofLetter? c = some b) :
    c.toNat < 0x80 := by
  rw [← BaseType.letter_of_ofLetter? h]
  cases b <;> decide

theorem ofLetter?_leadByte (c : Char) :
    BaseType.ofLetter? (Char.ofUInt8 (leadByte c)) = BaseType.ofLetter? c := by
  obtain hc | hc := Nat.lt_or_ge c.toNat 0x80
  · rw [leadByte_of_ascii hc, ofUInt8_toUInt8_of_ascii hc]
  · have hnone {x : Char} (hx : 0x80 ≤ x.toNat) : BaseType.ofLetter? x = none := by
      rw [Option.eq_none_iff_forall_ne_some]
      intro b hb
      exact absurd (toNat_letter_lt hb) (Nat.not_lt.mpr hx)
    have hlead : 0x80 ≤ (Char.ofUInt8 (leadByte c)).toNat := le_leadByte hc
    rw [hnone hc, hnone hlead]

/-! ## Places in a descriptor -/

/-- How many bytes a text has. -/
def byteCount (text : List Char) : Nat :=
  (String.ofList text).utf8ByteSize

theorem byteCount_append (front back : List Char) :
    byteCount (front ++ back) = byteCount front + byteCount back := by
  rw [byteCount, String.ofList_append, String.utf8ByteSize_append, byteCount, byteCount]

theorem byteCount_cons (c : Char) (text : List Char) :
    byteCount (c :: text) = c.utf8Size + byteCount text := by
  rw [byteCount, String.ofList_cons, String.utf8ByteSize_append, String.utf8ByteSize_singleton,
    byteCount]

theorem byteCount_toList (s : String) : byteCount s.toList = s.utf8ByteSize := by
  rw [byteCount, String.ofList_toList]

theorem length_le_byteCount (text : List Char) : text.length ≤ byteCount text := by
  induction text with
  | nil => exact Nat.zero_le _
  | cons c text ih =>
      have hpos := c.utf8Size_pos
      rw [List.length_cons, byteCount_cons]
      omega

/-- The text `rest` of a descriptor begins behind so many bytes. -/
def RestAt (d : String) (place : Nat) (rest : List Char) : Prop :=
  ∃ front, d.toList = front ++ rest ∧ place = byteCount front

namespace RestAt

variable {place : Nat} {rest taken : List Char}

theorem start (d : String) : RestAt d 0 d.toList :=
  ⟨[], rfl, rfl⟩

theorem stop (d : String) : RestAt d d.utf8ByteSize [] :=
  ⟨d.toList, (List.append_nil _).symm, (byteCount_toList d).symm⟩

theorem after (h : RestAt d place (taken ++ rest)) : RestAt d (place + byteCount taken) rest := by
  obtain ⟨front, hd, rfl⟩ := h
  exact ⟨front ++ taken, by rw [hd, List.append_assoc], (byteCount_append _ _).symm⟩

theorem add_byteCount (h : RestAt d place rest) : place + byteCount rest = d.utf8ByteSize := by
  obtain ⟨front, hd, rfl⟩ := h
  rw [← byteCount_append, ← hd, byteCount_toList]

theorem le_size (h : RestAt d place rest) : place ≤ d.utf8ByteSize := by
  rw [← h.add_byteCount]
  exact Nat.le_add_right _ _

theorem eq_sub (h : RestAt d place rest) : place = d.utf8ByteSize - byteCount rest := by
  rw [← h.add_byteCount, Nat.add_sub_cancel]

theorem length_le_size (h : RestAt d place rest) : rest.length ≤ d.utf8ByteSize := by
  have hadd := h.add_byteCount
  have hlength := length_le_byteCount rest
  omega

/-- The text is spent where the bytes are. -/
theorem eq_size_iff (h : RestAt d place rest) : place = d.utf8ByteSize ↔ rest = [] := by
  have hadd := h.add_byteCount
  have hlength := length_le_byteCount rest
  constructor
  · intro hplace
    exact List.length_eq_zero_iff.mp (by omega)
  · rintro rfl
    exact hadd

theorem eq_append (h : RestAt d place rest) :
    ∃ front : String, d = front ++ String.ofList rest ∧ place = front.utf8ByteSize := by
  obtain ⟨front, hd, rfl⟩ := h
  refine ⟨String.ofList front, ?_, rfl⟩
  rw [← String.ofList_append, ← hd, String.ofList_toList]

theorem isValid (h : RestAt d place rest) : (String.Pos.Raw.mk place).IsValid d := by
  obtain ⟨front, hd, rfl⟩ := h.eq_append
  exact String.Pos.Raw.isValid_iff_exists_append.mpr ⟨front, _, hd, rfl⟩

/-- What is under the cursor between two characters is the first byte of the latter. -/
theorem byte?_eq (h : RestAt d place rest) : Scan.byte? d place = rest.head?.map leadByte := by
  obtain ⟨front, rfl, rfl⟩ := h.eq_append
  rw [Scan.byte?, String.toUTF8_eq_toByteArray, String.toByteArray_append]
  cases rest with
  | nil =>
      apply getElem?_neg
      simp
  | cons c rest =>
      obtain ⟨byte, bytes, hchar⟩ :=
        List.exists_cons_of_ne_nil (String.utf8EncodeChar_ne_nil (c := c))
      have hlead : leadByte c = byte := by rw [leadByte, hchar, List.headD_cons]
      rw [String.toByteArray_ofList, List.utf8Encode_cons, List.utf8Encode_singleton, hchar,
        ← String.size_toByteArray, List.head?_cons, Option.map_some, hlead]
      have hbyte : 0 < (byte :: bytes).toByteArray.size := by
        rw [List.size_toByteArray]
        exact Nat.succ_pos _
      have hlt : front.toByteArray.size <
          (front.toByteArray ++ ((byte :: bytes).toByteArray ++ rest.utf8Encode)).size := by
        rw [ByteArray.size_append, ByteArray.size_append]
        omega
      rw [getElem?_pos (front.toByteArray ++ _) _ hlt,
        ByteArray.getElem_append_right (Nat.le_refl _)]
      simp only [Nat.sub_self]
      rw [ByteArray.getElem_append_left hbyte, List.getElem_toByteArray, List.getElem_cons_zero]

end RestAt

end JvmClass.Descriptor
