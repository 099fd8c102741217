import JvmClass.Bytes.ModifiedUtf8
import JvmClass.Proofs.Image
import JvmClass.Proofs.LossyText

/-!
# Strings of units read as UTF-8

Each 16-bit unit of a string is written on its own, and a reader of UTF-8 sees each on its own: no
byte of one unit completes a character that another one has begun, so what is lost of a unit is
lost of this unit alone. Zero and the surrogates are lost, and no other unit is.
-/

namespace JvmClass

namespace Bytes.ModifiedUtf8

open Utf8

/-! ## Single units -/

/-- No character begins with a byte that continues one, nor with one of the two that would only
begin numbers below 128. -/
theorem ofLead?_eq_none {n : Nat} (hlow : 0x80 ≤ n) (hhigh : n ≤ 0xC1) :
    Pending.ofLead? n = none := by
  unfold Pending.ofLead?
  repeat' rw [if_neg (by omega)]

theorem step_stray {n : Nat} (hlow : 0x80 ≤ n) (hhigh : n ≤ 0xC1) :
    step none n = ([replacement], none) := by
  simp [step, begin, ofLead?_eq_none hlow hhigh, Nat.not_lt.mpr hlow]

/-- A byte that continues no character ends the one begun before it, and is lost with it. -/
theorem step_stray_pending {p : Pending} {n : Nat} (hfits : ¬(p.low ≤ n ∧ n ≤ p.high))
    (hlow : 0x80 ≤ n) (hhigh : n ≤ 0xC1) :
    step (some p) n = ([replacement, replacement], none) := by
  simp [step, hfits, begin, ofLead?_eq_none hlow hhigh, Nat.not_lt.mpr hlow]

theorem isSurrogate_iff {unit : UInt16} :
    isSurrogate unit = true ↔ 0xD800 ≤ unit.toNat ∧ unit.toNat ≤ 0xDFFF := by
  simp [isSurrogate, UInt16.le_iff_toNat_le]

theorem readAsUtf8_zero : readAsUtf8 0 = [replacement, replacement] := rfl

theorem readAsUtf8_surrogate {unit : UInt16} (h : isSurrogate unit = true) :
    readAsUtf8 unit = [replacement, replacement, replacement] := by
  have hne : unit ≠ 0 := by
    rintro rfl
    exact absurd h (by decide)
  rw [readAsUtf8, if_neg hne, if_pos h]

theorem readAsUtf8_of_kept {unit : UInt16} (hne : unit ≠ 0) (h : isSurrogate unit = false) :
    readAsUtf8 unit = [Char.ofNat unit.toNat] := by
  rw [readAsUtf8, if_neg hne, if_neg (by simp [h])]

theorem isValidChar_of_kept {unit : UInt16} (h : isSurrogate unit = false) :
    unit.toNat.isValidChar := by
  have hrange : ¬(0xD800 ≤ unit.toNat ∧ unit.toNat ≤ 0xDFFF) := by
    rw [← isSurrogate_iff, h]
    exact Bool.false_ne_true
  have hlt := unit.toNat_lt
  unfold Nat.isValidChar
  omega

/-- Apart from zero and the surrogates the two encodings are one. -/
theorem encodeUnit_of_kept {unit : UInt16} (hne : unit ≠ 0) (h : isSurrogate unit = false) :
    encodeUnit unit = encodeChar (Char.ofNat unit.toNat) := by
  have hzero : unit.toNat ≠ 0 := by
    intro hzero
    exact hne (UInt16.toNat_inj.mp hzero)
  have hlt : unit.toNat < 0x10000 := unit.toNat_lt
  rw [encodeUnit, encodeChar, toNat_ofNat_of_isValidChar (isValidChar_of_kept h)]
  simp only [if_neg hzero, if_pos hlt]

/-- A surrogate would begin with the right byte, but the second one is out of the range that the
first leaves for it. -/
theorem decodeFrom_surrogate {unit : UInt16} (h : isSurrogate unit = true) (rest : List UInt8) :
    decodeFrom none (encodeUnit unit ++ rest) =
      [replacement, replacement, replacement] ++ decodeFrom none rest := by
  obtain ⟨hlow, hhigh⟩ := isSurrogate_iff.mp h
  have hlead : 0xE0 + unit.toNat / 0x1000 = 0xED := by omega
  have hbegun : step none 0xED = ([], some ⟨1, 0x80, 0x9F, 0xD⟩) := rfl
  let second := 0x80 + unit.toNat / 0x40 % 0x40
  let third := 0x80 + unit.toNat % 0x40
  have hfits : ¬(0x80 ≤ second ∧ second ≤ 0x9F) := by omega
  have hunit : encodeUnit unit = [UInt8.ofNat 0xED, UInt8.ofNat second, UInt8.ofNat third] := by
    rw [encodeUnit, if_neg (by omega), if_neg (by omega), if_neg (by omega), hlead]
  calc
    decodeFrom none (encodeUnit unit ++ rest) =
        decodeFrom none
          (UInt8.ofNat 0xED :: UInt8.ofNat second :: UInt8.ofNat third :: rest) := by
      rw [hunit]
      rfl
    _ = decodeFrom (some ⟨1, 0x80, 0x9F, 0xD⟩)
          (UInt8.ofNat second :: UInt8.ofNat third :: rest) := by
      rw [decodeFrom_ofNat_cons _ (by omega), hbegun]
      rfl
    _ = [replacement, replacement] ++ decodeFrom none (UInt8.ofNat third :: rest) := by
      rw [decodeFrom_ofNat_cons _ (by omega), step_stray_pending hfits (by omega) (by omega)]
    _ = [replacement, replacement] ++ ([replacement] ++ decodeFrom none rest) := by
      rw [decodeFrom_ofNat_cons _ (by omega), step_stray (by omega) (by omega)]
    _ = [replacement, replacement, replacement] ++ decodeFrom none rest := rfl

/-- Whatever follows a unit, the reader is between characters after it and has seen of it what is
seen of it alone. -/
theorem decodeFrom_encodeUnit (unit : UInt16) (rest : List UInt8) :
    decodeFrom none (encodeUnit unit ++ rest) = readAsUtf8 unit ++ decodeFrom none rest := by
  by_cases hzero : unit = 0
  · subst hzero
    rw [readAsUtf8_zero]
    have hfirst : step none 0xC0 = ([replacement], none) := rfl
    have hsecond : step none 0x80 = ([replacement], none) := rfl
    change (step none 0xC0).1 ++ ((step none 0x80).1 ++ decodeFrom none rest) = _
    rw [hfirst, hsecond]
    rfl
  · cases hsurrogate : isSurrogate unit with
    | true => rw [readAsUtf8_surrogate hsurrogate, decodeFrom_surrogate hsurrogate]
    | false =>
        rw [encodeUnit_of_kept hzero hsurrogate, decodeFrom_encodeChar,
          readAsUtf8_of_kept hzero hsurrogate]
        rfl

theorem decodeFrom_encode (units : List UInt16) :
    decodeFrom none (encode units) = units.flatMap readAsUtf8 := by
  induction units with
  | nil => rfl
  | cons unit units ih =>
      rw [encode, List.flatMap_cons, decodeFrom_encodeUnit, ← encode, ih, List.flatMap_cons]

theorem decodeLossy_encode (units : List UInt16) :
    decodeLossy (encode units) = String.ofList (units.flatMap readAsUtf8) := by
  rw [decodeLossy, decodeFrom_encode]

/-! ## What is lost -/

/-- Units that do not stand for a character of their own in UTF-8. -/
def isLost (unit : UInt16) : Bool :=
  unit == 0 || isSurrogate unit

theorem isLost_eq_false_iff {unit : UInt16} :
    isLost unit = false ↔ unit ≠ 0 ∧ isSurrogate unit = false := by
  simp [isLost]

/-- The units of what is seen of a unit. -/
def reread (unit : UInt16) : List UInt16 :=
  (readAsUtf8 unit).flatMap unitsOfChar

theorem reread_of_kept {unit : UInt16} (h : isLost unit = false) : reread unit = [unit] := by
  obtain ⟨hne, hsurrogate⟩ := isLost_eq_false_iff.mp h
  have hlt : unit.toNat < 0x10000 := unit.toNat_lt
  rw [reread, readAsUtf8_of_kept hne hsurrogate, List.flatMap_singleton, unitsOfChar,
    toNat_ofNat_of_isValidChar (isValidChar_of_kept hsurrogate)]
  simp only [if_pos hlt, UInt16.ofNat_toNat]

/-- A lost unit is replaced by more than one. -/
theorem one_lt_length_reread {unit : UInt16} (h : isLost unit = true) :
    1 < (reread unit).length := by
  rw [isLost, Bool.or_eq_true, beq_iff_eq] at h
  rcases h with rfl | hsurrogate
  · decide
  · rw [reread, readAsUtf8_surrogate hsurrogate]
    decide

theorem length_flatMap_reread (units : List UInt16) :
    units.length + units.countP isLost ≤ (units.flatMap reread).length := by
  induction units with
  | nil => exact Nat.le_refl _
  | cons unit units ih =>
      rw [List.flatMap_cons, List.length_append, List.length_cons]
      cases hlost : isLost unit with
      | true =>
          have hmore := one_lt_length_reread hlost
          rw [List.countP_cons_of_pos hlost]
          omega
      | false =>
          rw [List.countP_cons_of_neg (by simp [hlost]), reread_of_kept hlost,
            List.length_singleton]
          omega

/-- A string is read as it is exactly if none of its units is lost. A lost one makes the text
longer, whatever the others are. -/
theorem flatMap_reread_eq_self_iff {units : List UInt16} :
    units.flatMap reread = units ↔ ∀ unit ∈ units, isLost unit = false := by
  constructor
  · intro h
    have hlength := length_flatMap_reread units
    rw [h] at hlength
    have hnone : units.countP isLost = 0 := by omega
    intro unit hmem
    exact Bool.eq_false_iff.mpr (List.countP_eq_zero.mp hnone unit hmem)
  · intro h
    calc
      units.flatMap reread = units.flatMap fun unit => [unit] := by
        rw [List.flatMap_def, List.flatMap_def, List.map_congr_left]
        intro unit hmem
        exact reread_of_kept (h unit hmem)
      _ = units := List.flatMap_singleton' units

end Bytes.ModifiedUtf8

open Bytes ModifiedUtf8 in
/-- A text constant that holds a string of units reads as the characters its units are seen as one
by one, whatever follows it in the file. The text is that string exactly if no unit is zero or a
surrogate. -/
theorem text_constant_reads_units (units : List UInt16) (position : Nat) (rest : List UInt8)
    (hsize : (encode units).length ≤ 65535) :
    let payload := encode units
    let text := String.ofList (units.flatMap readAsUtf8)
    Constant.decode ⟨position, 1 :: Encoder.u16 (UInt16.ofNat payload.length) ++ payload ++ rest⟩ =
        .ok (.utf8 text) ⟨position + 3 + payload.length, rest⟩ ∧
      (unitsOf text = units ↔ ∀ unit ∈ units, unit ≠ 0 ∧ isSurrogate unit = false) := by
  intro payload text
  constructor
  · have hfits : EntryImage.format.Fits (.text payload) := Nat.lt_succ_of_le hsize
    have hread := Constant.decode_reads.append hfits position rest
    have hlength : (EntryImage.format.bytes (.text payload)).length = 3 + payload.length := by
      change (1 :: (Encoder.u16 (UInt16.ofNat payload.length) ++ payload)).length = _
      rw [List.length_cons, List.length_append, Encoder.length_u16]
      omega
    have htext : EntryImage.format.meaning position (.text payload) = .utf8 text :=
      congrArg Constant.utf8 (decodeLossy_encode units)
    rw [hlength, htext, ← Nat.add_assoc] at hread
    exact hread
  · have hunits : unitsOf text = units.flatMap reread := by
      rw [unitsOf, String.toList_ofList, List.flatMap_assoc]
      rfl
    simp only [hunits, flatMap_reread_eq_self_iff, isLost_eq_false_iff]

open Bytes ModifiedUtf8 in
/-- A zero, both halves of a pair and a half alone are lost between letters that are not, and a
string of letters only is kept. -/
theorem text_constant_reads_units_mixed :
    let mixed : List UInt16 := [0x41, 0, 0xD83D, 0xDE00, 0xE9, 0xDC00, 0x20AC]
    let letters : List UInt16 := [0x41, 0xE9, 0x20AC]
    let text := "A\ufffd\ufffd\ufffd\ufffd\ufffd\ufffd\ufffd\ufffdé\ufffd\ufffd\ufffd€"
    (encode mixed).length ≤ 65535 ∧
      Constant.decode ⟨70, 1 :: Encoder.u16 17 ++ encode mixed ++ [7]⟩ =
        .ok (.utf8 text) ⟨90, [7]⟩ ∧
      unitsOf text ≠ mixed ∧
      (encode letters).length ≤ 65535 ∧ unitsOf "Aé€" = letters := by
  intro mixed letters text
  have hmixed : (encode mixed).length ≤ 65535 := by decide
  have hletters : (encode letters).length ≤ 65535 := by decide
  have htext : String.ofList (mixed.flatMap readAsUtf8) = text := by decide
  have hkeptText : String.ofList (letters.flatMap readAsUtf8) = "Aé€" := by decide
  obtain ⟨hread, hexact⟩ := text_constant_reads_units mixed 70 [7] hmixed
  have hkept := (text_constant_reads_units letters 70 [] hletters).2
  rw [htext] at hread hexact
  rw [hkeptText] at hkept
  have hplain : ∀ unit ∈ letters, unit ≠ 0 ∧ isSurrogate unit = false := by
    simp only [letters, List.forall_mem_cons]
    exact ⟨by decide, by decide, by decide, List.forall_mem_nil _⟩
  refine ⟨hmixed, hread, ?_, hletters, hkept.mpr hplain⟩
  intro hsame
  obtain ⟨hzero, -⟩ := hexact.mp hsame 0 (by decide)
  exact hzero rfl

end JvmClass
