import JvmClass.Bytes.Utf8

/-!
# Texts read with replacements

Reading with replacements gives a text for any bytes, so that different bytes may read the same.
Plain texts are an exception: a character below 128 is never what is left of a longer one, whether
that one is complete or not, and only the bytes of a plain text read as it.
-/

namespace JvmClass.Bytes.Utf8

theorem toNat_ofNat_of_isValidChar {n : Nat} (h : n.isValidChar) :
    (Char.ofNat n).toNat = n := by
  rw [Char.ofNat, dif_pos h]
  rfl

/-- How many characters have the same bytes but for the last `n`. -/
def spread : Nat → Nat
  | 0 => 1
  | n + 1 => 0x40 * spread n

/-- The least number of a character that has been begun. -/
def Pending.least (p : Pending) : Nat :=
  (p.bits * 0x40 + p.low % 0x40) * spread p.after

/-- The first number too large for a character that has been begun. -/
def Pending.bound (p : Pending) : Nat :=
  (p.bits * 0x40 + p.high % 0x40 + 1) * spread p.after

/-- A character that can only become a code point beyond the plain ones. -/
structure Pending.Long (p : Pending) : Prop where
  low : 0x80 ≤ p.low
  high : p.high ≤ 0xBF
  least : 0x80 ≤ p.least
  bound : p.bound ≤ 0x110000
  surrogates : p.bound ≤ 0xD800 ∨ 0xDFFF < p.least

theorem Pending.long_of_ofLead? {n : Nat} {p : Pending} (h : ofLead? n = some p) : p.Long := by
  unfold ofLead? at h
  repeat' split at h
  all_goals cases h
  all_goals constructor
  all_goals simp only [least, bound, spread]
  all_goals omega

/-- A byte that fits narrows down what the character can become. -/
theorem Pending.Long.next {after low high bits byte : Nat}
    (h : Long ⟨after + 1, low, high, bits⟩) (hlow : low ≤ byte) (hhigh : byte ≤ high) :
    Long ⟨after, 0x80, 0xBF, bits * 0x40 + byte % 0x40⟩ := by
  have hfrom : 0x80 ≤ low := h.low
  have hto : high ≤ 0xBF := h.high
  have hleast : Pending.least ⟨after + 1, low, high, bits⟩ ≤
      Pending.least ⟨after, 0x80, 0xBF, bits * 0x40 + byte % 0x40⟩ := by
    simp only [Pending.least]
    rw [spread, ← Nat.mul_assoc]
    apply Nat.mul_le_mul_right
    omega
  have hbound : Pending.bound ⟨after, 0x80, 0xBF, bits * 0x40 + byte % 0x40⟩ ≤
      Pending.bound ⟨after + 1, low, high, bits⟩ := by
    simp only [Pending.bound]
    rw [spread, ← Nat.mul_assoc]
    apply Nat.mul_le_mul_right
    omega
  constructor
  · exact Nat.le_refl _
  · exact Nat.le_refl _
  · exact Nat.le_trans h.least hleast
  · exact Nat.le_trans hbound h.bound
  · exact h.surrogates.imp (Nat.le_trans hbound) fun hbeyond => Nat.lt_of_lt_of_le hbeyond hleast

theorem Pending.Long.last {low high bits byte : Nat} (h : Long ⟨0, low, high, bits⟩)
    (hlow : low ≤ byte) (hhigh : byte ≤ high) :
    0x80 ≤ (Char.ofNat (bits * 0x40 + byte % 0x40)).toNat := by
  have hfrom : 0x80 ≤ low := h.low
  have hto : high ≤ 0xBF := h.high
  have hleast := h.least
  have hbound := h.bound
  have hsurrogates := h.surrogates
  simp only [Pending.least, Pending.bound, spread, Nat.mul_one] at hleast hbound hsurrogates
  have hvalid : (bits * 0x40 + byte % 0x40).isValidChar := by
    unfold Nat.isValidChar
    omega
  rw [toNat_ofNat_of_isValidChar hvalid]
  omega

/-- A character that has been begun gives one that is not plain, if only a replacement. -/
theorem Pending.Long.head_decodeFrom {p : Pending} (h : p.Long) (bytes : List UInt8) :
    ∃ c rest, decodeFrom (some p) bytes = c :: rest ∧ 0x80 ≤ c.toNat := by
  induction bytes generalizing p with
  | nil => exact ⟨replacement, [], rfl, by decide⟩
  | cons byte bytes ih =>
      obtain ⟨after, low, high, bits⟩ := p
      by_cases hfits : low ≤ byte.toNat ∧ byte.toNat ≤ high
      · cases after with
        | zero =>
            rw [decodeFrom, step_last hfits.1 hfits.2]
            exact ⟨_, _, rfl, h.last hfits.1 hfits.2⟩
        | succ after =>
            rw [decodeFrom, step_middle hfits.1 hfits.2]
            exact ih (h.next hfits.1 hfits.2)
      · rw [decodeFrom, step, if_neg hfits]
        exact ⟨replacement, _, rfl, by decide⟩

/-- Between characters, what reads as plain text is written in its own bytes. -/
theorem decodeFrom_eq_plain {bytes : List UInt8} {cs : List Char}
    (hplain : ∀ c ∈ cs, c.toNat < 0x80) (h : decodeFrom none bytes = cs) :
    bytes = cs.flatMap encodeChar := by
  induction bytes generalizing cs with
  | nil =>
      cases h
      rfl
  | cons byte bytes ih =>
      subst h
      rw [decodeFrom, step, begin] at hplain ⊢
      by_cases hbyte : byte.toNat < 0x80
      · rw [if_pos hbyte, List.singleton_append] at hplain ⊢
        have hchar : encodeChar (Char.ofNat byte.toNat) = [byte] := by
          have hvalid : byte.toNat.isValidChar := Or.inl (by omega)
          rw [encodeChar, toNat_ofNat_of_isValidChar hvalid]
          simp [hbyte]
        rw [List.flatMap_cons, hchar, ← ih (List.forall_mem_cons.mp hplain).2 rfl]
        rfl
      · -- The first character comes from a longer one or replaces the byte.
        rw [if_neg hbyte] at hplain
        exfalso
        cases hlead : Pending.ofLead? byte.toNat with
        | none =>
            rw [hlead] at hplain
            have hreplacement := hplain replacement List.mem_cons_self
            exact absurd hreplacement (by decide)
        | some p =>
            rw [hlead] at hplain
            obtain ⟨c, rest, hread, hc⟩ := (Pending.long_of_ofLead? hlead).head_decodeFrom bytes
            dsimp only at hplain
            rw [List.nil_append, hread] at hplain
            exact absurd (hplain c List.mem_cons_self) (Nat.not_lt.mpr hc)

/-- Texts without longer characters. -/
def Plain (s : String) : Bool :=
  s.toList.all fun c => c.toNat < 0x80

theorem decodeLossy_eq_plain_iff {payload : List UInt8} {s : String} (hplain : Plain s) :
    decodeLossy payload = s ↔ payload = encode s := by
  constructor
  · intro h
    have hchars : ∀ c ∈ s.toList, c.toNat < 0x80 := by
      intro c hc
      exact of_decide_eq_true (List.all_eq_true.mp hplain c hc)
    apply decodeFrom_eq_plain hchars
    rw [← h, decodeLossy, String.toList_ofList]
  · rintro rfl
    exact decodeLossy_encode s

end JvmClass.Bytes.Utf8
