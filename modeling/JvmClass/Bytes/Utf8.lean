/-!
# UTF-8

Encoding of characters as bytes, and a decoder that accepts every byte list. The decoder reads one
byte at a time: between characters it knows nothing, inside a character it knows which bytes may
come next. Bytes that fit keep the character going, and wherever a byte does not fit, the bytes of
the unfinished character together become one replacement character and the byte is read again as
the start of the next one. So each maximal run of bytes that begins a character without completing
it gives exactly one replacement, as does each byte that begins none.
-/

namespace JvmClass.Bytes.Utf8

/-! ## Encoding -/

/-- The bytes of one character. -/
def encodeChar (c : Char) : List UInt8 :=
  let n := c.toNat
  if n < 0x80 then [UInt8.ofNat n]
  else if n < 0x800 then [UInt8.ofNat (0xC0 + n / 0x40), UInt8.ofNat (0x80 + n % 0x40)]
  else if n < 0x10000 then
    [UInt8.ofNat (0xE0 + n / 0x1000), UInt8.ofNat (0x80 + n / 0x40 % 0x40),
      UInt8.ofNat (0x80 + n % 0x40)]
  else
    [UInt8.ofNat (0xF0 + n / 0x40000), UInt8.ofNat (0x80 + n / 0x1000 % 0x40),
      UInt8.ofNat (0x80 + n / 0x40 % 0x40), UInt8.ofNat (0x80 + n % 0x40)]

def encode (s : String) : List UInt8 :=
  s.toList.flatMap encodeChar

/-! ## Decoding -/

/-- Stands for bytes that spell no character. -/
def replacement : Char := '\ufffd'

/-- A character begun: how many bytes follow the next one, the range of the next one, and the bits
of the bytes read. -/
structure Pending where
  after : Nat
  low : Nat
  high : Nat
  bits : Nat
deriving DecidableEq, Repr

/-- The longer characters by their first byte. The narrowed ranges leave out overlong forms,
surrogates and numbers beyond the last code point. -/
def Pending.ofLead? (byte : Nat) : Option Pending :=
  if 0xC2 ≤ byte ∧ byte ≤ 0xDF then some ⟨0, 0x80, 0xBF, byte - 0xC0⟩
  else if byte = 0xE0 then some ⟨1, 0xA0, 0xBF, 0⟩
  else if byte = 0xED then some ⟨1, 0x80, 0x9F, 0xD⟩
  else if 0xE1 ≤ byte ∧ byte ≤ 0xEF then some ⟨1, 0x80, 0xBF, byte - 0xE0⟩
  else if byte = 0xF0 then some ⟨2, 0x90, 0xBF, 0⟩
  else if 0xF1 ≤ byte ∧ byte ≤ 0xF3 then some ⟨2, 0x80, 0xBF, byte - 0xF0⟩
  else if byte = 0xF4 then some ⟨2, 0x80, 0x8F, 4⟩
  else none

/-- A byte between characters: what it gives at once, and the character it begins. -/
def begin (byte : Nat) : List Char × Option Pending :=
  if byte < 0x80 then ([Char.ofNat byte], none)
  else
    match Pending.ofLead? byte with
    | some p => ([], some p)
    | none => ([replacement], none)

/-- A byte in any state: the characters it settles, and the state after it. -/
def step : Option Pending → Nat → List Char × Option Pending
  | none, byte => begin byte
  | some p, byte =>
    if p.low ≤ byte ∧ byte ≤ p.high then
      let bits := p.bits * 0x40 + byte % 0x40
      match p.after with
      | 0 => ([Char.ofNat bits], none)
      | after + 1 => ([], some ⟨after, 0x80, 0xBF, bits⟩)
    else (replacement :: (begin byte).1, (begin byte).2)

/-- The end of the bytes cuts off a character that is not complete. -/
def decodeFrom : Option Pending → List UInt8 → List Char
  | none, [] => []
  | some _, [] => [replacement]
  | state, byte :: rest => (step state byte.toNat).1 ++ decodeFrom (step state byte.toNat).2 rest

def decodeLossy (bytes : List UInt8) : String :=
  String.ofList (decodeFrom none bytes)

/-! ## Whole characters -/

theorem decodeFrom_ofNat_cons (state : Option Pending) {n : Nat} (h : n < 256)
    (rest : List UInt8) :
    decodeFrom state (UInt8.ofNat n :: rest) =
      (step state n).1 ++ decodeFrom (step state n).2 rest := by
  cases state <;> simp [decodeFrom, UInt8.toNat_ofNat_of_lt' h]

theorem step_lead {n : Nat} {p : Pending} (h : Pending.ofLead? n = some p) (hn : 0x80 ≤ n) :
    step none n = ([], some p) := by
  simp [step, begin, h, Nat.not_lt.mpr hn]

theorem step_middle {after low high bits n : Nat} (hlow : low ≤ n) (hhigh : n ≤ high) :
    step (some ⟨after + 1, low, high, bits⟩) n =
      ([], some ⟨after, 0x80, 0xBF, bits * 0x40 + n % 0x40⟩) := by
  simp [step, hlow, hhigh]

theorem step_last {low high bits n : Nat} (hlow : low ≤ n) (hhigh : n ≤ high) :
    step (some ⟨0, low, high, bits⟩) n = ([Char.ofNat (bits * 0x40 + n % 0x40)], none) := by
  simp [step, hlow, hhigh]

theorem ofLead?_two {k : Nat} (hlow : 2 ≤ k) (hhigh : k < 0x20) :
    Pending.ofLead? (0xC0 + k) = some ⟨0, 0x80, 0xBF, k⟩ := by
  rw [Pending.ofLead?, if_pos (by omega), Nat.add_sub_cancel_left]

/-- The range of the second byte keeps out overlong forms and surrogates. -/
theorem ofLead?_three {k : Nat} (hk : k < 0x10) :
    Pending.ofLead? (0xE0 + k) =
      some ⟨1, if k = 0 then 0xA0 else 0x80, if k = 0xD then 0x9F else 0xBF, k⟩ := by
  have : k = 0 ∨ k = 0xD ∨ (k ≠ 0 ∧ k ≠ 0xD) := by omega
  obtain rfl | rfl | ⟨h0, hD⟩ := this
  · rfl
  · rfl
  · rw [Pending.ofLead?, if_neg (by omega), if_neg (by omega), if_neg (by omega),
      if_pos (by omega), Nat.add_sub_cancel_left, if_neg h0, if_neg hD]

theorem ofLead?_four {k : Nat} (hk : k ≤ 4) :
    Pending.ofLead? (0xF0 + k) =
      some ⟨2, if k = 0 then 0x90 else 0x80, if k = 4 then 0x8F else 0xBF, k⟩ := by
  have : k = 0 ∨ k = 1 ∨ k = 2 ∨ k = 3 ∨ k = 4 := by omega
  obtain rfl | rfl | rfl | rfl | rfl := this <;> rfl

/-- A whole character decodes to itself and leaves the decoder between characters. -/
theorem decodeFrom_encodeChar (c : Char) (rest : List UInt8) :
    decodeFrom none (encodeChar c ++ rest) = c :: decodeFrom none rest := by
  have hvalid : c.toNat < 0xD800 ∨ 0xDFFF < c.toNat ∧ c.toNat < 0x110000 := c.valid
  have hc : Char.ofNat c.toNat = c := Char.ofNat_toNat c
  rw [encodeChar]
  generalize c.toNat = n at hvalid hc ⊢
  split
  · rename_i h
    simp [decodeFrom_ofNat_cons none (show n < 256 by omega), step, begin, h, hc]
  split
  · have hbits : n / 0x40 * 0x40 + (0x80 + n % 0x40) % 0x40 = n := by omega
    rw [List.cons_append, decodeFrom_ofNat_cons _ (by omega),
      step_lead (ofLead?_two (by omega) (by omega)) (by omega), List.nil_append,
      List.cons_append, decodeFrom_ofNat_cons _ (by omega), step_last (by omega) (by omega),
      hbits, hc]
    rfl
  split
  · have hbits : (n / 0x1000 * 0x40 + (0x80 + n / 0x40 % 0x40) % 0x40) * 0x40 +
        (0x80 + n % 0x40) % 0x40 = n := by omega
    rw [List.cons_append, decodeFrom_ofNat_cons _ (by omega),
      step_lead (ofLead?_three (by omega)) (by omega), List.nil_append, List.cons_append,
      decodeFrom_ofNat_cons _ (by omega), step_middle (by split <;> omega) (by split <;> omega),
      List.nil_append, List.cons_append, decodeFrom_ofNat_cons _ (by omega),
      step_last (by omega) (by omega), hbits, hc]
    rfl
  · have hbits : ((n / 0x40000 * 0x40 + (0x80 + n / 0x1000 % 0x40) % 0x40) * 0x40 +
        (0x80 + n / 0x40 % 0x40) % 0x40) * 0x40 + (0x80 + n % 0x40) % 0x40 = n := by omega
    rw [List.cons_append, decodeFrom_ofNat_cons _ (by omega),
      step_lead (ofLead?_four (by omega)) (by omega), List.nil_append, List.cons_append,
      decodeFrom_ofNat_cons _ (by omega), step_middle (by split <;> omega) (by split <;> omega),
      List.nil_append, List.cons_append, decodeFrom_ofNat_cons _ (by omega),
      step_middle (by omega) (by omega), List.nil_append, List.cons_append,
      decodeFrom_ofNat_cons _ (by omega), step_last (by omega) (by omega), hbits, hc]
    rfl

theorem decodeFrom_encode (cs : List Char) (rest : List UInt8) :
    decodeFrom none (cs.flatMap encodeChar ++ rest) = cs ++ decodeFrom none rest := by
  induction cs with
  | nil => rfl
  | cons c cs ih => simp [List.append_assoc, decodeFrom_encodeChar, ih]

theorem decodeLossy_encode (s : String) : decodeLossy (encode s) = s := by
  have h := decodeFrom_encode s.toList []
  simp only [List.append_nil, decodeFrom] at h
  rw [decodeLossy, encode, h, String.ofList_toList]

end JvmClass.Bytes.Utf8
