import JvmClass.LocalVariableTable

/-!
# What decoding a table gives

Records are rows of 16-bit words, and a row that runs out of bytes fails at its first word that is
not whole. How far that is depends on the bytes alone and not on the record in which they end, so a
table fails where a single row of all its words would. Three lengths decide what a table gives:
the declared one, that of the bytes which are there, and the one its count asks for.
-/

namespace JvmClass

open Bytes

namespace Reader

/-- The reader `n` bytes further on. -/
def skip (r : Reader) (n : Nat) : Reader :=
  ⟨r.position + n, r.bytes.drop n⟩

/-- The 16-bit word that stands `offset` bytes further on. -/
def wordAt (r : Reader) (offset : Nat) : UInt16 :=
  UInt16.ofNat (BigEndian.value ((r.bytes.drop offset).take 2))

/-- The error of reading words until the bytes end. -/
def wordError (r : Reader) : Error :=
  .truncated (r.position + 2 * (r.remaining / 2)) 2 (r.remaining % 2)

variable (r : Reader) (m n : Nat)

theorem skip_zero : r.skip 0 = r := rfl

theorem skip_skip : (r.skip m).skip n = r.skip (m + n) := by
  rw [skip, skip, skip, List.drop_drop, Nat.add_assoc]

theorem remaining_skip : (r.skip n).remaining = r.remaining - n :=
  List.length_drop

theorem wordAt_skip (offset : Nat) : (r.skip n).wordAt offset = r.wordAt (n + offset) := by
  rw [wordAt, wordAt, skip, List.drop_drop]

/-- Words that have been read do not change where the bytes end. -/
theorem wordError_skip (h : 2 * n ≤ r.remaining) : (r.skip (2 * n)).wordError = r.wordError := by
  have hposition : (r.skip (2 * n)).position = r.position + 2 * n := rfl
  have hdiv : r.remaining / 2 = n + (r.remaining - 2 * n) / 2 := by omega
  have hmod : (r.remaining - 2 * n) % 2 = r.remaining % 2 := by omega
  rw [wordError, wordError, remaining_skip, hposition, hmod, hdiv, Nat.mul_add, Nat.add_assoc]

end Reader

namespace Decoder

variable {α β : Type}

/-! ## Rows of words -/

/-- A decoder of `n` words, which gives `f` of them or fails at the first that is not whole. -/
structure Words (d : Decoder α) (n : Nat) (f : Reader → α) : Prop where
  ok : ∀ r, 2 * n ≤ r.remaining → d r = .ok (f r) (r.skip (2 * n))
  short : ∀ r, r.remaining < 2 * n → ∃ s, d r = .error r.wordError s

namespace Words

theorem pure (a : α) : Words (Pure.pure a) 0 fun _ => a where
  ok _ _ := rfl
  short _ h := absurd h (Nat.not_lt_zero _)

theorem u16 : Words Decoder.u16 1 fun r => r.wordAt 0 where
  ok r h := by
    have hbytes := bytes_eq 2 r
    rw [if_pos h] at hbytes
    simp only [Decoder.u16, number, bind, EStateM.bind, hbytes]
    rfl
  short r h := by
    have hbytes := bytes_eq 2 r
    rw [if_neg (Nat.not_le.mpr h)] at hbytes
    have hdiv : r.remaining / 2 = 0 := by omega
    have hmod : r.remaining % 2 = r.remaining := by omega
    refine ⟨r, ?_⟩
    rw [Reader.wordError, hdiv, hmod]
    simp only [Decoder.u16, number, bind, EStateM.bind, hbytes]
    rfl

theorem bind {d : Decoder α} {g : α → Decoder β} {m n : Nat} {f : Reader → α}
    {h : α → Reader → β} (hd : Words d m f) (hg : ∀ a, Words (g a) n (h a)) :
    Words (d >>= g) (m + n) fun r => h (f r) (r.skip (2 * m)) where
  ok r hr := by
    have hfirst := hd.ok r (by omega)
    have hrest := (hg (f r)).ok (r.skip (2 * m)) (by rw [Reader.remaining_skip]; omega)
    rw [Reader.skip_skip, ← Nat.mul_add] at hrest
    simp only [Bind.bind, EStateM.bind, hfirst, hrest]
  short r hr := by
    by_cases hm : 2 * m ≤ r.remaining
    -- The bytes end in the second decoder, whose error is that of the first reader.
    · obtain ⟨s, hs⟩ := (hg (f r)).short (r.skip (2 * m)) (by rw [Reader.remaining_skip]; omega)
      rw [Reader.wordError_skip r m hm] at hs
      refine ⟨s, ?_⟩
      simp only [Bind.bind, EStateM.bind, hd.ok r hm, hs]
    · obtain ⟨s, hs⟩ := hd.short r (Nat.not_le.mp hm)
      refine ⟨s, ?_⟩
      simp only [Bind.bind, EStateM.bind, hs]

/-! ## As many rows as there are -/

variable {d : Decoder α} {width : Nat} {f : Reader → α} (h : Words d width f)
include h

theorem available_of_le (n : Nat) (r : Reader) (hr : n * (2 * width) ≤ r.remaining) :
    d.available n r = ((List.range n).map fun k => f (r.skip (k * (2 * width))), none) := by
  induction n generalizing r with
  | zero => rfl
  | succ n ih =>
      rw [Nat.succ_mul] at hr
      have hfirst := h.ok r (by omega)
      have hrest := ih (r.skip (2 * width)) (by rw [Reader.remaining_skip]; omega)
      simp only [Reader.skip_skip] at hrest
      rw [available, hfirst]
      dsimp only
      rw [hrest, List.range_succ_eq_map, List.map_cons, List.map_map]
      simp only [Function.comp_def, Nat.succ_mul, Nat.zero_mul, Reader.skip_zero, Nat.add_comm]

theorem available_of_lt (n : Nat) (r : Reader) (hr : r.remaining < n * (2 * width)) :
    (d.available n r).2 = some r.wordError := by
  induction n generalizing r with
  | zero => omega
  | succ n ih =>
      rw [Nat.succ_mul] at hr
      by_cases hfirst : 2 * width ≤ r.remaining
      · have hrest := ih (r.skip (2 * width)) (by rw [Reader.remaining_skip]; omega)
        rw [available, h.ok r hfirst]
        exact hrest.trans (by rw [Reader.wordError_skip r width hfirst])
      · obtain ⟨s, hs⟩ := h.short r (Nat.not_le.mp hfirst)
        rw [available, hs]

/-- The rows before the one that is not whole are all given, and nothing is given of that one. -/
theorem available_fst (hwidth : 0 < width) (n : Nat) (r : Reader) :
    (d.available n r).1 =
      (List.range (min n (r.remaining / (2 * width)))).map fun k => f (r.skip (k * (2 * width))) := by
  induction n generalizing r with
  | zero => rw [Nat.zero_min]; rfl
  | succ n ih =>
      by_cases hfirst : 2 * width ≤ r.remaining
      · have hrest := ih (r.skip (2 * width))
        have hrows : min (n + 1) (r.remaining / (2 * width)) =
            min n ((r.remaining - 2 * width) / (2 * width)) + 1 := by
          rw [Nat.div_eq_sub_div (by omega) hfirst, Nat.add_min_add_right]
        simp only [Reader.skip_skip, Reader.remaining_skip] at hrest
        rw [available, h.ok r hfirst]
        dsimp only
        rw [hrest, hrows, List.range_succ_eq_map, List.map_cons, List.map_map]
        simp only [Function.comp_def, Nat.succ_mul, Nat.zero_mul, Reader.skip_zero, Nat.add_comm]
      · obtain ⟨s, hs⟩ := h.short r (Nat.not_le.mp hfirst)
        have hrows : r.remaining / (2 * width) = 0 := Nat.div_eq_of_lt (Nat.not_le.mp hfirst)
        rw [available, hs, hrows, Nat.min_zero]
        rfl

end Words

end Decoder

/-! ## Records -/

/-- The record that stands `offset` bytes further on. -/
def VariableRecord.standing (r : Reader) (offset : Nat) : VariableRecord :=
  ⟨r.wordAt offset, r.wordAt (offset + 2), r.wordAt (offset + 4), r.wordAt (offset + 6),
    r.wordAt (offset + 8)⟩

theorem VariableRecord.decode_words : decode.Words 5 fun r => standing r 0 := by
  have hwords := Decoder.Words.u16.bind fun startPc => Decoder.Words.u16.bind fun length =>
    Decoder.Words.u16.bind fun nameIndex => Decoder.Words.u16.bind fun descriptorIndex =>
    Decoder.Words.u16.bind fun index =>
      Decoder.Words.pure (VariableRecord.mk startPc length nameIndex descriptorIndex index)
  simp only [Reader.wordAt_skip] at hwords
  exact hwords

namespace LocalVariableTable

/-! ## Tables -/

/-- The variable whose record stands `offset` bytes further on. -/
def variableAt (pool : ConstantPool) (r : Reader) (offset : Nat) : LocalVariable where
  startPc := r.wordAt offset
  length := r.wordAt (offset + 2)
  name? := pool.text? (r.wordAt (offset + 4))
  descriptor? := pool.text? (r.wordAt (offset + 6))
  index := r.wordAt (offset + 8)

theorem decodeRecords_of_le {pool : ConstantPool} {name : String} {declared : Nat}
    {count : UInt16} {r : Reader} (h : 10 * fittingCount declared count.toNat ≤ r.remaining) :
    (decodeRecords pool name declared count r).value =
      .ok ⟨name, declared, (List.range (fittingCount declared count.toNat)).map fun k =>
        variableAt pool r (10 * k)⟩ := by
  rw [Nat.mul_comm] at h
  have hrecords := VariableRecord.decode_words.available_of_le _ r h
  simp only [decodeRecords, toNat_decodedCount, hrecords, List.map_map, Function.comp_def,
    Nat.mul_comm _ (2 * 5)]
  simp only [LocalVariable.ofRecord, VariableRecord.standing, Reader.wordAt_skip, variableAt,
    Nat.add_zero, Nat.zero_add]

theorem decodeRecords_of_lt {pool : ConstantPool} {name : String} {declared : Nat}
    {count : UInt16} {r : Reader} (h : r.remaining < 10 * fittingCount declared count.toNat) :
    (decodeRecords pool name declared count r).value = .error r.wordError := by
  rw [Nat.mul_comm] at h
  have hrecords := VariableRecord.decode_words.available_of_lt _ r h
  simp only [decodeRecords, toNat_decodedCount, hrecords]

variable {pool : ConstantPool} {check : LengthCheck} {name : String} {declared : Nat}
  {body : Reader}

theorem decodeBody_of_short (h : body.remaining < 2) :
    (decodeBody pool check name declared body).value =
      .error (.truncated body.position 2 body.remaining) := by
  obtain ⟨s, hs⟩ := Decoder.Words.u16.short body h
  have hdiv : body.remaining / 2 = 0 := by omega
  have hmod : body.remaining % 2 = body.remaining := by omega
  rw [Reader.wordError, hdiv, hmod] at hs
  rw [decodeBody, hs]
  rfl

theorem decodeRecords_value {count : UInt16} (h : 2 ≤ body.remaining) :
    (decodeRecords pool name declared count (body.skip 2)).value =
      if body.remaining < 2 + 10 * fittingCount declared count.toNat then .error body.wordError
      else .ok ⟨name, declared, (List.range (fittingCount declared count.toNat)).map fun k =>
        variableAt pool body (2 + 10 * k)⟩ := by
  have hremaining : (body.skip 2).remaining = body.remaining - 2 := body.remaining_skip 2
  by_cases hroom : body.remaining < 2 + 10 * fittingCount declared count.toNat
  · rw [if_pos hroom, decodeRecords_of_lt (by omega), body.wordError_skip 1 h]
  · rw [if_neg hroom, decodeRecords_of_le (by omega)]
    simp only [variableAt, Reader.wordAt_skip, Nat.add_assoc]

/-- A count without its two bytes is reported first, then a disagreement, then missing records. -/
theorem decodeBody_value (pool : ConstantPool) (check : LengthCheck) (name : String)
    (declared : Nat) (body : Reader) :
    let count := (body.wordAt 0).toNat
    let fitting := fittingCount declared count
    (decodeBody pool check name declared body).value =
      if body.remaining < 2 then .error (.truncated body.position 2 body.remaining)
      else if requiredLength count ≠ declared ∧ check = .strict then
        .error (.lengthMismatch declared (requiredLength count))
      else if body.remaining < 2 + 10 * fitting then .error body.wordError
      else .ok ⟨name, declared, (List.range fitting).map fun k =>
        variableAt pool body (2 + 10 * k)⟩ := by
  intro count fitting
  by_cases hword : body.remaining < 2
  · rw [if_pos hword, decodeBody_of_short hword]
  · have hread := Decoder.Words.u16.ok body (Nat.not_lt.mp hword)
    rw [if_neg hword, decodeBody, hread]
    dsimp only
    by_cases hmismatch : requiredLength count ≠ declared ∧ check = .strict
    · rw [if_pos hmismatch, if_pos hmismatch]
      rfl
    · rw [if_neg hmismatch, if_neg hmismatch]
      exact decodeRecords_value (Nat.not_lt.mp hword)

end LocalVariableTable

/-- What becomes of a table for every declared length, every count and any bytes. The body is what
the declared length takes in of the bytes that are there, and the reader ends up after it in every
case. -/
theorem decode_table_value (pool : ConstantPool) (check : LengthCheck) (name : String)
    (declared : Nat) (r : Reader) :
    let start := r.position
    let avail := min declared r.remaining
    let body : Reader := ⟨start, r.bytes.take declared⟩
    let n := (body.wordAt 0).toNat
    let m := if 2 + 10 * n = declared then n else min n ((declared - 2) / 10)
    let outcome := LocalVariableTable.decode pool check name declared r
    outcome.2 = ⟨start + avail, r.bytes.drop declared⟩ ∧
      outcome.1.value =
        if avail < 2 then .error (.inAttribute name start (.truncated start 2 avail))
        else if 2 + 10 * n ≠ declared ∧ check = .strict then
          .error (.inAttribute name start (.lengthMismatch declared (2 + 10 * n)))
        else if avail < 2 + 10 * m then
          .error (.inAttribute name start
            (.truncated (start + 2 * (avail / 2)) 2 (avail % 2)))
        else
          .ok ⟨name, declared, (List.range m).map fun k =>
            LocalVariableTable.variableAt pool body (2 + 10 * k)⟩ := by
  intro start avail body n m outcome
  have hremaining : body.remaining = avail := r.remaining_split_fst declared
  have hrequired : LocalVariableTable.requiredLength n = 2 + 10 * n := by
    rw [LocalVariableTable.requiredLength, VariableRecord.size, Nat.mul_comm]
  have hfitting : LocalVariableTable.fittingCount declared n = m := by
    by_cases h : 2 + 10 * n = declared
    · rw [LocalVariableTable.fittingCount_of_requiredLength (hrequired.trans h)]
      exact (if_pos h).symm
    · exact (if_neg h).symm
  have hlost : body.wordError = .truncated (start + 2 * (avail / 2)) 2 (avail % 2) := by
    rw [Reader.wordError, hremaining]
  have hvalue := LocalVariableTable.decodeBody_value pool check name declared body
  dsimp only at hvalue
  rw [hfitting, hrequired, hremaining, hlost] at hvalue
  constructor
  · rw [← hremaining]
    rfl
  · change (LocalVariableTable.decodeBody pool check name declared body).value.mapError
      (Error.inAttribute name start) = _
    rw [hvalue, apply_ite (Except.mapError _), apply_ite (Except.mapError _),
      apply_ite (Except.mapError _)]
    rfl

end JvmClass
