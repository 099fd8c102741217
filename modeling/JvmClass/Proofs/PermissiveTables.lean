import JvmClass.Proofs.Failures

/-!
# Tables in permissive mode

The two modes part only where a table has a count and declares another length than the count asks
for. There the strict one refuses the table, and the permissive one decodes as many records as the
declared length has room for, so that it can fail only if some of the declared bytes are missing.
-/

namespace JvmClass

namespace LocalVariableTable

variable {pool : ConstantPool} {name : String} {declared : Nat}

theorem requiredLength_eq (count : Nat) : requiredLength count = 2 + 10 * count := by
  rw [requiredLength, VariableRecord.size, Nat.mul_comm]

/-- The records that fit a declared length do not go beyond it. -/
theorem fittingCount_le (count : Nat) (h : 2 ≤ declared) :
    2 + 10 * fittingCount declared count ≤ declared := by
  have hroom : 10 * ((declared - 2) / 10) ≤ declared - 2 := Nat.mul_div_le _ _
  have hle : fittingCount declared count ≤ (declared - 2) / 10 := Nat.min_le_right _ _
  omega

/-- The bytes of the count are there, and it asks for another length than the declared one. -/
def Mismatched (declared : Nat) (body : Reader) : Prop :=
  2 ≤ body.remaining ∧ 2 + 10 * (body.wordAt 0).toNat ≠ declared

instance (declared : Nat) (body : Reader) : Decidable (Mismatched declared body) :=
  inferInstanceAs (Decidable (2 ≤ body.remaining ∧ 2 + 10 * (body.wordAt 0).toNat ≠ declared))

variable {body : Reader}

theorem decodeBody_of_not_mismatched (h : ¬ Mismatched declared body) :
    decodeBody pool .permissive name declared body =
      decodeBody pool .strict name declared body := by
  by_cases hshort : body.remaining < 2
  · obtain ⟨s, hs⟩ := Decoder.Words.u16.short body hshort
    rw [decodeBody, decodeBody, hs]
  · have hread := Decoder.Words.u16.ok body (Nat.not_lt.mp hshort)
    have hagrees : requiredLength (body.wordAt 0).toNat = declared := by
      rw [requiredLength_eq]
      exact not_not.mp fun hne => h ⟨Nat.not_lt.mp hshort, hne⟩
    rw [decodeBody, decodeBody, hread]
    dsimp only
    rw [if_neg (fun hmismatch => hmismatch.1 hagrees),
      if_neg (fun hmismatch => hmismatch.1 hagrees)]

theorem decodeBody_strict_of_mismatched (h : Mismatched declared body) :
    (decodeBody pool .strict name declared body).value =
      .error (.lengthMismatch declared (2 + 10 * (body.wordAt 0).toNat)) := by
  obtain ⟨hword, hne⟩ := h
  rw [← requiredLength_eq] at hne ⊢
  rw [decodeBody_value, if_neg (Nat.not_lt.mpr hword), if_pos ⟨hne, rfl⟩]

theorem decodeBody_permissive_value (pool : ConstantPool) (name : String) (declared : Nat)
    (h : 2 ≤ body.remaining) :
    (decodeBody pool .permissive name declared body).value =
      let fitting := fittingCount declared (body.wordAt 0).toNat
      if body.remaining < 2 + 10 * fitting then .error body.wordError
      else .ok ⟨name, declared, (List.range fitting).map fun k =>
        variableAt pool body (2 + 10 * k)⟩ := by
  have hlenient {count : Nat} :
      ¬ (requiredLength count ≠ declared ∧ LengthCheck.permissive = .strict) :=
    fun hmismatch => nomatch hmismatch.2
  rw [decodeBody_value, if_neg (Nat.not_lt.mpr h), if_neg hlenient]

/-- The count stands in the first two bytes, which no declared length of at least two cuts off. -/
theorem take_two_of_mismatched {r : Reader} (h : Mismatched declared (r.split declared).1) :
    r.bytes.take 2 = Encoder.u16 ((r.split declared).1.wordAt 0) := by
  have hread := Decoder.u16_eq_ok_iff.mp (Decoder.Words.u16.ok _ h.1)
  have hlength : 2 ≤ min declared r.remaining := r.remaining_split_fst declared ▸ h.1
  have htake : (r.bytes.take declared).take 2 = r.bytes.take 2 := by
    rw [List.take_take, Nat.min_eq_left (by omega)]
  rw [← htake]
  exact (congrArg (List.take 2) hread.1).trans (List.take_left' (Encoder.length_u16 _))

/-! ## From the position of a reader -/

variable {r : Reader}

theorem decode_of_not_mismatched (h : ¬ Mismatched declared (r.split declared).1) :
    decode pool .permissive name declared r = decode pool .strict name declared r := by
  simp only [decode, decodeBody_of_not_mismatched h]

theorem decode_strict_of_mismatched (h : Mismatched declared (r.split declared).1) :
    (decode pool .strict name declared r).1.value = .error (.inAttribute name r.position
      (.lengthMismatch declared (2 + 10 * ((r.split declared).1.wordAt 0).toNat))) :=
  congrArg (Except.mapError _) (decodeBody_strict_of_mismatched h)

/-- Records that fit the declared length can be missing only where declared bytes are. -/
theorem decode_permissive_of_mismatched (h : Mismatched declared (r.split declared).1) :
    (∃ table, (decode pool .permissive name declared r).1.value = .ok table ∧
      table.size = fittingCount declared ((r.split declared).1.wordAt 0).toNat) ∨
    ∃ offset remaining, r.remaining < declared ∧
      (decode pool .permissive name declared r).1.value =
        .error (.inAttribute name r.position (.truncated offset 2 remaining)) := by
  let body := (r.split declared).1
  have hword : 2 ≤ body.remaining := h.1
  have hremaining : body.remaining = min declared r.remaining := r.remaining_split_fst declared
  have hfits := fittingCount_le (body.wordAt 0).toNat (show 2 ≤ declared by omega)
  have hbody := decodeBody_permissive_value pool name declared hword
  by_cases hroom : body.remaining < 2 + 10 * fittingCount declared (body.wordAt 0).toNat
  · rw [if_pos hroom] at hbody
    exact .inr ⟨_, _, by omega, congrArg (Except.mapError _) hbody⟩
  · rw [if_neg hroom] at hbody
    refine .inl ⟨_, congrArg (Except.mapError _) hbody, ?_⟩
    rw [size, List.length_map, List.length_range]

theorem rootCause_of_permissive {e : Error}
    (h : (decode pool .permissive name declared r).1.value = .error e) :
    ∃ offset needed remaining, e.rootCause = .truncated offset needed remaining := by
  obtain ⟨cause, hcause, rfl⟩ := decode_eq_error h
  obtain ⟨offset, needed, remaining, rfl, -⟩ | ⟨-, -, -, hcheck⟩ := decodeBody_eq_error hcause
  · exact ⟨offset, needed, remaining, rfl⟩
  · cases hcheck

end LocalVariableTable

open LocalVariableTable in
/-- What strict decoding makes of a table, permissive decoding makes of it too, with the same log
and on the same bytes, unless the declared length is the only thing wrong with it. Then as many
records are decoded as fit in that length, if its bytes are there. -/
theorem permissive_extends_strict (pool : ConstantPool) (name : String) (declared : Nat)
    (r : Reader) :
    let strict := decode pool .strict name declared r
    let permissive := decode pool .permissive name declared r
    permissive.2 = strict.2 ∧
      match strict.1.value with
      | .ok _ => permissive.1 = strict.1
      | .error e =>
        match e.rootCause with
        | .truncated _ _ _ => permissive.1 = strict.1
        | .lengthMismatch length required =>
          ∃ count : UInt16, r.bytes.take 2 = Encoder.u16 count ∧ length = declared ∧
            required = 2 + 10 * count.toNat ∧ required ≠ declared ∧
            ((∃ table, permissive.1.value = .ok table ∧
                table.size = min count.toNat ((declared - 2) / 10)) ∨
              ∃ offset remaining, r.remaining < declared ∧
                permissive.1.value =
                  .error (.inAttribute name r.position (.truncated offset 2 remaining)))
        | _ => False := by
  intro strict permissive
  refine ⟨rfl, ?_⟩
  by_cases hmismatched : Mismatched declared (r.split declared).1
  · have hstrict : strict.1.value = _ := decode_strict_of_mismatched hmismatched
    rw [hstrict]
    exact ⟨_, take_two_of_mismatched hmismatched, rfl, rfl, hmismatched.2,
      decode_permissive_of_mismatched hmismatched⟩
  · have hsame : permissive = strict := decode_of_not_mismatched hmismatched
    cases hvalue : strict.1.value with
    | ok table => exact congrArg Prod.fst hsame
    | error e =>
        obtain ⟨offset, needed, remaining, hroot⟩ := rootCause_of_permissive (hsame ▸ hvalue)
        dsimp only
        rw [hroot]
        exact congrArg Prod.fst hsame

end JvmClass
