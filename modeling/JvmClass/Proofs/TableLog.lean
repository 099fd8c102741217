import JvmClass.Proofs.PermissiveTables

/-!
# What is logged of a table

The log of a table accounts for the records that were decoded, also where the bytes end in the
middle of one: each record is traced once all its fields have been read, with the references of it
that lead nowhere behind it. Before the first one there may be a warning, which announces how many
records will be decoded.
-/

namespace JvmClass

/-! ## Records -/

namespace VariableRecord

/-- A record of a table with its fields as they were read. -/
def traced (v : VariableRecord) : Log.Record where
  level := .trace
  source := .localVariableTable
  message :=
    "local variable: start_pc=" ++ toString v.startPc ++ " length=" ++ toString v.length ++
      " name_index=" ++ toString v.nameIndex ++ " descriptor_index=" ++
      toString v.descriptorIndex ++ " index=" ++ toString v.index

/-- A reference that leads to no text. -/
def unresolved (index : UInt16) : Log.Record where
  level := .debug
  source := .localVariableTable
  message := "Constant pool index " ++ toString index ++ " is not a Utf8 entry"

/-- The references that are given and lead to no text, that of the name before that of the
descriptor. -/
def danglingReferences (pool : ConstantPool) (v : VariableRecord) : List UInt16 :=
  [v.nameIndex, v.descriptorIndex].filter fun index => index ≠ 0 ∧ pool.text? index = none

theorem referenceLog_eq (pool : ConstantPool) (index : UInt16) :
    referenceLog pool index =
      ([index].filter fun index => index ≠ 0 ∧ pool.text? index = none).map unresolved := by
  rw [referenceLog]
  by_cases hdangling : index ≠ 0 ∧ pool.text? index = none
  · rw [if_pos hdangling, List.filter_cons, if_pos (decide_eq_true hdangling)]
    rfl
  · rw [if_neg hdangling, List.filter_cons, if_neg (mt of_decide_eq_true hdangling)]
    rfl

theorem log_eq (pool : ConstantPool) (v : VariableRecord) :
    v.log pool = v.traced :: (v.danglingReferences pool).map unresolved := by
  have htraced : v.log pool =
      v.traced :: referenceLog pool v.nameIndex ++ referenceLog pool v.descriptorIndex := by
    simp only [log, traced, String.append_assoc]
    rfl
  rw [htraced, referenceLog_eq, referenceLog_eq, List.cons_append, ← List.map_append,
    ← List.filter_append]
  rfl

/-- One trace for each record, whatever its references are. -/
theorem countP_trace_log (pool : ConstantPool) (v : VariableRecord) :
    (v.log pool).countP (fun record => record.level == .trace) = 1 := by
  have hnone : ((v.danglingReferences pool).map unresolved).countP
      (fun record => record.level == .trace) = 0 := by
    rw [List.countP_eq_zero]
    intro record hmem
    obtain ⟨index, -, rfl⟩ := List.mem_map.mp hmem
    exact Bool.false_ne_true
  rw [log_eq, List.countP_cons_of_pos rfl, hnone]

end VariableRecord

namespace LocalVariableTable

open VariableRecord (standing)

/-- The warning about a declared length that disagrees with the count. -/
def mismatchWarning (declared count decoded : Nat) : Log.Record where
  level := .warn
  source := .localVariableTable
  message :=
    "LocalVariableTable declares " ++ toString declared ++ " bytes but " ++ toString count ++
      " records need " ++ toString (2 + 10 * count) ++ ", decoding " ++ toString decoded

theorem mismatchLog_eq (declared count : Nat) :
    mismatchLog declared count =
      if 2 + 10 * count = declared then []
      else [mismatchWarning declared count (fittingCount declared count)] := by
  have hname (rest : String) :
      attributeName ++ (" declares " ++ rest) = "LocalVariableTable declares " ++ rest :=
    (String.append_assoc).symm
  have hcomma (rest : String) : "," ++ (" decoding " ++ rest) = ", decoding " ++ rest :=
    (String.append_assoc).symm
  rw [mismatchLog, requiredLength_eq]
  by_cases hagrees : 2 + 10 * count = declared
  · rw [if_pos hagrees, if_pos hagrees]
  · rw [if_neg hagrees, if_neg hagrees, mismatchWarning]
    simp only [toString, String.append_assoc, hname, hcomma]

variable {pool : ConstantPool} {check : LengthCheck} {name : String} {declared : Nat}
  {body : Reader}

/-- Decoding ends at the count or right behind it, before any record. -/
def EndsEarly (check : LengthCheck) (declared : Nat) (body : Reader) : Prop :=
  body.remaining < 2 ∨ 2 + 10 * (body.wordAt 0).toNat ≠ declared ∧ check = .strict

instance : Decidable (EndsEarly check declared body) :=
  inferInstanceAs (Decidable (body.remaining < 2 ∨
    2 + 10 * (body.wordAt 0).toNat ≠ declared ∧ check = .strict))

/-- How many records are read to their end. -/
def completeCount (check : LengthCheck) (declared : Nat) (body : Reader) : Nat :=
  if EndsEarly check declared body then 0
  else min (fittingCount declared (body.wordAt 0).toNat) ((body.remaining - 2) / 10)

/-- What is logged before the first record. -/
def warnings (check : LengthCheck) (declared : Nat) (body : Reader) : List Log.Record :=
  let count := (body.wordAt 0).toNat
  if check = .permissive ∧ Mismatched declared body then
    [mismatchWarning declared count (fittingCount declared count)]
  else []

theorem warnings_of_endsEarly (h : EndsEarly check declared body) :
    warnings check declared body = [] := by
  apply if_neg
  rintro ⟨hcheck, hword, -⟩
  rcases h with hshort | ⟨-, hstrict⟩
  · omega
  · cases hcheck.symm.trans hstrict

theorem warnings_of_not_endsEarly (h : ¬ EndsEarly check declared body) :
    warnings check declared body = mismatchLog declared (body.wordAt 0).toNat := by
  obtain ⟨hshort, hrefused⟩ := not_or.mp h
  rw [mismatchLog_eq, warnings]
  by_cases hagrees : 2 + 10 * (body.wordAt 0).toNat = declared
  · rw [if_pos hagrees, if_neg fun hwarned => hwarned.2.2 hagrees]
  · have hcheck : check = .permissive := by
      cases check with
      | strict => exact absurd ⟨hagrees, rfl⟩ hrefused
      | permissive => rfl
    rw [if_neg hagrees, if_pos ⟨hcheck, Nat.not_lt.mp hshort, hagrees⟩]

/-- Behind the count every whole record is logged that the declared length has room for. -/
theorem decodeBody_log (pool : ConstantPool) (check : LengthCheck) (name : String)
    (declared : Nat) (body : Reader) :
    (decodeBody pool check name declared body).log =
      warnings check declared body ++
        (List.range (completeCount check declared body)).flatMap fun k =>
          (standing body (2 + 10 * k)).log pool := by
  by_cases hearly : EndsEarly check declared body
  · rw [warnings_of_endsEarly hearly, completeCount, if_pos hearly]
    by_cases hshort : body.remaining < 2
    · obtain ⟨s, hs⟩ := Decoder.Words.u16.short body hshort
      rw [decodeBody, hs]
      rfl
    · have hrefused := hearly.resolve_left hshort
      rw [← requiredLength_eq] at hrefused
      rw [decodeBody, Decoder.Words.u16.ok body (Nat.not_lt.mp hshort)]
      dsimp only
      rw [if_pos hrefused]
      rfl
  · obtain ⟨hshort, hrefused⟩ := not_or.mp hearly
    have hrecords := VariableRecord.decode_words.available_fst (by decide)
      (fittingCount declared (body.wordAt 0).toNat) (body.skip 2)
    rw [body.remaining_skip 2] at hrecords
    rw [← requiredLength_eq] at hrefused
    rw [warnings_of_not_endsEarly hearly, completeCount, if_neg hearly, decodeBody,
      Decoder.Words.u16.ok body (Nat.not_lt.mp hshort)]
    dsimp only
    rw [if_neg hrefused, decodeRecords, toNat_decodedCount]
    change mismatchLog declared _ ++ (VariableRecord.decode.available _ (body.skip 2)).1.flatMap
      (VariableRecord.log pool) = _
    rw [hrecords, List.flatMap_map]
    simp only [standing, Reader.wordAt_skip, Nat.add_assoc, Nat.mul_comm _ (2 * 5)]
    rfl

theorem countP_trace_decodeBody (pool : ConstantPool) (check : LengthCheck) (name : String)
    (declared : Nat) (body : Reader) :
    (decodeBody pool check name declared body).log.countP (fun record => record.level == .trace) =
      completeCount check declared body := by
  have hwarnings : (warnings check declared body).countP
      (fun record => record.level == .trace) = 0 := by
    rw [warnings]
    split <;> rfl
  rw [decodeBody_log, List.countP_append, hwarnings, Nat.zero_add, List.countP_flatMap]
  simp only [Function.comp_def, VariableRecord.countP_trace_log, List.map_const',
    List.length_range, List.sum_replicate_nat, Nat.mul_one]

/-- A table that is decoded holds all the records the declared length has room for. -/
theorem decodeBody_eq_ok {table : LocalVariableTable}
    (h : (decodeBody pool check name declared body).value = .ok table) :
    table.size = fittingCount declared (body.wordAt 0).toNat ∧
      completeCount check declared body = fittingCount declared (body.wordAt 0).toNat := by
  rw [decodeBody_value, requiredLength_eq] at h
  split at h
  · cases h
  rename_i hshort
  split at h
  · cases h
  rename_i hrefused
  split at h
  · cases h
  rename_i hroom
  cases h
  have hlate : ¬ EndsEarly check declared body := not_or.mpr ⟨hshort, hrefused⟩
  rw [size, List.length_map, List.length_range, completeCount, if_neg hlate]
  omega

/-- Where the bytes end, in the count or in a record, all the records before have been read. -/
theorem decodeBody_eq_truncated {offset needed remaining : Nat}
    (h : (decodeBody pool check name declared body).value =
      .error (.truncated offset needed remaining)) :
    completeCount check declared body = (body.remaining - 2) / 10 ∧
      completeCount check declared body = (offset - (body.position + 2)) / 10 := by
  rw [decodeBody_value, requiredLength_eq] at h
  split at h
  · rename_i hshort
    cases h
    rw [completeCount, if_pos (.inl hshort)]
    omega
  rename_i hshort
  split at h
  · cases h
  rename_i hrefused
  split at h
  · rename_i hroom
    obtain ⟨rfl, -, -⟩ := Error.truncated.inj (Except.error.inj h)
    have hlate : ¬ EndsEarly check declared body := not_or.mpr ⟨hshort, hrefused⟩
    rw [completeCount, if_neg hlate]
    omega
  · cases h

end LocalVariableTable

open LocalVariableTable VariableRecord in
/-- The log of a table is a warning, if the count and the declared length disagree and the table is
decoded nevertheless, and then for each record that was read to its end a trace of its fields with
the references that lead nowhere. There are as many of them as the warning announces if the table
is decoded, and otherwise as many as are complete before the word that is not. -/
theorem table_log_accounts (pool : ConstantPool) (check : LengthCheck) (name : String)
    (declared : Nat) (r : Reader) :
    let start := r.position
    let avail := min declared r.remaining
    let body : Reader := ⟨start, r.bytes.take declared⟩
    let count := (body.wordAt 0).toNat
    let fitting := min count ((declared - 2) / 10)
    let complete :=
      if avail < 2 ∨ 2 + 10 * count ≠ declared ∧ check = .strict then 0
      else min fitting ((avail - 2) / 10)
    let outcome := (LocalVariableTable.decode pool check name declared r).1
    outcome.log =
        (if check = .permissive ∧ 2 ≤ avail ∧ 2 + 10 * count ≠ declared then
          [mismatchWarning declared count fitting] else []) ++
          (List.range complete).flatMap (fun k =>
            let v := standing body (2 + 10 * k)
            v.traced :: (v.danglingReferences pool).map unresolved) ∧
      outcome.log.countP (fun record => record.level == .trace) = complete ∧
      (∀ table, outcome.value = .ok table → table.size = fitting ∧ complete = fitting) ∧
      ∀ offset needed remaining,
        outcome.value = .error (.inAttribute name start (.truncated offset needed remaining)) →
          complete = (avail - 2) / 10 ∧ complete = (offset - (start + 2)) / 10 := by
  intro start avail body count fitting complete outcome
  have hremaining : body.remaining = avail := r.remaining_split_fst declared
  have hlog : outcome.log = (decodeBody pool check name declared body).log := rfl
  have hcomplete : completeCount check declared body = complete := by
    unfold completeCount EndsEarly
    simp only [hremaining]
    rfl
  have hwarnings : warnings check declared body =
      if check = .permissive ∧ 2 ≤ avail ∧ 2 + 10 * count ≠ declared then
        [mismatchWarning declared count fitting] else [] := by
    unfold warnings Mismatched
    simp only [hremaining]
    rfl
  refine ⟨?_, ?_, ?_, ?_⟩
  · rw [hlog, decodeBody_log, hwarnings, hcomplete]
    simp only [log_eq]
  · rw [hlog, countP_trace_decodeBody, hcomplete]
  · intro table htable
    have hbody : (decodeBody pool check name declared body).value = .ok table :=
      decode_eq_ok htable
    rw [← hcomplete]
    exact decodeBody_eq_ok hbody
  · intro offset needed remaining herror
    obtain ⟨cause, hbody, he⟩ := decode_eq_error herror
    obtain ⟨-, -, rfl⟩ := Error.inAttribute.inj he
    rw [← hcomplete, ← hremaining]
    exact decodeBody_eq_truncated hbody

open LocalVariableTable VariableRecord in
/-- A table that claims three records. With room for two in its declared length, but bytes for one
and a part of the next, it is announced with two and fails after the first. With room for one it is
decoded. -/
theorem table_log_accounts_cut :
    let pool := ConstantPool.ofSlots [.utf8 "I"]
    let r : Reader := ⟨40, [0, 3, 0, 0, 0, 5, 0, 9, 0, 1, 0, 2, 0, 5, 0]⟩
    let first : VariableRecord := ⟨0, 5, 9, 1, 2⟩
    let cut := (LocalVariableTable.decode pool .permissive "T" 25 r).1
    let whole := (LocalVariableTable.decode pool .permissive "T" 13 r).1
    cut.value = .error (.inAttribute "T" 40 (.truncated 54 2 1)) ∧
      cut.log = [mismatchWarning 25 3 2, first.traced, unresolved 9] ∧
      cut.log.countP (fun record => record.level == .trace) = (54 - 42) / 10 ∧
      whole.value = .ok ⟨"T", 13, [⟨0, 5, none, some "I", 2⟩]⟩ ∧
      whole.log = [mismatchWarning 13 3 1, first.traced, unresolved 9] := by
  intro pool r first cut whole
  have herror : cut.value = .error (.inAttribute "T" 40 (.truncated 54 2 1)) := rfl
  have hok : whole.value = .ok ⟨"T", 13, [⟨0, 5, none, some "I", 2⟩]⟩ := rfl
  obtain ⟨hcut, htraces, -, htruncated⟩ := table_log_accounts pool .permissive "T" 25 r
  obtain ⟨hwhole, -, hdecoded, -⟩ := table_log_accounts pool .permissive "T" 13 r
  have hcount := (hdecoded _ hok).2
  rw [hcount] at hwhole
  refine ⟨herror, hcut.trans ?_, htraces.trans (htruncated _ _ _ herror).2, hok, hwhole.trans ?_⟩
  · decide +kernel
  · decide +kernel

end JvmClass
