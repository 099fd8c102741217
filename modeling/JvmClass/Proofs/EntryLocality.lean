import JvmClass.Proofs.Declarations
import JvmClass.Proofs.TableDecoding
import JvmClass.Proofs.WrittenOutline

/-!
# Entries on their own

Which records a table holds is settled by its bytes alone. The constant pool decides about each of
them by itself: a reference that leads nowhere, or to a text that is no descriptor, takes the line
of its own entry away and leaves the entries around it, their order and the success of decoding as
they are.
-/

namespace JvmClass

/-- Bytes in the place of as many others are seen in this place only. -/
theorem getElem?_replace {front middle middle' back : List UInt8}
    (hlength : middle'.length = middle.length) {i : Nat}
    (hi : i < front.length ∨ front.length + middle.length ≤ i) :
    (front ++ middle' ++ back)[i]? = (front ++ middle ++ back)[i]? := by
  cases hi with
  | inl hbefore =>
      rw [List.append_assoc, List.append_assoc, List.getElem?_append_left hbefore,
        List.getElem?_append_left hbefore]
  | inr hafter =>
      rw [List.getElem?_append_right (by rw [List.length_append]; omega),
        List.getElem?_append_right (by rw [List.length_append]; omega), List.length_append,
        List.length_append, hlength]

theorem filterMap_append_cons {α β : Type} (f : α → Option β) (before after : List α) (x : α) :
    (before ++ x :: after).filterMap f =
      before.filterMap f ++ (f x).toList ++ after.filterMap f := by
  rw [List.filterMap_append, List.append_assoc]
  cases hx : f x with
  | none => rw [List.filterMap_cons_none hx, Option.toList_none, List.nil_append]
  | some y => rw [List.filterMap_cons_some hx, Option.toList_some, List.singleton_append]

/-! ## Records -/

theorem Reader.wordAt_congr {r s : Reader} {offset : Nat}
    (h : ∀ i, offset ≤ i → i < offset + 2 → s.bytes[i]? = r.bytes[i]?) :
    s.wordAt offset = r.wordAt offset := by
  have hword : (s.bytes.drop offset).take 2 = (r.bytes.drop offset).take 2 := by
    apply List.ext_getElem?
    intro i
    rw [List.getElem?_take, List.getElem?_take, List.getElem?_drop, List.getElem?_drop]
    by_cases hi : i < 2
    · rw [if_pos hi, if_pos hi, h _ (Nat.le_add_right _ _) (by omega)]
    · rw [if_neg hi, if_neg hi]
  rw [wordAt, wordAt, hword]

namespace VariableRecord

@[simp] theorem length_encode (v : VariableRecord) : v.encode.length = 10 := by
  simp [encode]

theorem standing_congr {r s : Reader} {offset : Nat}
    (h : ∀ i, offset ≤ i → i < offset + 10 → s.bytes[i]? = r.bytes[i]?) :
    standing s offset = standing r offset := by
  have hword (field : Nat) (hfield : field ≤ 8) :
      s.wordAt (offset + field) = r.wordAt (offset + field) :=
    Reader.wordAt_congr fun i hlower hupper => h i (by omega) (by omega)
  rw [standing, standing, hword 2 (by decide), hword 4 (by decide), hword 6 (by decide),
    hword 8 (by decide), ← Nat.add_zero offset, hword 0 (by decide)]

theorem decode_skip {r : Reader} {offset : Nat} (h : offset + 10 ≤ r.remaining) :
    decode (r.skip offset) = .ok (standing r offset) ((r.skip offset).skip 10) := by
  have hread := decode_words.ok (r.skip offset) (by rw [Reader.remaining_skip]; omega)
  simp only [standing, Reader.wordAt_skip] at hread
  exact hread

theorem standing_of_drop {r : Reader} {offset : Nat} {v : VariableRecord} {rest : List UInt8}
    (h : r.bytes.drop offset = v.encode ++ rest) : standing r offset = v := by
  have hroom : offset + 10 ≤ r.remaining := by
    have hlength := congrArg List.length h
    rw [List.length_drop, List.length_append, length_encode] at hlength
    rw [Reader.remaining]
    omega
  have hread := decode_skip hroom
  rw [Reader.skip, h, decode_append] at hread
  cases hread
  rfl

theorem encode_injective : Function.Injective encode := by
  intro v w h
  have hstanding (u : VariableRecord) : standing ⟨0, u.encode⟩ 0 = u :=
    standing_of_drop (List.append_nil _).symm
  rw [← hstanding v, h, hstanding w]

/-- The record that stands somewhere is written there. -/
theorem encode_standing {r : Reader} {offset : Nat} (h : offset + 10 ≤ r.remaining) :
    (r.bytes.drop offset).take 10 = (standing r offset).encode := by
  have hread := decode_skip h
  simp only [decode, Decoder.bind_eq_ok_iff, Decoder.u16_eq_ok_iff, Decoder.pure_eq_ok_iff] at hread
  obtain ⟨startPc, s₁, hstart, length, s₂, hlength, nameIndex, s₃, hname, descriptorIndex, s₄,
    hdescriptor, index, s₅, hindex, hrecord, -⟩ := hread
  have hmoves := (((hstart.append hlength).append hname).append hdescriptor).append hindex
  rw [← hrecord]
  exact (congrArg (List.take 10) hmoves.1).trans (List.take_left' rfl)

end VariableRecord

/-! ## Tables -/

namespace LocalVariableTable

variable {pool : ConstantPool} {check : LengthCheck} {name : String} {declared : Nat} {r : Reader}

/-- The records of the table at the reader's position, or why it has none. -/
def recordsAt (check : LengthCheck) (name : String) (declared : Nat) (r : Reader) :
    Except Error (List VariableRecord) :=
  let body := (r.split declared).1
  let count := (body.wordAt 0).toNat
  let fitting := fittingCount declared count
  let records : Except Error (List VariableRecord) :=
    if body.remaining < 2 then .error (.truncated body.position 2 body.remaining)
    else if requiredLength count ≠ declared ∧ check = .strict then
      .error (.lengthMismatch declared (requiredLength count))
    else if body.remaining < 2 + 10 * fitting then .error body.wordError
    else .ok ((List.range fitting).map fun k => VariableRecord.standing body (2 + 10 * k))
  records.mapError (.inAttribute name r.position)

/-- The pool has a part in the entries only, once the records are there. -/
theorem value_decode (pool : ConstantPool) :
    (decode pool check name declared r).1.value = (recordsAt check name declared r).map
      fun records => ⟨name, declared, records.map (LocalVariable.ofRecord pool)⟩ := by
  change Except.mapError (Error.inAttribute name r.position)
    (decodeBody pool check name declared (r.split declared).1).value = _
  rw [decodeBody_value, recordsAt]
  split
  · rfl
  split
  · rfl
  split
  · rfl
  · simp only [Except.mapError, Except.map, List.map_map]
    rfl

theorem recordsAt_eq_ok {records : List VariableRecord}
    (h : recordsAt check name declared r = .ok records) :
    2 + 10 * records.length ≤ (r.split declared).1.remaining ∧
      records = (List.range records.length).map fun k =>
        VariableRecord.standing (r.split declared).1 (2 + 10 * k) := by
  rw [recordsAt] at h
  split at h
  · cases h
  split at h
  · cases h
  split at h
  · cases h
  · rename_i hroom
    cases h
    rw [List.length_map, List.length_range]
    exact ⟨Nat.not_lt.mp hroom, rfl⟩

theorem getElem?_recordsAt {records : List VariableRecord}
    (h : recordsAt check name declared r = .ok records) {k : Nat} {v : VariableRecord}
    (hv : records[k]? = some v) : (r.bytes.drop (2 + 10 * k)).take 10 = v.encode := by
  obtain ⟨hroom, hrecords⟩ := recordsAt_eq_ok h
  obtain ⟨hk, -⟩ := List.getElem?_eq_some_iff.mp hv
  rw [hrecords, List.getElem?_map, List.getElem?_range hk, Option.map_some] at hv
  have hremaining := r.remaining_split_fst declared
  have hstanding : ((r.split declared).1.bytes.drop (2 + 10 * k)).take 10 = _ :=
    VariableRecord.encode_standing (by omega)
  rw [Option.some.inj hv] at hstanding
  rw [← hstanding, Reader.split]
  dsimp only
  rw [List.drop_take, List.take_take, Nat.min_eq_left (by omega)]

/-- Another reader with as many bytes and the same count has as many records. -/
theorem recordsAt_congr {s : Reader} {records : List VariableRecord}
    (hremaining : s.remaining = r.remaining)
    (hcount : (s.split declared).1.wordAt 0 = (r.split declared).1.wordAt 0)
    (h : recordsAt check name declared r = .ok records) :
    recordsAt check name declared s = .ok ((List.range records.length).map fun k =>
      VariableRecord.standing (s.split declared).1 (2 + 10 * k)) := by
  have hbody : (s.split declared).1.remaining = (r.split declared).1.remaining := by
    rw [Reader.remaining_split_fst, Reader.remaining_split_fst, hremaining]
  rw [recordsAt] at h ⊢
  rw [hbody, hcount]
  split at h
  · cases h
  rename_i hword
  split at h
  · cases h
  rename_i hchecked
  split at h
  · cases h
  rename_i hroom
  cases h
  rw [if_neg hword, if_neg hchecked, if_neg hroom, List.length_map, List.length_range]
  rfl

/-- The bytes of one record hold this record and no other one. -/
theorem recordsAt_replace {front back : List UInt8} {v : VariableRecord} {position k : Nat}
    {records : List VariableRecord} (hfront : front.length = 2 + 10 * k)
    (h : recordsAt check name declared ⟨position, front ++ v.encode ++ back⟩ = .ok records)
    (hk : k < records.length) (v' : VariableRecord) :
    recordsAt check name declared ⟨position, front ++ v'.encode ++ back⟩ =
      .ok (records.set k v') := by
  let r : Reader := ⟨position, front ++ v.encode ++ back⟩
  let s : Reader := ⟨position, front ++ v'.encode ++ back⟩
  have hok : recordsAt check name declared r = .ok records := h
  obtain ⟨hroom, hrecords⟩ := recordsAt_eq_ok hok
  have hsame (i : Nat) (hi : i < 2 + 10 * k ∨ 2 + 10 * k + 10 ≤ i) :
      (s.split declared).1.bytes[i]? = (r.split declared).1.bytes[i]? := by
    have hbytes : s.bytes[i]? = r.bytes[i]? := by
      apply getElem?_replace
      · rw [VariableRecord.length_encode, VariableRecord.length_encode]
      · rwa [VariableRecord.length_encode, hfront]
    simp only [Reader.split, List.getElem?_take, hbytes]
  have hremaining : s.remaining = r.remaining := by
    simp only [s, r, Reader.remaining, List.length_append, VariableRecord.length_encode]
  have hcount : (s.split declared).1.wordAt 0 = (r.split declared).1.wordAt 0 :=
    Reader.wordAt_congr fun i _ hi => hsame i (.inl (by omega))
  -- The ten bytes are among the declared ones, for a record of the table stands there.
  have hdeclared : 2 + 10 * k + 10 ≤ declared := by
    have hle := r.remaining_split_fst declared
    omega
  have hnew : VariableRecord.standing (s.split declared).1 (2 + 10 * k) = v' := by
    have hwhole : v'.encode.take (declared - (2 + 10 * k)) = v'.encode := by
      apply List.take_of_length_le
      rw [VariableRecord.length_encode]
      omega
    have hdrop : (s.split declared).1.bytes.drop (2 + 10 * k) =
        v'.encode ++ back.take (declared - (2 + 10 * k) - 10) := by
      simp only [s, Reader.split]
      rw [List.append_assoc, List.drop_take, List.drop_left' hfront, List.take_append, hwhole,
        VariableRecord.length_encode]
    exact VariableRecord.standing_of_drop hdrop
  refine (recordsAt_congr hremaining hcount hok).trans (congrArg Except.ok ?_)
  apply List.ext_getElem?
  intro j
  rw [List.getElem?_set]
  by_cases hj : j < records.length
  · rw [List.getElem?_map, List.getElem?_range hj, Option.map_some]
    by_cases hkj : k = j
    · subst hkj
      rw [if_pos rfl, if_pos hk, hnew]
    · rw [if_neg hkj, hrecords, List.getElem?_map, List.getElem?_range hj, Option.map_some]
      congr 1
      exact VariableRecord.standing_congr fun i hlower hupper => hsame i (by omega)
  · have hlength := Nat.not_lt.mp hj
    rw [if_neg (by omega), List.getElem?_eq_none hlength, List.getElem?_eq_none (by
      rw [List.length_map, List.length_range]
      exact hlength)]

/-- A record in the place of another one gives its entry in the place of the other one's. -/
theorem decode_replace {front back : List UInt8} {v : VariableRecord} {position k : Nat}
    {table : LocalVariableTable} (hfront : front.length = 2 + 10 * k)
    (h : (decode pool check name declared ⟨position, front ++ v.encode ++ back⟩).1.value =
      .ok table) (hk : k < table.size) (v' : VariableRecord) :
    ∃ (before after : List LocalVariable) (e : LocalVariable), before.length = k ∧
      table.entries = before ++ e :: after ∧
      (decode pool check name declared ⟨position, front ++ v'.encode ++ back⟩).1.value =
        .ok ⟨name, declared, before ++ LocalVariable.ofRecord pool v' :: after⟩ := by
  rw [value_decode] at h ⊢
  cases hrecords : recordsAt check name declared ⟨position, front ++ v.encode ++ back⟩ with
  | error e =>
      rw [hrecords] at h
      cases h
  | ok records =>
      rw [hrecords] at h
      cases h
      rw [size, List.length_map] at hk
      let entry := LocalVariable.ofRecord pool
      have hentries : records.map entry =
          (records.take k).map entry ++ entry records[k] :: (records.drop (k + 1)).map entry := by
        rw [← List.map_cons, ← List.map_append, List.getElem_cons_drop, List.take_append_drop]
      have hentries' : (records.set k v').map entry =
          (records.take k).map entry ++ entry v' :: (records.drop (k + 1)).map entry := by
        rw [List.set_eq_take_append_cons_drop, if_pos hk, List.map_append, List.map_cons]
      refine ⟨(records.take k).map entry, (records.drop (k + 1)).map entry, entry records[k],
        ?_, hentries, ?_⟩
      · rw [List.length_map, List.length_take, Nat.min_eq_left (Nat.le_of_lt hk)]
      · rw [recordsAt_replace hfront hrecords hk, ← hentries']
        rfl

end LocalVariableTable

/-! ## Spoiled entries -/

/-- A record in the place of another one that differs from it in one reference: its name leads to no
text, or its descriptor to no text that spells a type. -/
def VariableRecord.Spoils (pool : ConstantPool) (v v' : VariableRecord) : Prop :=
  ∃ i, (v' = { v with nameIndex := i } ∧ pool.text? i = none) ∨
    (v' = { v with descriptorIndex := i } ∧ ∀ d ∈ pool.text? i, ¬ Descriptor.SpellsType d)

theorem VariableRecord.Spoils.not_declarable {pool : ConstantPool} {v v' : VariableRecord}
    (h : v.Spoils pool v') : ¬ (LocalVariable.ofRecord pool v').Declarable := by
  rintro ⟨hname, d, hd, htype⟩
  obtain ⟨i, ⟨rfl, hnone⟩ | ⟨rfl, hnone⟩⟩ := h
  · rw [LocalVariable.ofRecord, hnone] at hname
    cases hname
  · exact hnone d hd htype

open LocalVariableTable in
/-- Two pools tell the same tables from the same failures, and give the same entry wherever they
resolve its two references alike. A table shows the lines of exactly the entries that have a name
and the descriptor of a type, so that an entry with a spoiled reference lacks its own line and no
other one. -/
theorem entries_stay_local (check : LengthCheck) (name : String) (declared : Nat) :
    (∀ (P Q : ConstantPool) (r : Reader),
      (∃ e, (decode P check name declared r).1.value = .error e ∧
        (decode Q check name declared r).1.value = .error e) ∨
      ∃ (records : List VariableRecord) (tableP tableQ : LocalVariableTable),
        (decode P check name declared r).1.value = .ok tableP ∧
        (decode Q check name declared r).1.value = .ok tableQ ∧
        tableP.size = records.length ∧ tableQ.size = records.length ∧
        ∀ k v, records[k]? = some v → (r.bytes.drop (2 + 10 * k)).take 10 = v.encode ∧
          ∃ p q, tableP.entries[k]? = some p ∧ tableQ.entries[k]? = some q ∧
            p.startPc = q.startPc ∧ p.length = q.length ∧ p.index = q.index ∧
            (P.text? v.nameIndex = Q.text? v.nameIndex →
              P.text? v.descriptorIndex = Q.text? v.descriptorIndex →
              p = q ∧ p.render = q.render)) ∧
    (∀ table : LocalVariableTable,
      (∀ lines, table.declarations? = some lines ↔ lines ≠ [] ∧
        List.Forall₂ LocalVariable.Declares
          (table.entries.filter LocalVariable.Declarable) lines) ∧
      (table.declarations? = none ↔ ∀ v ∈ table.entries, ¬ v.Declarable)) ∧
    ∀ (pool : ConstantPool) (position k : Nat) (front back : List UInt8) (v v' : VariableRecord)
      (table : LocalVariableTable),
      front.length = 2 + 10 * k →
      (decode pool check name declared ⟨position, front ++ v.encode ++ back⟩).1.value = .ok table →
      k < table.size → v.Spoils pool v' →
      let lines (part : List LocalVariable) : List String :=
        part.filterMap fun v => v.render.value
      ∃ (before after : List LocalVariable) (e : LocalVariable) (table' : LocalVariableTable),
        before.length = k ∧ table.entries = before ++ e :: after ∧
        (decode pool check name declared ⟨position, front ++ v'.encode ++ back⟩).1.value =
          .ok table' ∧
        table'.entries = before ++ LocalVariable.ofRecord pool v' :: after ∧
        table.declarationLines.value = lines before ++ e.render.value.toList ++ lines after ∧
        table'.declarationLines.value = lines before ++ lines after := by
  refine ⟨?_, ?_, ?_⟩
  · intro P Q r
    rw [value_decode P, value_decode Q]
    cases hrecords : recordsAt check name declared r with
    | error e => exact .inl ⟨e, rfl, rfl⟩
    | ok records =>
        refine .inr ⟨records, _, _, rfl, rfl, List.length_map _, List.length_map _, ?_⟩
        intro k v hv
        refine ⟨getElem?_recordsAt hrecords hv, LocalVariable.ofRecord P v,
          LocalVariable.ofRecord Q v, ?_, ?_, rfl, rfl, rfl, ?_⟩
        · rw [List.getElem?_map, hv, Option.map_some]
        · rw [List.getElem?_map, hv, Option.map_some]
        · intro hname hdescriptor
          have hsame : LocalVariable.ofRecord P v = LocalVariable.ofRecord Q v := by
            rw [LocalVariable.ofRecord, LocalVariable.ofRecord, hname, hdescriptor]
          exact ⟨hsame, congrArg LocalVariable.render hsame⟩
  · intro table
    exact ⟨fun _ => table.declarations?_eq_some_iff, table.declarations?_eq_none_iff⟩
  · intro pool position k front back v v' table hfront hdecode hk hspoils lines
    obtain ⟨before, after, e, hlength, hentries, hreplaced⟩ :=
      decode_replace hfront hdecode hk v'
    have hgone : (LocalVariable.ofRecord pool v').render.value = none :=
      LocalVariable.value_render_of_not_declarable hspoils.not_declarable
    refine ⟨before, after, e, _, hlength, hentries, hreplaced, rfl, ?_, ?_⟩
    · exact (congrArg lines hentries).trans (filterMap_append_cons _ _ _ _)
    · refine (filterMap_append_cons _ _ _ _).trans ?_
      rw [hgone, Option.toList_none, List.append_nil]

/-- Three variables in a row, the second of which gets a descriptor that one pool has as a text that
spells no type and the other one as a number. -/
theorem entries_stay_local_middle :
    let P := ConstantPool.ofSlots [.utf8 "n", .utf8 "I", .utf8 "Q"]
    let Q := ConstantPool.ofSlots [.utf8 "n", .utf8 "I", .integer 7]
    let record (descriptorIndex slot : UInt16) : VariableRecord := ⟨0, 9, 1, descriptorIndex, slot⟩
    let front := Encoder.u16 3 ++ (record 2 0).encode
    let bytes (middle : VariableRecord) := front ++ middle.encode ++ (record 2 2).encode
    let table (pool : ConstantPool) (middle : VariableRecord) : LocalVariableTable :=
      ⟨"table", 32, [record 2 0, middle, record 2 2].map (LocalVariable.ofRecord pool)⟩
    let decoded (pool : ConstantPool) (middle : VariableRecord) :=
      (LocalVariableTable.decode pool .strict "table" 32 ⟨40, bytes middle⟩).1.value
    front.length = 12 ∧ decoded P (record 2 1) = .ok (table P (record 2 1)) ∧
      (record 2 1).Spoils P (record 3 1) ∧
      (table P (record 2 1)).declarations? =
        some ["int n; // index = 0", "int n; // index = 1", "int n; // index = 2"] ∧
      decoded P (record 3 1) = .ok (table P (record 3 1)) ∧
      (table P (record 3 1)).declarations? =
        some ["int n; // index = 0", "int n; // index = 2"] ∧
      decoded Q (record 3 1) = .ok (table Q (record 3 1)) ∧
      (table P (record 3 1)).entries[2]? = (table Q (record 3 1)).entries[2]? := by
  intro P Q record front bytes table decoded
  have hdecoded : decoded P (record 2 1) = .ok (table P (record 2 1)) := by decide +kernel
  have hspoiled : decoded P (record 3 1) = .ok (table P (record 3 1)) := by decide +kernel
  have hother : decoded Q (record 3 1) = .ok (table Q (record 3 1)) := by decide +kernel
  have hspoils : (record 2 1).Spoils P (record 3 1) := by
    refine ⟨3, .inr ⟨rfl, ?_⟩⟩
    intro d hd
    cases hd
    decide +kernel
  obtain ⟨hpools, -, hreplaced⟩ := entries_stay_local .strict "table" 32
  refine ⟨by decide, hdecoded, hspoils, by decide +kernel, hspoiled, ?_, hother, ?_⟩
  · obtain ⟨before, after, e, table', hlength, hentries, htable', hentries', -, hlines⟩ :=
      hreplaced P 40 1 front _ (record 2 1) (record 3 1) _ (by decide) hdecoded (by decide) hspoils
    cases hspoiled.symm.trans htable'
    change [LocalVariable.ofRecord P (record 2 0)] ++ _ = _ at hentries
    obtain ⟨rfl, hrest⟩ := List.append_inj hentries hlength.symm
    cases hrest
    rw [LocalVariableTable.declarations?, hlines]
    decide +kernel
  · obtain ⟨e, herror, -⟩ | ⟨records, tableP, tableQ, hP, hQ, hsize, -, hall⟩ :=
      hpools P Q ⟨40, bytes (record 3 1)⟩
    · cases hspoiled.symm.trans herror
    · cases hspoiled.symm.trans hP
      cases hother.symm.trans hQ
      have hlast : 2 < records.length := hsize ▸ (by decide : 2 < 3)
      obtain ⟨hbytes, p, q, hp, hq, -, -, -, hsame⟩ :=
        hall 2 records[2] (List.getElem?_eq_getElem hlast)
      have hrecord : records[2] = record 2 2 :=
        VariableRecord.encode_injective (hbytes.symm.trans (by decide +kernel))
      rw [hrecord] at hsame
      rw [hp, hq, (hsame (by decide) (by decide)).1]

end JvmClass
