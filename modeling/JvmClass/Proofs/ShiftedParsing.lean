import JvmClass.Proofs.FixedWidth
import JvmClass.Proofs.Truncation

/-!
# Parsing at another place

No decision of a decoder depends on where in the file its bytes stand. Moving the bytes by some
number moves by that number what is said about places: the offsets of attributes, those of errors
and the position of the reader. So a call on a parser that has already read something gives what a
call on the rest of the bytes alone gives, moved to its place.
-/

namespace JvmClass

/-! ## Moving places -/

def Reader.shift (k : Nat) (r : Reader) : Reader :=
  ⟨r.position + k, r.bytes⟩

namespace Error

/-- The same failure, reported `k` bytes further on. -/
def shift (k : Nat) : Error → Error
  | truncated offset needed remaining => truncated (offset + k) needed remaining
  | inAttribute name offset cause => inAttribute name (offset + k) (cause.shift k)
  | e => e

/-- What a decoder gives, with its places moved. -/
def shiftResult {α : Type} (k : Nat) (move : α → α) : Except Error α → Except Error α
  | .ok a => .ok (move a)
  | .error e => .error (e.shift k)

end Error

def Attribute.shift (k : Nat) (a : Attribute) : Attribute :=
  { a with offset := a.offset + k }

def Member.shift (k : Nat) (m : Member) : Member :=
  { m with attributes := m.attributes.map (Attribute.shift k) }

def Code.shift (k : Nat) (c : Code) : Code :=
  { c with attributes := c.attributes.map (Attribute.shift k) }

/-- The class with all attributes `k` bytes further on. -/
def ClassFile.shift (k : Nat) (c : ClassFile) : ClassFile :=
  { c with
    fields := c.fields.map (Member.shift k)
    methods := c.methods.map (Member.shift k)
    attributes := c.attributes.map (Attribute.shift k) }

/-! ## Decoders -/

namespace Decoder

variable {α β : Type} {k : Nat} {move : α → α} {d d' : Decoder α}

/-- Where the bytes stand `k` further on, `d'` gives what `d` gives, moved. The two differ in the
places they have been given. -/
def Shifted (k : Nat) (move : α → α) (d d' : Decoder α) : Prop :=
  ∀ r, d'.outcome (r.shift k) =
    (Error.shiftResult k move (d.outcome r).1, (d.outcome r).2.shift k)

namespace Shifted

theorem pure (a : α) : Shifted k move (Pure.pure a) (Pure.pure (move a)) :=
  fun _ => rfl

theorem throw {e : Error} (h : e.shift k = e) : Shifted k move (throw e) (throw e) := by
  intro r
  change (Except.error e, r.shift k) = (Except.error (e.shift k), r.shift k)
  rw [h]

theorem position : Shifted k (· + k) Decoder.position Decoder.position :=
  fun _ => rfl

theorem bind {move' : β → β} {f f' : α → Decoder β} (hd : Shifted k move d d')
    (hf : ∀ a, Shifted k move' (f a) (f' (move a))) :
    Shifted k move' (d >>= f) (d' >>= f') := by
  intro r
  rw [outcome_bind, outcome_bind, hd r]
  generalize d.outcome r = first
  obtain ⟨_ | a, s⟩ := first
  · rfl
  · exact hf a s

theorem times (h : Shifted k move d d) (n : Nat) :
    Shifted k (List.map move) (d.times n) (d.times n) := by
  induction n with
  | zero => exact pure []
  | succ n ih => exact h.bind fun a => ih.bind fun as => pure (a :: as)

theorem ok (h : Shifted k move d d') {r s : Reader} {a : α} (hr : d r = .ok a s) :
    d' (r.shift k) = .ok (move a) (s.shift k) := by
  have houtcome : d'.outcome (r.shift k) = (.ok (move a), s.shift k) := by
    rw [h r, outcome, hr]
    rfl
  exact eq_ok_of_outcome (by rw [houtcome]; rfl) (by rw [houtcome])

theorem error (h : Shifted k move d d') {r s : Reader} {e : Error} (hr : d r = .error e s) :
    d' (r.shift k) = .error (e.shift k) (s.shift k) := by
  have houtcome : d'.outcome (r.shift k) = (.error (e.shift k), s.shift k) := by
    rw [h r, outcome, hr]
    rfl
  rw [outcome] at houtcome
  cases hread : d' (r.shift k) with
  | ok a t =>
      rw [hread] at houtcome
      cases houtcome
  | error e' t =>
      rw [hread] at houtcome
      cases houtcome
      rfl

theorem available (h : Shifted k move d d) (n : Nat) (r : Reader) :
    d.available n (r.shift k) =
      ((d.available n r).1.map move, (d.available n r).2.map (Error.shift k)) := by
  induction n generalizing r with
  | zero => rfl
  | succ n ih =>
      cases hr : d r with
      | ok a s => simp only [Decoder.available, hr, h.ok hr, ih, List.map_cons]
      | error e s => simp only [Decoder.available, hr, h.error hr, List.map_nil, Option.map_some]

end Shifted

/-- What a read gives does not depend on its place. -/
theorem Spells.shifted {width : Nat} {f : List UInt8 → α} (h : Spells d width f) :
    Shifted k id d d := by
  intro r
  have hroom : (r.shift k).remaining = r.remaining := rfl
  rw [outcome, outcome]
  obtain hlack | hwidth := Nat.lt_or_ge r.remaining width
  · rw [h.short r hlack, h.short (r.shift k) hlack]
    rfl
  · rw [h.ok r hwidth, h.ok (r.shift k) hwidth]
    simp only [Error.shiftResult, Reader.shift, id, Nat.add_right_comm]

theorem Shifted.counted (h : Shifted k move d d) :
    Shifted k (List.map move) d.counted d.counted :=
  Spells.u16.shifted.bind fun _ => h.times _

end Decoder

open Decoder (Shifted Spells)

variable {k : Nat}

/-! ## Parts of class files -/

theorem Attribute.decode_shifted : Shifted k (shift k) Attribute.decode Attribute.decode :=
  Spells.u16.shifted.bind fun nameIndex => Spells.u32.shifted.bind fun length =>
    Shifted.position.bind fun offset => (Spells.bytes length.toNat).shifted.bind fun info =>
      Shifted.pure (Attribute.mk nameIndex offset info)

theorem Member.decode_shifted : Shifted k (shift k) Member.decode Member.decode :=
  Spells.u16.shifted.bind fun flags => Spells.u16.shifted.bind fun nameIndex =>
    Spells.u16.shifted.bind fun descriptorIndex =>
      Attribute.decode_shifted.counted.bind fun attributes =>
        Shifted.pure (Member.mk (AccessFlags.ofWord flags) nameIndex descriptorIndex attributes)

theorem ExceptionHandler.decode_shifted :
    Shifted k id ExceptionHandler.decode ExceptionHandler.decode :=
  Spells.u16.shifted.bind fun startPc => Spells.u16.shifted.bind fun endPc =>
    Spells.u16.shifted.bind fun handlerPc => Spells.u16.shifted.bind fun catchType =>
      Shifted.pure (ExceptionHandler.mk startPc endPc handlerPc catchType)

theorem VariableRecord.decode_shifted :
    Shifted k id VariableRecord.decode VariableRecord.decode :=
  Spells.u16.shifted.bind fun startPc => Spells.u16.shifted.bind fun length =>
    Spells.u16.shifted.bind fun nameIndex => Spells.u16.shifted.bind fun descriptorIndex =>
      Spells.u16.shifted.bind fun index =>
        Shifted.pure (VariableRecord.mk startPc length nameIndex descriptorIndex index)

theorem Code.decode_shifted : Shifted k (shift k) Code.decode Code.decode := by
  have hhandlers : Shifted k id (Decoder.counted ExceptionHandler.decode)
      (Decoder.counted ExceptionHandler.decode) := by
    have h := (ExceptionHandler.decode_shifted : Shifted k id _ _).counted
    rwa [List.map_id_fun] at h
  exact Spells.u16.shifted.bind fun maxStack => Spells.u16.shifted.bind fun maxLocals =>
    Spells.u32.shifted.bind fun length => (Spells.bytes length.toNat).shifted.bind fun body =>
      hhandlers.bind fun handlers => Attribute.decode_shifted.counted.bind fun attributes =>
        Shifted.pure (Code.mk maxStack maxLocals body handlers attributes)

theorem Constant.decodeFields_shifted (kind : ConstantKind) :
    Shifted k id (decodeFields kind) (decodeFields kind) := by
  cases kind with
  | utf8 =>
      exact Spells.u16.shifted.bind fun length =>
        (Spells.bytes length.toNat).shifted.bind fun _ => .pure _
  | integer => exact Spells.i32.shifted.bind fun _ => .pure _
  | float => exact Spells.u32.shifted.bind fun _ => .pure _
  | long => exact Spells.i64.shifted.bind fun _ => .pure _
  | double => exact Spells.u64.shifted.bind fun _ => .pure _
  | methodHandle =>
      exact Spells.u8.shifted.bind fun _ => Spells.u16.shifted.bind fun _ => .pure _
  | classInfo | stringInfo | methodType | moduleInfo | packageInfo =>
      exact Spells.u16.shifted.bind fun _ => .pure _
  | fieldRef | methodRef | interfaceMethodRef | nameAndType | dynamic | invokeDynamic =>
      exact Spells.u16.shifted.bind fun _ => Spells.u16.shifted.bind fun _ => .pure _

theorem Constant.decode_shifted : Shifted k id Constant.decode Constant.decode := by
  refine Spells.u8.shifted.bind fun tag => ?_
  rw [id]
  cases ConstantKind.ofTag? tag with
  | none => exact .throw rfl
  | some kind => exact decodeFields_shifted kind

theorem ConstantPool.decodeEntries_shifted (n : Nat) :
    Shifted k id (decodeEntries n) (decodeEntries n) := by
  induction n using Nat.strongRecOn with
  | ind n ih =>
      cases n with
      | zero => exact .pure []
      | succ n =>
          rw [decodeEntries_succ]
          refine Constant.decode_shifted.bind fun first => (ih _ ?_).bind fun _ => .pure _
          have hpos := length_slots_pos first
          omega

theorem ConstantPool.decode_shifted : Shifted k id ConstantPool.decode ConstantPool.decode :=
  Spells.u16.shifted.bind fun _ => (decodeEntries_shifted _).bind fun _ => .pure _

namespace ClassFile

theorem decodeMagic_shifted : Shifted k id decodeMagic decodeMagic := by
  refine Spells.u32.shifted.bind fun found => ?_
  rw [id]
  split
  · exact .throw rfl
  · exact .pure ()

theorem decode_shifted : Shifted k (shift k) ClassFile.decode ClassFile.decode :=
  decodeMagic_shifted.bind fun _ => Spells.u16.shifted.bind fun minor =>
    Spells.u16.shifted.bind fun major => ConstantPool.decode_shifted.bind fun pool =>
      Spells.u16.shifted.bind fun flags => Spells.u16.shifted.bind fun thisClass =>
        Spells.u16.shifted.bind fun superClass => Spells.u16.shifted.bind fun count =>
          (Spells.u16s count.toNat).shifted.bind fun interfaces =>
            Member.decode_shifted.counted.bind fun fields =>
              Member.decode_shifted.counted.bind fun methods =>
                Attribute.decode_shifted.counted.bind fun attributes =>
                  Shifted.pure (ClassFile.mk major minor pool (AccessFlags.ofWord flags) thisClass
                    superClass interfaces fields methods attributes)

end ClassFile

/-! ## Tables and code -/

theorem Reader.split_shift (r : Reader) (n : Nat) :
    (r.shift k).split n = ((r.split n).1.shift k, (r.split n).2.shift k) := by
  simp only [split, shift, Nat.add_right_comm]

theorem Error.mapError_shiftResult {α : Type} (move : α → α) (name : String) (offset : Nat)
    (x : Except Error α) : (shiftResult k move x).mapError (.inAttribute name (offset + k)) =
      shiftResult k move (x.mapError (.inAttribute name offset)) := by
  cases x <;> rfl

namespace LocalVariableTable

/-- What decoding a table gives and logs, with the places moved. Only errors tell places. -/
def shiftLogged (k : Nat) (table : Logged (Except Error LocalVariableTable)) :
    Logged (Except Error LocalVariableTable) :=
  { table with value := Error.shiftResult k id table.value }

variable (pool : ConstantPool) (check : LengthCheck) (name : String) (declared : Nat)

theorem decodeRecords_shift (count : UInt16) (r : Reader) :
    decodeRecords pool name declared count (r.shift k) =
      shiftLogged k (decodeRecords pool name declared count r) := by
  simp only [decodeRecords, VariableRecord.decode_shifted.available, List.map_id]
  cases (VariableRecord.decode.available (decodedCount declared count).toNat r).2 <;> rfl

theorem decodeBody_shift (body : Reader) :
    decodeBody pool check name declared (body.shift k) =
      shiftLogged k (decodeBody pool check name declared body) := by
  have hcount : Shifted k id Decoder.u16 Decoder.u16 := Spells.u16.shifted
  cases hread : Decoder.u16 body with
  | error e s =>
      simp only [decodeBody, hread, hcount.error hread]
      rfl
  | ok count r =>
      simp only [decodeBody, hread, hcount.ok hread, id]
      split
      · rfl
      · exact decodeRecords_shift pool name declared count r

theorem decode_shift (r : Reader) :
    decode pool check name declared (r.shift k) =
      (shiftLogged k (decode pool check name declared r).1,
        (decode pool check name declared r).2.shift k) := by
  simp only [decode, Reader.split_shift, decodeBody_shift]
  simp only [shiftLogged, Reader.shift, Error.mapError_shiftResult]

end LocalVariableTable

namespace Code

theorem ofAttribute_shift (a : Attribute) :
    ofAttribute (a.shift k) = Error.shiftResult k (shift k) (ofAttribute a) := by
  have hresult : decode.result (a.body.shift k) =
      Error.shiftResult k (shift k) (decode.result a.body) :=
    congrArg Prod.fst (decode_shifted a.body)
  rw [ofAttribute, ofAttribute, ← Error.mapError_shiftResult, ← hresult]
  rfl

theorem localVariableTables_shift (pool : ConstantPool) (check : LengthCheck) (c : Code) :
    (c.shift k).localVariableTables pool check =
      (c.localVariableTables pool check).map (LocalVariableTable.shiftLogged k) := by
  rw [localVariableTables, localVariableTables, LocalVariableTable.decodeAll,
    LocalVariableTable.decodeAll, shift, Attribute.named_map (Attribute.shift k) fun _ => rfl,
    List.map_map, List.map_map]
  apply List.map_congr_left
  intro a ha
  exact congrArg Prod.fst (LocalVariableTable.decode_shift pool check _ _ a.body)

end Code

theorem Member.code?_shift (pool : ConstantPool) (m : Member) :
    (m.shift k).code? pool =
      Error.shiftResult k (Option.map (Code.shift k)) (m.code? pool) := by
  rw [code?, code?, shift, Attribute.named_map (Attribute.shift k) fun _ => rfl]
  cases Attribute.named Code.attributeName pool m.attributes with
  | nil => rfl
  | cons a others =>
      change (Code.ofAttribute (a.shift k)).map some =
        Error.shiftResult k _ ((Code.ofAttribute a).map some)
      rw [Code.ofAttribute_shift]
      cases Code.ofAttribute a <;> rfl

/-! ## Calls one after the other -/

namespace Decoder

variable {α : Type} (d : Decoder α)

theorem calls_succ_snd (n : Nat) (r : Reader) :
    (d.calls (n + 1) r).2 = (d.outcome (d.calls n r).2).2 := by
  induction n generalizing r with
  | zero => rfl
  | succ n ih => exact ih (d.outcome r).2

/-- Each call is made on the reader that those before it leave. -/
theorem getElem?_calls {n i : Nat} (hi : i < n) (r : Reader) :
    (d.calls n r).1[i]? = some (d.outcome (d.calls i r).2).1 := by
  induction n generalizing i r with
  | zero => exact absurd hi (Nat.not_lt_zero i)
  | succ n ih =>
      cases i with
      | zero => rfl
      | succ i => exact ih (Nat.lt_of_succ_lt_succ hi) (d.outcome r).2

end Decoder

namespace ClassFile

theorem value_parse (bytes : List UInt8) :
    (parse bytes).value = decode.result (Reader.ofBytes bytes 0) := by
  rw [parse]
  cases decode.result (Reader.ofBytes bytes 0) <;> rfl

/-- Calls leave the reader of the rest of the file, at its place. -/
theorem calls_snd_eq (file : List UInt8) (n : Nat) :
    let r := (decode.calls n (Reader.ofBytes file 0)).2
    r.position ≤ file.length ∧
      r = (Reader.ofBytes (file.drop r.position) 0).shift r.position := by
  intro r
  obtain ⟨front, hfront⟩ := decode_composed.moves_calls n (Reader.ofBytes file 0)
  refine ⟨((Reader.views_ofBytes file).moves hfront).position_le, ?_⟩
  have hbytes : r.bytes = file.drop r.position := hfront.bytes_eq_drop
  rw [← hbytes]
  simp only [Reader.ofBytes, Reader.shift, Nat.zero_add]

/-- Bytes that are taken off for a class on their own are taken off wherever they stand. -/
theorem outcome_append {bytes : List UInt8} {c : ClassFile}
    (h : decode (Reader.ofBytes bytes 0) = .ok c ⟨bytes.length, []⟩) (base : Nat)
    (rest : List UInt8) :
    decode.outcome ⟨base, bytes ++ rest⟩ = (.ok (c.shift base), ⟨base + bytes.length, rest⟩) := by
  obtain ⟨-, -, hconsumes⟩ := exists_consumed h
  have happend := hconsumes.append rest
  rw [List.take_length, Nat.zero_add] at happend
  have hmoved := (decode_shifted : Shifted base _ _ _).ok happend
  simp only [Reader.shift, Nat.add_comm _ base, Nat.add_zero] at hmoved
  rw [Decoder.outcome, hmoved]

/-- The bytes of files one after the other. -/
def joined (files : List (List UInt8 × ClassFile)) : List UInt8 :=
  files.flatMap Prod.fst

theorem calls_joined {files : List (List UInt8 × ClassFile)}
    (h : ∀ file ∈ files,
      decode (Reader.ofBytes file.1 0) = .ok file.2 ⟨file.1.length, []⟩) (base : Nat) :
    decode.calls files.length ⟨base, joined files⟩ =
      (files.mapIdx fun i file => .ok (file.2.shift (base + (joined (files.take i)).length)),
        ⟨base + (joined files).length, []⟩) := by
  induction files generalizing base with
  | nil => rfl
  | cons first others ih =>
      rw [List.forall_mem_cons] at h
      have hjoined (rest) : joined (first :: rest) = first.1 ++ joined rest := rfl
      rw [List.length_cons, Decoder.calls, hjoined, outcome_append h.1]
      dsimp only
      -- The first file moves all others by its length.
      rw [ih h.2, List.mapIdx_cons]
      simp only [List.take_zero, List.take_succ_cons, hjoined, List.length_append, Nat.add_assoc]
      rfl

end ClassFile

open ClassFile in
/-- A call that begins `start` bytes into a file gives what a fresh one gives on the bytes from
there on, with `start` added to the place of each attribute and of a truncation, whatever became of
the calls before it. Files that are taken off in full are so one after the other, each class at its
place, and the code of its methods and the tables of that code are those of the class on its own,
failures included, at their places. -/
theorem repeated_parsing_shifts :
    (∀ (file : List UInt8) (n i : Nat), i < n →
      let r := Reader.ofBytes file 0
      let start := (decode.calls i r).2.position
      let rest := file.drop start
      start ≤ file.length ∧
        (decode.calls n r).1[i]? =
          some (Error.shiftResult start (ClassFile.shift start) (parse rest).value) ∧
        (decode.calls (i + 1) r).2 =
          (decode.outcome (Reader.ofBytes rest 0)).2.shift start) ∧
    (∀ files : List (List UInt8 × ClassFile),
      (∀ file ∈ files,
        decode (Reader.ofBytes file.1 0) = .ok file.2 ⟨file.1.length, []⟩) →
      decode.calls files.length (Reader.ofBytes (joined files) 0) =
        (files.mapIdx fun i file => .ok (file.2.shift (joined (files.take i)).length),
          ⟨(joined files).length, []⟩)) ∧
    ∀ (c : ClassFile) (k : Nat),
      (c.shift k).methods.map (Member.code? (c.shift k).pool) =
        (c.methods.map (Member.code? c.pool)).map
          (Error.shiftResult k (Option.map (Code.shift k))) ∧
      ∀ (code : Code) (check : LengthCheck),
        (code.shift k).localVariableTables (c.shift k).pool check =
          (code.localVariableTables c.pool check).map fun table =>
            { table with value := Error.shiftResult k id table.value } := by
  refine ⟨?_, ?_, ?_⟩
  · intro file n i hi r start rest
    obtain ⟨hle, hreader⟩ := calls_snd_eq file i
    have hcall : decode.outcome (decode.calls i r).2 =
        (Error.shiftResult start (ClassFile.shift start) (parse rest).value,
          (decode.outcome (Reader.ofBytes rest 0)).2.shift start) := by
      rw [hreader, decode_shifted, value_parse]
      rfl
    refine ⟨hle, ?_, ?_⟩
    · rw [Decoder.getElem?_calls decode hi, hcall]
    · rw [Decoder.calls_succ_snd, hcall]
  · intro files h
    have hcalls := calls_joined h 0
    simp only [Nat.zero_add] at hcalls
    exact hcalls
  · intro c k
    refine ⟨?_, fun code check => code.localVariableTables_shift c.pool check⟩
    simp only [ClassFile.shift, List.map_map]
    apply List.map_congr_left
    intro m hm
    exact m.code?_shift c.pool

theorem repeated_parsing_shifts_wide :
    let bytes := wideClass.encode
    let c := wideClass.placed 0
    let file := [1, 2, 3, 4] ++ bytes
    let twice := [(bytes, c), (bytes, c)]
    (ClassFile.decode.calls 1 (Reader.ofBytes file 0)).1.map Except.toOption = [none] ∧
      1 < 2 ∧ (ClassFile.decode.calls 2 (Reader.ofBytes file 0)).1[1]? = some (.ok (c.shift 4)) ∧
      (∀ part ∈ twice,
        ClassFile.decode (Reader.ofBytes part.1 0) = .ok part.2 ⟨part.1.length, []⟩) ∧
      ClassFile.decode.calls 2 (Reader.ofBytes (bytes ++ bytes) 0) =
        ([.ok (c.shift 0), .ok (c.shift bytes.length)], ⟨bytes.length + bytes.length, []⟩) := by
  intro bytes c file twice
  obtain ⟨hcalls, hfiles, -⟩ := repeated_parsing_shifts
  have halone : ClassFile.decode (Reader.ofBytes bytes 0) = .ok c ⟨bytes.length, []⟩ := by
    have h := ClassFile.decode_encode wideClass_encodable 0 []
    rwa [List.append_nil, Nat.zero_add] at h
  have htwice : ∀ part ∈ twice,
      ClassFile.decode (Reader.ofBytes part.1 0) = .ok part.2 ⟨part.1.length, []⟩ := by
    intro part hpart
    simp only [twice, List.mem_cons, List.not_mem_nil, or_false, or_self] at hpart
    rw [hpart]
    exact halone
  refine ⟨by decide +kernel, by decide, ?_, htwice, ?_⟩
  · have hstart : (ClassFile.decode.calls 1 (Reader.ofBytes file 0)).2.position = 4 := by
      decide +kernel
    have hvalue : (ClassFile.parse (file.drop 4)).value = .ok c :=
      ClassFile.parse_eq_ok_iff.mpr ⟨_, halone⟩
    have hsecond := (hcalls file 2 1 (by decide)).2.1
    rw [hstart, hvalue] at hsecond
    exact hsecond
  · have hboth := hfiles twice htwice
    simp only [ClassFile.joined, twice, List.flatMap_cons, List.flatMap_nil, List.append_nil,
      List.length_append] at hboth
    exact hboth

end JvmClass
