import JvmClass.Proofs.FixedWidth
import JvmClass.Proofs.Offsets
import JvmClass.Proofs.TableDecoding

/-!
# Where reading fails

A read fails for want of bytes only, and says where it stands and how many bytes are left to the end
of its window. Apart from that a class file is refused for its magic number or for the tag of a
constant, and a table for its length. This file shows that there is no other failure, and that the
place which is reported is the place where the reader is left.
-/

namespace JvmClass

/-- A read found fewer bytes than it asked for, and left the reader where it stands. -/
def Error.Lacks (e : Error) (s : Reader) : Prop :=
  ∃ needed, s.remaining < needed ∧ e = .truncated s.position needed s.remaining

/-- The error is that of a read at `offset`, in a window from `lower` to `upper`, which found only
the bytes that are left of the window and asked for more. -/
def Error.TruncatedAt (e : Error) (lower upper offset : Nat) : Prop :=
  ∃ needed remaining, e = .truncated offset needed remaining ∧ lower ≤ offset ∧
    remaining < needed ∧ offset + remaining = upper

namespace Decoder

variable {α β : Type} {d : Decoder α}

/-! ## The check before a read -/

/-- Fails if fewer bytes are left. -/
def ensure (n : Nat) : Decoder Unit := fun r =>
  if r.remaining < n then .error (.truncated r.position n r.remaining) r else .ok () r

/-- A read that does not check, and fails as the reading of any stream does when it ends. -/
def fill (n : Nat) : Decoder (List UInt8) := fun r =>
  if n ≤ r.remaining then .ok (r.bytes.take n) ⟨r.position + n, r.bytes.drop n⟩
  else .error (.unavailable "failed to fill whole buffer") r

/-- Behind the check the stream never ends. -/
theorem bytes_eq_ensure_fill (n : Nat) : bytes n = (do ensure n; fill n) := by
  funext r
  rw [bytes_eq]
  by_cases h : n ≤ r.remaining
  · simp only [bind, EStateM.bind, ensure, fill, if_neg (Nat.not_lt.mpr h), if_pos h]
  · simp only [bind, EStateM.bind, ensure, if_pos (Nat.not_le.mp h), if_neg h]

/-! ## Ways to fail -/

theorem bind_eq_error_iff {f : α → Decoder β} {r t : Reader} {e : Error} :
    (d >>= f) r = .error e t ↔ d r = .error e t ∨ ∃ a s, d r = .ok a s ∧ f a s = .error e t := by
  simp only [bind, EStateM.bind]
  cases d r with
  | ok a s => simp [and_assoc]
  | error e s => simp

/-- Whatever the decoder reads, it fails for want of bytes or in one of the given ways, which say
from where it began, with which error and where it stopped. -/
def FailsBy (Refused : Reader → Error → Reader → Prop) (d : Decoder α) : Prop :=
  ∀ r e s, d r = .error e s → e.Lacks s ∨ Refused r e s

/-- The decoder fails for want of bytes only. -/
def Truncates (d : Decoder α) : Prop :=
  ∀ r e s, d r = .error e s → e.Lacks s

namespace Truncates

theorem pure (a : α) : Truncates (Pure.pure a) := by
  intro r e s h
  cases h

theorem position : Truncates Decoder.position := by
  intro r e s h
  cases h

theorem bind {f : α → Decoder β} (hd : Truncates d) (hf : ∀ a, Truncates (f a)) :
    Truncates (d >>= f) := by
  intro r e t h
  obtain hfirst | ⟨a, s, -, hthen⟩ := bind_eq_error_iff.mp h
  · exact hd r e t hfirst
  · exact hf a s e t hthen

theorem times (h : Truncates d) (n : Nat) : Truncates (d.times n) := by
  induction n with
  | zero => exact pure []
  | succ n ih => exact h.bind fun _ => ih.bind fun _ => pure _

end Truncates

theorem Spells.truncates {width : Nat} {f : List UInt8 → α} (h : Spells d width f) :
    Truncates d := by
  intro r e s hr
  obtain hroom | hroom := Nat.lt_or_ge r.remaining width
  · cases (h.short r hroom).symm.trans hr
    exact ⟨width, hroom, rfl⟩
  · cases (h.ok r hroom).symm.trans hr

theorem Truncates.counted (h : Truncates d) : Truncates d.counted :=
  Spells.u16.truncates.bind fun _ => h.times _

theorem Composed.moves_of_ok (h : Composed d) {r s : Reader} {a : α} (hr : d r = .ok a s) :
    ∃ front, r.Moves front s := by
  have hmoves := h.moves r
  rwa [outcome, hr] at hmoves

theorem Composed.moves_of_error (h : Composed d) {r s : Reader} {e : Error}
    (hr : d r = .error e s) : ∃ front, r.Moves front s := by
  have hmoves := h.moves r
  rwa [outcome, hr] at hmoves

namespace FailsBy

variable {Refused Refused' : Reader → Error → Reader → Prop}

theorem of_truncates (h : Truncates d) : FailsBy Refused d :=
  fun r e s hr => .inl (h r e s hr)

/-- A refusal by the second decoder counts from where the first began. -/
theorem bind {f : α → Decoder β} (hcomposed : Composed d) (hd : FailsBy Refused d)
    (hf : ∀ a, FailsBy Refused' (f a))
    (hmoved : ∀ r front m e s, r.Moves front m → Refused' m e s → Refused r e s) :
    FailsBy Refused (d >>= f) := by
  intro r e t h
  obtain hfirst | ⟨a, m, hok, hthen⟩ := bind_eq_error_iff.mp h
  · exact hd r e t hfirst
  · obtain ⟨front, hfront⟩ := hcomposed.moves_of_ok hok
    exact (hf a m e t hthen).imp_right (hmoved r front m e t hfront)

end FailsBy

end Decoder

open Decoder (Truncates FailsBy Spells)

theorem Attribute.decode_truncates : Truncates Attribute.decode :=
  Spells.u16.truncates.bind fun _ => Spells.u32.truncates.bind fun _ =>
    Truncates.position.bind fun _ => (Spells.bytes _).truncates.bind fun _ => .pure _

theorem Member.decode_truncates : Truncates Member.decode :=
  Spells.u16.truncates.bind fun _ => Spells.u16.truncates.bind fun _ =>
    Spells.u16.truncates.bind fun _ => Attribute.decode_truncates.counted.bind fun _ => .pure _

theorem ExceptionHandler.decode_truncates : Truncates ExceptionHandler.decode :=
  Spells.u16.truncates.bind fun _ => Spells.u16.truncates.bind fun _ =>
    Spells.u16.truncates.bind fun _ => Spells.u16.truncates.bind fun _ => .pure _

theorem Code.decode_truncates : Truncates Code.decode :=
  Spells.u16.truncates.bind fun _ => Spells.u16.truncates.bind fun _ =>
    Spells.u32.truncates.bind fun _ => (Spells.bytes _).truncates.bind fun _ =>
      ExceptionHandler.decode_truncates.counted.bind fun _ =>
        Attribute.decode_truncates.counted.bind fun _ => .pure _

theorem Constant.decodeFields_truncates (kind : ConstantKind) : Truncates (decodeFields kind) := by
  cases kind with
  | utf8 =>
      exact Spells.u16.truncates.bind fun _ => (Spells.bytes _).truncates.bind fun _ => .pure _
  | integer => exact Spells.i32.truncates.bind fun _ => .pure _
  | float => exact Spells.u32.truncates.bind fun _ => .pure _
  | long => exact Spells.i64.truncates.bind fun _ => .pure _
  | double => exact Spells.u64.truncates.bind fun _ => .pure _
  | methodHandle =>
      exact Spells.u8.truncates.bind fun _ => Spells.u16.truncates.bind fun _ => .pure _
  | classInfo | stringInfo | methodType | moduleInfo | packageInfo =>
      exact Spells.u16.truncates.bind fun _ => .pure _
  | fieldRef | methodRef | interfaceMethodRef | nameAndType | dynamic | invokeDynamic =>
      exact Spells.u16.truncates.bind fun _ => Spells.u16.truncates.bind fun _ => .pure _

/-! ## Refusals -/

/-- The reader was left after a byte that is the tag of no constant. -/
def Constant.TagRefused (r : Reader) (e : Error) (s : Reader) : Prop :=
  ∃ tag front, e = .invalidTag tag ∧ ConstantKind.ofTag? tag = none ∧ r.Moves (front ++ [tag]) s

theorem Constant.TagRefused.moved (r : Reader) (front : List UInt8) (m : Reader) (e : Error)
    (s : Reader) (hmoves : r.Moves front m) (h : TagRefused m e s) : TagRefused r e s := by
  obtain ⟨tag, back, he, htag, hback⟩ := h
  refine ⟨tag, front ++ back, he, htag, ?_⟩
  rw [List.append_assoc]
  exact hmoves.append hback

theorem Constant.decode_failsBy : FailsBy TagRefused Constant.decode := by
  intro r e s h
  obtain hu8 | ⟨tag, m, hok, hthen⟩ := Decoder.bind_eq_error_iff.mp h
  · exact .inl (Spells.u8.truncates r e s hu8)
  · cases htag : ConstantKind.ofTag? tag with
    | some kind =>
        rw [htag] at hthen
        exact .inl (decodeFields_truncates kind m e s hthen)
    | none =>
        rw [htag] at hthen
        cases hthen
        exact .inr ⟨tag, [], rfl, htag, Decoder.u8_eq_ok_iff.mp hok⟩

/-- The rest of a decoder may refuse a tag if what comes before it may or refuses nothing. -/
theorem Constant.failsBy_bind {α β : Type} {d : Decoder α} {f : α → Decoder β}
    (hcomposed : d.Composed) (hd : FailsBy TagRefused d) (hf : ∀ a, FailsBy TagRefused (f a)) :
    FailsBy TagRefused (d >>= f) :=
  hd.bind hcomposed hf TagRefused.moved

namespace ConstantPool

open Constant

theorem decodeEntries_failsBy (n : Nat) : FailsBy TagRefused (decodeEntries n) := by
  induction n using Nat.strongRecOn with
  | ind n ih =>
      cases n with
      | zero => exact .of_truncates (.pure [])
      | succ n =>
          rw [decodeEntries_succ]
          refine failsBy_bind Constant.decode_composed Constant.decode_failsBy fun first => ?_
          have hless : n + 1 - first.slots.length < n + 1 := by
            have hpos := length_slots_pos first
            omega
          exact failsBy_bind (decodeEntries_composed _) (ih _ hless) fun _ =>
            .of_truncates (.pure _)

theorem decode_failsBy : FailsBy TagRefused ConstantPool.decode :=
  failsBy_bind .u16 (.of_truncates Spells.u16.truncates) fun _ =>
    failsBy_bind (decodeEntries_composed _) (decodeEntries_failsBy _) fun _ =>
      .of_truncates (.pure _)

end ConstantPool

namespace ClassFile

open Constant (TagRefused failsBy_bind)

/-- The reader was left after four bytes that are not the magic number. -/
def MagicRefused (r : Reader) (e : Error) (s : Reader) : Prop :=
  ∃ found, e = .invalidMagic found ∧ found ≠ magic ∧ r.Moves (Encoder.u32 found) s

theorem decodeMagic_failsBy : FailsBy MagicRefused decodeMagic := by
  intro r e s h
  obtain hu32 | ⟨found, m, hok, hthen⟩ := Decoder.bind_eq_error_iff.mp h
  · exact .inl (Spells.u32.truncates r e s hu32)
  · split at hthen
    · rename_i hfound
      cases hthen
      exact .inr ⟨found, rfl, hfound, Decoder.u32_eq_ok_iff.mp hok⟩
    · cases hthen

theorem decode_failsBy :
    FailsBy (fun r e s => MagicRefused r e s ∨ TagRefused r e s) ClassFile.decode := by
  have hmagic : FailsBy (fun r e s => MagicRefused r e s ∨ TagRefused r e s) decodeMagic :=
    fun r e s h => (decodeMagic_failsBy r e s h).imp_right .inl
  refine hmagic.bind decodeMagic_composed (fun _ => ?_) fun r front m e s hmoves h =>
    .inr (TagRefused.moved r front m e s hmoves h)
  refine failsBy_bind .u16 (.of_truncates Spells.u16.truncates) fun _ =>
    failsBy_bind .u16 (.of_truncates Spells.u16.truncates) fun _ =>
      failsBy_bind ConstantPool.decode_composed ConstantPool.decode_failsBy fun _ =>
        .of_truncates ?_
  -- Nothing behind the pool is refused.
  exact Spells.u16.truncates.bind fun _ => Spells.u16.truncates.bind fun _ =>
    Spells.u16.truncates.bind fun _ => Spells.u16.truncates.bind fun _ =>
      (Spells.u16s _).truncates.bind fun _ => Member.decode_truncates.counted.bind fun _ =>
        Member.decode_truncates.counted.bind fun _ =>
          Attribute.decode_truncates.counted.bind fun _ => .pure _

end ClassFile

/-! ## Places in the file -/

theorem Reader.Moves.limit_eq {r s : Reader} {front : List UInt8} (h : r.Moves front s) :
    s.limit = r.limit := by
  rw [limit, limit, remaining, remaining, h.1, h.2, List.length_append, Nat.add_assoc]

theorem Error.Lacks.truncatedAt {e : Error} {r s : Reader} {front : List UInt8} (h : e.Lacks s)
    (hmoves : r.Moves front s) : e.TruncatedAt r.position r.limit s.position := by
  obtain ⟨needed, hlack, rfl⟩ := h
  exact ⟨needed, s.remaining, rfl, hmoves.position_le, hlack, hmoves.limit_eq⟩

theorem ConstantKind.not_mem_tags {t : UInt8} (h : ofTag? t = none) :
    t ∉ ([1, 3, 4, 5, 6, 7, 8, 9, 10, 11, 12, 15, 16, 17, 18, 19, 20] : List UInt8) := by
  intro hmem
  have hkinds : ([1, 3, 4, 5, 6, 7, 8, 9, 10, 11, 12, 15, 16, 17, 18, 19, 20] : List UInt8).all
      (fun tag => (ofTag? tag).isSome) = true := by decide
  have hsome := List.all_eq_true.mp hkinds t hmem
  rw [h] at hsome
  cases hsome

/-- A refused tag is the byte before the place where the reader is left. -/
theorem Constant.TagRefused.in_file {file : List UInt8} {r s : Reader} {e : Error}
    (h : TagRefused r e s) (hr : r.bytes = file.drop r.position) :
    ∃ tag, e = .invalidTag tag ∧ ConstantKind.ofTag? tag = none ∧ r.position < s.position ∧
      file[s.position - 1]? = some tag := by
  obtain ⟨tag, front, he, htag, hbytes, hposition⟩ := h
  rw [List.length_append, List.length_singleton] at hposition
  refine ⟨tag, he, htag, by omega, ?_⟩
  have hindex : s.position - 1 = r.position + front.length := by omega
  rw [hindex, ← List.getElem?_drop, ← hr, hbytes, List.append_assoc,
    List.getElem?_append_right (Nat.le_refl _), Nat.sub_self]
  rfl

namespace ClassFile

/-- A refused magic number is that of the file at the place where the call began. -/
theorem MagicRefused.in_file {file : List UInt8} {r s : Reader} {e : Error}
    (h : MagicRefused r e s) (hr : r.bytes = file.drop r.position) :
    ∃ found, e = .invalidMagic found ∧ found ≠ magic ∧
      (file.drop r.position).take 4 = Encoder.u32 found ∧ s.position = r.position + 4 := by
  obtain ⟨found, he, hfound, hbytes, hposition⟩ := h
  refine ⟨found, he, hfound, ?_, hposition⟩
  rw [← hr, hbytes]
  exact List.take_left' (Encoder.length_u32 found)

theorem standsIn_of_calls {file : List UInt8} {n : Nat} {c : ClassFile} {t : Reader}
    (hc : decode (Decoder.calls decode n (Reader.ofBytes file 0)).2 = .ok c t) {a : Attribute}
    (ha : a ∈ c.allAttributes) : a.StandsIn file := by
  obtain ⟨front, hfront⟩ := decode_composed.moves_calls n (Reader.ofBytes file 0)
  obtain ⟨image, hfits, rfl, hmoves⟩ := (decode_reads _ _ _).mp hc
  have hviews := (Reader.views_ofBytes file).moves hfront
  exact (ClassImage.placesInOrder _ _ image hviews hfits hmoves).stand a ha

end ClassFile

/-! ## Code and tables -/

theorem Member.code?_eq_error {pool : ConstantPool} {m : Member} {e : Error}
    (h : m.code? pool = .error e) :
    ∃ a s cause, (Attribute.named Code.attributeName pool m.attributes).head? = some a ∧
      Code.decode a.body = .error cause s ∧ e = .inAttribute Code.attributeName a.offset cause := by
  rw [code?] at h
  split at h
  · cases h
  · rename_i a _ hnamed
    refine ⟨a, ?_⟩
    rw [hnamed]
    cases hdecode : Code.decode a.body with
    | ok found s =>
        rw [Code.ofAttribute_of_decode hdecode] at h
        cases h
    | error cause s =>
        rw [Code.ofAttribute_of_decode_error hdecode] at h
        cases h
        exact ⟨s, cause, rfl, rfl, rfl⟩

/-- A table is too short for its count or for the records of its count, or its length is refused. -/
theorem LocalVariableTable.decodeBody_eq_error {pool : ConstantPool} {check : LengthCheck}
    {name : String} {declared : Nat} {body : Reader} {e : Error}
    (h : (decodeBody pool check name declared body).value = .error e) :
    (∃ offset, e.TruncatedAt body.position body.limit offset) ∨
      ∃ required, e = .lengthMismatch declared required ∧ required ≠ declared ∧
        check = .strict := by
  rw [decodeBody_value] at h
  split at h
  · rename_i hshort
    cases h
    exact .inl ⟨_, _, _, rfl, Nat.le_refl _, hshort, rfl⟩
  split at h
  · rename_i hmismatch
    cases h
    exact .inr ⟨_, rfl, hmismatch⟩
  split at h
  · cases h
    refine .inl ⟨_, _, _, rfl, Nat.le_add_right _ _, Nat.mod_lt _ (by decide), ?_⟩
    rw [Reader.limit]
    omega
  · cases h

theorem LocalVariableTable.decode_eq_ok {pool : ConstantPool} {check : LengthCheck}
    {name : String} {declared : Nat} {r : Reader} {table : LocalVariableTable}
    (h : (decode pool check name declared r).1.value = .ok table) :
    (decodeBody pool check name declared (r.split declared).1).value = .ok table := by
  change Except.mapError (Error.inAttribute name r.position)
    (decodeBody pool check name declared (r.split declared).1).value = .ok table at h
  cases hvalue : (decodeBody pool check name declared (r.split declared).1).value with
  | ok found =>
      rw [hvalue] at h
      cases h
      rfl
  | error cause =>
      rw [hvalue] at h
      cases h

/-- A table fails with what became of its body. -/
theorem LocalVariableTable.decode_eq_error {pool : ConstantPool} {check : LengthCheck}
    {name : String} {declared : Nat} {r : Reader} {e : Error}
    (h : (decode pool check name declared r).1.value = .error e) :
    ∃ cause, (decodeBody pool check name declared (r.split declared).1).value = .error cause ∧
      e = .inAttribute name r.position cause := by
  change (decodeBody pool check name declared (r.split declared).1).value.mapError
    (.inAttribute name r.position) = .error e at h
  cases hvalue : (decodeBody pool check name declared (r.split declared).1).value with
  | ok table =>
      rw [hvalue] at h
      cases h
  | error cause =>
      rw [hvalue] at h
      cases h
      exact ⟨cause, rfl, rfl⟩

theorem Reader.limit_split_fst (r : Reader) (n : Nat) :
    (r.split n).1.limit = min (r.position + n) r.limit := by
  rw [limit, remaining_split_fst, position_split_fst, limit]
  omega

/-- Class files, code and tables fail in the ways given here and in no other, and the places that
truncations report lie in the window that was read and tell where it ends. Behind the check of its
length a read never meets the end of the stream. -/
theorem read_failures_located :
    (∀ n, Decoder.bytes n = (do Decoder.ensure n; Decoder.fill n)) ∧
    (∀ (file : List UInt8) (n : Nat) (e : Error) (s : Reader),
      let r := (Decoder.calls ClassFile.decode n (Reader.ofBytes file 0)).2
      ClassFile.decode r = .error e s →
        s.bytes = file.drop s.position ∧
        (e.TruncatedAt r.position file.length s.position ∨
          (∃ found, e = .invalidMagic found ∧ found ≠ 0xCAFEBABE ∧
            (file.drop r.position).take 4 = Encoder.u32 found ∧
            s.position = r.position + 4) ∨
          ∃ tag, e = .invalidTag tag ∧
            tag ∉ ([1, 3, 4, 5, 6, 7, 8, 9, 10, 11, 12, 15, 16, 17, 18, 19, 20] : List UInt8) ∧
            r.position < s.position ∧ file[s.position - 1]? = some tag)) ∧
    (∀ (pool : ConstantPool) (m : Member) (e : Error), m.code? pool = .error e →
      ∃ a offset cause, (Attribute.named "Code" pool m.attributes).head? = some a ∧
        e = .inAttribute "Code" a.offset cause ∧ cause.TruncatedAt a.offset a.limit offset ∧
        ∀ file n c t, ClassFile.decode (Decoder.calls ClassFile.decode n
          (Reader.ofBytes file 0)).2 = .ok c t → m ∈ c.methods → a.StandsIn file) ∧
    ∀ (pool : ConstantPool) (check : LengthCheck) (name : String) (declared : Nat) (r : Reader)
      (e : Error), (LocalVariableTable.decode pool check name declared r).1.value = .error e →
      ∃ cause, e = .inAttribute name r.position cause ∧
        ((∃ offset, cause.TruncatedAt r.position (min (r.position + declared) r.limit) offset) ∨
          ∃ required, cause = .lengthMismatch declared required ∧ required ≠ declared ∧
            check = .strict) := by
  refine ⟨Decoder.bytes_eq_ensure_fill, ?_, ?_, ?_⟩
  · intro file n e s r h
    obtain ⟨front, hfront⟩ := ClassFile.decode_composed.moves_calls n (Reader.ofBytes file 0)
    obtain ⟨back, hback⟩ := ClassFile.decode_composed.moves_of_error h
    have hr : r.bytes = file.drop r.position := hfront.bytes_eq_drop
    refine ⟨(hfront.append hback).bytes_eq_drop, ?_⟩
    obtain hlacks | hmagic | htag := ClassFile.decode_failsBy r e s h
    · have hlimit : r.limit = file.length := hfront.limit_eq.trans (Nat.zero_add _)
      rw [← hlimit]
      exact .inl (hlacks.truncatedAt hback)
    · exact .inr (.inl (hmagic.in_file hr))
    · obtain ⟨tag, he, hnone, hplace⟩ := htag.in_file hr
      exact .inr (.inr ⟨tag, he, ConstantKind.not_mem_tags hnone, hplace⟩)
  · intro pool m e h
    obtain ⟨a, s, cause, hhead, hdecode, he⟩ := Member.code?_eq_error h
    obtain ⟨front, hfront⟩ := Code.decode_composed.moves_of_error hdecode
    have hlacks := Code.decode_truncates _ _ _ hdecode
    refine ⟨a, s.position, cause, hhead, he, hlacks.truncatedAt hfront, ?_⟩
    intro file n c t hc hm
    have ha : a ∈ m.attributes := (List.mem_filter.mp (List.mem_of_mem_head? hhead)).1
    apply ClassFile.standsIn_of_calls hc
    simp only [ClassFile.allAttributes, List.mem_append, List.mem_flatMap]
    exact .inl (.inr ⟨m, hm, ha⟩)
  · intro pool check name declared r e h
    obtain ⟨cause, hvalue, he⟩ := LocalVariableTable.decode_eq_error h
    have hcause := LocalVariableTable.decodeBody_eq_error hvalue
    rw [Reader.limit_split_fst] at hcause
    exact ⟨cause, he, hcause⟩

/-- Four bytes that begin no class file, and after them one with the tag of no constant. -/
def badTagFile : List UInt8 :=
  [1, 2, 3, 4, 0xCA, 0xFE, 0xBA, 0xBE, 0, 0, 0, 52, 0, 2, 2, 7]

/-- A method whose code ends within its second number. -/
def shortMethod : Member :=
  ⟨AccessFlags.ofWord 0, 0, 0, [⟨1, 70, [0, 1, 0]⟩]⟩

theorem read_failures_located_each :
    let pool := ConstantPool.ofSlots [.utf8 "Code"]
    let table : Reader := ⟨40, [0, 2, 7]⟩
    ClassFile.decode (Decoder.calls ClassFile.decode 1 (Reader.ofBytes badTagFile 0)).2 =
        .error (.invalidTag 2) ⟨15, [7]⟩ ∧
      badTagFile[14]? = some 2 ∧
      shortMethod.code? pool = .error (.inAttribute "Code" 70 (.truncated 72 2 1)) ∧
      (∃ a offset, (Attribute.named "Code" pool shortMethod.attributes).head? = some a ∧
        (Error.truncated 72 2 1).TruncatedAt a.offset a.limit offset) ∧
      (LocalVariableTable.decode pool .strict "Table" 12 table).1.value =
        .error (.inAttribute "Table" 40 (.lengthMismatch 12 22)) ∧
      ∃ required, Error.lengthMismatch 12 22 = .lengthMismatch 12 required ∧ required ≠ 12 := by
  intro pool table
  obtain ⟨-, hclass, hcode, htable⟩ := read_failures_located
  have hfirst : ClassFile.decode
      (Decoder.calls ClassFile.decode 1 (Reader.ofBytes badTagFile 0)).2 =
        .error (.invalidTag 2) ⟨15, [7]⟩ := rfl
  have hshort : shortMethod.code? pool =
      .error (.inAttribute "Code" 70 (.truncated 72 2 1)) := rfl
  have hmismatch : (LocalVariableTable.decode pool .strict "Table" 12 table).1.value =
      .error (.inAttribute "Table" 40 (.lengthMismatch 12 22)) := rfl
  refine ⟨hfirst, ?_, hshort, ?_, hmismatch, ?_⟩
  · obtain ⟨-, ⟨_, _, he, -⟩ | ⟨_, he, -⟩ | ⟨tag, he, -, -, hplace⟩⟩ :=
      hclass badTagFile 1 _ _ hfirst
    · cases he
    · cases he
    · cases he
      exact hplace
  · obtain ⟨a, offset, cause, hhead, he, htruncated, -⟩ := hcode pool shortMethod _ hshort
    obtain ⟨-, -, rfl⟩ := Error.inAttribute.inj he
    exact ⟨a, offset, hhead, htruncated⟩
  · obtain ⟨cause, he, ⟨_, _, _, htruncated, -⟩ | ⟨required, hrequired, hne, -⟩⟩ :=
      htable pool .strict "Table" 12 table _ hmismatch
    · cases he
      cases htruncated
    · cases he
      exact ⟨required, hrequired, hne⟩

end JvmClass
