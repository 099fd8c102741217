import JvmClass.Proofs.Image

/-!
# Decoders put together from reads

Every decoder of a part of a class file is composed of reads of a fixed number of bytes, one after
the other, and of refusals of what has been read. What holds of a read and of a refusal and is
passed on in sequencing therefore holds of all of them, also where they fail.
-/

namespace JvmClass

namespace Decoder

variable {α β : Type}

inductive Composed : {α : Type} → Decoder α → Prop
  | pure {α : Type} (a : α) : Composed (Pure.pure a)
  | throw {α : Type} (e : Error) : Composed (throw e : Decoder α)
  | bytes (n : Nat) : Composed (Decoder.bytes n)
  | position : Composed Decoder.position
  | bind {α β : Type} {d : Decoder α} {f : α → Decoder β} :
    Composed d → (∀ a, Composed (f a)) → Composed (d >>= f)

/-- A decoder that is seen to succeed. -/
theorem eq_ok_of_outcome {d : Decoder α} {r s : Reader} {a : α}
    (ha : (d.outcome r).1.toOption = some a) (hs : (d.outcome r).2 = s) : d r = .ok a s := by
  simp only [outcome] at ha hs
  cases hd : d r with
  | ok b s' =>
      rw [hd] at ha hs
      cases ha
      cases hs
      rfl
  | error e s' =>
      rw [hd] at ha
      cases ha

namespace Composed

/-! ## Laws of composed decoders -/

/-- Successful or not, a decoder leaves its reader somewhere further on in the same bytes. -/
theorem moves {d : Decoder α} (h : Composed d) (r : Reader) :
    ∃ front, r.Moves front (d.outcome r).2 := by
  induction h generalizing r with
  | pure a => exact ⟨[], Reader.moves_nil_iff.mpr rfl⟩
  | throw e => exact ⟨[], Reader.moves_nil_iff.mpr rfl⟩
  | position => exact ⟨[], Reader.moves_nil_iff.mpr rfl⟩
  | bytes n =>
      rw [outcome]
      cases hread : Decoder.bytes n r with
      | ok front s => exact ⟨front, (bytes_eq_ok_iff.mp hread).2⟩
      | error e s =>
          rw [bytes_eq] at hread
          split at hread
          · cases hread
          · cases hread
            exact ⟨[], Reader.moves_nil_iff.mpr rfl⟩
  | bind _ _ ihfirst ihthen =>
      rename_i d f _ _
      rw [outcome_bind]
      obtain ⟨front, hfront⟩ := ihfirst r
      generalize d.outcome r = first at hfront ⊢
      obtain ⟨value, s⟩ := first
      cases value with
      | error e => exact ⟨front, hfront⟩
      | ok a =>
          obtain ⟨back, hback⟩ := ihthen a s
          exact ⟨front ++ back, hfront.append hback⟩

/-! ## Composed decoders -/

theorem number (width : Nat) : Composed (Decoder.number width) :=
  (bytes width).bind fun _ => pure _

theorem u8 : Composed Decoder.u8 :=
  (number 1).bind fun _ => pure _

theorem u16 : Composed Decoder.u16 :=
  (number 2).bind fun _ => pure _

theorem u32 : Composed Decoder.u32 :=
  (number 4).bind fun _ => pure _

theorem u64 : Composed Decoder.u64 :=
  (number 8).bind fun _ => pure _

theorem i32 : Composed Decoder.i32 :=
  u32.bind fun _ => pure _

theorem i64 : Composed Decoder.i64 :=
  u64.bind fun _ => pure _

theorem u16s (count : Nat) : Composed (Decoder.u16s count) :=
  (bytes (count * 2)).bind fun _ => pure _

theorem times {d : Decoder α} (h : Composed d) (n : Nat) : Composed (d.times n) := by
  induction n with
  | zero => exact pure []
  | succ n ih => exact h.bind fun _ => ih.bind fun _ => pure _

theorem counted {d : Decoder α} (h : Composed d) : Composed d.counted :=
  u16.bind fun _ => h.times _

end Composed

/-- However many calls, and whether they fail or not, the reader stays in the same bytes. -/
theorem Composed.moves_calls {d : Decoder α} (h : Composed d) (n : Nat) (r : Reader) :
    ∃ front, r.Moves front (d.calls n r).2 := by
  induction n generalizing r with
  | zero => exact ⟨[], Reader.moves_nil_iff.mpr rfl⟩
  | succ n ih =>
      obtain ⟨front, hfront⟩ := h.moves r
      obtain ⟨back, hback⟩ := ih (d.outcome r).2
      exact ⟨front ++ back, hfront.append hback⟩

end Decoder

/-! ## Parts of class files -/

open Decoder (Composed)
open Decoder.Composed

theorem Attribute.decode_composed : Composed Attribute.decode :=
  u16.bind fun _ => u32.bind fun _ => position.bind fun _ => (bytes _).bind fun _ => pure _

theorem Member.decode_composed : Composed Member.decode :=
  u16.bind fun _ => u16.bind fun _ => u16.bind fun _ =>
    Attribute.decode_composed.counted.bind fun _ => pure _

theorem ExceptionHandler.decode_composed : Composed ExceptionHandler.decode :=
  u16.bind fun _ => u16.bind fun _ => u16.bind fun _ => u16.bind fun _ => pure _

theorem Code.decode_composed : Composed Code.decode :=
  u16.bind fun _ => u16.bind fun _ => u32.bind fun _ => (bytes _).bind fun _ =>
    ExceptionHandler.decode_composed.counted.bind fun _ =>
      Attribute.decode_composed.counted.bind fun _ => pure _

theorem Constant.decodeFields_composed (kind : ConstantKind) : Composed (decodeFields kind) := by
  cases kind with
  | utf8 => exact u16.bind fun _ => (bytes _).bind fun _ => pure _
  | integer => exact i32.bind fun _ => pure _
  | float => exact u32.bind fun _ => pure _
  | long => exact i64.bind fun _ => pure _
  | double => exact u64.bind fun _ => pure _
  | methodHandle => exact u8.bind fun _ => u16.bind fun _ => pure _
  | classInfo | stringInfo | methodType | moduleInfo | packageInfo =>
      exact u16.bind fun _ => pure _
  | fieldRef | methodRef | interfaceMethodRef | nameAndType | dynamic | invokeDynamic =>
      exact u16.bind fun _ => u16.bind fun _ => pure _

theorem Constant.decode_composed : Composed Constant.decode := by
  refine u8.bind fun tag => ?_
  cases ConstantKind.ofTag? tag with
  | none => exact throw _
  | some kind => exact decodeFields_composed kind

theorem ConstantPool.decodeEntries_composed (n : Nat) : Composed (decodeEntries n) := by
  induction n using Nat.strongRecOn with
  | ind n ih =>
      cases n with
      | zero => exact pure []
      | succ n =>
          rw [decodeEntries_succ]
          refine Constant.decode_composed.bind fun first => (ih _ ?_).bind fun _ => pure _
          have hpos := length_slots_pos first
          omega

theorem ConstantPool.decode_composed : Composed ConstantPool.decode :=
  u16.bind fun _ => (decodeEntries_composed _).bind fun _ => pure _

theorem ClassFile.decodeMagic_composed : Composed decodeMagic := by
  refine u32.bind fun found => ?_
  split
  · exact throw _
  · exact pure _

/-- What follows the magic number of a class file is composed of reads too. -/
theorem ClassFile.exists_decode_eq :
    ∃ rest : Unit → Decoder ClassFile, decode = decodeMagic >>= rest ∧ ∀ u, Composed (rest u) :=
  ⟨_, rfl, fun _ => u16.bind fun _ => u16.bind fun _ =>
    ConstantPool.decode_composed.bind fun _ => u16.bind fun _ => u16.bind fun _ =>
      u16.bind fun _ => u16.bind fun _ => (u16s _).bind fun _ =>
        Member.decode_composed.counted.bind fun _ => Member.decode_composed.counted.bind fun _ =>
          Attribute.decode_composed.counted.bind fun _ => pure _⟩

theorem ClassFile.decode_composed : Composed ClassFile.decode := by
  obtain ⟨rest, hdecode, hrest⟩ := exists_decode_eq
  rw [hdecode]
  exact decodeMagic_composed.bind hrest

end JvmClass
