import JvmClass.Decoder

/-!
# Reads of a fixed width

A read asks for a number of bytes that does not depend on them. If they are there it gives what
they spell and moves past them, and otherwise it says how many are missing and stays. This is all
that proofs need to know of a read.
-/

namespace JvmClass.Decoder

open Bytes

variable {α β : Type} {d : Decoder α} {width : Nat} {f : List UInt8 → α}

/-- The decoder takes `width` bytes and gives `f` of them, or fails where it stands if fewer are
left. -/
structure Spells (d : Decoder α) (width : Nat) (f : List UInt8 → α) : Prop where
  ok : ∀ r, width ≤ r.remaining →
    d r = .ok (f (r.bytes.take width)) ⟨r.position + width, r.bytes.drop width⟩
  short : ∀ r, r.remaining < width →
    d r = .error (.truncated r.position width r.remaining) r

namespace Spells

theorem bytes (n : Nat) : Spells (Decoder.bytes n) n fun front => front where
  ok r h := by rw [bytes_eq, if_pos h]
  short r h := by rw [bytes_eq, if_neg (Nat.not_le.mpr h)]

theorem map (h : Spells d width f) (g : α → β) :
    Spells (do return g (← d)) width fun front => g (f front) where
  ok r hr := by
    simp only [bind, EStateM.bind, h.ok r hr]
    rfl
  short r hr := by simp only [bind, EStateM.bind, h.short r hr]

/-- Only rows of `width` bytes matter. -/
theorem congr {g : List UInt8 → α} (h : Spells d width f)
    (hfg : ∀ front, front.length = width → f front = g front) : Spells d width g where
  ok r hr := by
    have hlength : (r.bytes.take width).length = width := by
      rw [List.length_take]
      exact Nat.min_eq_left hr
    rw [h.ok r hr, hfg _ hlength]
  short := h.short

theorem number (width : Nat) : Spells (Decoder.number width) width BigEndian.value :=
  (bytes width).map BigEndian.value

theorem u8 : Spells Decoder.u8 1 fun front => UInt8.ofNat (BigEndian.value front) :=
  (number 1).map UInt8.ofNat

theorem u16 : Spells Decoder.u16 2 fun front => UInt16.ofNat (BigEndian.value front) :=
  (number 2).map UInt16.ofNat

theorem u32 : Spells Decoder.u32 4 fun front => UInt32.ofNat (BigEndian.value front) :=
  (number 4).map UInt32.ofNat

theorem u64 : Spells Decoder.u64 8 fun front => UInt64.ofNat (BigEndian.value front) :=
  (number 8).map UInt64.ofNat

theorem i32 : Spells Decoder.i32 4 fun front => (UInt32.ofNat (BigEndian.value front)).toInt32 :=
  u32.map UInt32.toInt32

theorem i64 : Spells Decoder.i64 8 fun front => (UInt64.ofNat (BigEndian.value front)).toInt64 :=
  u64.map UInt64.toInt64

theorem u16s (count : Nat) : Spells (Decoder.u16s count) (count * 2) u16sOfBytes :=
  (bytes (count * 2)).map u16sOfBytes

end Spells

end JvmClass.Decoder
