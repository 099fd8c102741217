import JvmClass.Decoder

/-!
# Encoders

The bytes of numbers and of counted lists. A decoder reads a number back from its encoding and
leaves the bytes after it alone.
-/

namespace JvmClass.Encoder

open Bytes

variable {α : Type}

def u8 (n : UInt8) : List UInt8 :=
  [n]

def u16 (n : UInt16) : List UInt8 :=
  BigEndian.bytes 2 n.toNat

def u32 (n : UInt32) : List UInt8 :=
  BigEndian.bytes 4 n.toNat

def u64 (n : UInt64) : List UInt8 :=
  BigEndian.bytes 8 n.toNat

/-- A list behind its 16-bit length. -/
def counted (encode : α → List UInt8) (items : List α) : List UInt8 :=
  u16 (UInt16.ofNat items.length) ++ items.flatMap encode

@[simp] theorem length_u8 (n : UInt8) : (u8 n).length = 1 := rfl

@[simp] theorem length_u16 (n : UInt16) : (u16 n).length = 2 :=
  BigEndian.length_bytes 2 n.toNat

@[simp] theorem length_u32 (n : UInt32) : (u32 n).length = 4 :=
  BigEndian.length_bytes 4 n.toNat

@[simp] theorem length_u64 (n : UInt64) : (u64 n).length = 8 :=
  BigEndian.length_bytes 8 n.toNat

end JvmClass.Encoder

namespace JvmClass.Decoder

open Bytes

theorem bytes_append {n : Nat} {front : List UInt8} (h : front.length = n) (position : Nat)
    (rest : List UInt8) :
    bytes n ⟨position, front ++ rest⟩ = .ok front ⟨position + n, rest⟩ := by
  subst h
  simp [bytes]

theorem number_append (width n position : Nat) (rest : List UInt8) :
    number width ⟨position, BigEndian.bytes width n ++ rest⟩ =
      .ok (n % BigEndian.capacity width) ⟨position + width, rest⟩ := by
  simp only [number, bind, EStateM.bind, bytes_append (BigEndian.length_bytes width n),
    BigEndian.value_bytes]
  rfl

@[simp] theorem u8_append (n : UInt8) (position : Nat) (rest : List UInt8) :
    u8 ⟨position, Encoder.u8 n ++ rest⟩ = .ok n ⟨position + 1, rest⟩ := by
  have hbytes : Encoder.u8 n = BigEndian.bytes 1 n.toNat := by
    simp [Encoder.u8, BigEndian.bytes, BigEndian.capacity]
  have hlt : n.toNat < BigEndian.capacity 1 := n.toNat_lt
  simp only [u8, bind, EStateM.bind, hbytes, number_append, Nat.mod_eq_of_lt hlt,
    UInt8.ofNat_toNat]
  rfl

@[simp] theorem u16_append (n : UInt16) (position : Nat) (rest : List UInt8) :
    u16 ⟨position, Encoder.u16 n ++ rest⟩ = .ok n ⟨position + 2, rest⟩ := by
  have hlt : n.toNat < BigEndian.capacity 2 := n.toNat_lt
  simp only [u16, bind, EStateM.bind, Encoder.u16, number_append, Nat.mod_eq_of_lt hlt,
    UInt16.ofNat_toNat]
  rfl

@[simp] theorem u32_append (n : UInt32) (position : Nat) (rest : List UInt8) :
    u32 ⟨position, Encoder.u32 n ++ rest⟩ = .ok n ⟨position + 4, rest⟩ := by
  have hlt : n.toNat < BigEndian.capacity 4 := n.toNat_lt
  simp only [u32, bind, EStateM.bind, Encoder.u32, number_append, Nat.mod_eq_of_lt hlt,
    UInt32.ofNat_toNat]
  rfl

@[simp] theorem u64_append (n : UInt64) (position : Nat) (rest : List UInt8) :
    u64 ⟨position, Encoder.u64 n ++ rest⟩ = .ok n ⟨position + 8, rest⟩ := by
  have hlt : n.toNat < BigEndian.capacity 8 := n.toNat_lt
  simp only [u64, bind, EStateM.bind, Encoder.u64, number_append, Nat.mod_eq_of_lt hlt,
    UInt64.ofNat_toNat]
  rfl

end JvmClass.Decoder
