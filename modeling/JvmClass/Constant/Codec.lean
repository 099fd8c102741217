import JvmClass.Bytes.Utf8
import JvmClass.Encoder

/-!
# Constants in a class file

An entry is its tag and then the fields of its kind. Text stands behind its length in bytes and is
decoded as UTF-8 with replacements. The slot after a long or double has no bytes.
-/

namespace JvmClass.Constant

open Decoder Bytes

/-- The fields of an entry of the given kind. -/
def decodeFields : ConstantKind → Decoder Constant
  | .utf8 => do
    let length ← u16
    return utf8 (Utf8.decodeLossy (← bytes length.toNat))
  | .integer => return integer (← i32)
  | .float => return float (← u32)
  | .long => return long (← i64)
  | .double => return double (← u64)
  | .classInfo => return classInfo (← u16)
  | .stringInfo => return stringInfo (← u16)
  | .fieldRef => return fieldRef (← u16) (← u16)
  | .methodRef => return methodRef (← u16) (← u16)
  | .interfaceMethodRef => return interfaceMethodRef (← u16) (← u16)
  | .nameAndType => return nameAndType (← u16) (← u16)
  | .methodHandle => return methodHandle (← u8) (← u16)
  | .methodType => return methodType (← u16)
  | .dynamic => return dynamic (← u16) (← u16)
  | .invokeDynamic => return invokeDynamic (← u16) (← u16)
  | .moduleInfo => return moduleInfo (← u16)
  | .packageInfo => return packageInfo (← u16)

def decode : Decoder Constant := do
  let tag ← u8
  match ConstantKind.ofTag? tag with
  | some kind => decodeFields kind
  | none => throw (.invalidTag tag)

def encodeFields : Constant → List UInt8
  | utf8 text =>
    let payload := Utf8.encode text
    Encoder.u16 (UInt16.ofNat payload.length) ++ payload
  | integer value => Encoder.u32 value.toUInt32
  | float bits => Encoder.u32 bits
  | long value => Encoder.u64 value.toUInt64
  | double bits => Encoder.u64 bits
  | classInfo index | stringInfo index | methodType index | moduleInfo index
  | packageInfo index => Encoder.u16 index
  | fieldRef first second | methodRef first second | interfaceMethodRef first second
  | nameAndType first second | dynamic first second | invokeDynamic first second =>
    Encoder.u16 first ++ Encoder.u16 second
  | methodHandle kind reference => Encoder.u8 kind ++ Encoder.u16 reference
  | unusable => []

def encode (c : Constant) : List UInt8 :=
  match c.kind? with
  | some kind => Encoder.u8 kind.tag ++ c.encodeFields
  | none => []

end JvmClass.Constant
