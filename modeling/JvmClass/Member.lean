import JvmClass.AccessFlags
import JvmClass.Attribute
import JvmClass.Descriptor.Parser

/-!
# Fields and methods

Fields and methods have the same form in a class file. Their names and descriptors are texts of the
constant pool.
-/

namespace JvmClass

structure Member where
  flags : AccessFlags
  nameIndex : UInt16
  descriptorIndex : UInt16
  attributes : List Attribute
deriving DecidableEq, Repr, Inhabited

namespace Member

def decode : Decoder Member := do
  let flags ← Decoder.u16
  let nameIndex ← Decoder.u16
  let descriptorIndex ← Decoder.u16
  let attributes ← Decoder.counted Attribute.decode
  return ⟨AccessFlags.ofWord flags, nameIndex, descriptorIndex, attributes⟩

def encode (m : Member) : List UInt8 :=
  Encoder.u16 m.flags.toWord ++ Encoder.u16 m.nameIndex ++ Encoder.u16 m.descriptorIndex ++
    Encoder.counted Attribute.encode m.attributes

/-- Bytes before the attributes: four 16-bit numbers. -/
def headerSize : Nat := 8

/-- Members with their attributes at the places they have when the encodings begin at `start`. -/
def placed (start : Nat) : List Member → List Member
  | [] => []
  | m :: rest =>
    { m with attributes := Attribute.placed (start + headerSize) m.attributes } ::
      placed (start + m.encode.length) rest

def name (pool : ConstantPool) (m : Member) : Except Error String :=
  pool.text m.nameIndex

def descriptor (pool : ConstantPool) (m : Member) : Except Error String :=
  pool.text m.descriptorIndex

def methodDescriptor (pool : ConstantPool) (m : Member) : Except Error MethodDescriptor := do
  MethodDescriptor.parse (← m.descriptor pool)

def inspect (typeName : String) (m : Member) : String :=
  Text.record typeName
    [("access_flags", m.flags.inspect), ("name_index", toString m.nameIndex),
      ("descriptor_index", toString m.descriptorIndex),
      ("attributes",
        Text.applied "Attributes" [Text.bracketed (m.attributes.map Attribute.inspect)])]

end Member

end JvmClass
