import JvmClass.ConstantPool

/-!
# Attributes

An attribute is a name and a body of raw bytes. It remembers where in the file its body begins, so
that whatever is read from the body later is reported at its place in the file.
-/

namespace JvmClass

structure Attribute where
  nameIndex : UInt16
  offset : Nat
  info : List UInt8
deriving DecidableEq, Repr, Inhabited

namespace Attribute

/-- Length of the name index and the body length before a body. -/
def headerSize : Nat := 6

def decode : Decoder Attribute := do
  let nameIndex ← Decoder.u16
  let length ← Decoder.u32
  let offset ← Decoder.position
  let info ← Decoder.bytes length.toNat
  return ⟨nameIndex, offset, info⟩

def encode (a : Attribute) : List UInt8 :=
  Encoder.u16 a.nameIndex ++ Encoder.u32 (UInt32.ofNat a.info.length) ++ a.info

/-- The reader of an attribute's body. -/
def body (a : Attribute) : Reader :=
  Reader.ofBytes a.info a.offset

/-- Position just after the body. -/
def limit (a : Attribute) : Nat :=
  a.offset + a.info.length

/-- The attributes with the given name, in their order. -/
def named (name : String) (pool : ConstantPool) (attributes : List Attribute) : List Attribute :=
  attributes.filter fun a => pool.text? a.nameIndex == some name

theorem named_map (f : Attribute → Attribute) (hf : ∀ a, (f a).nameIndex = a.nameIndex)
    (name : String) (pool : ConstantPool) (attributes : List Attribute) :
    named name pool (attributes.map f) = (named name pool attributes).map f := by
  rw [named, List.filter_map]
  simp only [named, Function.comp_def, hf]

/-- Attributes at the places they have when their encodings begin at `start`. -/
def placed (start : Nat) : List Attribute → List Attribute
  | [] => []
  | a :: rest =>
    let offset := start + headerSize
    { a with offset } :: placed (offset + a.info.length) rest

def inspect (a : Attribute) : String :=
  let size := a.info.length
  Text.record "Attribute"
    [("attribute_name_index", toString a.nameIndex), ("offset", toString a.offset),
      ("info", Text.quoted s!"({size} bytes)")]

end Attribute

end JvmClass
