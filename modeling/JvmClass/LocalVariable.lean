import JvmClass.Descriptor.SourceName
import JvmClass.ConstantPool
import JvmClass.Log

/-!
# Local variables

A record of a local variable table gives the code range, the name, the descriptor and the frame slot
of one variable. Name and descriptor refer to the constant pool, and a reference that does not lead
to a text leaves the variable without them.
-/

namespace JvmClass

/-- A record as it stands in a class file. -/
structure VariableRecord where
  startPc : UInt16
  length : UInt16
  nameIndex : UInt16
  descriptorIndex : UInt16
  index : UInt16
deriving DecidableEq, Repr, Inhabited

namespace VariableRecord

/-- Bytes of a record: five 16-bit numbers. -/
def size : Nat := 10

def decode : Decoder VariableRecord :=
  return ⟨← Decoder.u16, ← Decoder.u16, ← Decoder.u16, ← Decoder.u16, ← Decoder.u16⟩

def encode (v : VariableRecord) : List UInt8 :=
  Encoder.u16 v.startPc ++ Encoder.u16 v.length ++ Encoder.u16 v.nameIndex ++
    Encoder.u16 v.descriptorIndex ++ Encoder.u16 v.index

/-- What is logged about a reference: nothing if it is absent or leads to a text. -/
def referenceLog (pool : ConstantPool) (index : UInt16) : List Log.Record :=
  if index ≠ 0 ∧ pool.text? index = none then
    [⟨.debug, .localVariableTable, s!"Constant pool index {index} is not a Utf8 entry"⟩]
  else []

/-- What is logged about a record: its fields, then the references that lead nowhere. -/
def log (pool : ConstantPool) (v : VariableRecord) : List Log.Record :=
  let message :=
    s!"local variable: start_pc={v.startPc} length={v.length} name_index={v.nameIndex}" ++
      s!" descriptor_index={v.descriptorIndex} index={v.index}"
  ⟨.trace, .localVariableTable, message⟩ ::
    referenceLog pool v.nameIndex ++ referenceLog pool v.descriptorIndex

end VariableRecord

structure LocalVariable where
  startPc : UInt16
  length : UInt16
  name? : Option String
  descriptor? : Option String
  index : UInt16
deriving DecidableEq, Repr, Inhabited

namespace LocalVariable

/-- The variable a record describes. -/
def ofRecord (pool : ConstantPool) (v : VariableRecord) : LocalVariable where
  startPc := v.startPc
  length := v.length
  name? := pool.text? v.nameIndex
  descriptor? := pool.text? v.descriptorIndex
  index := v.index

/-! ## Declarations -/

/-- The variable as it is declared in source, with its slot in a comment. There is none without a
name and a descriptor, and the descriptor may be malformed. -/
def declaration (v : LocalVariable) : Except Error (Option String) :=
  match v.name?, v.descriptor? with
  | some name, some descriptor =>
    (Descriptor.sourceName descriptor).map fun type =>
      some s!"{type} {name}; // index = {v.index}"
  | _, _ => .ok none

/-- The declaration, with a malformed descriptor logged and left out. -/
def render (v : LocalVariable) : Logged (Option String) :=
  match v.declaration with
  | .ok declaration? => return declaration?
  | .error e => do
    Logged.record .debug .localVariableTable
      s!"Skipping local variable in slot {v.index}: {e.message}"
    return none

def fieldType? (v : LocalVariable) : Option FieldType :=
  v.descriptor?.bind fun descriptor => (FieldType.parse descriptor).toOption

/-- First and last offset in the code at which the variable has a value. -/
def liveRange (v : LocalVariable) : Nat × Nat :=
  (v.startPc.toNat, v.startPc.toNat + v.length.toNat)

/-- First and last frame slot of the variable. -/
def slots (v : LocalVariable) : Nat × Nat :=
  let first := v.index.toNat
  match v.fieldType? with
  | some t => if t.isWide then (first, first + 1) else (first, first)
  | none => (first, first)

def inspect (v : LocalVariable) : String :=
  Text.record "LocalVariable"
    [("start_pc", toString v.startPc), ("length", toString v.length),
      ("name", Text.optional (v.name?.map Text.quoted)),
      ("descriptor", Text.optional (v.descriptor?.map Text.quoted)),
      ("index", toString v.index)]

end LocalVariable

end JvmClass
