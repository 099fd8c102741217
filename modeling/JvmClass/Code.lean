import JvmClass.LocalVariableTable
import JvmClass.Member

/-!
# Code

The body of the `Code` attribute of a method: frame sizes, the instructions as raw bytes, the
exception handlers, and attributes of its own, among them the local variable tables.
-/

namespace JvmClass

/-- A handler for the instructions from `startPc` up to `endPc`. -/
structure ExceptionHandler where
  startPc : UInt16
  endPc : UInt16
  handlerPc : UInt16
  catchType : UInt16
deriving DecidableEq, Repr, Inhabited

namespace ExceptionHandler

def decode : Decoder ExceptionHandler :=
  return ⟨← Decoder.u16, ← Decoder.u16, ← Decoder.u16, ← Decoder.u16⟩

def encode (h : ExceptionHandler) : List UInt8 :=
  Encoder.u16 h.startPc ++ Encoder.u16 h.endPc ++ Encoder.u16 h.handlerPc ++
    Encoder.u16 h.catchType

end ExceptionHandler

structure Code where
  maxStack : UInt16
  maxLocals : UInt16
  instructions : List UInt8
  handlers : List ExceptionHandler
  attributes : List Attribute
deriving DecidableEq, Repr, Inhabited

namespace Code

def attributeName : String := "Code"

def decode : Decoder Code := do
  let maxStack ← Decoder.u16
  let maxLocals ← Decoder.u16
  let length ← Decoder.u32
  let instructions ← Decoder.bytes length.toNat
  let handlers ← Decoder.counted ExceptionHandler.decode
  let attributes ← Decoder.counted Attribute.decode
  return ⟨maxStack, maxLocals, instructions, handlers, attributes⟩

/-- The bytes before the first nested attribute. -/
def encodeFront (c : Code) : List UInt8 :=
  Encoder.u16 c.maxStack ++ Encoder.u16 c.maxLocals ++
    Encoder.u32 (UInt32.ofNat c.instructions.length) ++ c.instructions ++
    Encoder.counted ExceptionHandler.encode c.handlers ++
    Encoder.u16 (UInt16.ofNat c.attributes.length)

def encode (c : Code) : List UInt8 :=
  c.encodeFront ++ c.attributes.flatMap Attribute.encode

/-- The code with its attributes at the places they have when the encoding begins at `start`. -/
def placed (start : Nat) (c : Code) : Code :=
  { c with attributes := Attribute.placed (start + c.encodeFront.length) c.attributes }

/-- The code in the body of an attribute. Bytes after it are of no concern. -/
def ofAttribute (a : Attribute) : Except Error Code :=
  (decode.result a.body).mapError (.inAttribute attributeName a.offset)

/-- The tables nested in the code, in their order. -/
def localVariableTables (pool : ConstantPool) (check : LengthCheck) (c : Code) :
    List (Logged (Except Error LocalVariableTable)) :=
  LocalVariableTable.decodeAll pool check c.attributes

end Code

/-- The code of a method, from the first attribute with its name. Abstract and native methods have
none. -/
def Member.code? (pool : ConstantPool) (m : Member) : Except Error (Option Code) :=
  match Attribute.named Code.attributeName pool m.attributes with
  | [] => .ok none
  | a :: _ => (Code.ofAttribute a).map some

end JvmClass
