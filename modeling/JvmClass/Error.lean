import JvmClass.Constant.Inspect

/-!
# Errors

Why a class file, a part of it or a descriptor cannot be read. Offsets of truncations and of
attributes count bytes from the start of the file, offsets in descriptors count the bytes of their
text.
-/

namespace JvmClass

open Text

inductive Error where
  /-- A read of `needed` bytes where fewer were left. -/
  | truncated (offset needed remaining : Nat)
  /-- A table whose record count does not fit the length of its attribute. -/
  | lengthMismatch (declared required : Nat)
  | malformedDescriptor (descriptor : String) (offset : Nat)
  /-- A failure inside an attribute whose body begins at `offset`. -/
  | inAttribute (name : String) (offset : Nat) (cause : Error)
  | invalidPoolIndex (index : UInt16)
  | unexpectedEntry (expected : ConstantKind) (found : Constant)
  | invalidTag (tag : UInt8)
  | invalidMagic (magic : UInt32)
  /-- A file that cannot be opened or holds nothing, with the reason. -/
  | unavailable (reason : String)
deriving DecidableEq, Repr, Inhabited

namespace Error

/-- The innermost failure, looking through attributes. -/
def rootCause : Error → Error
  | inAttribute _ _ cause => cause.rootCause
  | e => e

def upperHex (n : Nat) : String :=
  String.ofList ((Nat.toDigits 16 n).map Char.toUpper)

def message : Error → String
  | truncated offset needed remaining =>
    s!"Truncated input at offset {offset}: needed {needed} bytes, {remaining} remaining"
  | lengthMismatch declared required =>
    s!"Attribute length mismatch: declared {declared} bytes, records require {required}"
  | malformedDescriptor descriptor offset =>
    s!"Malformed descriptor {quoted descriptor} at offset {offset}"
  | inAttribute name offset cause =>
    s!"In attribute {name} at offset {offset}: {cause.message}"
  | invalidPoolIndex index => s!"Invalid constant pool index: {index}"
  | unexpectedEntry expected found => s!"Expected {expected.name}, found {found.inspect}"
  | invalidTag tag => s!"Invalid cp info tag: {tag}"
  | invalidMagic magic => s!"Invalid magic identifier: 0x{upperHex magic.toNat}"
  | unavailable reason => reason

@[simp] theorem rootCause_inAttribute (name : String) (offset : Nat) (cause : Error) :
    (inAttribute name offset cause).rootCause = cause.rootCause := rfl

end Error

end JvmClass
