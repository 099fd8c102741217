import JvmClass.Descriptor.Parser

/-!
# Source names of descriptors

The name a field descriptor has in source, once by way of the type it spells and once by the
recursive rule of the class-file format, in which an array type is an opening bracket before the
descriptor of its component type.
-/

namespace JvmClass.Descriptor

def sourceName (descriptor : String) : Except Error String :=
  (FieldType.parse descriptor).map FieldType.sourceName

/-- The recursive rule. A class name runs up to a semicolon that ends the text. -/
def recursiveSourceName? : List Char → Option String
  | '[' :: component => (recursiveSourceName? component).map (· ++ "[]")
  | 'L' :: text =>
    let name := text.dropLast
    if text.getLast? = some ';' ∧ name ≠ [] ∧ ';' ∉ name then
      some (binaryName (String.ofList name))
    else none
  | [letter] => (BaseType.ofLetter? letter).map BaseType.keyword
  | _ => none

end JvmClass.Descriptor
