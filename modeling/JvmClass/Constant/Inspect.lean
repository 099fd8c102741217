import JvmClass.Constant.Basic
import JvmClass.Decimal.Layout
import JvmClass.Text.Inspect
import JvmClass.Text.Quoted

/-!
# Inspected constants

Every entry is shown by its kind, with the names of the fields it has in a class file.
-/

namespace JvmClass.Constant

open Text

/-- Floating-point constants always show a fraction or an exponent. Numbers from `10 ^ -4` up to
`10 ^ 16`, which itself does not belong to them, are positional. -/
def floatLayout : Decimal.Layout where
  leastPositional := -4
  greatestPositional := 15
  wholeSuffix := ".0"
  exponentMark := "e"
  zero := "0.0"
  infinity := "inf"
  notANumber := "NaN"

def inspectReference (classIndex nameAndTypeIndex : UInt16) : String :=
  record "RefInfo"
    [("class_index", toString classIndex), ("name_and_type_index", toString nameAndTypeIndex)]

def inspectDynamic (bootstrapIndex nameAndTypeIndex : UInt16) : String :=
  record "InvokeDynamicInfo"
    [("bootstrap_method_attr_index", toString bootstrapIndex),
      ("name_and_type_index", toString nameAndTypeIndex)]

def inspect (c : Constant) : String :=
  match c with
  | utf8 text => applied c.kindName [quoted text]
  | integer value => applied c.kindName [toString value]
  | float bits => applied c.kindName [floatLayout.text .binary32 bits.toNat]
  | long value => applied c.kindName [toString value]
  | double bits => applied c.kindName [floatLayout.text .binary64 bits.toNat]
  | classInfo name => applied c.kindName [record "ClassInfo" [("name_index", toString name)]]
  | stringInfo string => record c.kindName [("string_index", toString string)]
  | fieldRef owner member | methodRef owner member | interfaceMethodRef owner member =>
    applied c.kindName [inspectReference owner member]
  | nameAndType name descriptor =>
    applied c.kindName
      [record "NameAndTypeInfo"
        [("name_index", toString name), ("descriptor_index", toString descriptor)]]
  | methodHandle kind reference =>
    applied c.kindName
      [record "MethodHandleInfo"
        [("reference_kind", toString kind), ("reference_index", toString reference)]]
  | methodType descriptor =>
    applied c.kindName
      [record "MethodTypeInfo" [("descriptor_index", toString descriptor)]]
  | dynamic bootstrap member | invokeDynamic bootstrap member =>
    applied c.kindName [inspectDynamic bootstrap member]
  | moduleInfo name | packageInfo name => record c.kindName [("name_index", toString name)]
  | unusable => c.kindName

end JvmClass.Constant
