import JvmClass.Text.Inspect
import JvmClass.Text.Quoted

/-!
# Field types

The types of fields, parameters and local variables, and their names in source form.
-/

namespace JvmClass

inductive BaseType where
  | byte
  | char
  | double
  | float
  | int
  | long
  | short
  | boolean
deriving DecidableEq, Repr, Inhabited

namespace BaseType

def all : List BaseType :=
  [byte, char, double, float, int, long, short, boolean]

/-- The letter that stands for the type in a descriptor. -/
def letter : BaseType → Char
  | byte => 'B'
  | char => 'C'
  | double => 'D'
  | float => 'F'
  | int => 'I'
  | long => 'J'
  | short => 'S'
  | boolean => 'Z'

def ofLetter? : Char → Option BaseType
  | 'B' => some byte
  | 'C' => some char
  | 'D' => some double
  | 'F' => some float
  | 'I' => some int
  | 'J' => some long
  | 'S' => some short
  | 'Z' => some boolean
  | _ => none

def keyword : BaseType → String
  | byte => "byte"
  | char => "char"
  | double => "double"
  | float => "float"
  | int => "int"
  | long => "long"
  | short => "short"
  | boolean => "boolean"

def name : BaseType → String
  | byte => "Byte"
  | char => "Char"
  | double => "Double"
  | float => "Float"
  | int => "Int"
  | long => "Long"
  | short => "Short"
  | boolean => "Boolean"

def ofName? (name : String) : Option BaseType :=
  all.find? (·.name == name)

@[simp] theorem ofLetter?_letter (b : BaseType) : ofLetter? b.letter = some b := by
  cases b <;> rfl

theorem letter_of_ofLetter? {c : Char} {b : BaseType} (h : ofLetter? c = some b) :
    b.letter = c := by
  unfold ofLetter? at h
  split at h <;> cases h <;> rfl

end BaseType

/-- A class or package name with dots where the internal form has slashes. -/
def binaryName (internalName : String) : String :=
  String.ofList (internalName.toList.map fun c => if c = '/' then '.' else c)

/-- A type; class names are in internal form. What a descriptor spells never has an array as the
element of an array, nor an array without dimensions. -/
inductive FieldType where
  | base (type : BaseType)
  | object (className : String)
  | array (dimensions : Nat) (element : FieldType)
deriving DecidableEq, Repr, Inhabited

namespace FieldType

/-- Values of a wide type take up two local variable slots. -/
def isWide (t : FieldType) : Bool :=
  t = base .long || t = base .double

def isArray : FieldType → Bool
  | array _ _ => true
  | _ => false

/-- The type as it is written in source, with one pair of brackets for each dimension. -/
def sourceName : FieldType → String
  | base type => type.keyword
  | object className => binaryName className
  | array dimensions element =>
    element.sourceName ++ String.join (List.replicate dimensions "[]")

def inspect : FieldType → String
  | base type => type.name
  | object className => Text.applied "Object" [Text.quoted className]
  | array dimensions element => Text.applied "Array" [toString dimensions, element.inspect]

/-- The type that is left when all dimensions are taken off. -/
def innermost : FieldType → FieldType
  | array _ element => element.innermost
  | t => t

def totalDimensions : FieldType → Nat
  | array dimensions element => dimensions + element.totalDimensions
  | _ => 0

end FieldType

/-- The parameters and the result of a method; a method that returns nothing has no result. -/
structure MethodDescriptor where
  parameters : List FieldType
  result? : Option FieldType
deriving DecidableEq, Repr, Inhabited

namespace MethodDescriptor

def resultName (m : MethodDescriptor) : String :=
  match m.result? with
  | some t => t.sourceName
  | none => "void"

end MethodDescriptor

end JvmClass
