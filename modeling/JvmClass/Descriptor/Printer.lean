import JvmClass.FieldType

/-!
# Descriptors of types

The text a class file holds for a type: opening brackets for the dimensions, a letter for a base
type, and a class name between `L` and a semicolon. A method has its parameters in parentheses,
without separators, and then its result, or `V` if it has none.
-/

namespace JvmClass

namespace FieldType

/-- The types that have a descriptor of their own. -/
def WellFormed : FieldType → Prop
  | base _ => True
  | object className => className.toList ≠ [] ∧ ';' ∉ className.toList
  | array dimensions element => 0 < dimensions ∧ element.isArray = false ∧ element.WellFormed

instance decidableWellFormed : (t : FieldType) → Decidable t.WellFormed
  | base _ => inferInstanceAs (Decidable True)
  | object className =>
    inferInstanceAs (Decidable (className.toList ≠ [] ∧ ';' ∉ className.toList))
  | array dimensions element =>
    have := decidableWellFormed element
    inferInstanceAs (Decidable (0 < dimensions ∧ element.isArray = false ∧ element.WellFormed))

def descriptorChars : FieldType → List Char
  | base type => [type.letter]
  | object className => 'L' :: className.toList ++ [';']
  | array dimensions element => List.replicate dimensions '[' ++ element.descriptorChars

def descriptor (t : FieldType) : String :=
  String.ofList t.descriptorChars

end FieldType

namespace MethodDescriptor

def WellFormed (m : MethodDescriptor) : Prop :=
  (∀ t ∈ m.parameters, t.WellFormed) ∧ ∀ t ∈ m.result?, t.WellFormed

def resultChars : Option FieldType → List Char
  | some t => t.descriptorChars
  | none => ['V']

def descriptorChars (m : MethodDescriptor) : List Char :=
  '(' :: m.parameters.flatMap FieldType.descriptorChars ++ ')' :: resultChars m.result?

def descriptor (m : MethodDescriptor) : String :=
  String.ofList m.descriptorChars

end MethodDescriptor

end JvmClass
