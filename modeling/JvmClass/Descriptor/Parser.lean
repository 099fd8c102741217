import JvmClass.Error
import JvmClass.FieldType

/-!
# Reading descriptors

A step takes something off the front of the text and gives what is left. Where it cannot, it gives
the text from the first character that rules every continuation out; for a class name without its
semicolon that is the end of the text. The offset of a malformed descriptor is the number of bytes
before that place.
-/

namespace JvmClass.Descriptor

/-- What is read and the text after it, or the text at the fault. -/
abbrev Step (α : Type) := Except (List Char) (α × List Char)

/-- A class name up to its semicolon, which is taken off too. -/
def className (text : List Char) : Step String :=
  match text.dropWhile (· != ';') with
  | [] => .error []
  | _ :: rest =>
    match text.takeWhile (· != ';') with
    | [] => .error text
    | name => .ok (String.ofList name, rest)

def elementType : List Char → Step FieldType
  | [] => .error []
  | c :: rest =>
    if c = 'L' then
      match className rest with
      | .ok (name, rest) => .ok (.object name, rest)
      | .error rest => .error rest
    else
      match BaseType.ofLetter? c with
      | some type => .ok (.base type, rest)
      | none => .error (c :: rest)

/-- The element type under as many dimensions as there are opening brackets. -/
def withDimensions (dimensions : Nat) (element : FieldType) : FieldType :=
  if dimensions = 0 then element else .array dimensions element

def fieldType (text : List Char) : Step FieldType :=
  match elementType (text.dropWhile (· == '[')) with
  | .ok (element, rest) =>
    .ok (withDimensions (text.takeWhile (· == '[')).length element, rest)
  | .error rest => .error rest

theorem length_className {text rest : List Char} {name : String}
    (h : className text = .ok (name, rest)) : rest.length < text.length := by
  unfold className at h
  have hle := (List.dropWhile_sublist (l := text) (· != ';')).length_le
  split at h
  · cases h
  · rename_i heq
    rw [heq, List.length_cons] at hle
    split at h
    · cases h
    · cases h
      omega

theorem length_elementType {text rest : List Char} {t : FieldType}
    (h : elementType text = .ok (t, rest)) : rest.length < text.length := by
  unfold elementType at h
  split at h
  · cases h
  split at h
  · split at h
    · rename_i hname
      cases h
      exact Nat.lt_succ_of_lt (length_className hname)
    · cases h
  · split at h
    · cases h
      exact Nat.lt_succ_self _
    · cases h

/-- A type takes up at least one character. -/
theorem length_fieldType {text rest : List Char} {t : FieldType}
    (h : fieldType text = .ok (t, rest)) : rest.length < text.length := by
  unfold fieldType at h
  have hle := (List.dropWhile_sublist (l := text) (· == '[')).length_le
  split at h
  · rename_i helement
    cases h
    exact Nat.lt_of_lt_of_le (length_elementType helement) hle
  · cases h

/-- Types up to the closing parenthesis, which is taken off too. -/
def parameters (text : List Char) : Step (List FieldType) :=
  match text with
  | ')' :: rest => .ok ([], rest)
  | text =>
    match h : fieldType text with
    | .error rest => .error rest
    | .ok (first, rest) =>
      have := length_fieldType h
      match parameters rest with
      | .error rest => .error rest
      | .ok (others, rest) => .ok (first :: others, rest)
termination_by text.length

def result? : List Char → Step (Option FieldType)
  | 'V' :: rest => .ok (none, rest)
  | text =>
    match fieldType text with
    | .ok (t, rest) => .ok (some t, rest)
    | .error rest => .error rest

def method : List Char → Step MethodDescriptor
  | '(' :: text =>
    match parameters text with
    | .error rest => .error rest
    | .ok (parameters, rest) =>
      match result? rest with
      | .error rest => .error rest
      | .ok (result?, rest) => .ok (⟨parameters, result?⟩, rest)
  | text => .error text

/-- The fault at the text `rest` that ends a descriptor. -/
def malformed (descriptor : String) (rest : List Char) : Error :=
  .malformedDescriptor descriptor
    (descriptor.utf8ByteSize - (String.ofList rest).utf8ByteSize)

/-- The offset of a fault counts the bytes of the text before it. -/
theorem malformed_eq {descriptor : String} {front rest : List Char}
    (h : descriptor.toList = front ++ rest) :
    malformed descriptor rest =
      .malformedDescriptor descriptor (String.ofList front).utf8ByteSize := by
  have hsplit : descriptor = String.ofList front ++ String.ofList rest := by
    rw [← String.ofList_append, ← h, String.ofList_toList]
  have hsize : descriptor.utf8ByteSize =
      (String.ofList front).utf8ByteSize + (String.ofList rest).utf8ByteSize := by
    conv => lhs; rw [hsplit, String.utf8ByteSize_append]
  rw [malformed, hsize, Nat.add_sub_cancel]

/-- A step that has to take the whole descriptor. -/
def whole {α : Type} (step : List Char → Step α) (descriptor : String) : Except Error α :=
  match step descriptor.toList with
  | .ok (a, []) => .ok a
  | .ok (_, rest) => .error (malformed descriptor rest)
  | .error rest => .error (malformed descriptor rest)

end JvmClass.Descriptor

namespace JvmClass

/-- The type a field descriptor spells. -/
def FieldType.parse (descriptor : String) : Except Error FieldType :=
  Descriptor.whole Descriptor.fieldType descriptor

/-- The parameters and the result a method descriptor spells. -/
def MethodDescriptor.parse (descriptor : String) : Except Error MethodDescriptor :=
  Descriptor.whole Descriptor.method descriptor

end JvmClass
