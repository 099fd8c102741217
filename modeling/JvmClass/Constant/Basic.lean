/-!
# Constants

The entries of a constant pool, their kinds, and the tag byte that announces each kind in a class
file. Floating-point constants are kept as bit patterns, so that no NaN loses its payload.
-/

namespace JvmClass

/-- The kinds of entry a class file can hold. -/
inductive ConstantKind where
  | utf8
  | integer
  | float
  | long
  | double
  | classInfo
  | stringInfo
  | fieldRef
  | methodRef
  | interfaceMethodRef
  | nameAndType
  | methodHandle
  | methodType
  | dynamic
  | invokeDynamic
  | moduleInfo
  | packageInfo
deriving DecidableEq, Repr

namespace ConstantKind

def tag : ConstantKind → UInt8
  | utf8 => 1
  | integer => 3
  | float => 4
  | long => 5
  | double => 6
  | classInfo => 7
  | stringInfo => 8
  | fieldRef => 9
  | methodRef => 10
  | interfaceMethodRef => 11
  | nameAndType => 12
  | methodHandle => 15
  | methodType => 16
  | dynamic => 17
  | invokeDynamic => 18
  | moduleInfo => 19
  | packageInfo => 20

def ofTag? : UInt8 → Option ConstantKind
  | 1 => some utf8
  | 3 => some integer
  | 4 => some float
  | 5 => some long
  | 6 => some double
  | 7 => some classInfo
  | 8 => some stringInfo
  | 9 => some fieldRef
  | 10 => some methodRef
  | 11 => some interfaceMethodRef
  | 12 => some nameAndType
  | 15 => some methodHandle
  | 16 => some methodType
  | 17 => some dynamic
  | 18 => some invokeDynamic
  | 19 => some moduleInfo
  | 20 => some packageInfo
  | _ => none

def name : ConstantKind → String
  | utf8 => "Utf8"
  | integer => "Integer"
  | float => "Float"
  | long => "Long"
  | double => "Double"
  | classInfo => "Class"
  | stringInfo => "String"
  | fieldRef => "FieldRef"
  | methodRef => "MethodRef"
  | interfaceMethodRef => "InterfaceMethodRef"
  | nameAndType => "NameAndType"
  | methodHandle => "MethodHandle"
  | methodType => "MethodType"
  | dynamic => "Dynamic"
  | invokeDynamic => "InvokeDynamic"
  | moduleInfo => "Module"
  | packageInfo => "Package"

@[simp] theorem ofTag?_tag (k : ConstantKind) : ofTag? k.tag = some k := by
  cases k <;> rfl

theorem tag_of_ofTag? {t : UInt8} {k : ConstantKind} (h : ofTag? t = some k) : k.tag = t := by
  unfold ofTag? at h
  split at h <;> cases h <;> rfl

end ConstantKind

/-- A slot of a constant pool. -/
inductive Constant where
  | utf8 (text : String)
  | integer (value : Int32)
  | float (bits : UInt32)
  | long (value : Int64)
  | double (bits : UInt64)
  | classInfo (nameIndex : UInt16)
  | stringInfo (stringIndex : UInt16)
  | fieldRef (classIndex nameAndTypeIndex : UInt16)
  | methodRef (classIndex nameAndTypeIndex : UInt16)
  | interfaceMethodRef (classIndex nameAndTypeIndex : UInt16)
  | nameAndType (nameIndex descriptorIndex : UInt16)
  | methodHandle (referenceKind : UInt8) (referenceIndex : UInt16)
  | methodType (descriptorIndex : UInt16)
  | dynamic (bootstrapIndex nameAndTypeIndex : UInt16)
  | invokeDynamic (bootstrapIndex nameAndTypeIndex : UInt16)
  | moduleInfo (nameIndex : UInt16)
  | packageInfo (nameIndex : UInt16)
  /-- The second slot of a long or double. -/
  | unusable
deriving DecidableEq, Repr, Inhabited

namespace Constant

/-- The kind of an entry. The slot after a wide entry holds none. -/
def kind? : Constant → Option ConstantKind
  | utf8 _ => some .utf8
  | integer _ => some .integer
  | float _ => some .float
  | long _ => some .long
  | double _ => some .double
  | classInfo _ => some .classInfo
  | stringInfo _ => some .stringInfo
  | fieldRef _ _ => some .fieldRef
  | methodRef _ _ => some .methodRef
  | interfaceMethodRef _ _ => some .interfaceMethodRef
  | nameAndType _ _ => some .nameAndType
  | methodHandle _ _ => some .methodHandle
  | methodType _ => some .methodType
  | dynamic _ _ => some .dynamic
  | invokeDynamic _ _ => some .invokeDynamic
  | moduleInfo _ => some .moduleInfo
  | packageInfo _ => some .packageInfo
  | unusable => none

def kindName (c : Constant) : String :=
  match c.kind? with
  | some kind => kind.name
  | none => "Unusable"

/-- Longs and doubles take two slots. -/
def isWide : Constant → Bool
  | long _ | double _ => true
  | _ => false

theorem isWide_iff {c : Constant} :
    c.isWide = true ↔ (∃ value, c = long value) ∨ ∃ bits, c = double bits := by
  constructor
  · intro h
    cases c with
    | long value => exact .inl ⟨value, rfl⟩
    | double bits => exact .inr ⟨bits, rfl⟩
    | _ => cases h
  · rintro (⟨value, rfl⟩ | ⟨bits, rfl⟩) <;> rfl

/-- The slots an entry takes up. -/
def slots (c : Constant) : List Constant :=
  if c.isWide then [c, unusable] else [c]

def text? : Constant → Option String
  | utf8 text => some text
  | _ => none

end Constant

end JvmClass
