import JvmClass.Constant.Codec

/-!
# Constant pools

A pool is a row of slots numbered from one. An entry that is two slots wide is followed by a slot
that cannot be used, and the pool's count in a class file is one more than the slots it announces.
-/

namespace JvmClass

structure ConstantPool where
  slots : Array Constant
deriving DecidableEq, Repr, Inhabited

namespace ConstantPool

def ofSlots (slots : List Constant) : ConstantPool :=
  ⟨slots.toArray⟩

/-- Entries one after the other, each in as many slots as it needs. -/
def ofEntries (entries : List Constant) : ConstantPool :=
  ofSlots (entries.flatMap Constant.slots)

def toList (pool : ConstantPool) : List Constant :=
  pool.slots.toList

def size (pool : ConstantPool) : Nat :=
  pool.slots.size

/-! ## Look-up -/

/-- The slot with the given number. Zero stands for no reference. -/
def get? (pool : ConstantPool) (index : UInt16) : Option Constant :=
  if index = 0 then none else pool.slots[index.toNat - 1]?

/-- The text of the entry with the given number, if it is a text. -/
def text? (pool : ConstantPool) (index : UInt16) : Option String :=
  (pool.get? index).bind Constant.text?

def entry (pool : ConstantPool) (index : UInt16) : Except Error Constant :=
  match pool.get? index with
  | some c => .ok c
  | none => .error (.invalidPoolIndex index)

/-- The text an index has to refer to. -/
def text (pool : ConstantPool) (index : UInt16) : Except Error String := do
  match ← pool.entry index with
  | .utf8 text => return text
  | found => throw (.unexpectedEntry .utf8 found)

/-- The name of the class an index has to refer to. -/
def className (pool : ConstantPool) (index : UInt16) : Except Error String := do
  match ← pool.entry index with
  | .classInfo nameIndex => pool.text nameIndex
  | found => throw (.unexpectedEntry .classInfo found)

@[simp] theorem get?_zero (pool : ConstantPool) : pool.get? 0 = none := rfl

@[simp] theorem text?_zero (pool : ConstantPool) : pool.text? 0 = none := rfl

theorem text_eq_ok_iff {pool : ConstantPool} {index : UInt16} {s : String} :
    pool.text index = .ok s ↔ pool.text? index = some s := by
  simp only [text, entry, text?]
  cases pool.get? index with
  | none => simp [bind, Except.bind]
  | some c =>
      cases c <;> simp [bind, Except.bind, Constant.text?, pure, Except.pure, throw, throwThe,
        MonadExceptOf.throw]

/-! ## In a class file -/

/-- Entries until the given number of slots is filled. A wide entry may begin in the last one. -/
def decodeEntries : Nat → Decoder (List Constant)
  | 0 => return []
  | 1 => return [← Constant.decode]
  | n + 2 => do
    let first ← Constant.decode
    let others ← match first.isWide with
      | true => decodeEntries n
      | false => decodeEntries (n + 1)
    return first :: others

def decode : Decoder ConstantPool := do
  let count ← Decoder.u16
  return ofEntries (← decodeEntries (count.toNat - 1))

/-- The count a class file gives for a pool that fills its slots. -/
def count (pool : ConstantPool) : UInt16 :=
  UInt16.ofNat (pool.size + 1)

/-- A pool announced by the given count. -/
def encode (count : UInt16) (pool : ConstantPool) : List UInt8 :=
  Encoder.u16 count ++ pool.toList.flatMap Constant.encode

end ConstantPool

end JvmClass
