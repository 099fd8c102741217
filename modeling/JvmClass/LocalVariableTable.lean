import JvmClass.Attribute
import JvmClass.LocalVariable

/-!
# Local variable tables

A table is a 16-bit count and as many records. Its attribute declares a length of its own, which may
disagree with the count, and may have fewer bytes than it declares. Whatever happens, decoding
looks at no byte beyond the declared length, and a failure is reported with the attribute in which
it happened.
-/

namespace JvmClass

/-- What becomes of a table whose count disagrees with its declared length: it is refused, or the
records that fit the declared length are decoded. -/
inductive LengthCheck where
  | strict
  | permissive
deriving DecidableEq, Repr

structure LocalVariableTable where
  name : String
  declaredLength : Nat
  entries : List LocalVariable
deriving DecidableEq, Repr, Inhabited

namespace LocalVariableTable

def attributeName : String := "LocalVariableTable"

/-- Length of a table with the given number of records. -/
def requiredLength (count : Nat) : Nat :=
  2 + count * VariableRecord.size

/-- How many of `count` records the declared length has room for. -/
def fittingCount (declared count : Nat) : Nat :=
  min count ((declared - 2) / VariableRecord.size)

theorem fittingCount_of_requiredLength {declared count : Nat}
    (h : requiredLength count = declared) : fittingCount declared count = count := by
  have hroom : (declared - 2) / VariableRecord.size = count := by
    rw [← h, requiredLength, Nat.add_sub_cancel_left, Nat.mul_div_cancel _ (by decide)]
  rw [fittingCount, hroom, Nat.min_self]

/-- How many records are decoded: all that are counted, unless the declared length disagrees and has
room for fewer. The count stays one of 16 bits. -/
def decodedCount (declared : Nat) (count : UInt16) : UInt16 :=
  if requiredLength count.toNat = declared then count
  else
    let fitting := (declared - 2) / VariableRecord.size
    if fitting < count.toNat then fitting.toUInt16 else count

/-- As many records are decoded as the warning announces: no bits are lost where fewer fit than are
counted, and all fit where the declared length agrees. -/
theorem toNat_decodedCount (declared : Nat) (count : UInt16) :
    (decodedCount declared count).toNat = fittingCount declared count.toNat := by
  by_cases hagrees : requiredLength count.toNat = declared
  · rw [decodedCount, if_pos hagrees, fittingCount_of_requiredLength hagrees]
  · rw [decodedCount, if_neg hagrees, fittingCount]
    dsimp only
    by_cases hfewer : (declared - 2) / VariableRecord.size < count.toNat
    · have hbits := Nat.lt_trans hfewer count.toNat_lt
      rw [if_pos hfewer, Nat.toUInt16, UInt16.toNat_ofNat', Nat.mod_eq_of_lt hbits,
        Nat.min_eq_right (Nat.le_of_lt hfewer)]
    · rw [if_neg hfewer, Nat.min_eq_left (Nat.not_lt.mp hfewer)]

/-- The warning about a declared length that disagrees with the count. -/
def mismatchLog (declared count : Nat) : List Log.Record :=
  if requiredLength count = declared then []
  else
    let required := requiredLength count
    let fitting := fittingCount declared count
    let message :=
      s!"{attributeName} declares {declared} bytes but {count} records need {required}," ++
        s!" decoding {fitting}"
    [⟨.warn, .localVariableTable, message⟩]

/-- Decodes the records after the count from what the declared length leaves of the bytes. -/
def decodeRecords (pool : ConstantPool) (name : String) (declared : Nat) (count : UInt16)
    (r : Reader) : Logged (Except Error LocalVariableTable) :=
  let (records, failure?) := VariableRecord.decode.available (decodedCount declared count).toNat r
  { value :=
      match failure? with
      | some e => .error e
      | none => .ok ⟨name, declared, records.map (LocalVariable.ofRecord pool)⟩
    log := mismatchLog declared count.toNat ++ records.flatMap (VariableRecord.log pool) }

/-- Decodes a table from a reader of the bytes that the declared length takes in. -/
def decodeBody (pool : ConstantPool) (check : LengthCheck) (name : String) (declared : Nat)
    (body : Reader) : Logged (Except Error LocalVariableTable) :=
  match Decoder.u16 body with
  | .error e _ => return .error e
  | .ok count r =>
    if requiredLength count.toNat ≠ declared ∧ check = .strict then
      return .error (.lengthMismatch declared (requiredLength count.toNat))
    else decodeRecords pool name declared count r

/-- Decodes the table at the reader's position, and gives the reader of what follows the declared
length. -/
def decode (pool : ConstantPool) (check : LengthCheck) (name : String) (declared : Nat)
    (r : Reader) : Logged (Except Error LocalVariableTable) × Reader :=
  let (body, rest) := r.split declared
  let table := decodeBody pool check name declared body
  ({ table with value := table.value.mapError (.inAttribute name r.position) }, rest)

/-- The tables among some attributes, each decoded from its own body. -/
def decodeAll (pool : ConstantPool) (check : LengthCheck) (attributes : List Attribute) :
    List (Logged (Except Error LocalVariableTable)) :=
  (Attribute.named attributeName pool attributes).map fun a =>
    (decode pool check attributeName a.info.length a.body).1

/-- The bytes of a table of records. -/
def encode (records : List VariableRecord) : List UInt8 :=
  Encoder.counted VariableRecord.encode records

/-! ## Contents -/

def size (table : LocalVariableTable) : Nat :=
  table.entries.length

/-- The declarations of all entries that have one, in their order. -/
def declarationLines (table : LocalVariableTable) : Logged (List String) where
  value := table.entries.filterMap fun v => v.render.value
  log := table.entries.flatMap fun v => v.render.log

/-- The declarations, if there are any. -/
def declarations? (table : LocalVariableTable) : Option (List String) :=
  match table.declarationLines.value with
  | [] => none
  | lines => some lines

/-- A table without entries is shown as one without a list. -/
def inspect (table : LocalVariableTable) : String :=
  let entries? :=
    if table.entries.isEmpty then none
    else some (Text.bracketed (table.entries.map LocalVariable.inspect))
  Text.record "LocalVariableTable"
    [("name", Text.quoted table.name), ("declared_length", toString table.declaredLength),
      ("entries", Text.optional entries?)]

end LocalVariableTable

end JvmClass
