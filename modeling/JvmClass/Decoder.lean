import JvmClass.Bytes.BigEndian
import JvmClass.Error
import JvmClass.Reader

/-!
# Decoders

A decoder takes values off a reader. Every read of a fixed number of bytes checks first that they
are there, so a read that fails moves nothing, and the reader of a failed decoder stands where the
failing read stood.
-/

namespace JvmClass

abbrev Decoder := EStateM Error Reader

namespace Decoder

variable {α : Type}

/-- The result of a decoder, and the reader it leaves in either case. -/
def outcome (d : Decoder α) (r : Reader) : Except Error α × Reader :=
  match d r with
  | .ok a r => (.ok a, r)
  | .error e r => (.error e, r)

def result (d : Decoder α) (r : Reader) : Except Error α :=
  (d.outcome r).1

/-! ## Reads -/

/-- The next `n` bytes. -/
def bytes (n : Nat) : Decoder (List UInt8) := fun r =>
  let taken := r.bytes.take n
  if taken.length = n then .ok taken ⟨r.position + n, r.bytes.drop n⟩
  else .error (.truncated r.position n taken.length) r

/-- The next `width` bytes as a number. -/
def number (width : Nat) : Decoder Nat :=
  return Bytes.BigEndian.value (← bytes width)

def u8 : Decoder UInt8 :=
  return UInt8.ofNat (← number 1)

def u16 : Decoder UInt16 :=
  return UInt16.ofNat (← number 2)

def u32 : Decoder UInt32 :=
  return UInt32.ofNat (← number 4)

def u64 : Decoder UInt64 :=
  return UInt64.ofNat (← number 8)

def i32 : Decoder Int32 :=
  return (← u32).toInt32

def i64 : Decoder Int64 :=
  return (← u64).toInt64

/-- The 16-bit numbers that bytes spell two by two. -/
def u16sOfBytes : List UInt8 → List UInt16
  | high :: low :: rest =>
    UInt16.ofNat (Bytes.BigEndian.value [high, low]) :: u16sOfBytes rest
  | _ => []

/-- As many 16-bit numbers, all or none of which are read. -/
def u16s (count : Nat) : Decoder (List UInt16) :=
  return u16sOfBytes (← bytes (count * 2))

def position : Decoder Nat := fun r => .ok r.position r

theorem bytes_eq (n : Nat) (r : Reader) :
    bytes n r =
      if n ≤ r.remaining then .ok (r.bytes.take n) ⟨r.position + n, r.bytes.drop n⟩
      else .error (.truncated r.position n r.remaining) r := by
  by_cases h : n ≤ r.bytes.length
  · simp [bytes, Reader.remaining, h]
  · have hlen : min n r.bytes.length = r.bytes.length := by omega
    have hne : r.bytes.length ≠ n := by omega
    simp [bytes, Reader.remaining, h, hlen, hne]

/-! ## Repetition -/

/-- The same thing `n` times over. -/
def times (d : Decoder α) : Nat → Decoder (List α)
  | 0 => return []
  | n + 1 => do
    let a ← d
    let rest ← d.times n
    return a :: rest

/-- A list behind its 16-bit length. -/
def counted (d : Decoder α) : Decoder (List α) := do
  let count ← u16
  d.times count.toNat

/-- What `times` reads before it ends or fails, and why it fails. -/
def available (d : Decoder α) : Nat → Reader → List α × Option Error
  | 0, _ => ([], none)
  | n + 1, r =>
    match d r with
    | .ok a r => (a :: (d.available n r).1, (d.available n r).2)
    | .error e _ => ([], some e)

/-- The outcomes of `n` calls one after the other, each beginning where the one before it stopped,
also where that one failed, and the reader after the last. -/
def calls (d : Decoder α) : Nat → Reader → List (Except Error α) × Reader
  | 0, r => ([], r)
  | n + 1, r =>
    let (first, r) := d.outcome r
    let (rest, r) := d.calls n r
    (first :: rest, r)

/-! ## Sequencing -/

/-- What follows a decoder sees what it read and where it stopped. -/
theorem outcome_bind {β : Type} (d : Decoder α) (f : α → Decoder β) (r : Reader) :
    (d >>= f).outcome r =
      match d.outcome r with
      | (.ok a, r) => (f a).outcome r
      | (.error e, r) => (.error e, r) := by
  simp only [outcome, bind, EStateM.bind]
  cases d r <;> rfl

end Decoder

end JvmClass
