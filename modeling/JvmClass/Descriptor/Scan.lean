import JvmClass.Descriptor.Parser

/-!
# Scanning descriptors

The parser over the bytes of a descriptor. A cursor counts the bytes before it. What is under it is
looked at as a byte, which need not be a whole character, while class names are cut out as text, and
text can only be cut between characters. A scan remembers where its cursor has stood and where it
has cut, and its loops go on for a given number of rounds at most, so that what holds of places,
cuts and loops has to be shown.
-/

namespace JvmClass.Descriptor

/-- Why a scan ends without a value. -/
inductive Halt where
  | malformed (offset : Nat)
  /-- Text was to be cut where there is no boundary between characters. -/
  | cutInside (place : Nat)
  /-- A loop was to go on after the last of its rounds. -/
  | outOfRounds
deriving DecidableEq, Repr, Inhabited

structure Cursor where
  place : Nat
  /-- The places it has stood at before, the latest first. -/
  earlier : List Nat
  /-- The places text was cut at, the latest first. -/
  cuts : List Nat
deriving DecidableEq, Repr, Inhabited

namespace Cursor

def start : Cursor :=
  ⟨0, [], []⟩

/-- All places it has stood at. -/
def visited (c : Cursor) : List Nat :=
  c.place :: c.earlier

def advance (n : Nat) (c : Cursor) : Cursor :=
  ⟨c.place + n, c.visited, c.cuts⟩

def cutAt (place : Nat) (c : Cursor) : Cursor :=
  { c with cuts := place :: c.cuts }

end Cursor

abbrev Scan := EStateM Halt Cursor

namespace Scan

variable {α : Type}

/-! ## Bytes and text -/

/-- The byte of a descriptor behind so many others. -/
def byte? (d : String) (place : Nat) : Option UInt8 :=
  d.toUTF8[place]?

def place : Scan Nat :=
  return (← get).place

def advance (n : Nat) : Scan Unit :=
  modify (Cursor.advance n)

/-- The byte under the cursor, if the descriptor has not ended. -/
def peek (d : String) : Scan (Option UInt8) :=
  return byte? d (← place)

/-- The byte under the cursor, which moves past it. -/
def bump (d : String) : Scan (Option UInt8) := do
  match ← peek d with
  | none => return none
  | some byte =>
    advance 1
    return some byte

/-- Cuts in two a text that begins `base` bytes into the descriptor. -/
def cut (text : String) (base offset : Nat) : Scan (String × String) := do
  modify (Cursor.cutAt (base + offset))
  if h : (String.Pos.Raw.mk offset).IsValid text then
    let p := text.pos ⟨offset⟩ h
    return ((text.sliceTo p).copy, (text.sliceFrom p).copy)
  else throw (.cutInside (base + offset))

def malformed (offset : Nat) : Scan α :=
  throw (.malformed offset)

/-- Repeats a scan while the byte under the cursor passes a test. If it still does after the last of
the rounds, the loop does not end. -/
def repeatWhile (d : String) (test : Option UInt8 → Bool) (scan : Scan α) :
    (rounds : Nat) → Scan (List α)
  | 0 => do
    if test (← peek d) then throw .outOfRounds else return []
  | rounds + 1 => do
    if test (← peek d) then
      let first ← scan
      let others ← repeatWhile d test scan rounds
      return first :: others
    else return []

def expect (d : String) (expected : Char) : Scan Unit := do
  if (← peek d) = some expected.toUInt8 then advance 1 else malformed (← place)

def expectEnd (d : String) : Scan Unit := do
  let stop ← place
  if stop = d.utf8ByteSize then return () else malformed stop

/-! ## Descriptors -/

/-- The class name under the cursor, up to its semicolon, which is taken off too. -/
def objectType (d : String) : Scan FieldType := do
  let start ← place
  let (_, rest) ← cut d 0 start
  match rest.find? ';' with
  | none => malformed d.utf8ByteSize
  | some semicolon =>
    let stop := semicolon.offset.byteIdx
    if stop = 0 then malformed start
    else
      let (name, _) ← cut rest start stop
      advance (stop + 1)
      return .object name

def elementType (d : String) : Scan FieldType := do
  let start ← place
  match ← bump d with
  | none => malformed start
  | some byte =>
    if byte = 'L'.toUInt8 then objectType d
    else
      match BaseType.ofLetter? (Char.ofUInt8 byte) with
      | some type => return .base type
      | none => malformed start

def fieldType (d : String) (rounds : Nat) : Scan FieldType := do
  let brackets ← repeatWhile d (· == some '['.toUInt8) (advance 1) rounds
  let element ← elementType d
  return withDimensions brackets.length element

/-- Types up to the closing parenthesis, which is taken off too. -/
def parameters (d : String) (type : Scan FieldType) (rounds : Nat) : Scan (List FieldType) := do
  let types ← repeatWhile d (· != some ')'.toUInt8) type rounds
  expect d ')'
  return types

def result? (d : String) (rounds : Nat) : Scan (Option FieldType) := do
  if (← peek d) = some 'V'.toUInt8 then
    advance 1
    return none
  else return some (← fieldType d rounds)

def method (d : String) (rounds : Nat) : Scan MethodDescriptor := do
  expect d '('
  let parameters ← parameters d (fieldType d rounds) rounds
  return ⟨parameters, ← result? d rounds⟩

/-- A scan that has to take the whole descriptor. -/
def toEnd (d : String) (scan : Scan α) : Scan α := do
  let a ← scan
  expectEnd d
  return a

/-- What a scan of a descriptor comes to, and the cursor it leaves. -/
def whole (d : String) (scan : Scan α) : Except Halt α × Cursor :=
  match toEnd d scan Cursor.start with
  | .ok a c => (.ok a, c)
  | .error halt c => (.error halt, c)

/-- The answer to a descriptor, if a scan comes to one. -/
def answer? (d : String) : Except Halt α → Option (Except Error α)
  | .ok a => some (.ok a)
  | .error (.malformed offset) => some (.error (.malformedDescriptor d offset))
  | .error _ => none

end Scan

end JvmClass.Descriptor
