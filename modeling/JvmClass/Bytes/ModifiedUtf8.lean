import JvmClass.Bytes.Utf8

/-!
# Modified UTF-8

Class files hold strings of 16-bit units, each written on its own: zero in two bytes, so that no
byte is zero, and each half of a surrogate pair in three. Both forms are ill-formed in UTF-8, so a
plain UTF-8 reader sees replacement characters there and every other unit as it is.
-/

namespace JvmClass.Bytes.ModifiedUtf8

def isSurrogate (unit : UInt16) : Bool :=
  0xD800 ≤ unit && unit ≤ 0xDFFF

/-- The unit of a character, or the pair of surrogates of one beyond the 16-bit numbers. -/
def unitsOfChar (c : Char) : List UInt16 :=
  let n := c.toNat
  if n < 0x10000 then [UInt16.ofNat n]
  else [UInt16.ofNat (0xD800 + (n - 0x10000) / 0x400), UInt16.ofNat (0xDC00 + n % 0x400)]

/-- The units a text consists of. -/
def unitsOf (s : String) : List UInt16 :=
  s.toList.flatMap unitsOfChar

/-- The bytes of one unit. -/
def encodeUnit (unit : UInt16) : List UInt8 :=
  let n := unit.toNat
  if n = 0 then [0xC0, 0x80]
  else if n < 0x80 then [UInt8.ofNat n]
  else if n < 0x800 then [UInt8.ofNat (0xC0 + n / 0x40), UInt8.ofNat (0x80 + n % 0x40)]
  else
    [UInt8.ofNat (0xE0 + n / 0x1000), UInt8.ofNat (0x80 + n / 0x40 % 0x40),
      UInt8.ofNat (0x80 + n % 0x40)]

def encode (units : List UInt16) : List UInt8 :=
  units.flatMap encodeUnit

/-- What a plain UTF-8 reader sees of one unit: as many replacements as it has bytes if it is zero
or a surrogate, and its own character otherwise. -/
def readAsUtf8 (unit : UInt16) : List Char :=
  if unit = 0 then [Utf8.replacement, Utf8.replacement]
  else if isSurrogate unit then [Utf8.replacement, Utf8.replacement, Utf8.replacement]
  else [Char.ofNat unit.toNat]

end JvmClass.Bytes.ModifiedUtf8
