import JvmClass.Text.Unprintable

/-!
# Quoted text

Text in double quotes. Quotes, backslashes and the four named controls get a two-character escape,
a character without a visible form of its own is written by its code point, and every other
character stands for itself. The apostrophe is not escaped.
-/

namespace JvmClass.Text

/-- The letter that names an escaped character after a backslash. -/
def escapeLetter? : Char → Option Char
  | '"' => some '"'
  | '\\' => some '\\'
  | '\x00' => some '0'
  | '\t' => some 't'
  | '\n' => some 'n'
  | '\r' => some 'r'
  | _ => none

/-- A character as it stands between double quotes. -/
def escape (c : Char) : List Char :=
  match escapeLetter? c with
  | some letter => ['\\', letter]
  | none =>
    if isUnprintable c then '\\' :: 'u' :: '\x7b' :: Nat.toDigits 16 c.toNat ++ ['\x7d']
    else [c]

/-- Text in double quotes. -/
def quoted (s : String) : String :=
  String.ofList ('"' :: s.toList.flatMap escape ++ ['"'])

end JvmClass.Text
