/-
# Quoted characters

A character in a message stands between apostrophes.  A graphic character stands for
itself, save the apostrophe and the backslash; a backslash opens the form of any other.
-/

import WindowVM.Text.Graphic

namespace WindowVM
namespace Text

/-- A code point in braces, in lower case hexadecimal digits. -/
def codePoint (c : Char) : String :=
  "\\u\x7b" ++ String.ofList (Nat.toDigits 16 c.toNat) ++ "\x7d"

/-- What stands between the apostrophes for a character. -/
def escape (c : Char) : String :=
  match c with
  | '\x00' => "\\0"
  | '\t' => "\\t"
  | '\r' => "\\r"
  | '\n' => "\\n"
  | '\x27' => "\\'"
  | '\x5c' => "\\\\"
  | c => if isGraphic c then c.toString else codePoint c

/-- A character as messages show it. -/
def quoted (c : Char) : String := "'" ++ escape c ++ "'"

end Text
end WindowVM
