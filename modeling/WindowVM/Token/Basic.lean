/-
# Tokens

The pieces a source text is split into: names, numbers and single punctuation
characters, each with the range of bytes it was read from.
-/

import WindowVM.Number.Shortest
import WindowVM.Text.Quoted

namespace WindowVM

/-- How many bytes characters take in a source. -/
def byteLength : List Char → Nat
  | [] => 0
  | c :: cs => c.utf8Size + byteLength cs

@[simp] theorem byteLength_nil : byteLength [] = 0 := rfl

@[simp] theorem byteLength_cons (c : Char) (cs : List Char) :
    byteLength (c :: cs) = c.utf8Size + byteLength cs := rfl

@[simp] theorem byteLength_append (cs ds : List Char) :
    byteLength (cs ++ ds) = byteLength cs + byteLength ds := by
  induction cs with
  | nil => simp
  | cons c cs ih => simp [ih, Nat.add_assoc]

@[simp] theorem byteLength_reverse (cs : List Char) : byteLength cs.reverse = byteLength cs := by
  induction cs with
  | nil => rfl
  | cons c cs ih => simp [ih, Nat.add_comm]

/-- A range of byte offsets, without its stop. -/
structure Span where
  start : Nat
  stop : Nat
  deriving DecidableEq, Repr

namespace Span

/-- The number of bytes, none when the stop comes first. -/
def len (s : Span) : Nat := s.stop - s.start

def isEmpty (s : Span) : Bool := s.len == 0

end Span

/-- A character that is a token of its own. -/
inductive Punctuation where
  | semicolon
  | openParen
  | closeParen
  | openBrace
  | closeBrace
  | openBracket
  | closeBracket
  | less
  | greater
  | equal
  | plus
  | minus
  | star
  | slash
  deriving DecidableEq, Repr

namespace Punctuation

def all : List Punctuation :=
  [.semicolon, .openParen, .closeParen, .openBrace, .closeBrace, .openBracket, .closeBracket,
    .less, .greater, .equal, .plus, .minus, .star, .slash]

/-- The character. -/
def toChar : Punctuation → Char
  | semicolon => ';'
  | openParen => '('
  | closeParen => ')'
  | openBrace => '{'
  | closeBrace => '}'
  | openBracket => '['
  | closeBracket => ']'
  | less => '<'
  | greater => '>'
  | equal => '='
  | plus => '+'
  | minus => '-'
  | star => '*'
  | slash => '/'

/-- The punctuation that a character is. -/
def ofChar? (c : Char) : Option Punctuation := all.find? (·.toChar == c)

theorem ofChar?_eq_some_iff {c : Char} {p : Punctuation} : ofChar? c = some p ↔ c = p.toChar := by
  unfold ofChar?
  constructor
  · intro h
    have hp := List.find?_some h
    exact (beq_iff_eq.1 hp).symm
  · rintro rfl
    cases p <;> decide

end Punctuation

/-- A piece of source text. -/
inductive Token where
  | identifier (name : String)
  /-- An integer that is written with a sign. -/
  | signed (n : Int64)
  /-- An integer without a sign. -/
  | unsigned (n : UInt64)
  /-- A number with a decimal point. -/
  | float (x : Binary64)
  | punct (p : Punctuation)
  deriving DecidableEq, Repr

/-- The text of a token. -/
def Token.render : Token → String
  | .identifier name => name
  | .signed n => toString n.toInt
  | .unsigned n => toString n.toNat
  | .float x => x.render
  | .punct p => p.toChar.toString

/-- A token with the bytes it was read from. -/
structure SpannedToken where
  token : Token
  span : Span
  deriving DecidableEq, Repr

/-- Why a source is not split further. -/
inductive TokenError where
  /-- What starts as a number is none, or is one out of range. -/
  | badNumber (span : Span)
  /-- No token starts with this character. -/
  | unknownCharacter (c : Char) (offset : Nat)
  deriving DecidableEq, Repr

namespace TokenError

/-- Where the text in error starts. -/
def offset : TokenError → Nat
  | badNumber span => span.start
  | unknownCharacter _ offset => offset

/-- The text an error is reported with. -/
def message : TokenError → String
  | badNumber span => s!"malformed number at bytes {span.start}..{span.stop}"
  | unknownCharacter c offset => s!"unknown character {Text.quoted c} at byte {offset}"

end TokenError
end WindowVM
