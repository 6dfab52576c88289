/-
# The cursor

The tokenizer on the bytes of a source: a `Cursor` is an offset into the source, and all it
knows about the text in front is the slice from there to the end.  It moves by the bytes of
one character at a time, and cuts names and numbers out of the source when it stands behind
them.

An offset may fall inside a character, where there is no slice (`slice?`).  The cursor takes
the slice to be empty then, so that it stops as at the end of the source.  That this never
happens, and that a cursor returns what a `Tokenizer` does, is
`Cursor.Visited.exists_slice` and `Cursor.calls_eq`.
-/

import WindowVM.Token.Tokenizer

namespace WindowVM

/-- The part of a source from one byte to another, if both stand between characters. -/
def slice? (source : String) (start stop : Nat) : Option String :=
  if h : String.Pos.Raw.IsValid source ⟨start⟩ ∧ String.Pos.Raw.IsValid source ⟨stop⟩ ∧
      start ≤ stop then
    some (String.extract (source.pos ⟨start⟩ h.1) (source.pos ⟨stop⟩ h.2.1))
  else none

/-- A slice that is not empty ends after it starts. -/
theorem lt_of_slice? {source text : String} {start stop : Nat}
    (h : slice? source start stop = some text) (hne : text ≠ "") : start < stop := by
  rw [slice?] at h
  split at h
  · rename_i hvalid
    refine Nat.lt_of_le_of_ne hvalid.2.2 fun heq => hne ?_
    rw [← Option.some.inj h, ← String.toByteArray_inj, String.toByteArray_extract]
    show source.toByteArray.extract start stop = ByteArray.empty
    rw [heq, ByteArray.extract_same]
  · simp at h

/-- A sum that stops at the greatest number of 64 bits. -/
def cappedSum (a b : Nat) : Nat := min (a + b) (1 <<< 64 - 1)

/-- A place in a source, as an offset of bytes. -/
structure Cursor where
  source : String
  position : Nat
  /-- Whether an error was found. -/
  failed : Bool
  /-- An offset into the source has 64 bits. -/
  size_lt : source.utf8ByteSize < 1 <<< 64
  deriving DecidableEq

namespace Cursor

/-- A cursor at the start of a source. -/
def ofString (source : String) (h : source.utf8ByteSize < 1 <<< 64) : Cursor :=
  { source := source, position := 0, failed := false, size_lt := h }

/-- The cursor at another offset. -/
def moveTo (c : Cursor) (position : Nat) : Cursor := { c with position := position }

/-- The cursor back at the start of its source. -/
def reset (c : Cursor) : Cursor := { c with position := 0, failed := false }

/-- The text in front, empty where there is no slice. -/
def rest (c : Cursor) : String := (slice? c.source c.position c.source.utf8ByteSize).getD ""

/-- The text passed since an offset, empty where there is no slice. -/
def since (c : Cursor) (start : Nat) : String := (slice? c.source start c.position).getD ""

/-- The next character. -/
def peek (c : Cursor) : Option Char := c.rest.toList.head?

/-- The character after the next one. -/
def peekSecond (c : Cursor) : Option Char := c.rest.toList[1]?

/-- The cursor further on by the bytes of a character. -/
def bump (c : Cursor) (ch : Char) : Cursor := c.moveTo (cappedSum c.position ch.utf8Size)

/-- Only before the end of the source is there a character. -/
theorem position_lt_of_peek {c : Cursor} {ch : Char} (h : c.peek = some ch) :
    c.position < c.source.utf8ByteSize := by
  rw [peek, rest] at h
  cases hslice : slice? c.source c.position c.source.utf8ByteSize with
  | none => simp [hslice] at h
  | some text =>
    refine lt_of_slice? hslice ?_
    rintro rfl
    simp [hslice] at h

/-- A character takes bytes. -/
theorem sub_position_bump_lt {c : Cursor} {ch : Char} (h : c.peek = some ch) :
    (c.bump ch).source.utf8ByteSize - (c.bump ch).position <
      c.source.utf8ByteSize - c.position := by
  have hlt := position_lt_of_peek h
  have hsize := c.size_lt
  have hpos := ch.utf8Size_pos
  show c.source.utf8ByteSize - min (c.position + ch.utf8Size) (1 <<< 64 - 1) < _
  omega

/-- Passes the characters in front that `p` holds of, one by one, with `f` folded over
them. -/
def scan {σ : Type} (p : Char → Bool) (f : σ → Char → σ) (s : σ) (c : Cursor) : σ × Cursor :=
  match _h : c.peek with
  | none => (s, c)
  | some ch => if p ch then (c.bump ch).scan p f (f s ch) else (s, c)
termination_by c.source.utf8ByteSize - c.position
decreasing_by exact sub_position_bump_lt ‹_›

section

variable {σ : Type} {c : Cursor} {p : Char → Bool} {f : σ → Char → σ} {s : σ} {ch : Char}

theorem scan_of_none (h : c.peek = none) : c.scan p f s = (s, c) := by
  rw [scan]; split <;> simp_all

theorem scan_of_pos (h : c.peek = some ch) (hp : p ch = true) :
    c.scan p f s = (c.bump ch).scan p f (f s ch) := by
  rw [scan]; split <;> simp_all

theorem scan_of_neg (h : c.peek = some ch) (hp : p ch = false) : c.scan p f s = (s, c) := by
  rw [scan]; split <;> simp_all

end

/-- The cursor behind the characters in front that `p` holds of. -/
def passWhile (p : Char → Bool) (c : Cursor) : Cursor := (c.scan p (fun _ _ => ()) ()).2

/-- The token that the text of a number with one point at most denotes. -/
def parse? (text : String) : Option Token :=
  if text.toList.head? = some '-' then Lexeme.numeral? true text.toList.tail
  else Lexeme.numeral? false text.toList

/-- What a number is reported as: its token, unless it is malformed. -/
def report (span : Span) : Option Token → Tokenizer.Item
  | some token => .ok ⟨token, span⟩
  | none => .error (.badNumber span)

/-- The name from an offset on. -/
def identifier (c : Cursor) (start : Nat) : Tokenizer.Item × Cursor :=
  let c := c.passWhile Lexeme.isNamePart
  (.ok ⟨.identifier (c.since start), ⟨start, c.position⟩⟩, c)

/-- The number from an offset on, its sign passed before. -/
def number (c : Cursor) (start : Nat) : Tokenizer.Item × Cursor :=
  let (points, c) := c.scan Lexeme.isNumberPart
    (fun points ch => if ch = '.' then cappedSum points 1 else points) 0
  let (named, c) := c.scan Lexeme.isNamePart (fun _ _ => true) false
  let token := if 1 < points ∨ named then none else parse? (c.since start)
  (report ⟨start, c.position⟩ token, c)

/-- The item in front, which starts with the character `ch`. -/
def read (c : Cursor) (ch : Char) : Tokenizer.Item × Cursor :=
  if ch.isDigit then c.number c.position
  else if ch = '-' ∧ c.peekSecond.any Char.isDigit then (c.bump ch).number c.position
  else if Lexeme.isNameStart ch then c.identifier c.position
  else
    match Punctuation.ofChar? ch with
    | some p =>
      let d := c.bump ch
      (.ok ⟨.punct p, ⟨c.position, d.position⟩⟩, d)
    | none => (.error (.unknownCharacter ch c.position), c)

/-- The next item, if there is one. -/
def next (c : Cursor) : Option Tokenizer.Item × Cursor :=
  if c.failed then (none, c)
  else
    let c := c.passWhile Text.isBlank
    match c.peek with
    | none => (none, c)
    | some ch =>
      match c.read ch with
      | (.ok x, d) => (some (.ok x), d)
      | (.error e, d) => (some (.error e), { d with failed := true })

end Cursor
end WindowVM
