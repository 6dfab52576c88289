/-
# Lexemes

The longest piece of text that one token, or one malformed number, is read from.

A name is a run of ASCII letters, digits and underscores that does not start with a
digit.  A number starts with a digit, or with a `-` right before a digit; it takes the
run of digits and points that follows, and the name, if one follows directly, which
makes it malformed.  So does a second point.
-/

import WindowVM.Token.Basic

namespace WindowVM
namespace Lexeme

def isNameStart (c : Char) : Bool := c.isAlpha || c == '_'

def isNamePart (c : Char) : Bool := c.isAlphanum || c == '_'

def isNumberPart (c : Char) : Bool := c.isDigit || c == '.'

/-- The number that decimal digits denote. -/
def decimal (digits : List Char) : Nat :=
  digits.foldl (fun n c => 10 * n + (c.toNat - '0'.toNat)) 0

/-- The integer of a number without a point, if it has 64 bits. -/
def integer? (negative : Bool) (digits : List Char) : Option Token :=
  let n := decimal digits
  if negative then
    if n ≤ 1 <<< 63 then some (.signed (Int64.ofInt (-n))) else none
  else if n < 1 <<< 64 then some (.unsigned (UInt64.ofNat n))
  else none

/-- The token of digits and points. -/
def numeral? (negative : Bool) (body : List Char) : Option Token :=
  let whole := body.takeWhile (· != '.')
  match body.dropWhile (· != '.') with
  | [] => integer? negative whole
  | _ :: fraction =>
    if fraction.contains '.' then none
    else
      some (.float (.ofRatio negative (decimal (whole ++ fraction)) (Nat.pow 10 fraction.length)))

/-- The lexeme of a number, its sign apart, at the front of a text, and its token. -/
def number (negative : Bool) (cs : List Char) : List Char × Option Token :=
  let body := cs.takeWhile isNumberPart
  let name := (cs.dropWhile isNumberPart).takeWhile isNamePart
  (body ++ name, if name.isEmpty then numeral? negative body else none)

/-- The lexeme at the front of a text that starts with `c`, with its token unless it is
a malformed number.  There is no lexeme when no token starts with `c`. -/
def first? (c : Char) (cs : List Char) : Option (List Char × Option Token) :=
  if c.isDigit then some (number false (c :: cs))
  else if c = '-' ∧ cs.head?.any Char.isDigit then
    let (lexeme, token) := number true cs
    some (c :: lexeme, token)
  else if isNameStart c then
    let name := (c :: cs).takeWhile isNamePart
    some (name, some (.identifier (String.ofList name)))
  else (Punctuation.ofChar? c).map fun p => ([c], some (.punct p))

theorem number_append (negative : Bool) (cs : List Char) :
    ∃ rest, (number negative cs).1 ++ rest = cs := by
  refine ⟨(cs.dropWhile isNumberPart).dropWhile isNamePart, ?_⟩
  simp only [number, List.append_assoc, List.takeWhile_append_dropWhile]

/-- A lexeme is a front part of the text. -/
theorem first?_append {c : Char} {cs lexeme : List Char} {token : Option Token}
    (h : first? c cs = some (lexeme, token)) : ∃ rest, lexeme ++ rest = c :: cs := by
  unfold first? at h
  split at h
  · obtain ⟨rest, hrest⟩ := number_append false (c :: cs)
    simp only [Option.some.injEq] at h
    exact ⟨rest, by rw [← hrest, h]⟩
  · split at h
    · obtain ⟨rest, hrest⟩ := number_append true cs
      simp only [Option.some.injEq, Prod.mk.injEq] at h
      exact ⟨rest, by rw [← h.1, List.cons_append, hrest]⟩
    · split at h
      · simp only [Option.some.injEq, Prod.mk.injEq] at h
        exact ⟨(c :: cs).dropWhile isNamePart, by rw [← h.1, List.takeWhile_append_dropWhile]⟩
      · obtain ⟨p, _, hp⟩ := Option.map_eq_some_iff.1 h
        simp only [Prod.mk.injEq] at hp
        exact ⟨cs, by rw [← hp.1]; rfl⟩

/-- A lexeme has at least one character. -/
theorem first?_ne_nil {c : Char} {cs lexeme : List Char} {token : Option Token}
    (h : first? c cs = some (lexeme, token)) : lexeme ≠ [] := by
  unfold first? at h
  split at h
  · rename_i hc
    simp only [Option.some.injEq, number, Prod.mk.injEq] at h
    rw [← h.1]
    simp [isNumberPart, hc]
  · split at h
    · simp only [Option.some.injEq, Prod.mk.injEq] at h
      rw [← h.1]
      simp
    · split at h
      · rename_i hc
        simp only [Option.some.injEq, Prod.mk.injEq] at h
        have hpart : isNamePart c := by
          simp only [isNameStart, isNamePart, Char.isAlphanum, Bool.or_eq_true] at hc ⊢
          exact hc.elim (fun ha => .inl (.inl ha)) .inr
        rw [← h.1]
        simp [hpart]
      · obtain ⟨p, _, hp⟩ := Option.map_eq_some_iff.1 h
        simp only [Prod.mk.injEq] at hp
        rw [← hp.1]
        simp

end Lexeme
end WindowVM
