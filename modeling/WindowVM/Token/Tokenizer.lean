/-
# The tokenizer

A `Tokenizer` is a source text cut in two, what was passed and what is left, so that it
always stands between two characters.  `next` passes blank characters and then one
lexeme.  An error ends the tokens for good; `reset` goes back to the start.
-/

import WindowVM.Token.Lexeme

namespace WindowVM

/-- A source text cut where reading goes on. -/
structure Tokenizer where
  /-- What was passed, the last character first. -/
  passed : List Char
  rest : List Char
  /-- Whether an error was found. -/
  failed : Bool
  /-- How many bytes were passed. -/
  position : Nat
  position_eq : position = byteLength passed
  deriving DecidableEq

namespace Tokenizer

/-- A token, or the error that ends the tokens. -/
abbrev Item := Except TokenError SpannedToken

/-- A tokenizer at the start of a source. -/
def ofString (source : String) : Tokenizer :=
  { passed := [], rest := source.toList, failed := false, position := 0, position_eq := rfl }

/-- The whole text. -/
def source (t : Tokenizer) : List Char := t.passed.reverse ++ t.rest

/-- The tokenizer `n` characters further on. -/
def pass (t : Tokenizer) (n : Nat) : Tokenizer :=
  { passed := (t.rest.take n).reverse ++ t.passed
    rest := t.rest.drop n
    failed := t.failed
    position := t.position + byteLength (t.rest.take n)
    position_eq := by simp [t.position_eq, Nat.add_comm] }

@[simp] theorem source_pass (t : Tokenizer) (n : Nat) : (t.pass n).source = t.source := by
  simp [source, pass, List.append_assoc]

@[simp] theorem pass_zero (t : Tokenizer) : t.pass 0 = t := by
  cases t
  simp [pass]

theorem pass_pass (t : Tokenizer) (m n : Nat) : (t.pass m).pass n = t.pass (m + n) := by
  simp [pass, List.take_add, List.append_assoc, Nat.add_assoc]

/-- The tokenizer at the next character that is not blank. -/
def skipBlanks (t : Tokenizer) : Tokenizer := t.pass (t.rest.takeWhile Text.isBlank).length

/-- The tokenizer back at the start of its source. -/
def reset (t : Tokenizer) : Tokenizer :=
  { passed := [], rest := t.source, failed := false, position := 0, position_eq := rfl }

/-- The item that starts with the character `c` right after what was passed. -/
def read (t : Tokenizer) (c : Char) (cs : List Char) : Item × Tokenizer :=
  match Lexeme.first? c cs with
  | none => (.error (.unknownCharacter c t.position), { t with failed := true })
  | some (lexeme, token) =>
    let u := t.pass lexeme.length
    let span : Span := ⟨t.position, u.position⟩
    match token with
    | some token => (.ok ⟨token, span⟩, u)
    | none => (.error (.badNumber span), { u with failed := true })

/-- The next item, if there is one. -/
def next (t : Tokenizer) : Option Item × Tokenizer :=
  if t.failed then (none, t)
  else
    let t := t.skipBlanks
    match t.rest with
    | [] => (none, t)
    | c :: cs =>
      let (item, t) := t.read c cs
      (some item, t)

/-- How many characters may still be read. -/
def pending (t : Tokenizer) : Nat := if t.failed then 0 else t.rest.length + 1

theorem pending_lt_of_next {t u : Tokenizer} {item : Item} (h : t.next = (some item, u)) :
    u.pending < t.pending := by
  unfold next at h
  split at h
  · simp at h
  · rename_i hfailed
    have hle : t.skipBlanks.rest.length ≤ t.rest.length := by simp [skipBlanks, pass]
    have hkept : t.skipBlanks.failed = t.failed := rfl
    simp only at h
    split at h
    · simp at h
    · rename_i c cs hrest
      simp only [Prod.mk.injEq] at h
      obtain ⟨-, rfl⟩ := h
      unfold read
      split
      · simp [pending, hfailed]
      · rename_i lexeme token hfirst
        have hpos := List.length_pos_iff.2 (Lexeme.first?_ne_nil hfirst)
        have hlen : 0 < t.skipBlanks.rest.length := by simp [hrest]
        split
        · simp only [pending, pass, hkept, hfailed, Bool.false_eq_true, if_false,
            List.length_drop]
          omega
        · simp [pending, hfailed]

/-- Every item that is left. -/
def drain (t : Tokenizer) : List Item × Tokenizer :=
  match _h : t.next with
  | (none, t) => ([], t)
  | (some item, t) =>
    let (items, t) := t.drain
    (item :: items, t)
termination_by t.pending
decreasing_by exact pending_lt_of_next ‹_›

theorem drain_of_none {t u : Tokenizer} (h : t.next = (none, u)) : t.drain = ([], u) := by
  rw [drain]; split <;> simp_all

theorem drain_of_some {t u : Tokenizer} {item : Item} (h : t.next = (some item, u)) :
    t.drain = (item :: u.drain.1, u.drain.2) := by
  rw [drain]; split <;> simp_all

/-- The items of a source. -/
def items (source : String) : List Item := (ofString source).drain.1

end Tokenizer
end WindowVM
