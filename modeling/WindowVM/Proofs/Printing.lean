/-
# Printed tokens are read back

The text of a token is one of the texts that the token is read from
(`Token.Plain.spells_render`), for a name, a punctuation character and an integer.  A signed
integer has to be below zero, because only then is it written with its sign; fractions are
left out, because a whole one is written without a point.

So tokens that are printed with blank characters between them are a layout of their text,
and are read back from it with the bytes that each was printed to
(`Tokenizer.items_printed`).
-/

import Mathlib.Data.List.Infix
import WindowVM.Proofs.Coverage

namespace WindowVM

/-! ### One token -/

/-- The tokens that are read back from their text. -/
inductive Token.Plain : Token → Prop
  | identifier {c : Char} {cs : List Char} (start : NameStart c) (parts : ∀ d ∈ cs, NamePart d) :
      Plain (.identifier (String.ofList (c :: cs)))
  | unsigned (n : UInt64) : Plain (.unsigned n)
  | signed {n : Int64} (negative : n < 0) : Plain (.signed n)
  | punct (p : Punctuation) : Plain (.punct p)

/-- The digits of a number denote it. -/
theorem numeral_toDigits (n : Nat) : numeral (Nat.toDigits 10 n) = n :=
  (Lexeme.decimal_eq_numeral _).symm.trans Nat.ofDigitChars_ten_toDigits

theorem digit_of_mem_toDigits {n : Nat} {c : Char} (h : c ∈ Nat.toDigits 10 n) : Digit c :=
  isDigit_iff.1 (Nat.isDigit_of_mem_toDigits (by decide) (by decide) h)

theorem Token.toList_render_unsigned (n : UInt64) :
    (Token.unsigned n).render.toList = Nat.toDigits 10 n.toNat := by
  rw [render, Nat.toString_eq_ofList_toDigits, String.toList_ofList]

/-- A sign, and then the digits of the number that is one more than what `Int.negSucc` counts. -/
theorem Token.toList_render_signed {n : Int64} {m : Nat} (h : n.toInt = Int.negSucc m) :
    (Token.signed n).render.toList = '-' :: Nat.toDigits 10 (m + 1) := by
  have htext : toString (Int.negSucc m) = "-" ++ toString (m + 1) := rfl
  rw [render, h, htext, String.toList_append, Nat.toString_eq_ofList_toDigits,
    String.toList_ofList, String.toList_ofList]
  rfl

/-- **A token is read from its own text.** -/
theorem Token.Plain.spells_render {token : Token} (h : token.Plain) :
    Lexeme.Spells token.render.toList token := by
  cases h with
  | identifier hstart hparts =>
    rw [Token.render, String.toList_ofList]
    exact .identifier hstart hparts
  | unsigned n =>
    rw [Token.toList_render_unsigned]
    exact .number (.unsigned Nat.toDigits_ne_nil (fun _ => digit_of_mem_toDigits)
      (numeral_toDigits _).symm)
  | @signed n hnegative =>
    obtain ⟨m, hm⟩ := Int.eq_negSucc_of_lt_zero (Int64.lt_iff_toInt_lt.1 hnegative)
    have hvalue : n.toInt = -numeral (Nat.toDigits 10 (m + 1)) := by
      rw [numeral_toDigits, hm, Int.negSucc_eq]
      rfl
    rw [Token.toList_render_signed hm]
    exact .number (.signed Nat.toDigits_ne_nil (fun _ => digit_of_mem_toDigits) hvalue)
  | punct p =>
    rw [Token.render, Char.toString, String.toList_singleton]
    exact .punct p

/-! ### Tokens with gaps between them -/

/-- The text of tokens, each with the text that follows it. -/
def printed : List (Token × String) → String
  | [] => ""
  | (token, gap) :: ps => token.render ++ gap ++ printed ps

/-- The tokens with the bytes of their texts, from an offset on. -/
def printedTokens : Nat → List (Token × String) → List SpannedToken
  | _, [] => []
  | start, (token, gap) :: ps =>
    ⟨token, ⟨start, start + token.render.utf8ByteSize⟩⟩ ::
      printedTokens (start + token.render.utf8ByteSize + gap.utf8ByteSize) ps

/-- Printed tokens are pieces of a layout, since there is a gap after each that another one
follows. -/
theorem exists_pieces_printed {ps : List (Token × String)} (hplain : ∀ p ∈ ps, p.1.Plain)
    (hblank : ∀ p ∈ ps, ∀ c ∈ p.2.toList, Text.isBlank c) (hgap : ∀ p ∈ ps.dropLast, p.2 ≠ "") :
    ∃ as : List Piece, as.flatMap Piece.text = (printed ps).toList ∧
      (∀ start, spanned start as = printedTokens start ps) ∧ as.IsChain Piece.Apart := by
  induction ps with
  | nil => exact ⟨[], rfl, fun _ => rfl, .nil⟩
  | cons p ps ih =>
    obtain ⟨token, gap⟩ := p
    obtain ⟨hfirst, hplain⟩ := List.forall_mem_cons.1 hplain
    obtain ⟨hfirstBlank, hblank⟩ := List.forall_mem_cons.1 hblank
    have hbetween : ps ≠ [] → gap ≠ "" ∧ ∀ q ∈ ps.dropLast, q.2 ≠ "" := fun hne => by
      rw [List.dropLast_cons_of_ne_nil hne] at hgap
      exact List.forall_mem_cons.1 hgap
    let a : Piece := ⟨token.render.toList, token, gap.toList, hfirst.spells_render, hfirstBlank⟩
    have hbytes : byteLength a.text = token.render.utf8ByteSize + gap.utf8ByteSize := by
      rw [Piece.text, byteLength_append, utf8ByteSize_eq_byteLength, utf8ByteSize_eq_byteLength]
    obtain ⟨as, htext, hspanned, hapart⟩ := ih hplain hblank fun q hq =>
      (hbetween (List.ne_nil_of_mem (List.mem_of_mem_dropLast hq))).2 q hq
    refine ⟨a :: as, ?_, fun start => ?_, List.isChain_cons.2 ⟨fun b hb hempty => ?_, hapart⟩⟩
    · rw [List.flatMap_cons, htext, printed, String.toList_append, String.toList_append]
      rfl
    · rw [spanned, printedTokens, hspanned, hbytes, Nat.add_assoc, utf8ByteSize_eq_byteLength]
    · -- Where another piece follows, another token was printed, so the gap is not empty.
      have hne : ps ≠ [] := by
        rintro rfl
        obtain ⟨bs, rfl⟩ := List.head?_eq_some_iff.1 hb
        cases hspanned 0
      exact absurd (String.toList_eq_nil_iff.1 hempty) (hbetween hne).1

namespace Tokenizer

/-- **Printed tokens are read back** as they are, each from the bytes it was printed to. -/
theorem items_printed (lead : String) (ps : List (Token × String))
    (hlead : ∀ c ∈ lead.toList, Text.isBlank c) (hplain : ∀ p ∈ ps, p.1.Plain)
    (hblank : ∀ p ∈ ps, ∀ c ∈ p.2.toList, Text.isBlank c) (hgap : ∀ p ∈ ps.dropLast, p.2 ≠ "") :
    items (lead ++ printed ps) = (printedTokens lead.utf8ByteSize ps).map .ok := by
  obtain ⟨as, htext, hspanned, hapart⟩ := exists_pieces_printed hplain hblank hgap
  have hrest : (ofString (lead ++ printed ps)).rest = lead.toList ++ as.flatMap Piece.text := by
    rw [htext, ← String.toList_append]
    rfl
  rw [items, drain_of_layout rfl hrest hlead hapart, hspanned, utf8ByteSize_eq_byteLength,
    ofString, Nat.zero_add]

/-- The least integer is read back, and a minus sign beside it is none of it. -/
theorem items_printed_around_least :
    items ("\u3000" ++ printed [(.signed Int64.minValue, "\u00a0"), (.punct .minus, "\n"),
      (.unsigned 18446744073709551615, " "), (.identifier "_a9", "")]) =
    [.ok ⟨.signed Int64.minValue, ⟨3, 23⟩⟩, .ok ⟨.punct .minus, ⟨25, 26⟩⟩,
      .ok ⟨.unsigned 18446744073709551615, ⟨27, 47⟩⟩, .ok ⟨.identifier "_a9", ⟨48, 51⟩⟩] := by
  have hname : Token.Plain (.identifier (String.ofList ['_', 'a', '9'])) :=
    .identifier (by decide) (by simp [NamePart, NameStart, Letter, Digit])
  refine items_printed "\u3000" _ ?_ ?_ ?_ (by simp)
  · simp [Text.isBlank, Text.inRanges, Text.blankRanges]
  · simp only [List.forall_mem_cons]
    exact ⟨.signed (by decide), .punct .minus, .unsigned _, hname, List.forall_mem_nil _⟩
  · simp [Text.isBlank, Text.inRanges, Text.blankRanges]

end Tokenizer
end WindowVM
