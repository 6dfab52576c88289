/-
# Where reading a text goes wrong

The tokens of a source end early in two ways: at a character that no token starts with, and
at digits that no number is written as.  `Misread` says what stands in the source there,
which error is reported, and how far the source is passed: the character itself is not, and
a malformed number is to its last digit, point or letter.

An error changes nothing about the tokens before it (`Tokenizer.items_of_error`).  The text
up to the error is laid out like any other (`Tokenizer.exists_layout_of_append`), and a text
that is laid out is read without an error when it is cut off there.
-/

import WindowVM.Proofs.Grammar

namespace WindowVM

/-! ### Numbers that are none -/

namespace Lexeme

/-- Whether an integer does not fit in 64 bits, which are its own where it has a sign. -/
def OutOfRange : Bool → Nat → Prop
  | false, n => 2 ^ 64 ≤ n
  | true, n => -(n : Int) < -2 ^ 63

/-- A malformed number at the front of a text: digits and points from `c` on, the name that
touches them, and the rest of the text. -/
structure Malformed (negative : Bool) (c : Char) (body name rest : List Char) : Prop where
  digit : Digit c
  parts : ∀ d ∈ body, Digit d ∨ d = '.'
  partsEnd : ∀ d, (name ++ rest).head? = some d → ¬(Digit d ∨ d = '.')
  nameParts : ∀ d ∈ name, NamePart d
  nameEnd : ∀ d, rest.head? = some d → ¬NamePart d
  cause : 2 ≤ body.count '.' ∨ name ≠ [] ∨
    '.' ∉ body ∧ OutOfRange negative (numeral (c :: body))

/-- Digits alone are no integer only when they denote one out of range. -/
theorem integer?_eq_none_iff {negative : Bool} {ds : List Char} :
    integer? negative ds = none ↔ OutOfRange negative (numeral ds) := by
  rw [integer?_eq]
  cases negative with
  | false =>
    rw [if_neg Bool.false_ne_true]
    show _ ↔ 2 ^ 64 ≤ numeral ds
    split
    · simp only [reduceCtorEq, false_iff]
      omega
    · simp only [true_iff]
      omega
  | true =>
    rw [if_pos rfl]
    show _ ↔ -(numeral ds : Int) < -2 ^ 63
    split
    · simp only [reduceCtorEq, false_iff]
      omega
    · simp only [true_iff]
      omega

/-- Digits and points are no number when there are two points, or none and the integer is out
of range. -/
theorem cause_of_numeral?_eq_none {negative : Bool} {c : Char} {cs : List Char} (hc : Digit c)
    (hparts : ∀ d ∈ cs, isNumberPart d) (h : numeral? negative (c :: cs) = none) :
    2 ≤ cs.count '.' ∨ '.' ∉ cs ∧ OutOfRange negative (numeral (c :: cs)) := by
  obtain ⟨whole, tail, rfl, hwhole, htail⟩ := exists_whole hparts
  have hdigits : ∀ d ∈ c :: whole, Digit d := List.forall_mem_cons.2 ⟨hc, hwhole⟩
  rcases htail with rfl | ⟨fraction, rfl⟩
  · right
    rw [List.append_nil] at h ⊢
    rw [numeral?_of_digits hdigits, integer?_eq_none_iff] at h
    exact ⟨fun hpoint => (hwhole '.' hpoint).ne_point rfl, h⟩
  · left
    rw [← List.cons_append, numeral?_of_point hdigits] at h
    have hsecond : '.' ∈ fraction := by
      by_contra hnone
      simp [if_neg hnone] at h
    have hcount : 0 < fraction.count '.' := List.count_pos_iff.2 hsecond
    rw [List.count_append, List.count_cons_self]
    omega

/-- What starts with a digit and is read as no number is malformed. -/
theorem Malformed.of_number {negative : Bool} {c : Char} {cs lexeme : List Char} (hc : Digit c)
    (h : number negative (c :: cs) = (lexeme, none)) :
    ∃ body name rest, Malformed negative c body name rest ∧ cs = body ++ (name ++ rest) ∧
      lexeme = c :: (body ++ name) := by
  obtain ⟨body, rest, rfl, hbody, hbodyEnd⟩ := exists_span isNumberPart cs
  obtain ⟨name, rest, rfl, hname, hnameEnd⟩ := exists_span isNamePart rest
  have hparts : ∀ d ∈ c :: body, isNumberPart d :=
    List.forall_mem_cons.2 ⟨isNumberPart_iff.2 (.inl hc), hbody⟩
  rw [← List.cons_append, number_append_name hparts hbodyEnd hname hnameEnd, Prod.mk.injEq] at h
  obtain ⟨rfl, hnone⟩ := h
  refine ⟨body, name, rest, ⟨hc, ?_, ?_, ?_, ?_, ?_⟩, rfl, rfl⟩
  · exact fun d hd => isNumberPart_iff.1 (hbody d hd)
  · intro d hd
    rw [← isNumberPart_iff, hbodyEnd d hd]
    exact Bool.false_ne_true
  · exact fun d hd => isNamePart_iff.1 (hname d hd)
  · exact fun d hd => isNamePart_eq_false_iff.1 (hnameEnd d hd)
  · split at hnone
    · exact (cause_of_numeral?_eq_none hc hbody hnone).imp_right .inr
    · rename_i hne
      exact .inr (.inl hne)

/-- A lexeme of no token is a malformed number, with a sign before it or without. -/
theorem Malformed.of_first? {c : Char} {cs lexeme : List Char}
    (h : first? c cs = some (lexeme, none)) :
    ∃ negative d body name rest, Malformed negative d body name rest ∧
      c :: cs = sign negative ++ d :: (body ++ (name ++ rest)) ∧
      lexeme = sign negative ++ d :: (body ++ name) := by
  unfold first? at h
  split at h
  · rename_i hdigit
    obtain ⟨body, name, rest, hmalformed, rfl, rfl⟩ :=
      Malformed.of_number (isDigit_iff.1 hdigit) (Option.some.inj h)
    exact ⟨false, c, body, name, rest, hmalformed, rfl, rfl⟩
  split at h
  · rename_i hminus
    obtain ⟨rfl, hhead⟩ := hminus
    obtain ⟨d, hd, hdigit⟩ := (Option.any_eq_true ..).1 hhead
    obtain ⟨ds, rfl⟩ := List.head?_eq_some_iff.1 hd
    simp only [Option.some.injEq, Prod.mk.injEq] at h
    obtain ⟨rfl, hnone⟩ := h
    obtain ⟨body, name, rest, hmalformed, rfl, hlexeme⟩ :=
      Malformed.of_number (isDigit_iff.1 hdigit) (Prod.ext rfl hnone)
    exact ⟨true, d, body, name, rest, hmalformed, rfl, congrArg (List.cons '-') hlexeme⟩
  split at h
  · simp at h
  · obtain ⟨p, -, hp⟩ := Option.map_eq_some_iff.1 h
    simp at hp

/-- A character that starts no lexeme is of none of the classes that tokens start with. -/
theorem classes_of_first?_eq_none {c : Char} {cs : List Char} (h : first? c cs = none) :
    ¬Digit c ∧ ¬NameStart c ∧ ∀ p : Punctuation, c ≠ p.toChar := by
  unfold first? at h
  split at h
  · simp at h
  split at h
  · simp at h
  split at h
  · simp at h
  · rename_i hdigit _ hstart
    refine ⟨mt isDigit_iff.2 hdigit, mt isNameStart_iff.2 hstart, fun p hp => ?_⟩
    rw [Option.map_eq_none_iff, hp, Punctuation.ofChar?_eq_some_iff.2 rfl] at h
    cases h

end Lexeme

/-! ### One error -/

/-- What stands in a text from the byte `offset` on where no token can be read, the error it
is reported with, and the byte up to which it is passed. -/
inductive Misread (offset : Nat) : List Char → TokenError → Nat → Prop
  | unknown {c : Char} {rest : List Char} (blank : Text.isBlank c = false) (digit : ¬Digit c)
      (letter : ¬Letter c) (underscore : c ≠ '_') (punct : ∀ p : Punctuation, c ≠ p.toChar) :
      Misread offset (c :: rest) (.unknownCharacter c offset) offset
  | number {negative : Bool} {c : Char} {body name rest lexeme : List Char}
      (malformed : Lexeme.Malformed negative c body name rest)
      (text : lexeme = Lexeme.sign negative ++ c :: (body ++ name)) :
      Misread offset (lexeme ++ rest) (.badNumber ⟨offset, offset + byteLength lexeme⟩)
        (offset + byteLength lexeme)

/-- An error is about the text where it is reported. -/
theorem Misread.offset_eq {offset position : Nat} {text : List Char} {e : TokenError}
    (h : Misread offset text e position) : e.offset = offset := by
  cases h with
  | unknown => rfl
  | number => rfl

/-- A malformed number is in error from its first byte to its last. -/
theorem Misread.exists_lexeme {offset position : Nat} {text : List Char} {e : TokenError}
    (h : Misread offset text e position) {span : Span} (he : e = .badNumber span) :
    ∃ lexeme rest, text = lexeme ++ rest ∧ span = ⟨offset, offset + byteLength lexeme⟩ := by
  cases h with
  | unknown => cases he
  | number => exact ⟨_, _, rfl, (TokenError.badNumber.inj he).symm⟩

namespace Tokenizer

variable {t u : Tokenizer} {c : Char} {cs : List Char} {e : TokenError}

/-- An error is the one that the text in front is reported with. -/
theorem misread_of_read (hrest : t.rest = c :: cs) (hc : Text.isBlank c = false)
    (h : t.read c cs = (.error e, u)) :
    Misread t.position (c :: cs) e u.position ∧ u.failed = true := by
  unfold read at h
  split at h
  · rename_i hnone
    obtain ⟨herror, rfl⟩ := Prod.mk.inj h
    obtain rfl := Except.error.inj herror
    obtain ⟨hdigit, hstart, hpunct⟩ := Lexeme.classes_of_first?_eq_none hnone
    exact ⟨.unknown hc hdigit (fun hletter => hstart (.inl hletter))
      (fun hunderscore => hstart (.inr hunderscore)) hpunct, rfl⟩
  · rename_i lexeme token hfirst
    cases token with
    | some token => simp at h
    | none =>
      obtain ⟨negative, d, body, name, rest, hmalformed, htext, hlexeme⟩ :=
        Lexeme.Malformed.of_first? hfirst
      have hfront : c :: cs = lexeme ++ rest := by
        rw [htext, hlexeme]
        simp only [List.append_assoc, List.cons_append]
      rw [hfront] at hrest ⊢
      obtain ⟨herror, rfl⟩ := Prod.mk.inj h
      obtain rfl := Except.error.inj herror
      refine ⟨?_, rfl⟩
      show Misread t.position (lexeme ++ rest)
        (.badNumber ⟨t.position, (t.pass lexeme.length).position⟩) (t.pass lexeme.length).position
      rw [position_pass hrest]
      exact .number hmalformed hlexeme

/-- The next error is about the text behind the blank characters, and ends the tokens. -/
theorem misread_of_next (h : t.next = (some (.error e), u)) :
    u.failed = true ∧ ∃ lead back, t.rest = lead ++ back ∧ (∀ d ∈ lead, Text.isBlank d) ∧
      Misread (t.position + byteLength lead) back e u.position := by
  obtain ⟨-, lead, c, cs, hrest, hlead, hc, hread⟩ := read_of_next h
  obtain ⟨hmisread, hfailed⟩ := misread_of_read (rest_pass hrest) hc hread
  rw [position_pass hrest] at hmisread
  exact ⟨hfailed, lead, c :: cs, hrest, hlead, hmisread⟩

/-- After an error there are no more items. -/
theorem drain_of_failed (h : t.failed = true) : t.drain = ([], t) :=
  drain_of_none (by rw [next, if_pos h])

/-- The items that are left are tokens, up to an error at most. -/
theorem exists_tokens (t : Tokenizer) : ∃ ts : List SpannedToken,
    t.drain.1 = ts.map .ok ∨ ∃ e, t.drain.1 = ts.map .ok ++ [.error e] := by
  fun_induction drain t with
  | case1 t u hnext => exact ⟨[], .inl rfl⟩
  | case2 t item u hnext items v hdrain ih =>
    cases item with
    | ok x =>
      obtain ⟨ts, hts⟩ := ih
      rw [hdrain] at hts
      refine ⟨x :: ts, hts.imp (congrArg _) ?_⟩
      rintro ⟨e, he⟩
      exact ⟨e, congrArg _ he⟩
    | error e =>
      refine ⟨[], .inr ⟨e, ?_⟩⟩
      rw [drain_of_failed (misread_of_next hnext).1] at hdrain
      obtain ⟨rfl, -⟩ := Prod.mk.inj hdrain
      rfl

/-- Where only an error is left, the text in front is misread. -/
theorem misread_of_drain {v : Tokenizer} (h : t.drain = ([.error e], v))
    (hhead : ∀ d, t.rest.head? = some d → Text.isBlank d = false) :
    Misread t.position t.rest e v.position := by
  obtain ⟨result, u, hnext⟩ : ∃ result u, t.next = (result, u) := ⟨_, _, rfl⟩
  cases result with
  | none => simp [drain_of_none hnext] at h
  | some item =>
    rw [drain_of_some hnext] at h
    simp only [Prod.mk.injEq, List.cons.injEq] at h
    obtain ⟨⟨rfl, -⟩, hend⟩ := h
    obtain ⟨hfailed, lead, back, hrest, hlead, hmisread⟩ := misread_of_next hnext
    rw [drain_of_failed hfailed] at hend
    cases lead with
    | cons d lead =>
      have hblank := hlead d List.mem_cons_self
      rw [hhead d (by rw [hrest]; rfl)] at hblank
      cases hblank
    | nil =>
      rw [hrest, ← hend]
      exact hmisread

/-! ### Whole texts -/

/-- **An error is exact, and the tokens before it do not depend on it.**  The source is cut
at the byte where the error is reported: what follows is misread as this error, and what
comes before is, on its own, read as the same tokens without an error. -/
theorem items_of_error (source : String) (e : TokenError)
    (h : (items source).getLast? = some (.error e)) :
    ∃ (front back : List Char) (ts : List SpannedToken), source.toList = front ++ back ∧
      byteLength front = e.offset ∧ items source = ts.map .ok ++ [.error e] ∧
      items (String.ofList front) = ts.map .ok ∧
      Misread e.offset back e (ofString source).drain.2.position := by
  obtain ⟨ts, htokens | ⟨e', htokens⟩⟩ := exists_tokens (ofString source)
  · rw [items, htokens, List.getLast?_map, Option.map_eq_some_iff] at h
    obtain ⟨x, -, hx⟩ := h
    cases hx
  rw [items, htokens, List.getLast?_append, List.getLast?_singleton, Option.some_or,
    Option.some.injEq, Except.error.injEq] at h
  subst h
  obtain ⟨l, u, hsource, rfl, -, hposition, hdrain, hhead⟩ := exists_layout_of_append rfl htokens
  have hmisread := misread_of_drain hdrain hhead
  have hfront : byteLength l.text = u.position := by
    rw [hposition]
    exact (Nat.zero_add _).symm
  refine ⟨l.text, u.rest, _, hsource, ?_, htokens, ?_, ?_⟩
  · rw [hmisread.offset_eq, hfront]
  · -- The front is laid out as it was in the source.
    have htext : (ofString (String.ofList l.text)).rest = l.lead ++ l.pieces.flatMap Piece.text :=
      String.toList_ofList
    rw [items, drain_of_layout rfl htext l.blank l.apart]
    rfl
  · rwa [hmisread.offset_eq]

/-- The offset of a number out of range counts a blank character of two bytes before it. -/
theorem items_of_error_below_range :
    (items "x\u00a0-9223372036854775809;").getLast? = some (.error (.badNumber ⟨3, 23⟩)) ∧
      ∃ (front back : List Char) (ts : List SpannedToken),
        "x\u00a0-9223372036854775809;".toList = front ++ back ∧ byteLength front = 3 ∧
        items "x\u00a0-9223372036854775809;" = ts.map .ok ++ [.error (.badNumber ⟨3, 23⟩)] ∧
        items (String.ofList front) = ts.map .ok ∧
        Misread 3 back (.badNumber ⟨3, 23⟩)
          (ofString "x\u00a0-9223372036854775809;").drain.2.position := by
  have h : (items "x\u00a0-9223372036854775809;").getLast? =
      some (.error (.badNumber ⟨3, 23⟩)) := by decide +kernel
  exact ⟨h, items_of_error _ _ h⟩

end Tokenizer
end WindowVM
