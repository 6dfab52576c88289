/-
# The texts of a token

Which texts a token may be written as, said by their form and their value
(`Lexeme.Spells`), and which character may not follow directly because the token would go on
with it (`Token.Absorbs`).  A number has the value that its digits denote, an integer only
within its range, and a decimal fraction the nearest binary one.

Reading the longest lexeme finds exactly these: what `Lexeme.first?` splits off is a text of
the token it returns and is not followed by a character that the token absorbs
(`Lexeme.spells_of_first?`), and every such text is split off
(`Lexeme.Spells.first?_eq_some`).
-/

import WindowVM.Proofs.Rounding
import WindowVM.Token.Lexeme
import Mathlib.Data.Nat.Digits.Defs

namespace WindowVM

/-! ### Classes of characters -/

/-- `A` to `Z` and `a` to `z`. -/
def Letter (c : Char) : Prop := 'A' ≤ c ∧ c ≤ 'Z' ∨ 'a' ≤ c ∧ c ≤ 'z'

/-- `0` to `9`. -/
def Digit (c : Char) : Prop := '0' ≤ c ∧ c ≤ '9'

/-- What a name starts with. -/
def NameStart (c : Char) : Prop := Letter c ∨ c = '_'

/-- What a name goes on with. -/
def NamePart (c : Char) : Prop := NameStart c ∨ Digit c

instance : DecidablePred Letter := fun _ => inferInstanceAs (Decidable (_ ∨ _))

instance : DecidablePred Digit := fun _ => inferInstanceAs (Decidable (_ ∧ _))

instance : DecidablePred NameStart := fun _ => inferInstanceAs (Decidable (_ ∨ _))

instance : DecidablePred NamePart := fun _ => inferInstanceAs (Decidable (_ ∨ _))

theorem isDigit_iff {c : Char} : c.isDigit ↔ Digit c := by
  change (decide ('0' ≤ c) && decide (c ≤ '9')) = true ↔ Digit c
  rw [Bool.and_eq_true, decide_eq_true_iff, decide_eq_true_iff, Digit]

theorem isAlpha_iff {c : Char} : c.isAlpha ↔ Letter c := by
  change (decide ('A' ≤ c ∧ c ≤ 'Z') || decide ('a' ≤ c) && decide (c ≤ 'z')) = true ↔ Letter c
  simp only [Bool.or_eq_true, Bool.and_eq_true, decide_eq_true_iff, Letter]

theorem isNameStart_iff {c : Char} : Lexeme.isNameStart c ↔ NameStart c := by
  simp [Lexeme.isNameStart, NameStart, isAlpha_iff]

theorem isNamePart_iff {c : Char} : Lexeme.isNamePart c ↔ NamePart c := by
  simp [Lexeme.isNamePart, NamePart, NameStart, Char.isAlphanum, isAlpha_iff, isDigit_iff,
    or_right_comm]

theorem isNamePart_eq_false_iff {c : Char} : Lexeme.isNamePart c = false ↔ ¬NamePart c := by
  rw [← isNamePart_iff, Bool.not_eq_true]

/-- A visible character of ASCII is not blank. -/
theorem isBlank_eq_false {c : Char} (hlow : 0x21 ≤ c.toNat) (hhigh : c.toNat ≤ 0x7e) :
    Text.isBlank c = false := by
  simp only [Text.isBlank, Text.inRanges, Text.blankRanges, List.any_cons, List.any_nil,
    Bool.or_false, Bool.or_eq_false_iff, Bool.and_eq_false_imp, decide_eq_true_eq,
    decide_eq_false_iff_not, not_le]
  omega

/-- The code points of a class. -/
theorem digit_iff_toNat {c : Char} : Digit c ↔ 0x30 ≤ c.toNat ∧ c.toNat ≤ 0x39 := Iff.rfl

theorem nameStart_iff_toNat {c : Char} : NameStart c ↔
    (0x41 ≤ c.toNat ∧ c.toNat ≤ 0x5a ∨ 0x61 ≤ c.toNat ∧ c.toNat ≤ 0x7a) ∨ c.toNat = 0x5f := by
  rw [NameStart, Letter, ← Char.toNat_inj]
  rfl

theorem Digit.ne_point {c : Char} (h : Digit c) : c ≠ '.' := by
  rintro rfl
  exact absurd h (by decide)

theorem NameStart.not_digit {c : Char} (h : NameStart c) : ¬Digit c := by
  rw [nameStart_iff_toNat] at h
  rw [digit_iff_toNat]
  omega

theorem NameStart.ne_minus {c : Char} (h : NameStart c) : c ≠ '-' := by
  rintro rfl
  exact absurd h (by decide)

theorem NamePart.isBlank_eq_false {c : Char} (h : NamePart c) : Text.isBlank c = false := by
  rw [NamePart, nameStart_iff_toNat, digit_iff_toNat] at h
  exact WindowVM.isBlank_eq_false (by omega) (by omega)

/-- A run of characters of a class ends before one of another. -/
theorem span_append {p : Char → Bool} {cs rest : List Char} (hrun : ∀ c ∈ cs, p c)
    (hrest : ∀ c, rest.head? = some c → p c = false) :
    (cs ++ rest).takeWhile p = cs ∧ (cs ++ rest).dropWhile p = rest := by
  rw [List.takeWhile_append_of_pos hrun, List.dropWhile_append_of_pos hrun]
  cases rest with
  | nil => exact ⟨List.append_nil cs, rfl⟩
  | cons c rest =>
    have hc : ¬p c = true := Bool.eq_false_iff.1 (hrest c rfl)
    rw [List.takeWhile_cons_of_neg hc, List.dropWhile_cons_of_neg hc]
    exact ⟨List.append_nil cs, rfl⟩

/-- Every text starts with such a run. -/
theorem exists_span (p : Char → Bool) (text : List Char) :
    ∃ cs rest, text = cs ++ rest ∧ (∀ c ∈ cs, p c) ∧ ∀ c, rest.head? = some c → p c = false := by
  refine ⟨text.takeWhile p, text.dropWhile p, List.takeWhile_append_dropWhile.symm,
    List.all_eq_true.1 List.all_takeWhile, fun c hc => ?_⟩
  have hnot := List.head?_dropWhile_not p text
  rwa [hc] at hnot

/-! ### Texts of tokens -/

/-- The number that decimal digits denote, the first one of the greatest weight. -/
def numeral (ds : List Char) : Nat := Nat.ofDigits 10 (ds.map fun c => c.toNat - '0'.toNat).reverse

namespace Lexeme

/-- The sign of a number. -/
def sign : Bool → List Char
  | true => ['-']
  | false => []

/-- The texts of a number without its sign. -/
inductive Numeral : Bool → List Char → Token → Prop
  | unsigned {ds : List Char} {n : UInt64} (nonempty : ds ≠ []) (digits : ∀ c ∈ ds, Digit c)
      (value : n.toNat = numeral ds) : Numeral false ds (.unsigned n)
  | signed {ds : List Char} {n : Int64} (nonempty : ds ≠ []) (digits : ∀ c ∈ ds, Digit c)
      (value : n.toInt = -numeral ds) : Numeral true ds (.signed n)
  | float {negative : Bool} {whole fraction : List Char} {x : Binary64} (nonempty : whole ≠ [])
      (digits : ∀ c ∈ whole, Digit c) (fractionDigits : ∀ c ∈ fraction, Digit c)
      (value : x.Rounds negative (numeral (whole ++ fraction) / 10 ^ fraction.length)) :
      Numeral negative (whole ++ '.' :: fraction) (.float x)

/-- The texts of a token. -/
inductive Spells : List Char → Token → Prop
  | identifier {c : Char} {cs : List Char} (start : NameStart c) (parts : ∀ d ∈ cs, NamePart d) :
      Spells (c :: cs) (.identifier (String.ofList (c :: cs)))
  | number {negative : Bool} {body : List Char} {token : Token}
      (form : Numeral negative body token) : Spells (sign negative ++ body) token
  | punct (p : Punctuation) : Spells [p.toChar] (.punct p)

end Lexeme

/-- Whether a token goes on with a character that follows it directly. -/
def Token.Absorbs (token : Token) (c : Char) : Prop :=
  match token with
  | .identifier _ | .signed _ | .unsigned _ | .float _ => NamePart c
  | .punct p => p = .minus ∧ Digit c

/-! ### Reading numbers -/

namespace Lexeme

theorem decimal_eq_numeral (ds : List Char) : decimal ds = numeral ds := by
  rw [numeral, Nat.ofDigits_eq_foldr, List.foldr_reverse, List.foldl_map, decimal]
  simp only [Nat.cast_id, Nat.add_comm]

theorem integer?_eq (negative : Bool) (ds : List Char) :
    integer? negative ds =
      if negative then
        if numeral ds ≤ 2 ^ 63 then some (.signed (Int64.ofInt (-numeral ds))) else none
      else if numeral ds < 2 ^ 64 then some (.unsigned (UInt64.ofNat (numeral ds)))
      else none := by
  simp only [integer?, decimal_eq_numeral, Nat.one_shiftLeft]

/-- Digits alone are read as the integer of 64 bits that they denote. -/
theorem integer?_eq_some_iff {negative : Bool} {ds : List Char} {token : Token} (hne : ds ≠ [])
    (hdigits : ∀ c ∈ ds, Digit c) :
    integer? negative ds = some token ↔ Numeral negative ds token := by
  constructor
  · intro h
    rw [integer?_eq] at h
    cases negative with
    | true =>
      rw [if_pos rfl] at h
      split at h
      · rename_i hle
        obtain rfl := Option.some.inj h
        refine .signed hne hdigits (Int64.toInt_ofInt_of_le ?_ ?_)
        · omega
        · omega
      · simp at h
    | false =>
      rw [if_neg Bool.false_ne_true] at h
      split at h
      · rename_i hlt
        obtain rfl := Option.some.inj h
        exact .unsigned hne hdigits (UInt64.toNat_ofNat_of_lt hlt)
      · simp at h
  · intro h
    cases h with
    | @unsigned _ n _ _ hvalue =>
      rw [integer?_eq, ← hvalue, if_neg Bool.false_ne_true, if_pos n.toNat_lt,
        UInt64.ofNat_toNat]
    | @signed _ n _ _ hvalue =>
      have hle : numeral ds ≤ 2 ^ 63 := by
        have hlow := n.le_toInt
        omega
      rw [integer?_eq, if_pos rfl, if_pos hle, ← hvalue, Int64.ofInt_toInt]
    | float => exact absurd rfl (hdigits '.' (by simp)).ne_point

/-- The characters before the first point. -/
theorem span_point {whole rest : List Char} (hdigits : ∀ c ∈ whole, Digit c)
    (hrest : ∀ c, rest.head? = some c → c = '.') :
    (whole ++ rest).takeWhile (· != '.') = whole ∧ (whole ++ rest).dropWhile (· != '.') = rest := by
  refine span_append (fun c hc => bne_iff_ne.2 (hdigits c hc).ne_point) fun c hc => ?_
  rw [hrest c hc, bne_self_eq_false]

/-- Without a point a number is an integer. -/
theorem numeral?_of_digits {negative : Bool} {ds : List Char} (hdigits : ∀ c ∈ ds, Digit c) :
    numeral? negative ds = integer? negative ds := by
  obtain ⟨hwhole, hnone⟩ := @span_point ds [] hdigits (by simp)
  rw [List.append_nil] at hwhole hnone
  rw [numeral?, hwhole, hnone]

/-- With a point it is a decimal fraction, if there is no second one. -/
theorem numeral?_of_point {negative : Bool} {whole : List Char} (hdigits : ∀ c ∈ whole, Digit c)
    (fraction : List Char) : numeral? negative (whole ++ '.' :: fraction) =
      if '.' ∈ fraction then none
      else
        some (.float (.ofRatio negative (numeral (whole ++ fraction)) (10 ^ fraction.length))) := by
  obtain ⟨hwhole, hfraction⟩ := @span_point whole ('.' :: fraction) hdigits (by simp)
  rw [numeral?, hwhole, hfraction]
  simp only [List.contains_iff_mem, decimal_eq_numeral, Nat.pow_eq]

/-- A decimal fraction is read as the nearest binary one. -/
theorem ofRatio_numeral_rounds (negative : Bool) (ds fraction : List Char) :
    (Binary64.ofRatio negative (numeral ds) (10 ^ fraction.length)).Rounds negative
      (numeral ds / 10 ^ fraction.length) := by
  have hden : 0 < 10 ^ fraction.length := Nat.pow_pos (by decide)
  have hrounds := @Binary64.ofRatio_rounds (numeral ds) _ negative hden
  exact_mod_cast hrounds

/-- Every text of a number is read as it. -/
theorem Numeral.numeral?_eq_some {negative : Bool} {body : List Char} {token : Token}
    (h : Numeral negative body token) : numeral? negative body = some token := by
  cases h with
  | unsigned hne hdigits hvalue =>
    rw [numeral?_of_digits hdigits, integer?_eq_some_iff hne hdigits]
    exact .unsigned hne hdigits hvalue
  | signed hne hdigits hvalue =>
    rw [numeral?_of_digits hdigits, integer?_eq_some_iff hne hdigits]
    exact .signed hne hdigits hvalue
  | float hne hdigits hfraction hvalue =>
    have hpoint := fun hmem => (hfraction '.' hmem).ne_point rfl
    rw [numeral?_of_point hdigits, if_neg hpoint,
      hvalue.unique (ofRatio_numeral_rounds _ _ _)]

theorem isNumberPart_iff {c : Char} : isNumberPart c ↔ Digit c ∨ c = '.' := by
  simp [isNumberPart, isDigit_iff]

/-- Digits and points are digits up to the first point. -/
theorem exists_whole {cs : List Char} (hparts : ∀ c ∈ cs, isNumberPart c) :
    ∃ whole tail, cs = whole ++ tail ∧ (∀ c ∈ whole, Digit c) ∧
      (tail = [] ∨ ∃ fraction, tail = '.' :: fraction) := by
  obtain ⟨whole, tail, rfl, hwhole, hpoint⟩ := exists_span (· != '.') cs
  refine ⟨whole, tail, rfl, fun c hc => ?_, ?_⟩
  · exact (isNumberPart_iff.1 (hparts c (List.mem_append_left _ hc))).resolve_right
      (bne_iff_ne.1 (hwhole c hc))
  · cases tail with
    | nil => exact Or.inl rfl
    | cons c fraction =>
      obtain rfl : c = '.' := by simpa using hpoint c rfl
      exact Or.inr ⟨fraction, rfl⟩

/-- Only those, of the texts of digits and points that start with a digit. -/
theorem Numeral.of_numeral?_eq_some {negative : Bool} {c : Char} {cs : List Char} {token : Token}
    (hc : Digit c) (hparts : ∀ d ∈ cs, isNumberPart d)
    (h : numeral? negative (c :: cs) = some token) : Numeral negative (c :: cs) token := by
  obtain ⟨whole, tail, rfl, hwhole, htail⟩ := exists_whole hparts
  have hne : c :: whole ≠ [] := List.cons_ne_nil c whole
  have hdigits : ∀ d ∈ c :: whole, Digit d := List.forall_mem_cons.2 ⟨hc, hwhole⟩
  rw [← List.cons_append] at h ⊢
  rcases htail with rfl | ⟨fraction, rfl⟩
  · rw [List.append_nil] at h ⊢
    rwa [numeral?_of_digits hdigits, integer?_eq_some_iff hne hdigits] at h
  · rw [numeral?_of_point hdigits] at h
    split at h
    · simp at h
    · rename_i hnone
      obtain rfl := Option.some.inj h
      refine .float hne hdigits (fun d hd => ?_) (ofRatio_numeral_rounds _ _ _)
      have hpart := hparts d (List.mem_append_right _ (List.mem_cons_of_mem _ hd))
      refine (isNumberPart_iff.1 hpart).resolve_right ?_
      rintro rfl
      exact hnone hd

/-- A number is made of digits and points. -/
theorem Numeral.parts {negative : Bool} {body : List Char} {token : Token}
    (h : Numeral negative body token) : ∀ c ∈ body, isNumberPart c := by
  intro c hc
  rw [isNumberPart_iff]
  cases h with
  | unsigned _ hdigits _ => exact .inl (hdigits c hc)
  | signed _ hdigits _ => exact .inl (hdigits c hc)
  | float _ hdigits hfraction _ =>
    rcases List.mem_append.1 hc with hc | hc
    · exact .inl (hdigits c hc)
    rcases List.mem_cons.1 hc with hc | hc
    · exact .inr hc
    · exact .inl (hfraction c hc)

/-- It starts with a digit. -/
theorem Numeral.exists_cons {negative : Bool} {body : List Char} {token : Token}
    (h : Numeral negative body token) : ∃ c cs, body = c :: cs ∧ Digit c := by
  cases h with
  | unsigned hne hdigits _ | signed hne hdigits _ =>
    obtain ⟨c, cs, rfl⟩ := List.exists_cons_of_ne_nil hne
    exact ⟨c, cs, rfl, hdigits c List.mem_cons_self⟩
  | float hne hdigits _ _ =>
    obtain ⟨c, cs, rfl⟩ := List.exists_cons_of_ne_nil hne
    exact ⟨c, _, rfl, hdigits c List.mem_cons_self⟩

/-- A number is read up to its last character. -/
theorem Numeral.number_eq {negative : Bool} {body rest : List Char} {token : Token}
    (h : Numeral negative body token)
    (hrest : ∀ c, rest.head? = some c → ¬NamePart c ∧ c ≠ '.') :
    number negative (body ++ rest) = (body, some token) := by
  have hend : ∀ c, rest.head? = some c → isNumberPart c = false := fun c hc => by
    rw [← Bool.not_eq_true, isNumberPart_iff]
    exact not_or.2 ⟨fun hdigit => (hrest c hc).1 (.inr hdigit), (hrest c hc).2⟩
  obtain ⟨htake, hdrop⟩ := span_append h.parts hend
  have hname : rest.takeWhile isNamePart = [] :=
    (@span_append isNamePart [] rest (by simp) fun c hc =>
      isNamePart_eq_false_iff.2 (hrest c hc).1).1
  rw [number, htake, hdrop, hname, h.numeral?_eq_some, List.append_nil]
  rfl

/-- The number at the front of digits and points, a name and a rest. -/
theorem number_append_name {negative : Bool} {body name rest : List Char}
    (hbody : ∀ c ∈ body, isNumberPart c)
    (hbodyEnd : ∀ c, (name ++ rest).head? = some c → isNumberPart c = false)
    (hname : ∀ c ∈ name, isNamePart c)
    (hnameEnd : ∀ c, rest.head? = some c → isNamePart c = false) :
    number negative (body ++ (name ++ rest)) =
      (body ++ name, if name = [] then numeral? negative body else none) := by
  obtain ⟨htake, hdrop⟩ := span_append hbody hbodyEnd
  rw [number, htake, hdrop, (span_append hname hnameEnd).1]
  simp only [List.isEmpty_iff]

/-- What is read from a text that starts with a digit is a number, which no name follows. -/
theorem Numeral.of_number_eq {negative : Bool} {c : Char} {cs lexeme : List Char} {token : Token}
    (hc : Digit c) (h : number negative (c :: cs) = (lexeme, some token)) :
    Numeral negative lexeme token ∧
      ∃ rest, c :: cs = lexeme ++ rest ∧ ∀ d, rest.head? = some d → ¬NamePart d := by
  obtain ⟨body, rest, rfl, hbody, hrest⟩ := exists_span isNumberPart cs
  obtain ⟨name, rest, rfl, hname, hend⟩ := exists_span isNamePart rest
  have hparts : ∀ d ∈ c :: body, isNumberPart d :=
    List.forall_mem_cons.2 ⟨isNumberPart_iff.2 (.inl hc), hbody⟩
  rw [← List.cons_append, number_append_name hparts hrest hname hend, Prod.mk.injEq] at h
  obtain ⟨rfl, htoken⟩ := h
  split at htoken
  · rename_i hempty
    obtain rfl := hempty
    refine ⟨?_, rest, by simp, fun d hd => isNamePart_eq_false_iff.1 (hend d hd)⟩
    rw [List.append_nil]
    exact .of_numeral?_eq_some hc hbody htoken
  · simp at htoken

end Lexeme

/-! ### Where lexemes begin and end -/

theorem Punctuation.toChar_injective : Function.Injective Punctuation.toChar := by
  intro p q h
  have hp : ofChar? p.toChar = some p := ofChar?_eq_some_iff.2 rfl
  exact Option.some.inj (hp.symm.trans (ofChar?_eq_some_iff.2 h))

/-- No token goes on with a blank character. -/
theorem Token.not_absorbs_of_isBlank {token : Token} {c : Char} (h : Text.isBlank c) :
    ¬token.Absorbs c := by
  intro habsorbs
  have hpart : NamePart c := by
    cases token with
    | identifier | signed | unsigned | float => exact habsorbs
    | punct => exact .inr habsorbs.2
  exact absurd h (Bool.eq_false_iff.1 hpart.isBlank_eq_false)

namespace Lexeme

theorem Numeral.absorbs_iff {negative : Bool} {body : List Char} {token : Token}
    (h : Numeral negative body token) {c : Char} : token.Absorbs c ↔ NamePart c := by
  cases h <;> rfl

/-- A punctuation character starts neither a number nor a name. -/
theorem not_namePart_toChar (p : Punctuation) : ¬NamePart p.toChar := by
  cases p <;> decide

/-- A text of a token starts with a character that is neither blank nor a point. -/
theorem Spells.exists_cons {lexeme : List Char} {token : Token} (h : Spells lexeme token) :
    ∃ c cs, lexeme = c :: cs ∧ Text.isBlank c = false ∧ c ≠ '.' := by
  cases h with
  | @identifier c cs hstart _ =>
    refine ⟨c, cs, rfl, NamePart.isBlank_eq_false (.inl hstart), ?_⟩
    rintro rfl
    exact absurd hstart (by decide)
  | @number negative _ _ hform =>
    obtain ⟨d, ds, rfl, hdigit⟩ := hform.exists_cons
    cases negative with
    | false => exact ⟨d, ds, rfl, NamePart.isBlank_eq_false (.inr hdigit), hdigit.ne_point⟩
    | true => exact ⟨'-', d :: ds, rfl, by decide, by decide⟩
  | punct p => exact ⟨p.toChar, [], rfl, by cases p <;> decide, by cases p <;> decide⟩

/-! ### The lexeme at the front of a text -/

theorem first?_of_digit {c : Char} (h : Digit c) (cs : List Char) :
    first? c cs = some (number false (c :: cs)) := by
  rw [first?, if_pos (isDigit_iff.2 h)]

theorem first?_of_minus {d : Char} (h : Digit d) (ds : List Char) :
    first? '-' (d :: ds) =
      some ('-' :: (number true (d :: ds)).1, (number true (d :: ds)).2) := by
  rw [first?, if_neg (by decide), if_pos ⟨rfl, isDigit_iff.2 h⟩]

theorem first?_of_nameStart {c : Char} (h : NameStart c) (cs : List Char) :
    first? c cs = some ((c :: cs).takeWhile isNamePart,
      some (.identifier (String.ofList ((c :: cs).takeWhile isNamePart)))) := by
  rw [first?, if_neg (mt isDigit_iff.1 h.not_digit), if_neg fun hminus => h.ne_minus hminus.1,
    if_pos (isNameStart_iff.2 h)]

/-- The characters of a name. -/
theorem forall_isNamePart {c : Char} {cs : List Char} (hstart : NameStart c)
    (hparts : ∀ d ∈ cs, NamePart d) : ∀ d ∈ c :: cs, isNamePart d := by
  rintro d (_ | ⟨_, hd⟩)
  · exact isNamePart_iff.2 (.inl hstart)
  · exact isNamePart_iff.2 (hparts d hd)

theorem first?_of_other {c : Char} {cs : List Char} (hdigit : ¬Digit c) (hstart : ¬NameStart c)
    (hminus : c = '-' → ∀ d, cs.head? = some d → ¬Digit d) :
    first? c cs = (Punctuation.ofChar? c).map fun p => ([c], some (.punct p)) := by
  rw [first?, if_neg (mt isDigit_iff.1 hdigit), if_neg, if_neg (mt isNameStart_iff.1 hstart)]
  rintro ⟨hc, hhead⟩
  obtain ⟨d, hd, hdigit⟩ := (Option.any_eq_true ..).1 hhead
  exact hminus hc d hd (isDigit_iff.1 hdigit)

/-- **Every text of a token is split off**, unless it goes on with what follows. -/
theorem Spells.first?_eq_some {c : Char} {cs lexeme rest : List Char} {token : Token}
    (h : Spells lexeme token) (htext : lexeme ++ rest = c :: cs)
    (hrest : ∀ d, rest.head? = some d → ¬token.Absorbs d ∧ d ≠ '.') :
    first? c cs = some (lexeme, some token) := by
  cases h with
  | @identifier d ds hstart hparts =>
    have hend : ∀ d, rest.head? = some d → isNamePart d = false := fun d hd =>
      isNamePart_eq_false_iff.2 (hrest d hd).1
    have hname := (span_append (forall_isNamePart hstart hparts) hend).1
    change d :: (ds ++ rest) = c :: cs at htext
    obtain ⟨rfl, rfl⟩ := List.cons.inj htext
    rw [first?_of_nameStart hstart, ← List.cons_append, hname]
  | @number negative body _ hform =>
    have hend : ∀ d, rest.head? = some d → ¬NamePart d ∧ d ≠ '.' := fun d hd => by
      rw [← hform.absorbs_iff]
      exact hrest d hd
    have hnumber := hform.number_eq hend
    obtain ⟨d, ds, rfl, hdigit⟩ := hform.exists_cons
    cases negative with
    | false =>
      change d :: (ds ++ rest) = c :: cs at htext
      obtain ⟨rfl, rfl⟩ := List.cons.inj htext
      rw [first?_of_digit hdigit, ← List.cons_append, hnumber]
      rfl
    | true =>
      change '-' :: d :: (ds ++ rest) = c :: cs at htext
      obtain ⟨rfl, rfl⟩ := List.cons.inj htext
      rw [first?_of_minus hdigit, ← List.cons_append, hnumber]
      rfl
  | punct p =>
    change p.toChar :: rest = c :: cs at htext
    obtain ⟨rfl, rfl⟩ := List.cons.inj htext
    have hpart := not_namePart_toChar p
    have hminus : p.toChar = '-' → ∀ d, rest.head? = some d → ¬Digit d := by
      intro hp d hd hdigit
      obtain rfl : p = .minus := Punctuation.toChar_injective hp
      exact (hrest d hd).1 ⟨rfl, hdigit⟩
    rw [first?_of_other (fun hdigit => hpart (.inr hdigit)) (fun hstart => hpart (.inl hstart))
      hminus, Punctuation.ofChar?_eq_some_iff.2 rfl]
    rfl

/-- **What is split off is a text of the token**, which does not go on with what follows. -/
theorem spells_of_first? {c : Char} {cs lexeme : List Char} {token : Token}
    (h : first? c cs = some (lexeme, some token)) :
    Spells lexeme token ∧
      ∃ rest, c :: cs = lexeme ++ rest ∧ ∀ d, rest.head? = some d → ¬token.Absorbs d := by
  by_cases hdigit : Digit c
  · rw [first?_of_digit hdigit, Option.some.injEq] at h
    obtain ⟨hform, rest, hrest, hend⟩ := Numeral.of_number_eq hdigit h
    refine ⟨.number hform, rest, hrest, fun d hd => ?_⟩
    rw [hform.absorbs_iff]
    exact hend d hd
  by_cases hstart : NameStart c
  · obtain ⟨name, rest, rfl, hparts, hend⟩ := exists_span isNamePart cs
    have hname : ∀ d ∈ name, NamePart d := fun d hd => isNamePart_iff.1 (hparts d hd)
    rw [first?_of_nameStart hstart, ← List.cons_append,
      (span_append (forall_isNamePart hstart hname) hend).1, Option.some.injEq, Prod.mk.injEq,
      Option.some.injEq] at h
    obtain ⟨rfl, rfl⟩ := h
    exact ⟨.identifier hstart hname, rest, rfl, fun d hd => isNamePart_eq_false_iff.1 (hend d hd)⟩
  by_cases hminus : c = '-' ∧ ∃ d ds, cs = d :: ds ∧ Digit d
  · obtain ⟨rfl, d, ds, rfl, hdigit⟩ := hminus
    rw [first?_of_minus hdigit, Option.some.injEq, Prod.mk.injEq] at h
    obtain ⟨rfl, htoken⟩ := h
    have hnumber : number true (d :: ds) = ((number true (d :: ds)).1, some token) :=
      Prod.ext rfl htoken
    obtain ⟨hform, rest, hrest, hend⟩ := Numeral.of_number_eq hdigit hnumber
    refine ⟨.number hform, rest, congrArg (List.cons '-') hrest, fun d hd => ?_⟩
    rw [hform.absorbs_iff]
    exact hend d hd
  · have hsign : c = '-' → ∀ d, cs.head? = some d → ¬Digit d := by
      rintro rfl d hd hdigit
      obtain ⟨ds, rfl⟩ := List.head?_eq_some_iff.1 hd
      exact hminus ⟨rfl, d, ds, rfl, hdigit⟩
    rw [first?_of_other hdigit hstart hsign] at h
    obtain ⟨p, hp, hlexeme⟩ := Option.map_eq_some_iff.1 h
    obtain rfl := Punctuation.ofChar?_eq_some_iff.1 hp
    obtain ⟨rfl, htoken⟩ := Prod.mk.inj hlexeme
    obtain rfl := Option.some.inj htoken
    refine ⟨.punct p, cs, rfl, fun d hd habsorbs => ?_⟩
    obtain ⟨rfl, hnext⟩ := habsorbs
    exact hsign rfl d hd hnext

end Lexeme

end WindowVM
