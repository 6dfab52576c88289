/-
# Decimal fractions out of range

An integer that is out of range is an error.  A decimal fraction is not: from halfway between
the greatest finite value and `2^1024` on (`Lexeme.Oversized`), it is read as infinity
(`Tokenizer.next_of_meets`), and no other fraction is (`Tokenizer.meets_of_next`).

So fractions are checked for their range (`Tokenizer.RangeChecked`) in no more sources than
those in which none is out of range.
-/

import WindowVM.Proofs.Ending

namespace WindowVM

/-! ### Texts of infinity -/

/-- Zeros behind digits are factors of ten. -/
theorem numeral_append_zeros (ds : List Char) (n : Nat) :
    numeral (ds ++ List.replicate n '0') = 10 ^ n * numeral ds := by
  simp [numeral, Nat.ofDigits_append, Nat.ofDigits_replicate_zero]

namespace Lexeme

/-- A decimal fraction without its sign, and its value: digits, a point, and more digits. -/
inductive Decimal : List Char → ℚ → Prop
  | intro {whole fraction : List Char} (nonempty : whole ≠ []) (digits : ∀ c ∈ whole, Digit c)
      (fractionDigits : ∀ c ∈ fraction, Digit c) :
      Decimal (whole ++ '.' :: fraction) (numeral (whole ++ fraction) / 10 ^ fraction.length)

/-- A decimal fraction with a value that is not rounded to a finite one. -/
def Oversized (text : List Char) : Prop :=
  ∃ negative body q, text = sign negative ++ body ∧ Decimal body q ∧ 2 ^ 1024 - 2 ^ 970 ≤ q

/-- The texts of a fraction are the decimal fractions that are rounded to it. -/
theorem numeral_float_iff {negative : Bool} {body : List Char} {x : Binary64} :
    Numeral negative body (.float x) ↔ ∃ q, Decimal body q ∧ x.Rounds negative q := by
  constructor
  · intro h
    cases h with
    | float hne hdigits hfraction hvalue => exact ⟨_, .intro hne hdigits hfraction, hvalue⟩
  · rintro ⟨q, hdecimal, hrounds⟩
    cases hdecimal with
    | intro hne hdigits hfraction => exact .float hne hdigits hfraction hrounds

theorem Decimal.exists_rounds {body : List Char} {q : ℚ} (h : Decimal body q) (negative : Bool) :
    ∃ x : Binary64, x.Rounds negative q := by
  cases h with
  | @intro whole fraction => exact ⟨_, ofRatio_numeral_rounds negative (whole ++ fraction) fraction⟩

/-- A decimal fraction out of range is a text of infinity. -/
theorem Oversized.exists_spells {text : List Char} (h : Oversized text) :
    ∃ x : Binary64, Spells text (.float x) ∧ x.magnitude = Binary64.infinity := by
  obtain ⟨negative, body, q, rfl, hdecimal, hq⟩ := h
  obtain ⟨x, hrounds⟩ := hdecimal.exists_rounds negative
  exact ⟨x, .number (numeral_float_iff.2 ⟨q, hdecimal, hrounds⟩),
    hrounds.magnitude_eq_infinity_iff.2 hq⟩

/-- No other text is one. -/
theorem Spells.oversized {text : List Char} {x : Binary64} (h : Spells text (.float x))
    (hx : x.magnitude = Binary64.infinity) : Oversized text := by
  cases h with
  | @number negative body _ hform =>
    obtain ⟨q, hdecimal, hrounds⟩ := numeral_float_iff.1 hform
    exact ⟨negative, body, q, rfl, hdecimal, hrounds.magnitude_eq_infinity_iff.1 hx⟩

/-- A number is read past every point. -/
theorem ne_point_of_number {negative : Bool} {cs lexeme rest : List Char} {token : Token}
    (h : number negative cs = (lexeme, some token)) (hcs : cs = lexeme ++ rest) :
    ∀ c, rest.head? = some c → c ≠ '.' := by
  obtain ⟨body, back, hbody, hparts, hbodyEnd⟩ := exists_span isNumberPart cs
  obtain ⟨name, back, rfl, hname, hnameEnd⟩ := exists_span isNamePart back
  rw [hbody, number_append_name hparts hbodyEnd hname hnameEnd, Prod.mk.injEq] at h
  obtain ⟨rfl, htoken⟩ := h
  split at htoken
  · rename_i hempty
    rw [hempty, List.append_nil] at hcs
    rw [hempty, List.nil_append] at hbody hbodyEnd
    obtain rfl : back = rest := List.append_cancel_left (hbody.symm.trans hcs)
    rintro c hc rfl
    have hpoint := hbodyEnd '.' hc
    rw [isNumberPart_iff.2 (.inr rfl)] at hpoint
    cases hpoint
  · cases htoken

/-- So is a fraction, with or without a sign. -/
theorem ne_point_of_first? {c : Char} {cs lexeme rest : List Char} {x : Binary64}
    (h : first? c cs = some (lexeme, some (.float x))) (htext : c :: cs = lexeme ++ rest) :
    ∀ d, rest.head? = some d → d ≠ '.' := by
  obtain ⟨hspells, -⟩ := spells_of_first? h
  cases hspells with
  | @number negative body _ hform =>
    obtain ⟨d, ds, rfl, hdigit⟩ := hform.exists_cons
    cases negative with
    | false =>
      change c :: cs = d :: (ds ++ rest) at htext
      obtain ⟨rfl, rfl⟩ := List.cons.inj htext
      rw [first?_of_digit hdigit, Option.some.injEq] at h
      exact ne_point_of_number h rfl
    | true =>
      change c :: cs = '-' :: d :: (ds ++ rest) at htext
      obtain ⟨rfl, rfl⟩ := List.cons.inj htext
      rw [first?_of_minus hdigit, Option.some.injEq, Prod.mk.injEq] at h
      exact ne_point_of_number (Prod.ext (List.cons.inj h.1).2 h.2) rfl

end Lexeme

/-! ### Meeting one of them -/

namespace Tokenizer

variable {t : Tokenizer} {lead text rest : List Char} {x : Binary64} {span : Span}

/-- A decimal fraction out of range stands next, behind blank characters, and neither a name nor
a point goes on with it. -/
structure MeetsOversized (t : Tokenizer) (lead text rest : List Char) : Prop where
  running : t.failed = false
  rest_eq : t.rest = lead ++ (text ++ rest)
  blank : ∀ c ∈ lead, Text.isBlank c
  oversized : Lexeme.Oversized text
  ends : ∀ c, rest.head? = some c → ¬NamePart c ∧ c ≠ '.'

/-- The bytes of a text behind blank characters. -/
def spanBehind (t : Tokenizer) (lead text : List Char) : Span :=
  ⟨t.position + byteLength lead, t.position + byteLength lead + byteLength text⟩

/-- **A fraction out of range is read as infinity**, with its bytes. -/
theorem MeetsOversized.next_eq (h : MeetsOversized t lead text rest) :
    ∃ x : Binary64, x.magnitude = Binary64.infinity ∧
      t.next.1 = some (.ok ⟨.float x, t.spanBehind lead text⟩) := by
  obtain ⟨x, hspells, hx⟩ := h.oversized.exists_spells
  obtain ⟨u, hnext, -⟩ := next_of_spells h.running h.rest_eq h.blank hspells h.ends
  exact ⟨x, hx, by rw [hnext, spanBehind]⟩

/-- Nothing else is. -/
theorem meets_of_next (h : t.next.1 = some (.ok ⟨.float x, span⟩))
    (hx : x.magnitude = Binary64.infinity) :
    ∃ lead text rest, MeetsOversized t lead text rest ∧ span = t.spanBehind lead text := by
  obtain ⟨hfailed, lead, c, cs, hrest, hlead, -, hread⟩ := read_of_next (Prod.ext h rfl)
  obtain ⟨lexeme, hfirst, hspan, -⟩ := first?_of_read hread
  obtain ⟨hspells, rest, htext, hafter⟩ := Lexeme.spells_of_first? hfirst
  have hpoint := Lexeme.ne_point_of_first? hfirst htext
  rw [htext] at hrest
  rw [position_pass (rest_pass hrest), position_pass hrest] at hspan
  exact ⟨lead, lexeme, rest, ⟨hfailed, hrest, hlead, hspells.oversized hx,
    fun d hd => ⟨hafter d hd, hpoint d hd⟩⟩, hspan⟩

/-! ### What checking the range would come to -/

/-- No fraction is read as infinity, and every one that is out of range is an error with its
bytes. -/
structure RangeChecked (source : String) : Prop where
  finite : ∀ x span, .ok ⟨.float x, span⟩ ∈ items source → x.magnitude ≠ Binary64.infinity
  reported : ∀ k lead text rest, MeetsOversized ((ofString source).calls k).2 lead text rest →
    ((ofString source).calls k).2.next.1 =
      some (.error (.badNumber (((ofString source).calls k).2.spanBehind lead text)))

/-- Whatever is returned as infinity was met as a fraction out of range. -/
theorem exists_meets_of_mem {source : String} (h : .ok ⟨.float x, span⟩ ∈ items source)
    (hx : x.magnitude = Binary64.infinity) :
    ∃ k lead text rest, MeetsOversized ((ofString source).calls k).2 lead text rest := by
  obtain ⟨k, hk⟩ := List.mem_iff_getElem?.1 h
  rw [items, ← next_calls] at hk
  obtain ⟨lead, text, rest, hmeets, -⟩ := meets_of_next hk hx
  exact ⟨k, lead, text, rest, hmeets⟩

/-- **No fraction out of range is reported**: each is returned as infinity, so that the range
is checked in those sources only that have none. -/
theorem rangeChecked_iff (source : String) :
    (RangeChecked source ↔
      ∀ k lead text rest, ¬MeetsOversized ((ofString source).calls k).2 lead text rest) ∧
    ∀ k lead text rest, MeetsOversized ((ofString source).calls k).2 lead text rest →
      ∃ x : Binary64, x.magnitude = Binary64.infinity ∧
        ((ofString source).calls k).2.next.1 =
          some (.ok ⟨.float x, ((ofString source).calls k).2.spanBehind lead text⟩) := by
  refine ⟨⟨fun hchecked k lead text rest hmeets => ?_, fun hnone => ⟨?_, ?_⟩⟩,
    fun k lead text rest hmeets => hmeets.next_eq⟩
  · obtain ⟨x, -, hnext⟩ := hmeets.next_eq
    rw [hchecked.reported k lead text rest hmeets] at hnext
    simp at hnext
  · intro x span hmem hx
    obtain ⟨k, lead, text, rest, hmeets⟩ := exists_meets_of_mem hmem hx
    exact hnone k lead text rest hmeets
  · exact fun k lead text rest hmeets => absurd hmeets (hnone k lead text rest)

/-- A source that is a fraction out of range is not checked. -/
theorem not_rangeChecked_of_oversized (h : Lexeme.Oversized text) :
    ¬RangeChecked (String.ofList text) := by
  intro hchecked
  have hmeets : MeetsOversized ((ofString (String.ofList text)).calls 0).2 [] text [] :=
    ⟨rfl, by simp [calls, ofString], by simp, h, by simp⟩
  obtain ⟨x, -, hnext⟩ := hmeets.next_eq
  rw [hchecked.reported 0 _ _ _ hmeets] at hnext
  simp at hnext

/-- Two and 308 zeros are such a fraction, with a point behind. -/
theorem not_rangeChecked_two_times_ten_pow :
    ¬RangeChecked (String.ofList (('2' :: List.replicate 308 '0') ++ ['.'])) := by
  refine not_rangeChecked_of_oversized ⟨false, _, _, rfl, .intro (List.cons_ne_nil _ _) ?_ ?_, ?_⟩
  · rw [List.forall_mem_cons]
    refine ⟨by decide, fun c hc => ?_⟩
    rw [List.eq_of_mem_replicate hc]
    decide
  · simp
  · have htwo : numeral ['2'] = 2 := rfl
    have hvalue : numeral ('2' :: List.replicate 308 '0' ++ []) = 10 ^ 308 * 2 := by
      rw [List.append_nil, ← List.singleton_append, numeral_append_zeros, htwo]
    rw [hvalue, List.length_nil, pow_zero, div_one, Nat.cast_mul, Nat.cast_pow]
    calc (2 : ℚ) ^ 1024 - 2 ^ 970 ≤ 2 ^ 1024 := sub_le_self _ (by positivity)
      _ = ((2 : ℚ) ^ 93) ^ 11 * 2 := by rw [← pow_mul, ← pow_succ]
      _ ≤ ((10 : ℚ) ^ 28) ^ 11 * 2 := by gcongr; norm_num
      _ = (10 : ℚ) ^ 308 * 2 := by rw [← pow_mul]

end Tokenizer
end WindowVM
