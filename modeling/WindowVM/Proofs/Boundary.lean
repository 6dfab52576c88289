/-
# Blank characters part a source

What is read never depends on what stands behind a blank character: a lexeme ends before it
(`Lexeme.first?_append_of_blank`), so a tokenizer returns the same items from a text that
goes on with a blank character as from one that ends there, up to where the shorter text is
drained (`Follows.drain`).  Behind the blank characters the longer one goes on as a new
tokenizer would, only that its offsets start later.

`Follows` relates the two tokenizers of such a pair; the case in which nothing more follows
is a tokenizer that stands further on in its source.
-/

import WindowVM.Proofs.Ending

namespace WindowVM

/-! ### Lexemes before a blank character -/

/-- More text behind changes nothing about a run of characters that it does not go on with. -/
theorem span_append_of_end {p : Char → Bool} {cs back : List Char}
    (hback : ∀ c, back.head? = some c → p c = false) :
    (cs ++ back).takeWhile p = cs.takeWhile p ∧
      (cs ++ back).dropWhile p = cs.dropWhile p ++ back := by
  obtain ⟨run, rest, rfl, hrun, hrest⟩ := exists_span p cs
  have hend : ∀ c, (rest ++ back).head? = some c → p c = false := by
    intro c hc
    cases rest with
    | nil => exact hback c hc
    | cons d rest => exact hrest c hc
  obtain ⟨htake, hdrop⟩ := span_append hrun hend
  obtain ⟨htake', hdrop'⟩ := span_append hrun hrest
  rw [List.append_assoc, htake, hdrop, htake', hdrop']
  exact ⟨rfl, rfl⟩

/-- Whether a text is empty or starts with a blank character. -/
def StartsBlank (cs : List Char) : Prop := ∀ c, cs.head? = some c → Text.isBlank c

theorem StartsBlank.of_append {blanks back : List Char} (hne : blanks ≠ [])
    (hblank : ∀ c ∈ blanks, Text.isBlank c) : StartsBlank (blanks ++ back) := by
  obtain ⟨d, ds, rfl⟩ := List.exists_cons_of_ne_nil hne
  intro c hc
  obtain rfl := Option.some.inj hc
  exact hblank d List.mem_cons_self

/-- It does not go on with a run of characters that are not blank. -/
theorem StartsBlank.head?_eq_false {p : Char → Bool} {back : List Char} (h : StartsBlank back)
    (hp : ∀ c, p c → Text.isBlank c = false) : ∀ c, back.head? = some c → p c = false := by
  intro c hc
  rw [← Bool.not_eq_true]
  intro hpc
  have hblank := h c hc
  rw [hp c hpc] at hblank
  cases hblank

namespace Lexeme

variable {back : List Char}

theorem isBlank_of_isNamePart {c : Char} (h : isNamePart c) : Text.isBlank c = false :=
  (isNamePart_iff.1 h).isBlank_eq_false

theorem isBlank_of_isNumberPart {c : Char} (h : isNumberPart c) : Text.isBlank c = false := by
  rcases isNumberPart_iff.1 h with hdigit | rfl
  · exact NamePart.isBlank_eq_false (.inr hdigit)
  · decide

theorem number_append_of_blank (hback : StartsBlank back) (negative : Bool) (cs : List Char) :
    number negative (cs ++ back) = number negative cs := by
  obtain ⟨hbody, hrest⟩ :=
    @span_append_of_end _ cs back (hback.head?_eq_false fun _ => isBlank_of_isNumberPart)
  obtain ⟨hname, -⟩ := @span_append_of_end _ (cs.dropWhile isNumberPart) back
    (hback.head?_eq_false fun _ => isBlank_of_isNamePart)
  rw [number, number, hbody, hrest, hname]

/-- **The lexeme at the front of a text ends before a blank character.** -/
theorem first?_append_of_blank (hback : StartsBlank back) (c : Char) (cs : List Char) :
    first? c (cs ++ back) = first? c cs := by
  have hhead : (cs ++ back).head?.any Char.isDigit = cs.head?.any Char.isDigit := by
    cases cs with
    | cons d ds => rfl
    | nil =>
      cases back with
      | nil => rfl
      | cons d ds =>
        show d.isDigit = false
        refine hback.head?_eq_false (fun e he => ?_) d rfl
        exact NamePart.isBlank_eq_false (.inr (isDigit_iff.1 he))
  obtain ⟨hname, -⟩ := @span_append_of_end _ (c :: cs) back
    (hback.head?_eq_false fun _ => isBlank_of_isNamePart)
  simp only [first?, hhead, ← List.cons_append, number_append_of_blank hback, hname]

end Lexeme

/-! ### Items further on -/

/-- A range `n` bytes further on. -/
def Span.shift (n : Nat) (s : Span) : Span := ⟨n + s.start, n + s.stop⟩

def SpannedToken.shift (n : Nat) (x : SpannedToken) : SpannedToken := ⟨x.token, x.span.shift n⟩

def TokenError.shift (n : Nat) : TokenError → TokenError
  | badNumber span => badNumber (span.shift n)
  | unknownCharacter c offset => unknownCharacter c (n + offset)

namespace Tokenizer

/-- An item read `n` bytes further on. -/
def shift (n : Nat) : Item → Item
  | .ok x => .ok (x.shift n)
  | .error e => .error (e.shift n)

@[simp] theorem shift_zero (item : Item) : shift 0 item = item := by
  rcases item with (span | ⟨c, offset⟩) | x <;>
    simp [shift, TokenError.shift, SpannedToken.shift, Span.shift]

theorem map_shift_zero (xs : List Item) : xs.map (shift 0) = xs := by
  rw [funext shift_zero, List.map_id']

/-- Blank characters that were passed make no difference to the items. -/
theorem drain_pass_of_blank {t : Tokenizer} {lead rest : List Char} (hfailed : t.failed = false)
    (hrest : t.rest = lead ++ rest) (hlead : ∀ c ∈ lead, Text.isBlank c) :
    (t.pass lead.length).drain = t.drain := by
  obtain ⟨more, rest, rfl, hmore, hend⟩ := exists_span Text.isBlank rest
  have hpassed : (t.pass lead.length).failed = false := hfailed
  have hblank : ∀ c ∈ lead ++ more, Text.isBlank c := List.forall_mem_append.2 ⟨hlead, hmore⟩
  have hskip := skipBlanks_eq (rest_pass hrest) hmore hend
  rw [← List.append_assoc] at hrest
  rw [← drain_skipBlanks hfailed, ← drain_skipBlanks hpassed, hskip,
    skipBlanks_eq hrest hblank hend, pass_pass, List.length_append]

/-! ### Tokenizers with the same text to read -/

/-- The second tokenizer has what is left of the first to read, `n` bytes further on, and
then the text `back`. -/
structure Follows (n : Nat) (back : List Char) (t u : Tokenizer) : Prop where
  rest_eq : u.rest = t.rest ++ back
  failed_eq : u.failed = t.failed
  position_eq : u.position = n + t.position

namespace Follows

variable {n k : Nat} {back cs : List Char} {c : Char} {t t' u : Tokenizer} {item : Item}

theorem pass (h : Follows n back t u) (hk : k ≤ t.rest.length) :
    Follows n back (t.pass k) (u.pass k) := by
  refine ⟨?_, h.failed_eq, ?_⟩
  · show u.rest.drop k = t.rest.drop k ++ back
    rw [h.rest_eq, List.drop_append_of_le_length hk]
  · show u.position + byteLength (u.rest.take k) = n + (t.position + byteLength (t.rest.take k))
    rw [h.rest_eq, List.take_append_of_le_length hk, h.position_eq, Nat.add_assoc]

theorem fail (h : Follows n back t u) :
    Follows n back { t with failed := true } { u with failed := true } :=
  ⟨h.rest_eq, rfl, h.position_eq⟩

/-- Both read the same item in front. -/
theorem read (h : Follows n back t u) (hback : StartsBlank back) (hrest : t.rest = c :: cs)
    (hread : t.read c cs = (item, t')) :
    ∃ u', u.read c (cs ++ back) = (shift n item, u') ∧ Follows n back t' u' := by
  rw [Tokenizer.read] at hread ⊢
  rw [Lexeme.first?_append_of_blank hback]
  split at hread
  · rename_i hnone
    obtain ⟨rfl, rfl⟩ := Prod.mk.inj hread
    have hitem : (.error (.unknownCharacter c u.position) : Item) =
        shift n (.error (.unknownCharacter c t.position)) := by
      rw [h.position_eq]
      rfl
    exact ⟨_, Prod.ext hitem rfl, h.fail⟩
  · rename_i lexeme token hfirst
    have hlength : lexeme.length ≤ t.rest.length := by
      obtain ⟨rest, htext⟩ := Lexeme.first?_append hfirst
      rw [hrest, ← htext, List.length_append]
      exact Nat.le_add_right ..
    have hpass := h.pass hlength
    have hspan : (⟨u.position, (u.pass lexeme.length).position⟩ : Span) =
        Span.shift n ⟨t.position, (t.pass lexeme.length).position⟩ := by
      rw [h.position_eq, hpass.position_eq]
      rfl
    cases token with
    | some token =>
      obtain ⟨rfl, rfl⟩ := Prod.mk.inj hread
      have hitem := congrArg (fun span => (.ok ⟨token, span⟩ : Item)) hspan
      exact ⟨_, Prod.ext hitem rfl, hpass⟩
    | none =>
      obtain ⟨rfl, rfl⟩ := Prod.mk.inj hread
      have hitem := congrArg (fun span => (.error (.badNumber span) : Item)) hspan
      exact ⟨_, Prod.ext hitem rfl, hpass.fail⟩

/-- Both return the same next item. -/
theorem next (h : Follows n back t u) (hback : StartsBlank back)
    (hnext : t.next = (some item, t')) :
    ∃ u', u.next = (some (shift n item), u') ∧ Follows n back t' u' := by
  obtain ⟨hfailed, lead, c, cs, hrest, hlead, hc, hread⟩ := read_of_next hnext
  have hlength : lead.length ≤ t.rest.length := by
    rw [hrest, List.length_append]
    exact Nat.le_add_right ..
  obtain ⟨u', hread', hfollows⟩ := (h.pass hlength).read hback (rest_pass hrest) hread
  refine ⟨u', ?_, hfollows⟩
  have hrest' : u.rest = lead ++ c :: (cs ++ back) := by
    rw [h.rest_eq, hrest, List.append_assoc, List.cons_append]
  exact next_of_append (h.failed_eq.trans hfailed) hrest' hlead hc hread'

/-- Where the first has no next item, the second goes on with the text behind. -/
theorem of_next_none (h : Follows n back t u) (hnext : t.next = (none, t')) :
    ∃ u', Follows n back t' u' ∧ u'.drain.1 = u.drain.1 := by
  by_cases hfailed : t.failed = true
  · rw [next_of_failed hfailed, Prod.mk.injEq] at hnext
    rw [← hnext.2]
    exact ⟨u, h, rfl⟩
  · rw [Bool.not_eq_true] at hfailed
    have hblank := blank_of_next hfailed hnext
    rw [next_of_blank hfailed hblank, Prod.mk.injEq] at hnext
    rw [← hnext.2]
    refine ⟨_, h.pass le_rfl, ?_⟩
    rw [drain_pass_of_blank (h.failed_eq.trans hfailed) h.rest_eq hblank]

/-- **Both have the same items** until the first is drained, and the second then goes on. -/
theorem drain (h : Follows n back t u) (hback : StartsBlank back) :
    ∃ u', Follows n back t.drain.2 u' ∧
      u.drain.1 = t.drain.1.map (shift n) ++ u'.drain.1 := by
  fun_induction Tokenizer.drain t generalizing u with
  | case1 t t' hnext =>
    obtain ⟨u', hfollows, hdrain⟩ := h.of_next_none hnext
    exact ⟨u', hfollows, hdrain.symm⟩
  | case2 t item t' hnext items v hdrain ih =>
    obtain ⟨u', hnext', hfollows⟩ := h.next hback hnext
    obtain ⟨v', hv', hitems⟩ := ih hfollows
    rw [hdrain] at hv' hitems
    refine ⟨v', hv', ?_⟩
    rw [drain_of_some hnext', hitems]
    rfl

/-- Further on in a source, what is left is read as a source of its own. -/
theorem drain_nil (h : Follows n [] t u) : u.drain.1 = t.drain.1.map (shift n) := by
  obtain ⟨u', hfollows, hitems⟩ := h.drain (by simp [StartsBlank])
  have hend : u'.drain.1 = [] := by
    by_cases hfailed : t.drain.2.failed = true
    · rw [drain_of_failed (hfollows.failed_eq.trans hfailed)]
    · rw [Bool.not_eq_true] at hfailed
      have hrest : u'.rest = [] := by
        rw [hfollows.rest_eq, rest_drain hfailed, List.append_nil]
      rw [drain_of_none (next_of_blank (hfollows.failed_eq.trans hfailed) (by simp [hrest]))]
  rw [hitems, hend, List.append_nil]

end Follows

/-! ### Two texts with blank characters between them -/

/-- A text is read as if it ended before a blank character, and then the rest of it is. -/
theorem exists_follows_items (a b : String) {w : String} (hne : w ≠ "")
    (hblank : ∀ c ∈ w.toList, Text.isBlank c) :
    ∃ v, Follows 0 (w.toList ++ b.toList) (ofString a).drain.2 v ∧
      items (a ++ w ++ b) = items a ++ v.drain.1 := by
  have htext : (a ++ w ++ b).toList = a.toList ++ (w.toList ++ b.toList) := by
    rw [String.toList_append, String.toList_append, List.append_assoc]
  have hfollows : Follows 0 (w.toList ++ b.toList) (ofString a) (ofString (a ++ w ++ b)) :=
    ⟨htext, rfl, rfl⟩
  have hstarts := @StartsBlank.of_append _ b.toList (mt String.toList_eq_nil_iff.1 hne) hblank
  obtain ⟨v, hv, hitems⟩ := hfollows.drain hstarts
  rw [map_shift_zero] at hitems
  exact ⟨v, hv, hitems⟩

/-- Behind the blank characters the rest is read as a source of its own is from its start. -/
theorem Follows.drain_of_blank {a w b : String} {v : Tokenizer}
    (h : Follows 0 (w.toList ++ b.toList) (ofString a).drain.2 v)
    (hfailed : (ofString a).drain.2.failed = false) (hblank : ∀ c ∈ w.toList, Text.isBlank c) :
    v.drain.1 = (items b).map (shift (a ++ w).utf8ByteSize) := by
  have hvfailed : v.failed = false := h.failed_eq.trans hfailed
  have hrest : v.rest = w.toList ++ b.toList := by
    rw [h.rest_eq, rest_drain hfailed, List.nil_append]
  have hposition : v.position = byteLength a.toList := by
    rw [h.position_eq, position_drain hfailed, Nat.zero_add]
    rfl
  have hbehind : Follows (a ++ w).utf8ByteSize [] (ofString b) (v.pass w.toList.length) := by
    refine ⟨?_, hvfailed, ?_⟩
    · rw [rest_pass hrest, List.append_nil]
      rfl
    · rw [position_pass hrest, hposition, utf8ByteSize_eq_byteLength, String.toList_append,
        byteLength_append]
      rfl
  rw [← drain_pass_of_blank hvfailed hrest hblank, hbehind.drain_nil, items]

/-- **Blank characters part a source.**  What stands before them is read as if it stood alone,
and unless there was an error, so is what stands behind, with its offsets counted on. -/
theorem items_append_of_blank (a w b : String) (hne : w ≠ "")
    (hblank : ∀ c ∈ w.toList, Text.isBlank c) :
    ((∀ e, Except.error e ∉ items a) →
      items (a ++ w ++ b) = items a ++ (items b).map (shift (a ++ w).utf8ByteSize)) ∧
    ∀ e, (items a).getLast? = some (.error e) → items (a ++ w ++ b) = items a := by
  obtain ⟨v, hv, hitems⟩ := exists_follows_items a b hne hblank
  constructor
  · intro hnone
    have hfailed : (ofString a).drain.2.failed = false := by
      rw [← Bool.not_eq_true, failed_drain_iff rfl]
      rintro ⟨e, he⟩
      exact hnone e he
    rw [hitems, hv.drain_of_blank hfailed hblank]
  · intro e he
    have hfailed : (ofString a).drain.2.failed = true :=
      (failed_drain_iff rfl).2 ⟨e, List.mem_of_getLast? he⟩
    rw [hitems, drain_of_failed (hv.failed_eq.trans hfailed), List.append_nil]

/-- A minus sign is none of the number behind a blank character, and an error in front leaves
nothing to read behind it. -/
theorem items_append_of_blank_around_minus :
    (items ("x-" ++ "\u2003 " ++ "7 é") = items "x-" ++ (items "7 é").map (shift 6) ∧
      items "7 é" = [.ok ⟨.unsigned 7, ⟨0, 1⟩⟩, .error (.unknownCharacter 'é' 2)]) ∧
    ((items "3..").getLast? = some (.error (.badNumber ⟨0, 3⟩)) ∧
      items ("3.." ++ "\u2003 " ++ "7 é") = items "3..") := by
  have hblank : ∀ c ∈ "\u2003 ".toList, Text.isBlank c := by
    simp [Text.isBlank, Text.inRanges, Text.blankRanges]
  have hnone : ∀ e, Except.error e ∉ items "x-" := by
    have hitems : items "x-" = [.ok ⟨.identifier "x", ⟨0, 1⟩⟩, .ok ⟨.punct .minus, ⟨1, 2⟩⟩] := by
      decide +kernel
    simp [hitems]
  have herror : (items "3..").getLast? = some (.error (.badNumber ⟨0, 3⟩)) := by
    decide +kernel
  refine ⟨⟨?_, by decide +kernel⟩, herror, ?_⟩
  · exact (items_append_of_blank "x-" "\u2003 " "7 é" (by decide) hblank).1 hnone
  · exact (items_append_of_blank "3.." "\u2003 " "7 é" (by decide) hblank).2 _ herror

end Tokenizer
end WindowVM
