/-
# The tokenizer on bytes

A `Cursor` knows its source only through slices between offsets of bytes.  It returns the
items that a `Tokenizer` does (`Cursor.calls_eq`), because at each place that it comes to
what is in front of it is what is left of the characters (`Cursor.Tracks.slice?_rest`): no
slice is missing, and no offset exceeds 64 bits.

Each function of the cursor has one equation that says where it leads, in terms of the
tokenizer on the same source: `scan_eq` for a run of characters, then names, numbers, one
item and one call.  `Cursor.Visited` are the places between the calls and within them.
-/

import WindowVM.Proofs.Ending

namespace WindowVM

/-! ### Numbers by their points -/

namespace Lexeme

/-- Two points are no number. -/
theorem numeral?_eq_none_of_count {negative : Bool} {body : List Char}
    (hparts : ∀ c ∈ body, isNumberPart c) (hcount : 1 < body.count '.') :
    numeral? negative body = none := by
  obtain ⟨whole, tail, rfl, hwhole, htail⟩ := exists_whole hparts
  have hnone : whole.count '.' = 0 := List.count_eq_zero.2 fun h => (hwhole _ h).ne_point rfl
  rw [List.count_append, hnone, Nat.zero_add] at hcount
  rcases htail with rfl | ⟨fraction, rfl⟩
  · simp at hcount
  · rw [List.count_cons_self] at hcount
    rw [numeral?_of_point hwhole, if_pos (List.count_pos_iff.1 (by omega))]

end Lexeme

namespace Cursor

variable {c : Cursor} {t : Tokenizer} {ch : Char} {cs back : List Char}

theorem cappedSum_eq {a b : Nat} (h : a + b < 1 <<< 64) : cappedSum a b = a + b :=
  Nat.min_eq_left (by omega)

theorem one_lt_cappedSum {n : Nat} : 1 < cappedSum 0 n ↔ 1 < n := by
  unfold cappedSum
  omega

/-- The points among characters are counted, up to 64 bits. -/
theorem foldl_points (cs : List Char) {n : Nat} (h : n < 1 <<< 64) :
    cs.foldl (fun n ch => if ch = '.' then cappedSum n 1 else n) n =
      cappedSum n (cs.count '.') := by
  induction cs generalizing n with
  | nil => exact (@cappedSum_eq n 0 h).symm
  | cons c cs ih =>
    rw [List.foldl_cons, List.count_cons]
    by_cases hpoint : c = '.'
    · rw [if_pos hpoint, if_pos (beq_iff_eq.2 hpoint), ih (by unfold cappedSum; omega)]
      unfold cappedSum
      omega
    · rw [if_neg hpoint, if_neg (by simpa using hpoint), ih h, Nat.add_zero]

/-- Whether there are characters. -/
theorem foldl_true (cs : List Char) (b : Bool) :
    cs.foldl (fun _ _ => true) b = (b || !cs.isEmpty) := by
  induction cs generalizing b with
  | nil => simp
  | cons c cs ih => simp [ih]

theorem rest_pass_one (h : t.rest = ch :: cs) : (t.pass 1).rest = cs :=
  Tokenizer.rest_pass (show t.rest = [ch] ++ cs from h)

theorem position_pass_one (h : t.rest = ch :: cs) :
    (t.pass 1).position = t.position + ch.utf8Size :=
  Tokenizer.position_pass (show t.rest = [ch] ++ cs from h)

@[simp] theorem moveTo_position (c : Cursor) (n : Nat) : (c.moveTo n).position = n := rfl

@[simp] theorem moveTo_moveTo (c : Cursor) (m n : Nat) : (c.moveTo m).moveTo n = c.moveTo n := rfl

/-! ### Places -/

/-- A cursor that stands where a tokenizer does. -/
structure Tracks (c : Cursor) (t : Tokenizer) : Prop where
  source_eq : t.source = c.source.toList
  position_eq : c.position = t.position
  failed_eq : c.failed = t.failed

namespace Tracks

theorem ofString (source : String) (h : source.utf8ByteSize < 1 <<< 64) :
    Tracks (ofString source h) (.ofString source) :=
  ⟨rfl, rfl, rfl⟩

/-- The text in front of the cursor is a slice, and it is what is left of the characters. -/
theorem slice?_rest (h : Tracks c t) :
    slice? c.source c.position c.source.utf8ByteSize = some (String.ofList t.rest) := by
  rw [h.position_eq]
  exact Tokenizer.slice?_rest h.source_eq

theorem peek_eq (h : Tracks c t) : c.peek = t.rest.head? := by
  rw [peek, rest, h.slice?_rest, Option.getD_some, String.toList_ofList]

theorem exists_rest_of_peek (h : Tracks c t) (hpeek : c.peek = some ch) :
    ∃ cs, t.rest = ch :: cs := by
  rw [h.peek_eq] at hpeek
  exact List.head?_eq_some_iff.1 hpeek

theorem peekSecond_eq (h : Tracks c t) : c.peekSecond = t.rest[1]? := by
  rw [peekSecond, rest, h.slice?_rest, Option.getD_some, String.toList_ofList]

theorem moveTo_eq (h : Tracks c t) : c.moveTo t.position = c := by
  rw [← h.position_eq]
  rfl

theorem pass (h : Tracks c t) (n : Nat) : Tracks (c.moveTo (t.pass n).position) (t.pass n) :=
  ⟨(t.source_pass n).trans h.source_eq, rfl, h.failed_eq⟩

/-- What a cursor passes is a slice as well. -/
theorem slice?_pass (h : Tracks c t) (hrest : t.rest = cs ++ back) :
    slice? c.source t.position (t.pass cs.length).position = some (String.ofList cs) := by
  have hsource : c.source.toList = t.passed.reverse ++ (cs ++ back) := by
    rw [← h.source_eq, Tokenizer.source, hrest]
  exact slice?_of_append hsource t.position_eq_reverse (Tokenizer.position_pass hrest)

theorem since_eq (h : Tracks c t) (hrest : t.rest = cs ++ back) :
    (c.moveTo (t.pass cs.length).position).since t.position = String.ofList cs := by
  have hslice := h.slice?_pass hrest
  rw [since, moveTo_position]
  show (slice? c.source t.position (t.pass cs.length).position).getD "" = _
  rw [hslice, Option.getD_some]

/-- No offset exceeds 64 bits, because none exceeds the source. -/
theorem position_lt (h : Tracks c t) : t.position < 1 <<< 64 :=
  Nat.lt_of_le_of_lt (Tokenizer.position_le_utf8ByteSize h.source_eq) c.size_lt

theorem bump_eq (h : Tracks c t) (hrest : t.rest = ch :: cs) :
    c.bump ch = c.moveTo (t.pass 1).position := by
  have hposition : (t.pass 1).position = c.position + ch.utf8Size := by
    rw [position_pass_one hrest, h.position_eq]
  rw [bump, hposition, cappedSum_eq (hposition ▸ (h.pass 1).position_lt)]

end Tracks

/-! ### Functions of the cursor -/

/-- A scan passes a run of characters to its end. -/
theorem scan_eq {σ : Type} {p : Char → Bool} {f : σ → Char → σ} {s : σ} (h : Tracks c t)
    (hrest : t.rest = cs ++ back) (hrun : ∀ ch ∈ cs, p ch)
    (hback : ∀ ch, back.head? = some ch → p ch = false) :
    c.scan p f s = (cs.foldl f s, c.moveTo (t.pass cs.length).position) := by
  induction cs generalizing c t s with
  | nil =>
    show c.scan p f s = (s, c.moveTo (t.pass 0).position)
    rw [t.pass_zero, h.moveTo_eq]
    cases hpeek : c.peek with
    | none => exact scan_of_none hpeek
    | some ch =>
      rw [h.peek_eq, hrest] at hpeek
      exact scan_of_neg (by rw [h.peek_eq, hrest]; exact hpeek) (hback ch hpeek)
  | cons ch cs ih =>
    obtain ⟨hp, hrun⟩ := List.forall_mem_cons.1 hrun
    have hpeek : c.peek = some ch := by
      rw [h.peek_eq, hrest]
      rfl
    rw [scan_of_pos hpeek hp, h.bump_eq hrest, ih (h.pass 1) (rest_pass_one hrest) hrun,
      moveTo_moveTo, t.pass_pass, List.foldl_cons, List.length_cons, Nat.add_comm 1]

theorem passWhile_eq {p : Char → Bool} (h : Tracks c t) (hrest : t.rest = cs ++ back)
    (hrun : ∀ ch ∈ cs, p ch) (hback : ∀ ch, back.head? = some ch → p ch = false) :
    c.passWhile p = c.moveTo (t.pass cs.length).position := by
  rw [passWhile, scan_eq h hrest hrun hback]

/-- A name is the characters that it was read from. -/
theorem identifier_eq (h : Tracks c t) (hrest : t.rest = cs ++ back)
    (hname : ∀ ch ∈ cs, Lexeme.isNamePart ch)
    (hback : ∀ ch, back.head? = some ch → Lexeme.isNamePart ch = false) :
    c.identifier t.position =
      (.ok ⟨.identifier (String.ofList cs), ⟨t.position, (t.pass cs.length).position⟩⟩,
        c.moveTo (t.pass cs.length).position) := by
  rw [identifier, passWhile_eq h hrest hname hback]
  simp only [h.since_eq hrest, moveTo_position]

/-- A number's text is read with its sign. -/
theorem parse?_eq {negative : Bool} {body : List Char}
    (hbody : ∀ ch, body.head? = some ch → ch ≠ '-') :
    parse? (String.ofList (Lexeme.sign negative ++ body)) = Lexeme.numeral? negative body := by
  rw [parse?, String.toList_ofList]
  cases negative with
  | true => rfl
  | false => exact if_neg fun h => hbody '-' h rfl

/-- Counting the points before the text is read makes no difference. -/
theorem numeral?_of_points {negative : Bool} {body name : List Char}
    (hdigit : ∀ ch, body.head? = some ch → ch ≠ '-')
    (hbody : ∀ ch ∈ body, Lexeme.isNumberPart ch) :
    (if 1 < cappedSum 0 (body.count '.') ∨ (false || !name.isEmpty) = true then none
      else parse? (String.ofList (Lexeme.sign negative ++ (body ++ name)))) =
      if name = [] then Lexeme.numeral? negative body else none := by
  by_cases hname : name = []
  · subst hname
    rw [if_pos rfl, List.append_nil, parse?_eq hdigit]
    by_cases hcount : 1 < body.count '.'
    · rw [if_pos (.inl (one_lt_cappedSum.2 hcount)),
        Lexeme.numeral?_eq_none_of_count hbody hcount]
    · exact if_neg (by simp [one_lt_cappedSum, hcount])
  · rw [if_neg hname, if_pos (.inr (by simpa using hname))]

/-- A number is read like its lexeme, from its sign on. -/
theorem number_eq {negative : Bool} {d : Char} {ds lexeme : List Char} {token : Option Token}
    (h : Tracks c t) (hrest : t.rest = Lexeme.sign negative ++ d :: ds) (hd : Digit d)
    (hnumber : Lexeme.number negative (d :: ds) = (lexeme, token)) :
    (c.moveTo (t.pass (Lexeme.sign negative).length).position).number t.position =
      (report ⟨t.position, (t.pass (Lexeme.sign negative ++ lexeme).length).position⟩ token,
        c.moveTo (t.pass (Lexeme.sign negative ++ lexeme).length).position) := by
  obtain ⟨body, rest, rfl, hbody, hbodyEnd⟩ := exists_span Lexeme.isNumberPart ds
  obtain ⟨name, back, rfl, hname, hnameEnd⟩ := exists_span Lexeme.isNamePart rest
  have hparts : ∀ ch ∈ d :: body, Lexeme.isNumberPart ch :=
    List.forall_mem_cons.2 ⟨Lexeme.isNumberPart_iff.2 (.inl hd), hbody⟩
  have hsign : ∀ ch, (d :: body).head? = some ch → ch ≠ '-' := by
    rintro ch ⟨⟩ rfl
    exact absurd hd (by decide)
  rw [← List.cons_append] at hrest hnumber
  rw [Lexeme.number_append_name hparts hbodyEnd hname hnameEnd] at hnumber
  obtain ⟨rfl, rfl⟩ := Prod.mk.inj hnumber
  have hunsigned := h.pass (Lexeme.sign negative).length
  have hleft := Tokenizer.rest_pass hrest
  have hpass : ((t.pass (Lexeme.sign negative).length).pass (d :: body).length).pass name.length =
      t.pass (Lexeme.sign negative ++ (d :: body ++ name)).length := by
    simp only [Tokenizer.pass_pass, List.length_append, Nat.add_assoc]
  have htext : t.rest = Lexeme.sign negative ++ (d :: body ++ name) ++ back := by
    simp only [hrest, List.append_assoc]
  rw [number, scan_eq hunsigned hleft hparts hbodyEnd]
  dsimp only
  rw [scan_eq (hunsigned.pass (d :: body).length) (Tokenizer.rest_pass hleft) hname hnameEnd]
  dsimp only
  rw [foldl_points (d :: body) (by decide), foldl_true, moveTo_moveTo, moveTo_moveTo, hpass,
    h.since_eq htext, numeral?_of_points hsign hparts, moveTo_position]

/-- What a tokenizer reads is reported as its lexeme. -/
theorem read_of_first? {lexeme : List Char} {token : Option Token}
    (h : Lexeme.first? ch cs = some (lexeme, token)) :
    ((t.read ch cs).1, c.moveTo (t.read ch cs).2.position) =
      (report ⟨t.position, (t.pass lexeme.length).position⟩ token,
        c.moveTo (t.pass lexeme.length).position) := by
  rw [Tokenizer.read, h]
  cases token with
  | some token => rfl
  | none => rfl

/-- A number is read like its lexeme, whether a sign leads it or not. -/
theorem read_of_digit {negative : Bool} {d : Char} {ds : List Char} (h : Tracks c t)
    (hrest : t.rest = ch :: cs) (hsign : ch :: cs = Lexeme.sign negative ++ d :: ds)
    (hd : Digit d) :
    (c.moveTo (t.pass (Lexeme.sign negative).length).position).number t.position =
      ((t.read ch cs).1, c.moveTo (t.read ch cs).2.position) := by
  obtain ⟨lexeme, token, hnumber⟩ : ∃ lexeme token,
      Lexeme.number negative (d :: ds) = (lexeme, token) := ⟨_, _, rfl⟩
  have hfirst : Lexeme.first? ch cs = some (Lexeme.sign negative ++ lexeme, token) := by
    cases negative with
    | false =>
      obtain ⟨rfl, rfl⟩ := List.cons.inj hsign
      rw [Lexeme.first?_of_digit hd, hnumber]
      rfl
    | true =>
      obtain ⟨rfl, hcs⟩ := List.cons.inj hsign
      obtain rfl : cs = d :: ds := hcs
      rw [Lexeme.first?_of_minus hd, hnumber]
      rfl
  rw [number_eq h (hrest.trans hsign) hd hnumber, read_of_first? hfirst]

/-- A name is read like its lexeme. -/
theorem read_of_nameStart (h : Tracks c t) (hrest : t.rest = ch :: cs) (hstart : NameStart ch) :
    c.identifier t.position = ((t.read ch cs).1, c.moveTo (t.read ch cs).2.position) := by
  obtain ⟨name, back, rfl, hname, hback⟩ := exists_span Lexeme.isNamePart cs
  have hparts : ∀ d ∈ ch :: name, Lexeme.isNamePart d :=
    Lexeme.forall_isNamePart hstart fun d hd => isNamePart_iff.1 (hname d hd)
  have hfirst := Lexeme.first?_of_nameStart hstart (name ++ back)
  rw [← List.cons_append] at hrest hfirst
  rw [(span_append hparts hback).1] at hfirst
  rw [read_of_first? hfirst, identifier_eq h hrest hparts hback]
  rfl

/-- **An item is read like its lexeme.** -/
theorem read_eq (h : Tracks c t) (hrest : t.rest = ch :: cs) :
    c.read ch = ((t.read ch cs).1, c.moveTo (t.read ch cs).2.position) := by
  have hsecond : c.peekSecond = cs.head? := by
    rw [h.peekSecond_eq, hrest, List.getElem?_cons_succ, List.head?_eq_getElem?]
  rw [read, hsecond, h.position_eq]
  by_cases hdigit : ch.isDigit
  · have hnumber := read_of_digit h hrest (show _ = Lexeme.sign false ++ _ from rfl)
      (isDigit_iff.1 hdigit)
    rw [Lexeme.sign, List.length_nil, t.pass_zero, h.moveTo_eq] at hnumber
    rw [if_pos hdigit, hnumber]
  by_cases hminus : ch = '-' ∧ cs.head?.any Char.isDigit
  · obtain ⟨rfl, hhead⟩ := hminus
    obtain ⟨d, hsome, hd⟩ := (Option.any_eq_true ..).1 hhead
    obtain ⟨ds, rfl⟩ := List.head?_eq_some_iff.1 hsome
    have hnumber := read_of_digit h hrest (show _ = Lexeme.sign true ++ _ from rfl)
      (isDigit_iff.1 hd)
    rw [if_neg hdigit, if_pos ⟨rfl, hhead⟩, h.bump_eq hrest, ← hnumber]
    rfl
  by_cases hstart : Lexeme.isNameStart ch
  · rw [if_neg hdigit, if_neg hminus, if_pos hstart,
      read_of_nameStart h hrest (isNameStart_iff.1 hstart)]
  have hfirst : Lexeme.first? ch cs =
      (Punctuation.ofChar? ch).map fun p => ([ch], some (.punct p)) := by
    rw [Lexeme.first?, if_neg hdigit, if_neg hminus, if_neg hstart]
  rw [if_neg hdigit, if_neg hminus, if_neg hstart]
  cases hpunct : Punctuation.ofChar? ch with
  | some p =>
    rw [hpunct, Option.map_some] at hfirst
    rw [read_of_first? hfirst, h.bump_eq hrest]
    rfl
  | none =>
    rw [hpunct, Option.map_none] at hfirst
    rw [Tokenizer.read, hfirst]
    exact congrArg (Prod.mk _) h.moveTo_eq.symm

/-- The cursor where a tokenizer stands. -/
def standAt (c : Cursor) (t : Tokenizer) : Cursor :=
  { c with position := t.position, failed := t.failed }

theorem standAt_eq_moveTo (h : t.failed = c.failed) : c.standAt t = c.moveTo t.position := by
  rw [standAt, h]
  rfl

/-- **A call of the cursor is a call of the tokenizer.** -/
theorem next_eq (h : Tracks c t) : c.next = (t.next.1, c.standAt t.next.2) := by
  cases hfailed : t.failed with
  | true =>
    rw [next, if_pos (h.failed_eq.trans hfailed), Tokenizer.next_of_failed hfailed,
      standAt_eq_moveTo h.failed_eq.symm, h.moveTo_eq]
  | false =>
    obtain ⟨lead, back, hrest, hlead, hend⟩ := exists_span Text.isBlank t.rest
    have hplace := h.pass lead.length
    have hback := Tokenizer.rest_pass hrest
    have hpeek := hplace.peek_eq
    rw [hback] at hpeek
    rw [next, if_neg (by simp [h.failed_eq, hfailed]), passWhile_eq h hrest hlead hend]
    dsimp only
    rw [hpeek]
    cases back with
    | nil =>
      rw [List.append_nil] at hrest
      rw [Tokenizer.next_of_blank hfailed (hrest ▸ hlead), hrest]
      have hkept : (t.pass lead.length).failed = c.failed := h.failed_eq.symm
      exact congrArg (Prod.mk none) (standAt_eq_moveTo hkept).symm
    | cons ch cs =>
      obtain ⟨item, u, hread⟩ : ∃ item u, (t.pass lead.length).read ch cs = (item, u) :=
        ⟨_, _, rfl⟩
      have hnext := Tokenizer.next_of_append hfailed hrest hlead (hend ch rfl) hread
      have hcursor := read_eq hplace hback
      rw [hread, moveTo_moveTo] at hcursor
      rw [hnext, List.head?_cons]
      dsimp only
      rw [hcursor]
      cases item with
      | ok x =>
        have hu := (Tokenizer.spells_of_next hnext).1
        rw [standAt_eq_moveTo (hu.trans (h.failed_eq.trans hfailed).symm)]
      | error e =>
        have hu := (Tokenizer.misread_of_next hnext).1
        rw [standAt, hu]
        rfl

theorem Tracks.next (h : Tracks c t) : Tracks c.next.2 t.next.2 := by
  rw [next_eq h]
  exact ⟨(Tokenizer.source_of_next rfl).trans h.source_eq, rfl, rfl⟩

theorem Tracks.reset (h : Tracks c t) : Tracks c.reset t.reset :=
  ⟨(List.nil_append _).trans h.source_eq, rfl, rfl⟩

/-! ### Calls -/

/-- The results of calling `next` a number of times, and the cursor after that. -/
def calls (c : Cursor) : Nat → List (Option Tokenizer.Item) × Cursor
  | 0 => ([], c)
  | k + 1 =>
    let (results, d) := c.calls k
    let (result, e) := d.next
    (results ++ [result], e)

/-- **Reading by offsets is reading characters**, however often `next` is called. -/
theorem calls_eq (h : Tracks c t) (k : Nat) :
    (c.calls k).1 = (t.calls k).1 ∧ Tracks (c.calls k).2 (t.calls k).2 := by
  induction k with
  | zero => exact ⟨rfl, h⟩
  | succ k ih =>
    obtain ⟨hresults, htracks⟩ := ih
    refine ⟨?_, htracks.next⟩
    show (c.calls k).1 ++ [(c.calls k).2.next.1] = (t.calls k).1 ++ [(t.calls k).2.next.1]
    rw [hresults, next_eq htracks]

/-- A cursor returns the items of its source in order, and nothing after the last one. -/
theorem next_calls (source : String) (h : source.utf8ByteSize < 1 <<< 64) (k : Nat) :
    ((ofString source h).calls k).2.next.1 = (Tokenizer.items source)[k]? := by
  rw [next_eq (calls_eq (.ofString source h) k).2]
  exact Tokenizer.next_calls _ k

example : ((ofString "a\u00a0-2" (by decide)).calls 3).1 =
    [some (.ok ⟨.identifier "a", ⟨0, 1⟩⟩), some (.ok ⟨.signed (-2), ⟨3, 5⟩⟩), none] := by
  decide +kernel

/-! ### Every slice exists -/

/-- The cursors that reading a source comes to, between the calls and within them. -/
inductive Visited (source : String) : Cursor → Prop
  | ofString (h : source.utf8ByteSize < 1 <<< 64) : Visited source (ofString source h)
  | bump {c : Cursor} {ch : Char} (h : Visited source c) (hpeek : c.peek = some ch) :
      Visited source (c.bump ch)
  | fail {c : Cursor} (h : Visited source c) : Visited source { c with failed := true }
  | reset {c : Cursor} (h : Visited source c) : Visited source c.reset

namespace Visited

variable {source : String}

/-- At each of them a tokenizer stands. -/
theorem exists_tracks (h : Visited source c) : c.source = source ∧ ∃ t, Tracks c t := by
  induction h with
  | ofString h => exact ⟨rfl, _, .ofString source h⟩
  | bump h hpeek ih =>
    obtain ⟨hsource, t, ht⟩ := ih
    obtain ⟨cs, hrest⟩ := ht.exists_rest_of_peek hpeek
    refine ⟨hsource, t.pass 1, ?_⟩
    rw [ht.bump_eq hrest]
    exact ht.pass 1
  | fail h ih =>
    obtain ⟨hsource, t, ht⟩ := ih
    exact ⟨hsource, { t with failed := true }, ht.source_eq, ht.position_eq, rfl⟩
  | reset h ih =>
    obtain ⟨hsource, t, ht⟩ := ih
    exact ⟨hsource, t.reset, ht.reset⟩

theorem scan {σ : Type} {p : Char → Bool} {f : σ → Char → σ} {s : σ} (h : Visited source c) :
    Visited source (c.scan p f s).2 := by
  fun_induction Cursor.scan p f s c with
  | case1 => exact h
  | case2 s c ch hpeek hp ih => exact ih (h.bump hpeek)
  | case3 => exact h

theorem number (h : Visited source c) (start : Nat) : Visited source (c.number start).2 := by
  rw [Cursor.number]
  exact h.scan.scan

theorem read (h : Visited source c) (hpeek : c.peek = some ch) :
    Visited source (c.read ch).2 := by
  unfold Cursor.read
  split
  · exact h.number _
  split
  · exact (h.bump hpeek).number _
  split
  · rw [Cursor.identifier]
    exact h.scan
  · split
    · exact h.bump hpeek
    · exact h

/-- A call comes to such cursors only. -/
theorem next (h : Visited source c) : Visited source c.next.2 := by
  unfold Cursor.next
  split
  · exact h
  · have hskip : Visited source (c.passWhile Text.isBlank) := h.scan
    dsimp only
    split
    · exact hskip
    · rename_i ch hpeek
      have hread := hskip.read hpeek
      split
      · rename_i x d hok
        rw [hok] at hread
        exact hread
      · rename_i e d herror
        rw [herror] at hread
        exact hread.fail

theorem calls (source : String) (h : source.utf8ByteSize < 1 <<< 64) (k : Nat) :
    Visited source ((Cursor.ofString source h).calls k).2 := by
  induction k with
  | zero => exact .ofString h
  | succ k ih => exact ih.next

/-- It stands between two characters. -/
theorem isValid (h : Visited source c) : String.Pos.Raw.IsValid source ⟨c.position⟩ := by
  obtain ⟨rfl, t, ht⟩ := h.exists_tracks
  rw [ht.position_eq]
  exact isValid_of_append ht.source_eq.symm t.position_eq_reverse

/-- **No slice is missing**, neither of the text in front nor of what was passed since another
place. -/
theorem exists_slice (h : Visited source c) :
    (∃ text, slice? source c.position source.utf8ByteSize = some text) ∧
      ∀ d, Visited source d → d.position ≤ c.position →
        ∃ text, slice? source d.position c.position = some text := by
  refine ⟨?_, fun d hd hle => ⟨_, dif_pos ⟨hd.isValid, h.isValid, hle⟩⟩⟩
  obtain ⟨rfl, t, ht⟩ := h.exists_tracks
  exact ⟨_, ht.slice?_rest⟩

/-- No step over a character is cut short. -/
theorem position_bump (h : Visited source c) (hpeek : c.peek = some ch) :
    (c.bump ch).position = c.position + ch.utf8Size := by
  obtain ⟨-, t, ht⟩ := h.exists_tracks
  obtain ⟨cs, hrest⟩ := ht.exists_rest_of_peek hpeek
  rw [ht.bump_eq hrest, ht.position_eq, moveTo_position, position_pass_one hrest]

end Visited

end Cursor
end WindowVM
