/-
# What the tokenizer covers

The tokens of a source lie side by side in it, with nothing but blank characters between
them (`Tiles`), each read from the bytes of its own span.  This is said in offsets of bytes,
and such an offset may fall inside a character, where the source has no slice (`slice?`).
None does (`Faithful`): whatever the source is and however often the tokenizer is called, it
stands between two characters, and every slice it looks at exists.

What carries the induction over the calls is `Reading`: since the last token only blank
characters were passed, unless an error was found.
-/

import Mathlib.Data.String.Basic
import WindowVM.Proofs.Misreading
import WindowVM.Token.Cursor

namespace WindowVM

/-! ### Slices -/

theorem size_ofList (cs : List Char) : (String.ofList cs).toByteArray.size = byteLength cs := by
  rw [String.size_toByteArray, String.utf8ByteSize_ofList]
  induction cs with
  | nil => rfl
  | cons c cs ih => rw [String.utf8Len_cons, byteLength_cons, ih, Nat.add_comm]

/-- A source has the bytes of its characters. -/
theorem utf8ByteSize_eq_byteLength (source : String) :
    source.utf8ByteSize = byteLength source.toList := by
  rw [← size_ofList, String.ofList_toList, String.size_toByteArray]

variable {source : String} {front text back : List Char} {start stop : Nat}

/-- An offset that is as long as a front part of a source stands between characters. -/
theorem isValid_of_append (h : source.toList = front ++ back) (hstart : start = byteLength front) :
    String.Pos.Raw.IsValid source ⟨start⟩ := by
  rw [String.Pos.Raw.isValid_iff_exists_append]
  refine ⟨String.ofList front, String.ofList back, ?_, ?_⟩
  · rw [← String.ofList_append, ← h, String.ofList_toList]
  · rw [hstart, ← size_ofList]
    rfl

/-- The bytes between two others. -/
theorem extract_append_append (as bs cs : ByteArray) :
    (as ++ (bs ++ cs)).extract as.size (as.size + bs.size) = bs := by
  calc (as ++ (bs ++ cs)).extract as.size (as.size + bs.size)
      = (bs ++ cs).extract 0 bs.size := @ByteArray.extract_append_size_add as (bs ++ cs) 0 bs.size
    _ = bs := ByteArray.extract_append_eq_left rfl

/-- Where a source is divided between characters, its middle part is a slice. -/
theorem slice?_of_append (h : source.toList = front ++ (text ++ back))
    (hstart : start = byteLength front) (hstop : stop = start + byteLength text) :
    slice? source start stop = some (String.ofList text) := by
  have hvalid : String.Pos.Raw.IsValid source ⟨start⟩ := isValid_of_append h hstart
  have hvalid' : String.Pos.Raw.IsValid source ⟨stop⟩ := by
    refine isValid_of_append (h.trans (List.append_assoc ..).symm) ?_
    rw [hstop, hstart, byteLength_append]
  have hbytes : source.toByteArray = (String.ofList front).toByteArray ++
      ((String.ofList text).toByteArray ++ (String.ofList back).toByteArray) := by
    rw [← String.toByteArray_append, ← String.toByteArray_append, ← String.ofList_append,
      ← String.ofList_append, ← h, String.ofList_toList]
  rw [slice?, dif_pos ⟨hvalid, hvalid', hstop ▸ Nat.le_add_right ..⟩, Option.some.injEq,
    ← String.toByteArray_inj, String.toByteArray_extract]
  show source.toByteArray.extract start stop = (String.ofList text).toByteArray
  rw [hbytes, hstop, hstart, ← size_ofList, ← size_ofList, extract_append_append]

example : slice? "é;" 0 2 = some "é" ∧ slice? "é;" 1 2 = none := by decide

/-- Only blank characters stand between two bytes of a source. -/
def BlankBetween (source : String) (start stop : Nat) : Prop :=
  ∃ gap, slice? source start stop = some gap ∧ ∀ c ∈ gap.toList, Text.isBlank c

theorem blankBetween_of_append (h : source.toList = front ++ (text ++ back))
    (hblank : ∀ c ∈ text, Text.isBlank c) (hstart : start = byteLength front)
    (hstop : stop = start + byteLength text) : BlankBetween source start stop := by
  refine ⟨String.ofList text, slice?_of_append h hstart hstop, ?_⟩
  rwa [String.toList_ofList]

/-! ### Tokens side by side -/

/-- Where the last token stops, or where the source starts when there is none. -/
def lastStop (xs : List SpannedToken) : Nat :=
  ((xs.map SpannedToken.span).getLast?.getD ⟨0, 0⟩).stop

theorem lastStop_append_singleton (xs : List SpannedToken) (x : SpannedToken) :
    lastStop (xs ++ [x]) = x.span.stop := by
  simp [lastStop]

/-- A name is spelled as itself only. -/
theorem Lexeme.eq_of_spells_identifier {name : String} (h : Spells text (.identifier name)) :
    name = String.ofList text := by
  cases h with
  | identifier => rfl
  | number hform => cases hform

/-- Tokens in the order of a source, each with the bytes it was read from, and with blank
characters only before the first and between one and the next. -/
structure Tiles (source : String) (xs : List SpannedToken) : Prop where
  nonempty : ∀ x ∈ xs, x.span.start < x.span.stop
  spelled : ∀ x ∈ xs, ∃ text, slice? source x.span.start x.span.stop = some text ∧
    Lexeme.Spells text.toList x.token
  ordered : xs.Pairwise fun x y => x.span.stop ≤ y.span.start
  /-- The first gap starts with the source. -/
  gaps : (⟨0, 0⟩ :: xs.map SpannedToken.span).IsChain fun a b =>
    BlankBetween source a.stop b.start

namespace Tiles

variable {xs : List SpannedToken} {x : SpannedToken}

theorem nil (source : String) : Tiles source [] where
  nonempty _ hx := absurd hx List.not_mem_nil
  spelled _ hx := absurd hx List.not_mem_nil
  ordered := .nil
  gaps := .singleton _

/-- One more token is laid after the others. -/
theorem append_singleton (h : Tiles source xs) (hstops : ∀ y ∈ xs, y.span.stop ≤ x.span.start)
    (hgap : BlankBetween source (lastStop xs) x.span.start)
    (hslice : slice? source x.span.start x.span.stop = some (String.ofList text))
    (hspells : Lexeme.Spells text x.token) (hlt : x.span.start < x.span.stop) :
    Tiles source (xs ++ [x]) where
  nonempty y hy := by
    rcases List.mem_append.1 hy with hy | hy
    · exact h.nonempty y hy
    · rwa [List.mem_singleton.1 hy]
  spelled y hy := by
    rcases List.mem_append.1 hy with hy | hy
    · exact h.spelled y hy
    · rw [List.mem_singleton.1 hy]
      exact ⟨_, hslice, by rwa [String.toList_ofList]⟩
  ordered := by
    refine List.pairwise_append.2 ⟨h.ordered, List.pairwise_singleton .., fun y hy z hz => ?_⟩
    rw [List.mem_singleton.1 hz]
    exact hstops y hy
  gaps := by
    rw [List.map_append, ← List.cons_append]
    refine List.isChain_append.2 ⟨h.gaps, .singleton _, fun a ha b hb => ?_⟩
    obtain rfl : x.span = b := Option.some.inj hb
    rw [List.getLast?_cons, Option.mem_some_iff] at ha
    rwa [← ha]

/-- A name is the text that it was read from. -/
theorem slice?_identifier (h : Tiles source xs) (hx : x ∈ xs) {name : String}
    (hname : x.token = .identifier name) : slice? source x.span.start x.span.stop = some name := by
  obtain ⟨text, hslice, hspells⟩ := h.spelled x hx
  rw [hname] at hspells
  rw [hslice, Lexeme.eq_of_spells_identifier hspells, String.ofList_toList]

end Tiles

/-! ### The calls of the tokenizer -/

namespace Tokenizer

/-- The results of calling `next` a number of times, and the tokenizer after that. -/
def calls (t : Tokenizer) : Nat → List (Option Item) × Tokenizer
  | 0 => ([], t)
  | k + 1 =>
    let (results, u) := t.calls k
    let (result, v) := u.next
    (results ++ [result], v)

/-- The tokens among results. -/
def tokensOf (results : List (Option Item)) : List SpannedToken :=
  results.filterMap fun
    | some (.ok x) => some x
    | _ => none

variable {t u : Tokenizer} {results : List (Option Item)} {result : Option Item}
  {x : SpannedToken}

theorem tokensOf_append_none (results : List (Option Item)) :
    tokensOf (results ++ [none]) = tokensOf results := by
  simp [tokensOf]

theorem tokensOf_append_ok (results : List (Option Item)) (x : SpannedToken) :
    tokensOf (results ++ [some (.ok x)]) = tokensOf results ++ [x] := by
  simp [tokensOf]

theorem tokensOf_append_error (results : List (Option Item)) (e : TokenError) :
    tokensOf (results ++ [some (.error e)]) = tokensOf results := by
  simp [tokensOf]

theorem rest_eq_append_pass (t : Tokenizer) (n : Nat) :
    t.rest = t.rest.take n ++ (t.pass n).rest :=
  (List.take_append_drop ..).symm

theorem passed_pass (t : Tokenizer) (n : Nat) :
    (t.pass n).passed.reverse = t.passed.reverse ++ t.rest.take n := by
  simp [pass]

theorem exists_passed_of_read {item : Item} {c : Char} {cs : List Char}
    (h : t.read c cs = (item, u)) :
    ∃ ds, t.rest = ds ++ u.rest ∧ u.passed.reverse = t.passed.reverse ++ ds := by
  unfold read at h
  split at h
  · obtain ⟨-, rfl⟩ := Prod.mk.inj h
    exact ⟨[], rfl, (List.append_nil _).symm⟩
  · cases ‹Option Token› with
    | some token =>
      obtain ⟨-, rfl⟩ := Prod.mk.inj h
      exact ⟨_, rest_eq_append_pass .., passed_pass ..⟩
    | none =>
      obtain ⟨-, rfl⟩ := Prod.mk.inj h
      exact ⟨_, rest_eq_append_pass .., passed_pass ..⟩

/-- A call passes a part of the rest. -/
theorem exists_passed_of_next (h : t.next = (result, u)) :
    ∃ cs, t.rest = cs ++ u.rest ∧ u.passed.reverse = t.passed.reverse ++ cs := by
  cases result with
  | none =>
    unfold next at h
    split at h
    · obtain ⟨-, rfl⟩ := Prod.mk.inj h
      exact ⟨[], rfl, (List.append_nil _).symm⟩
    · simp only at h
      split at h
      · obtain ⟨-, rfl⟩ := Prod.mk.inj h
        exact ⟨_, rest_eq_append_pass .., passed_pass ..⟩
      · simp at h
  | some item =>
    obtain ⟨-, lead, c, cs, hrest, -, -, hread⟩ := read_of_next h
    obtain ⟨ds, hleft, hpassed⟩ := exists_passed_of_read hread
    rw [rest_pass hrest] at hleft
    refine ⟨lead ++ ds, ?_, ?_⟩
    · rw [hrest, hleft, List.append_assoc]
    · rw [hpassed, passed_pass, hrest, List.take_left, List.append_assoc]

/-- What is no longer left was passed. -/
theorem passed_of_next {cs : List Char} (h : t.next = (result, u)) (hrest : t.rest = cs ++ u.rest) :
    u.passed.reverse = t.passed.reverse ++ cs := by
  obtain ⟨cs', hrest', hpassed⟩ := exists_passed_of_next h
  rw [hpassed, List.append_cancel_right (hrest'.symm.trans hrest)]

/-- The text stays the same. -/
theorem source_of_next (h : t.next = (result, u)) : u.source = t.source := by
  obtain ⟨cs, hrest, hpassed⟩ := exists_passed_of_next h
  rw [source, source, hrest, hpassed, List.append_assoc]

theorem position_eq_reverse (t : Tokenizer) : t.position = byteLength t.passed.reverse := by
  rw [t.position_eq, byteLength_reverse]

theorem position_le_of_next (h : t.next = (result, u)) : t.position ≤ u.position := by
  obtain ⟨cs, -, hpassed⟩ := exists_passed_of_next h
  rw [position_eq_reverse, position_eq_reverse, hpassed, byteLength_append]
  exact Nat.le_add_right ..

/-- After a token the tokenizer stands where the token stops. -/
theorem position_of_next (h : t.next = (some (.ok x), u)) : u.position = x.span.stop := by
  obtain ⟨-, lead, lexeme, -, -, -, hspan, hposition, -⟩ := spells_of_next h
  rw [hposition, hspan]

/-- No tokenizer stands behind the end of its source. -/
theorem position_le_utf8ByteSize (h : t.source = source.toList) :
    t.position ≤ source.utf8ByteSize := by
  rw [utf8ByteSize_eq_byteLength, ← h, Tokenizer.source, byteLength_append, position_eq_reverse]
  exact Nat.le_add_right ..

/-- Wherever a tokenizer stands, the rest of its source is a slice. -/
theorem slice?_rest (h : t.source = source.toList) :
    slice? source t.position source.utf8ByteSize = some (String.ofList t.rest) := by
  have hsource : source.toList = t.passed.reverse ++ (t.rest ++ []) := by
    rw [List.append_nil, ← h, Tokenizer.source]
  refine slice?_of_append hsource t.position_eq_reverse ?_
  rw [utf8ByteSize_eq_byteLength, hsource, t.position_eq_reverse]
  simp only [byteLength_append, byteLength_nil, Nat.add_zero]

/-- What holds between two calls: since the last token only blank characters were passed,
unless an error was found. -/
structure Reading (source : String) (results : List (Option Item)) (t : Tokenizer) : Prop where
  source_eq : t.source = source.toList
  tiles : Tiles source (tokensOf results)
  stops : ∀ x ∈ tokensOf results, x.span.stop ≤ t.position
  malformed : ∀ span, some (.error (.badNumber span)) ∈ results →
    ∃ text, slice? source span.start span.stop = some text
  failed : t.failed = true → ∃ e, some (.error e) ∈ results
  gap : t.failed = false → ∃ front gap, t.passed.reverse = front ++ gap ∧
    lastStop (tokensOf results) = byteLength front ∧ ∀ c ∈ gap, Text.isBlank c

/-- Without a next item, blank characters are passed, and all of them unless there was an
error. -/
theorem exists_gap_of_next (h : t.next = (none, u)) : ∃ gap, t.rest = gap ++ u.rest ∧
    (∀ c ∈ gap, Text.isBlank c) ∧ u.failed = t.failed ∧ (t.failed = false → u.rest = []) := by
  cases hfailed : t.failed with
  | true =>
    rw [next, if_pos hfailed] at h
    obtain ⟨-, rfl⟩ := Prod.mk.inj h
    refine ⟨[], rfl, fun _ hc => absurd hc List.not_mem_nil, hfailed, fun hfalse => ?_⟩
    cases hfalse
  | false =>
    have hblank := blank_of_next hfailed h
    rw [next_of_blank hfailed hblank] at h
    obtain ⟨-, rfl⟩ := Prod.mk.inj h
    have hrest : t.rest = t.rest ++ [] := (List.append_nil _).symm
    have hempty := rest_pass hrest
    exact ⟨t.rest, by rw [hempty, List.append_nil], hblank, hfailed, fun _ => hempty⟩

/-- The span of a malformed number is a slice of the source. -/
theorem exists_slice_of_next {span : Span} (hsource : t.source = source.toList)
    (h : t.next = (some (.error (.badNumber span)), u)) :
    ∃ text, slice? source span.start span.stop = some text := by
  obtain ⟨-, lead, back, hrest, -, hmisread⟩ := misread_of_next h
  obtain ⟨lexeme, rest, rfl, rfl⟩ := hmisread.exists_lexeme rfl
  have hfront : source.toList = t.passed.reverse ++ lead ++ (lexeme ++ rest) := by
    rw [← hsource, Tokenizer.source, hrest, List.append_assoc]
  refine ⟨_, slice?_of_append hfront ?_ rfl⟩
  rw [byteLength_append, ← position_eq_reverse]

namespace Reading

theorem ofString (source : String) : Reading source [] (ofString source) where
  source_eq := rfl
  tiles := .nil source
  stops _ hx := absurd hx List.not_mem_nil
  malformed _ hx := absurd hx List.not_mem_nil
  failed h := absurd h Bool.false_ne_true
  gap _ := ⟨[], [], rfl, rfl, fun _ hc => absurd hc List.not_mem_nil⟩

/-- A call that returns no token leaves the tokens as they are. -/
theorem next_of_tokensOf {cs : List Char} (h : Reading source results t)
    (hnext : t.next = (result, u)) (htokens : tokensOf (results ++ [result]) = tokensOf results)
    (hrest : t.rest = cs ++ u.rest)
    (hfailed : u.failed = true → t.failed = true ∨ ∃ e, result = some (.error e))
    (hblank : u.failed = false → t.failed = false ∧ ∀ c ∈ cs, Text.isBlank c) :
    Reading source (results ++ [result]) u := by
  refine ⟨(source_of_next hnext).trans h.source_eq, ?_, ?_, ?_, ?_, ?_⟩
  · rw [htokens]
    exact h.tiles
  · rw [htokens]
    exact fun x hx => (h.stops x hx).trans (position_le_of_next hnext)
  · intro span hspan
    rcases List.mem_append.1 hspan with hspan | hspan
    · exact h.malformed span hspan
    · rw [← List.mem_singleton.1 hspan] at hnext
      exact exists_slice_of_next h.source_eq hnext
  · intro hufailed
    rcases hfailed hufailed with htfailed | ⟨e, rfl⟩
    · obtain ⟨e, he⟩ := h.failed htfailed
      exact ⟨e, List.mem_append_left _ he⟩
    · exact ⟨e, List.mem_append_right _ List.mem_cons_self⟩
  · intro hufailed
    obtain ⟨htfailed, hcs⟩ := hblank hufailed
    obtain ⟨front, gap, hpassed, hstop, hgap⟩ := h.gap htfailed
    refine ⟨front, gap ++ cs, ?_, ?_, List.forall_mem_append.2 ⟨hgap, hcs⟩⟩
    · rw [passed_of_next hnext hrest, hpassed, List.append_assoc]
    · rwa [htokens]

/-- The next token is laid after the others, behind the blank characters passed so far. -/
theorem tiles_append (h : Reading source results t) (hnext : t.next = (some (.ok x), u)) :
    Tiles source (tokensOf results ++ [x]) := by
  obtain ⟨-, lead, lexeme, hrest, hlead, hspells, hspan, -, -⟩ := spells_of_next hnext
  obtain ⟨front, gap, hpassed, hstop, hgap⟩ := h.gap (read_of_next hnext).1
  have hstart : x.span.start = byteLength (t.passed.reverse ++ lead) := by
    rw [hspan, byteLength_append, ← position_eq_reverse]
  have hend : x.span.stop = x.span.start + byteLength lexeme := by
    rw [hspan]
  have hsource : source.toList = t.passed.reverse ++ lead ++ (lexeme ++ u.rest) := by
    rw [← h.source_eq, Tokenizer.source, hrest, List.append_assoc]
  have hblank : BlankBetween source (lastStop (tokensOf results)) x.span.start := by
    have hsource' : source.toList = front ++ (gap ++ lead ++ (lexeme ++ u.rest)) := by
      rw [hsource, hpassed]
      simp only [List.append_assoc]
    refine blankBetween_of_append hsource' (List.forall_mem_append.2 ⟨hgap, hlead⟩) hstop ?_
    rw [hstart, hstop, hpassed, List.append_assoc, byteLength_append]
  have hstops : ∀ y ∈ tokensOf results, y.span.stop ≤ x.span.start := by
    intro y hy
    rw [hspan]
    exact (h.stops y hy).trans (Nat.le_add_right ..)
  have hlt : x.span.start < x.span.stop := by
    obtain ⟨c, cs, rfl, -, -⟩ := hspells.exists_cons
    have hpos := c.utf8Size_pos
    rw [hend, byteLength_cons]
    omega
  exact h.tiles.append_singleton hstops hblank (slice?_of_append hsource hstart hend) hspells hlt

/-- A call that returns a token adds it, and stands where it stops. -/
theorem next_ok (h : Reading source results t) (hnext : t.next = (some (.ok x), u)) :
    Reading source (results ++ [some (.ok x)]) u := by
  have hustop := position_of_next hnext
  refine ⟨(source_of_next hnext).trans h.source_eq, ?_, ?_, ?_, ?_, ?_⟩
  · rw [tokensOf_append_ok]
    exact h.tiles_append hnext
  · rw [tokensOf_append_ok, List.forall_mem_append]
    refine ⟨fun y hy => (h.stops y hy).trans (position_le_of_next hnext), fun y hy => ?_⟩
    rw [List.mem_singleton.1 hy, hustop]
  · intro span hspan
    exact h.malformed span (by simpa using hspan)
  · intro hfailed
    rw [(spells_of_next hnext).1] at hfailed
    cases hfailed
  · intro _
    refine ⟨u.passed.reverse, [], (List.append_nil _).symm, ?_, fun _ hc => ?_⟩
    · rw [tokensOf_append_ok, lastStop_append_singleton, ← hustop, position_eq_reverse]
    · exact absurd hc List.not_mem_nil

/-- **What holds between two calls holds after one more.** -/
theorem next (h : Reading source results t) (hnext : t.next = (result, u)) :
    Reading source (results ++ [result]) u := by
  match result with
  | some (.ok x) => exact h.next_ok hnext
  | some (.error e) =>
    obtain ⟨cs, hrest, -⟩ := exists_passed_of_next hnext
    refine h.next_of_tokensOf hnext (tokensOf_append_error ..) hrest (fun _ => .inr ⟨e, rfl⟩) ?_
    intro hfailed
    rw [(misread_of_next hnext).1] at hfailed
    cases hfailed
  | none =>
    obtain ⟨gap, hrest, hblank, hfailed, -⟩ := exists_gap_of_next hnext
    refine h.next_of_tokensOf hnext (tokensOf_append_none ..) hrest ?_ ?_
    · exact fun hfail => .inl (hfailed ▸ hfail)
    · exact fun hfail => ⟨hfailed ▸ hfail, hblank⟩

end Reading

/-- Any number of calls is a call after the others. -/
theorem reading_calls (source : String) (k : Nat) :
    Reading source ((ofString source).calls k).1 ((ofString source).calls k).2 := by
  induction k with
  | zero => exact .ofString source
  | succ k ih => exact ih.next rfl

/-! ### Nothing is lost -/

/-- What can be relied on after the results of any number of calls. -/
structure Faithful (source : String) (results : List (Option Item)) (t : Tokenizer) : Prop where
  boundary : String.Pos.Raw.IsValid source ⟨t.position⟩
  position_le : t.position ≤ source.utf8ByteSize
  /-- Wherever the next call stops to look ahead, what is left is a slice. -/
  slices : ∀ n, slice? source (t.pass n).position source.utf8ByteSize =
    some (String.ofList (t.pass n).rest)
  malformed : ∀ span, some (.error (.badNumber span)) ∈ results →
    ∃ text, slice? source span.start span.stop = some text
  tiles : Tiles source (tokensOf results)
  names : ∀ x ∈ tokensOf results, ∀ name, x.token = .identifier name →
    slice? source x.span.start x.span.stop = some name
  position_of_ok : ∀ x, results.getLast? = some (some (.ok x)) → t.position = x.span.stop
  position_of_none : results.getLast? = some none → (∀ e, some (.error e) ∉ results) →
    t.position = source.utf8ByteSize ∧
      BlankBetween source (lastStop (tokensOf results)) source.utf8ByteSize

/-- Where the source ends without an error, the tokens cover all of it. -/
theorem Reading.blankBetween_of_rest_eq_nil (h : Reading source results t)
    (hfailed : t.failed = false) (hrest : t.rest = []) :
    t.position = source.utf8ByteSize ∧
      BlankBetween source (lastStop (tokensOf results)) source.utf8ByteSize := by
  obtain ⟨front, gap, hpassed, hstop, hgap⟩ := h.gap hfailed
  have hsource : source.toList = front ++ (gap ++ []) := by
    rw [← h.source_eq, Tokenizer.source, hrest, hpassed, List.append_assoc]
  have hsize : source.utf8ByteSize = byteLength front + byteLength gap := by
    rw [utf8ByteSize_eq_byteLength, hsource, List.append_nil, byteLength_append]
  refine ⟨?_, blankBetween_of_append hsource hgap hstop (by rw [hsize, hstop])⟩
  rw [position_eq_reverse, hpassed, byteLength_append, hsize]

/-- **Tokenizing loses nothing**, whatever the source is and however often `next` is called. -/
theorem calls_faithful (source : String) (k : Nat) :
    Faithful source ((ofString source).calls k).1 ((ofString source).calls k).2 := by
  have hreading := reading_calls source k
  refine ⟨isValid_of_append hreading.source_eq.symm (position_eq_reverse _), ?_, ?_,
    hreading.malformed, hreading.tiles, fun x hx name => hreading.tiles.slice?_identifier hx,
    ?_, ?_⟩
  · exact position_le_utf8ByteSize hreading.source_eq
  · exact fun n => slice?_rest ((source_pass ..).trans hreading.source_eq)
  · intro x hlast
    cases k with
    | zero => simp [calls] at hlast
    | succ k =>
      have hnext : ((ofString source).calls k).2.next.1 = some (.ok x) := by
        simpa [calls] using hlast
      exact position_of_next (Prod.ext hnext rfl)
  · intro hlast hnone
    cases k with
    | zero => simp [calls] at hlast
    | succ k =>
      have hnext : ((ofString source).calls k).2.next.1 = none := by
        simpa [calls] using hlast
      obtain ⟨gap, -, -, hfailed, hrest⟩ := exists_gap_of_next (Prod.ext hnext rfl)
      have hufailed : ((ofString source).calls (k + 1)).2.failed = false := by
        rw [← Bool.not_eq_true]
        intro hfail
        obtain ⟨e, he⟩ := hreading.failed hfail
        exact hnone e he
      exact hreading.blankBetween_of_rest_eq_nil hufailed (hrest (hfailed ▸ hufailed))

end Tokenizer
end WindowVM
