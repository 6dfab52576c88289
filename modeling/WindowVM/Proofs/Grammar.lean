/-
# What the tokenizer accepts

A source text without an error is blank characters and texts of tokens, where two tokens may
only touch if the first does not go on with the start of the second.  A `Layout` is such a
text with its tokens, and the tokenizer reads a source as a list of tokens without an error
if and only if a layout has that text and those tokens (`Tokenizer.items_eq_ok_iff`).

A text can be laid out in one way only (`Layout.text_injective`), because what divides it is
local: an item depends on the blank characters before it, on its own text and on one
character more (`Tokenizer.next_of_spells`, `Tokenizer.spells_of_next`).
-/

import Mathlib.Data.List.Chain
import WindowVM.Proofs.Spelling
import WindowVM.Token.Tokenizer

namespace WindowVM

/-! ### Layouts -/

/-- A token with the text it is written as and the blank characters that follow. -/
@[ext]
structure Piece where
  lexeme : List Char
  token : Token
  gap : List Char
  spells : Lexeme.Spells lexeme token
  blank : ∀ c ∈ gap, Text.isBlank c

namespace Piece

/-- All characters of a piece. -/
def text (a : Piece) : List Char := a.lexeme ++ a.gap

/-- Two pieces may follow each other, because there is a gap between them or the first token
does not go on with the second. -/
def Apart (a b : Piece) : Prop :=
  a.gap = [] → ∀ c, b.lexeme.head? = some c → ¬a.token.Absorbs c

end Piece

/-- The tokens of pieces, with the ranges of their bytes from an offset on. -/
def spanned : Nat → List Piece → List SpannedToken
  | _, [] => []
  | start, a :: as =>
    ⟨a.token, ⟨start, start + byteLength a.lexeme⟩⟩ :: spanned (start + byteLength a.text) as

/-- A text divided into blank characters and tokens. -/
@[ext]
structure Layout where
  lead : List Char
  pieces : List Piece
  blank : ∀ c ∈ lead, Text.isBlank c
  apart : pieces.IsChain Piece.Apart

namespace Layout

/-- The whole text. -/
def text (l : Layout) : List Char := l.lead ++ l.pieces.flatMap Piece.text

/-- The tokens with their ranges of bytes. -/
def tokens (l : Layout) : List SpannedToken := spanned (byteLength l.lead) l.pieces

end Layout

/-! ### Where the parts of a text begin -/

variable {c : Char} {lead lead' : List Char} {as bs : List Piece}

/-- Pieces start neither with a blank character nor with a point. -/
theorem head?_pieces (hc : (as.flatMap Piece.text).head? = some c) :
    Text.isBlank c = false ∧ c ≠ '.' := by
  cases as with
  | nil => simp at hc
  | cons a as =>
    obtain ⟨d, ds, hlexeme, hblank, hpoint⟩ := a.spells.exists_cons
    rw [List.flatMap_cons, Piece.text, hlexeme] at hc
    obtain rfl := Option.some.inj hc
    exact ⟨hblank, hpoint⟩

/-- What follows a piece is not part of its token. -/
theorem not_absorbs_of_isChain {a : Piece} (hapart : (a :: as).IsChain Piece.Apart) (d : Char)
    (hd : (a.gap ++ as.flatMap Piece.text).head? = some d) : ¬a.token.Absorbs d ∧ d ≠ '.' := by
  cases hgap : a.gap with
  | cons e gap =>
    rw [hgap] at hd
    obtain rfl := Option.some.inj hd
    have hblank : Text.isBlank e := a.blank e (by rw [hgap]; exact List.mem_cons_self)
    refine ⟨Token.not_absorbs_of_isBlank hblank, ?_⟩
    rintro rfl
    exact absurd hblank (by decide)
  | nil =>
    rw [hgap, List.nil_append] at hd
    refine ⟨?_, (head?_pieces hd).2⟩
    cases as with
    | nil => simp at hd
    | cons b as =>
      refine (List.isChain_cons_cons.1 hapart).1 hgap d ?_
      obtain ⟨e, es, hlexeme, -, -⟩ := b.spells.exists_cons
      rw [List.flatMap_cons, Piece.text, hlexeme] at hd
      rwa [hlexeme]

/-- Blank characters and pieces are told apart by the text. -/
theorem split_lead (hlead : ∀ c ∈ lead, Text.isBlank c) (hlead' : ∀ c ∈ lead', Text.isBlank c)
    (h : lead ++ as.flatMap Piece.text = lead' ++ bs.flatMap Piece.text) :
    lead = lead' ∧ as.flatMap Piece.text = bs.flatMap Piece.text := by
  have hspan := span_append hlead fun _ hc => (@head?_pieces _ as hc).1
  have hspan' := span_append hlead' fun _ hc => (@head?_pieces _ bs hc).1
  exact ⟨by rw [← hspan.1, h, hspan'.1], by rw [← hspan.2, h, hspan'.2]⟩

/-- The pieces of a text are determined by it, the first of them by its longest lexeme. -/
theorem pieces_unique (has : as.IsChain Piece.Apart) (hbs : bs.IsChain Piece.Apart)
    (h : as.flatMap Piece.text = bs.flatMap Piece.text) : as = bs := by
  induction as generalizing bs with
  | nil =>
    cases bs with
    | nil => rfl
    | cons b bs =>
      obtain ⟨c, cs, hlexeme, -, -⟩ := b.spells.exists_cons
      simp [Piece.text, hlexeme] at h
  | cons a as ih =>
    cases bs with
    | nil =>
      obtain ⟨c, cs, hlexeme, -, -⟩ := a.spells.exists_cons
      simp [Piece.text, hlexeme] at h
    | cons b bs =>
      rw [List.flatMap_cons, List.flatMap_cons, Piece.text, Piece.text, List.append_assoc,
        List.append_assoc] at h
      obtain ⟨c, cs, hlexeme, -, -⟩ := a.spells.exists_cons
      have hfirst := a.spells.first?_eq_some (by rw [hlexeme]; rfl) (not_absorbs_of_isChain has)
      have hfirst' := b.spells.first?_eq_some (by rw [← h, hlexeme]; rfl)
        (not_absorbs_of_isChain hbs)
      rw [hfirst, Option.some.injEq, Prod.mk.injEq, Option.some.injEq] at hfirst'
      obtain ⟨hsame, htoken⟩ := hfirst'
      rw [hsame] at h
      obtain ⟨hgap, hrest⟩ := split_lead a.blank b.blank (List.append_cancel_left h)
      exact congrArg₂ List.cons (Piece.ext hsame htoken hgap) (ih has.tail hbs.tail hrest)

/-- A text can be laid out in one way only. -/
theorem Layout.text_injective : Function.Injective Layout.text := by
  intro l l' h
  obtain ⟨hlead, hpieces⟩ := split_lead l.blank l'.blank h
  exact Layout.ext hlead (pieces_unique l.apart l'.apart hpieces)

/-! ### One item -/

namespace Tokenizer

variable {t u : Tokenizer} {cs lexeme rest : List Char} {token : Token}
  {x : SpannedToken}

theorem rest_pass (h : t.rest = cs ++ rest) : (t.pass cs.length).rest = rest := by
  simp [pass, h]

theorem position_pass (h : t.rest = cs ++ rest) :
    (t.pass cs.length).position = t.position + byteLength cs := by
  simp [pass, h]

/-- A tokenizer goes on where the blank characters end. -/
theorem skipBlanks_eq (hrest : t.rest = lead ++ rest) (hlead : ∀ c ∈ lead, Text.isBlank c)
    (hend : ∀ c, rest.head? = some c → Text.isBlank c = false) :
    t.skipBlanks = t.pass lead.length := by
  rw [skipBlanks, hrest, (span_append hlead hend).1]

theorem next_of_blank (hfailed : t.failed = false) (hblank : ∀ c ∈ t.rest, Text.isBlank c) :
    t.next = (none, t.pass t.rest.length) := by
  have hrest : t.rest = t.rest ++ [] := (List.append_nil _).symm
  rw [next, if_neg (by simp [hfailed]), skipBlanks_eq hrest hblank (by simp)]
  simp only [rest_pass hrest]

theorem next_of_append {item : Item} (hfailed : t.failed = false)
    (hrest : t.rest = lead ++ c :: cs) (hlead : ∀ c ∈ lead, Text.isBlank c)
    (hc : Text.isBlank c = false) (hread : (t.pass lead.length).read c cs = (item, u)) :
    t.next = (some item, u) := by
  have hend : ∀ d, (c :: cs).head? = some d → Text.isBlank d = false := by
    rintro d ⟨⟩
    exact hc
  rw [next, if_neg (by simp [hfailed]), skipBlanks_eq hrest hlead hend]
  simp only [rest_pass hrest, hread]

/-- A lexeme of a token is read with its bytes. -/
theorem read_of_first? (h : Lexeme.first? c cs = some (lexeme, some token)) :
    t.read c cs =
      (.ok ⟨token, ⟨t.position, (t.pass lexeme.length).position⟩⟩, t.pass lexeme.length) := by
  rw [read, h]

/-- Nothing else is read without an error. -/
theorem first?_of_read (h : t.read c cs = (.ok x, u)) :
    ∃ lexeme, Lexeme.first? c cs = some (lexeme, some x.token) ∧
      x.span = ⟨t.position, (t.pass lexeme.length).position⟩ ∧ u = t.pass lexeme.length := by
  rw [read] at h
  split at h
  · simp at h
  · rename_i lexeme token hfirst
    cases token with
    | none => simp at h
    | some token =>
      simp only [Prod.mk.injEq, Except.ok.injEq] at h
      obtain ⟨rfl, rfl⟩ := h
      exact ⟨lexeme, hfirst, rfl, rfl⟩

/-- A token that stands next is read, with its bytes. -/
theorem next_of_spells (hfailed : t.failed = false) (hrest : t.rest = lead ++ (lexeme ++ rest))
    (hlead : ∀ c ∈ lead, Text.isBlank c) (hspells : Lexeme.Spells lexeme token)
    (hend : ∀ d, rest.head? = some d → ¬token.Absorbs d ∧ d ≠ '.') :
    ∃ u, t.next = (some (.ok ⟨token, ⟨t.position + byteLength lead,
        t.position + byteLength lead + byteLength lexeme⟩⟩), u) ∧
      u.failed = false ∧ u.rest = rest ∧
      u.position = t.position + byteLength lead + byteLength lexeme := by
  have hlexeme := rest_pass hrest
  have hposition := position_pass hlexeme
  rw [position_pass hrest] at hposition
  refine ⟨(t.pass lead.length).pass lexeme.length, ?_, hfailed, rest_pass hlexeme, hposition⟩
  obtain ⟨c, cs, rfl, hc, -⟩ := hspells.exists_cons
  refine next_of_append hfailed hrest hlead hc ?_
  rw [read_of_first? (hspells.first?_eq_some rfl hend), hposition, position_pass hrest]

/-- The next item is read where the blank characters end. -/
theorem read_of_next {item : Item} (h : t.next = (some item, u)) :
    t.failed = false ∧ ∃ lead c cs, t.rest = lead ++ c :: cs ∧
      (∀ d ∈ lead, Text.isBlank d) ∧ Text.isBlank c = false ∧
      (t.pass lead.length).read c cs = (item, u) := by
  have hfailed : t.failed = false := by
    rw [← Bool.not_eq_true]
    intro hfailed
    simp [next, hfailed] at h
  obtain ⟨lead, rest, hrest, hlead, hend⟩ := exists_span Text.isBlank t.rest
  cases rest with
  | nil =>
    rw [List.append_nil] at hrest
    rw [next_of_blank hfailed (hrest ▸ hlead)] at h
    simp at h
  | cons c cs =>
    refine ⟨hfailed, lead, c, cs, hrest, hlead, hend c rfl, ?_⟩
    obtain ⟨item', v, hread⟩ : ∃ item v, (t.pass lead.length).read c cs = (item, v) :=
      ⟨_, _, rfl⟩
    rw [next_of_append hfailed hrest hlead (hend c rfl) hread, Prod.mk.injEq,
      Option.some.injEq] at h
    rw [hread, h.1, h.2]

/-- A token that was read stood next, and does not go on with what follows. -/
theorem spells_of_next (h : t.next = (some (.ok x), u)) :
    u.failed = false ∧ ∃ lead lexeme, t.rest = lead ++ (lexeme ++ u.rest) ∧
      (∀ c ∈ lead, Text.isBlank c) ∧ Lexeme.Spells lexeme x.token ∧
      x.span = ⟨t.position + byteLength lead,
        t.position + byteLength lead + byteLength lexeme⟩ ∧
      u.position = t.position + byteLength lead + byteLength lexeme ∧
      ∀ d, u.rest.head? = some d → ¬x.token.Absorbs d := by
  obtain ⟨hfailed, lead, c, cs, hrest, hlead, -, hread⟩ := read_of_next h
  obtain ⟨lexeme, hfirst, hspan, rfl⟩ := first?_of_read hread
  obtain ⟨hspells, rest, htext, hafter⟩ := Lexeme.spells_of_first? hfirst
  rw [htext] at hrest
  have hlexeme := rest_pass hrest
  have hposition := position_pass hlexeme
  rw [position_pass hrest] at hposition hspan
  rw [hposition] at hspan
  refine ⟨hfailed, lead, lexeme, ?_, hlead, hspells, hspan, hposition, ?_⟩
  · rwa [rest_pass hlexeme]
  · rwa [rest_pass hlexeme]

/-- Nothing is left but blank characters when there is no next item. -/
theorem blank_of_next (hfailed : t.failed = false) (h : t.next = (none, u)) :
    ∀ c ∈ t.rest, Text.isBlank c := by
  obtain ⟨lead, rest, hrest, hlead, hend⟩ := exists_span Text.isBlank t.rest
  cases rest with
  | nil =>
    rw [List.append_nil] at hrest
    exact hrest ▸ hlead
  | cons c cs =>
    rw [next_of_append hfailed hrest hlead (hend c rfl) rfl] at h
    simp at h

/-! ### Whole texts -/

/-- A text that is laid out is read as its tokens. -/
theorem drain_of_layout {as : List Piece} (hfailed : t.failed = false)
    (hrest : t.rest = lead ++ as.flatMap Piece.text) (hlead : ∀ c ∈ lead, Text.isBlank c)
    (hapart : as.IsChain Piece.Apart) :
    t.drain.1 = (spanned (t.position + byteLength lead) as).map .ok := by
  -- What is left starts with the gap of the piece before, which leads the next one.
  induction as generalizing t lead with
  | nil =>
    rw [List.flatMap_nil, List.append_nil] at hrest
    rw [drain_of_none (next_of_blank hfailed (hrest ▸ hlead))]
    rfl
  | cons a as ih =>
    have htext : t.rest = lead ++ (a.lexeme ++ (a.gap ++ as.flatMap Piece.text)) := by
      rw [hrest, List.flatMap_cons, Piece.text, List.append_assoc]
    obtain ⟨u, hnext, hu, hurest, huposition⟩ :=
      next_of_spells hfailed htext hlead a.spells (not_absorbs_of_isChain hapart)
    rw [drain_of_some hnext, ih hu hurest a.blank hapart.tail, huposition, spanned, Piece.text,
      byteLength_append, List.map_cons]
    simp only [Nat.add_assoc]

/-- Whether blank characters were passed makes no difference to what is left to read. -/
theorem drain_skipBlanks (hfailed : t.failed = false) : t.skipBlanks.drain = t.drain := by
  have hnext : t.skipBlanks.next = t.next := by
    obtain ⟨lead, rest, hrest, hlead, hend⟩ := exists_span Text.isBlank t.rest
    have hskip := skipBlanks_eq hrest hlead hend
    have hskipped : t.skipBlanks.skipBlanks = t.skipBlanks := by
      have hnone : t.skipBlanks.rest = [] ++ rest := by
        rw [hskip, rest_pass hrest, List.nil_append]
      rw [skipBlanks_eq hnone (by simp) hend]
      rfl
    simp [next, hskipped, hfailed, show t.skipBlanks.failed = false from hfailed]
  obtain ⟨result, u, hresult⟩ : ∃ result u, t.next = (result, u) := ⟨_, _, rfl⟩
  cases result with
  | none => rw [drain_of_none hresult, drain_of_none (hnext.trans hresult)]
  | some item => rw [drain_of_some hresult, drain_of_some (hnext.trans hresult)]

/-- A token before a layout makes a layout, the blank characters that led being its gap. -/
theorem exists_layout_cons (l : Layout) (hlead : ∀ c ∈ lead, Text.isBlank c)
    (hspells : Lexeme.Spells lexeme token)
    (hend : ∀ c, l.text.head? = some c → ¬token.Absorbs c) :
    ∃ l' : Layout, l'.text = lead ++ (lexeme ++ l.text) ∧ ∀ start,
      spanned (start + byteLength l'.lead) l'.pieces =
        ⟨token, ⟨start + byteLength lead, start + byteLength lead + byteLength lexeme⟩⟩ ::
          spanned (start + byteLength lead + byteLength lexeme + byteLength l.lead) l.pieces := by
  let a : Piece := ⟨lexeme, token, l.lead, hspells, l.blank⟩
  have hapart : (a :: l.pieces).IsChain Piece.Apart := by
    refine List.isChain_cons.2 ⟨fun b hb hgap c hc => hend c ?_, l.apart⟩
    obtain ⟨bs, hpieces⟩ := List.head?_eq_some_iff.1 hb
    have hempty : l.lead = [] := hgap
    rw [Layout.text, hempty, hpieces, List.nil_append, List.flatMap_cons, Piece.text,
      List.append_assoc, List.head?_append, hc, Option.some_or]
  refine ⟨⟨lead, a :: l.pieces, hlead, hapart⟩, ?_, fun start => ?_⟩
  · rw [Layout.text, Layout.text, List.flatMap_cons, Piece.text, List.append_assoc]
  · rw [spanned, Piece.text, byteLength_append, ← Nat.add_assoc (start + byteLength lead)]

/-- **A text of which tokens were read is laid out** up to where the next item starts. -/
theorem exists_layout_of_append {ts : List SpannedToken} {items : List Item}
    (hfailed : t.failed = false) (h : t.drain.1 = ts.map .ok ++ items) :
    ∃ (l : Layout) (u : Tokenizer), t.rest = l.text ++ u.rest ∧
      ts = spanned (t.position + byteLength l.lead) l.pieces ∧ u.failed = false ∧
      u.position = t.position + byteLength l.text ∧ u.drain = (items, t.drain.2) ∧
      ∀ c, u.rest.head? = some c → Text.isBlank c = false := by
  obtain ⟨next, u, hnext⟩ : ∃ next u, t.next = (next, u) := ⟨_, _, rfl⟩
  induction ts generalizing t next u with
  | nil =>
    obtain ⟨lead, rest, hrest, hlead, hend⟩ := exists_span Text.isBlank t.rest
    have hskip := skipBlanks_eq hrest hlead hend
    have htext : (⟨lead, [], hlead, .nil⟩ : Layout).text = lead := List.append_nil lead
    refine ⟨⟨lead, [], hlead, .nil⟩, t.skipBlanks, ?_, rfl, hfailed, ?_, ?_, ?_⟩
    · rw [hskip, rest_pass hrest, hrest, htext]
    · rw [hskip, position_pass hrest, htext]
    · rw [drain_skipBlanks hfailed, ← show t.drain.1 = items from h]
    · rwa [hskip, rest_pass hrest]
  | cons x ts ih =>
    cases next with
    | none => simp [drain_of_none hnext] at h
    | some item =>
      rw [drain_of_some hnext, List.map_cons, List.cons_append, List.cons.injEq] at h
      obtain ⟨rfl, hdrain⟩ := h
      obtain ⟨hu, lead, lexeme, hrest, hlead, hspells, hspan, hposition, hend⟩ :=
        spells_of_next hnext
      obtain ⟨l, v, hurest, htokens, hv, hvposition, hvdrain, hvhead⟩ :=
        ih hu hdrain u.next.1 u.next.2 rfl
      obtain ⟨l', htext, hspanned⟩ := exists_layout_cons l hlead hspells fun c hc =>
        hend c (by rw [hurest, List.head?_append, hc, Option.some_or])
      refine ⟨l', v, ?_, ?_, hv, ?_, ?_, hvhead⟩
      · rw [hrest, hurest, htext]
        simp only [List.append_assoc]
      · rw [hspanned, htokens, hposition, ← hspan]
      · rw [hvposition, hposition, htext]
        simp only [byteLength_append, Nat.add_assoc]
      · rw [hvdrain, drain_of_some hnext]

/-- A text that is read as tokens can be laid out. -/
theorem exists_layout_of_drain {ts : List SpannedToken} (hfailed : t.failed = false)
    (h : t.drain.1 = ts.map .ok) :
    ∃ l : Layout, t.rest = l.text ∧ ts = spanned (t.position + byteLength l.lead) l.pieces := by
  obtain ⟨l, u, hrest, htokens, hu, -, hdrain, hhead⟩ :=
    exists_layout_of_append hfailed (h.trans (List.append_nil _).symm)
  obtain ⟨result, v, hnext⟩ : ∃ result v, u.next = (result, v) := ⟨_, _, rfl⟩
  cases result with
  | some item => simp [drain_of_some hnext] at hdrain
  | none =>
    -- All that is left is blank, and it does not start with a blank character.
    have hempty : u.rest = [] := by
      have hblank := blank_of_next hu hnext
      cases hleft : u.rest with
      | nil => rfl
      | cons c cs =>
        rw [hleft] at hblank hhead
        have hc := hblank c List.mem_cons_self
        rw [hhead c rfl] at hc
        cases hc
    rw [hempty, List.append_nil] at hrest
    exact ⟨l, hrest, htokens⟩

/-- **The tokenizer accepts exactly the texts that can be laid out**, and reads them as the
tokens of the layout, of which there is one. -/
theorem items_eq_ok_iff (source : String) (ts : List SpannedToken) :
    (items source = ts.map .ok ↔ ∃ l : Layout, l.text = source.toList ∧ l.tokens = ts) ∧
      ∀ l l' : Layout, l.text = source.toList → l'.text = source.toList → l = l' := by
  refine ⟨?_, fun l l' h h' => Layout.text_injective (h.trans h'.symm)⟩
  constructor
  · intro h
    obtain ⟨l, htext, htokens⟩ := exists_layout_of_drain rfl h
    exact ⟨l, htext.symm, by rw [htokens, Layout.tokens, ofString, Nat.zero_add]⟩
  · rintro ⟨l, htext, rfl⟩
    rw [items, drain_of_layout rfl htext.symm l.blank l.apart, Layout.tokens, ofString,
      Nat.zero_add]

/-- A minus sign is part of the number that it touches, also right after a name. -/
theorem layout_of_touching : ∃ l : Layout, l.text = "x-5 - 7".toList ∧ l.tokens =
    [⟨.identifier "x", ⟨0, 1⟩⟩, ⟨.signed (-5), ⟨1, 3⟩⟩, ⟨.punct .minus, ⟨4, 5⟩⟩,
      ⟨.unsigned 7, ⟨6, 7⟩⟩] :=
  (items_eq_ok_iff "x-5 - 7" _).1.1 (by decide +kernel)

end Tokenizer
end WindowVM
