/-
# How the items of a source end

However often `next` is called, what it returns is one finite list: the items that draining
the source finds, and nothing from then on (`Tokenizer.next_calls`).  The list is no longer
than the source has characters that are not blank (`Tokenizer.length_drain_le`), because
every token takes one of them at least, and an error, which may take none, stands in front
of one and is the last item.

Nothing changes any more once a call returned no token (`Tokenizer.calls_of_next_eq`).
-/

import WindowVM.Proofs.Coverage

namespace WindowVM
namespace Tokenizer

variable {t u : Tokenizer} {result : Option Item} {item : Item} {x : SpannedToken}
  {e : TokenError}

/-! ### Calls after the last item -/

theorem next_of_failed (h : t.failed = true) : t.next = (none, t) := by
  rw [next, if_pos h]

/-- Where there was no next item, a call changes nothing. -/
theorem next_of_none (h : t.next = (none, u)) : u.next = (none, u) := by
  obtain ⟨-, -, -, hfailed, hempty⟩ := exists_gap_of_next h
  by_cases hu : u.failed = true
  · exact next_of_failed hu
  · rw [Bool.not_eq_true] at hu
    have hrest : u.rest = [] := hempty (hfailed ▸ hu)
    have hblank : ∀ c ∈ u.rest, Text.isBlank c := by simp [hrest]
    rw [next_of_blank hu hblank, hrest, List.length_nil, pass_zero]

/-- Nor does it after an error. -/
theorem next_of_error (h : t.next = (some (.error e), u)) : u.next = (none, u) :=
  next_of_failed (misread_of_next h).1

/-- A call that changes nothing may be made any number of times. -/
theorem calls_of_next_eq (h : t.next = (none, t)) (j : Nat) :
    t.calls j = (List.replicate j none, t) := by
  induction j with
  | zero => rfl
  | succ j ih => simp [calls, ih, h, List.replicate_succ']

/-! ### Calls and items -/

/-- Several calls are the first one and then the others. -/
theorem calls_succ (t : Tokenizer) (k : Nat) :
    t.calls (k + 1) = (t.next.1 :: (t.next.2.calls k).1, (t.next.2.calls k).2) := by
  induction k with
  | zero => rfl
  | succ k ih =>
    rw [calls, ih]
    rfl

/-- **A call returns the item that is next**, and nothing after the last one. -/
theorem next_calls (t : Tokenizer) (k : Nat) : (t.calls k).2.next.1 = t.drain.1[k]? := by
  fun_induction drain t generalizing k with
  | case1 t u hnext =>
    cases k with
    | zero => simp [calls, hnext]
    | succ k =>
      have hend := next_of_none hnext
      rw [calls_succ, hnext, calls_of_next_eq hend, hend]
      rfl
  | case2 t item u hnext items v hdrain ih =>
    rw [hdrain] at ih
    cases k with
    | zero => simp [calls, hnext]
    | succ k =>
      rw [calls_succ, hnext, List.getElem?_cons_succ]
      exact ih k

/-! ### How many items there are -/

/-- A token takes a character that is not blank. -/
theorem countP_lt_of_next (h : t.next = (some (.ok x), u)) :
    u.rest.countP (!Text.isBlank ·) < t.rest.countP (!Text.isBlank ·) := by
  obtain ⟨-, lead, lexeme, hrest, -, hspells, -⟩ := spells_of_next h
  obtain ⟨c, cs, rfl, hc, -⟩ := hspells.exists_cons
  rw [hrest, List.countP_append, List.countP_append, List.countP_cons_of_pos (by simp [hc])]
  omega

/-- An error stands in front of one. -/
theorem countP_pos_of_next (h : t.next = (some item, u)) :
    0 < t.rest.countP (!Text.isBlank ·) := by
  obtain ⟨-, lead, c, cs, hrest, -, hc, -⟩ := read_of_next h
  rw [hrest, List.countP_append, List.countP_cons_of_pos (by simp [hc])]
  omega

/-- There are no more items than characters that are not blank. -/
theorem length_drain_le (t : Tokenizer) : t.drain.1.length ≤ t.rest.countP (!Text.isBlank ·) := by
  fun_induction drain t with
  | case1 t u hnext => exact Nat.zero_le _
  | case2 t item u hnext items v hdrain ih =>
    rw [List.length_cons]
    cases item with
    | ok x =>
      have hlt := countP_lt_of_next hnext
      have hle : items.length ≤ u.rest.countP (!Text.isBlank ·) := by simpa [hdrain] using ih
      omega
    | error e =>
      rw [drain_of_failed (misread_of_next hnext).1, Prod.mk.injEq] at hdrain
      rw [← hdrain.1]
      exact countP_pos_of_next hnext

/-- A token takes at least a byte. -/
theorem position_lt_of_next (h : t.next = (some (.ok x), u)) : t.position < u.position := by
  obtain ⟨-, lead, lexeme, -, -, hspells, -, hposition, -⟩ := spells_of_next h
  obtain ⟨c, cs, rfl, -, -⟩ := hspells.exists_cons
  have hpos := c.utf8Size_pos
  rw [hposition, byteLength_cons]
  omega

/-- An error is the last item. -/
theorem length_of_error {k : Nat} (h : t.drain.1[k]? = some (.error e)) :
    k + 1 = t.drain.1.length := by
  obtain ⟨ts, hts | ⟨e', hts⟩⟩ := exists_tokens t
  · rw [hts, List.getElem?_map, Option.map_eq_some_iff] at h
    obtain ⟨x, -, hx⟩ := h
    cases hx
  · rw [hts] at h ⊢
    rcases Nat.lt_or_ge k ts.length with hlt | hge
    · simp [List.getElem?_append_left, hlt] at h
    · have hlength := (List.getElem?_eq_some_iff.1 h).1
      simp only [List.length_append, List.length_map, List.length_singleton] at hlength ⊢
      omega

/-! ### Where draining ends -/

/-- Draining leaves no next item. -/
theorem next_drain (t : Tokenizer) : t.drain.2.next = (none, t.drain.2) := by
  fun_induction drain t with
  | case1 t u hnext => exact next_of_none hnext
  | case2 t item u hnext items v hdrain ih =>
    rw [hdrain] at ih
    exact ih

/-- Draining fails exactly if one of the items is an error. -/
theorem failed_drain_iff (hfailed : t.failed = false) :
    t.drain.2.failed = true ↔ ∃ e, .error e ∈ t.drain.1 := by
  fun_induction drain t with
  | case1 t u hnext =>
    obtain ⟨-, -, -, hu, -⟩ := exists_gap_of_next hnext
    simp [hu, hfailed]
  | case2 t item u hnext items v hdrain ih =>
    cases item with
    | ok x =>
      rw [hdrain] at ih
      simp [ih (spells_of_next hnext).1]
    | error e =>
      have hu := (misread_of_next hnext).1
      rw [drain_of_failed hu, Prod.mk.injEq] at hdrain
      rw [← hdrain.2]
      exact iff_of_true hu ⟨e, List.mem_cons_self⟩

/-- Draining passes the whole source, unless it fails. -/
theorem rest_drain (hfailed : t.drain.2.failed = false) : t.drain.2.rest = [] := by
  obtain ⟨-, -, -, -, hempty⟩ := exists_gap_of_next (next_drain t)
  exact hempty hfailed

theorem source_drain (t : Tokenizer) : t.drain.2.source = t.source := by
  fun_induction drain t with
  | case1 t u hnext => exact source_of_next hnext
  | case2 t item u hnext items v hdrain ih =>
    rw [hdrain] at ih
    exact ih.trans (source_of_next hnext)

theorem position_drain (hfailed : t.drain.2.failed = false) :
    t.drain.2.position = byteLength t.source := by
  rw [← source_drain, source, rest_drain hfailed, List.append_nil, position_eq_reverse]

/-- A tokenizer that is reset stands at the start of its source. -/
theorem reset_eq_ofString {source : String} (h : t.source = source.toList) :
    t.reset = ofString source := by
  rw [reset, ofString]
  simp only [h]

/-! ### The end of the tokens of a source -/

/-- What the calls of `next` on a source come to. -/
structure Fused (source : String) : Prop where
  /-- They return the items in order, and nothing after the last one. -/
  next_eq : ∀ k, ((ofString source).calls k).2.next.1 = (items source)[k]?
  length_le : (items source).length ≤ source.toList.countP (!Text.isBlank ·)
  error_last : ∀ k e, (items source)[k]? = some (.error e) → k + 1 = (items source).length
  position_lt : ∀ k x u, ((ofString source).calls k).2.next = (some (.ok x), u) →
    ((ofString source).calls k).2.position < u.position
  /-- Once a call returned no token, none returns anything or changes where the tokenizer
  stands. -/
  ended : ∀ k result u, ((ofString source).calls k).2.next = (result, u) →
    (result = none ∨ ∃ e, result = some (.error e)) → ∀ j, u.calls j = (List.replicate j none, u)
  /-- A reset starts over with the same source. -/
  reset_eq : ∀ k, ((ofString source).calls k).2.reset = ofString source

/-- **The items of every source end**, with an error if there is one, and for good. -/
theorem fused (source : String) : Fused source where
  next_eq := next_calls _
  length_le := length_drain_le _
  error_last k e h := length_of_error h
  position_lt k x u h := position_lt_of_next h
  ended k result u hnext hend := by
    refine calls_of_next_eq ?_
    rcases hend with rfl | ⟨e, rfl⟩
    · exact next_of_none hnext
    · exact next_of_error hnext
  reset_eq k := reset_eq_ofString (reading_calls source k).source_eq

end Tokenizer
end WindowVM
