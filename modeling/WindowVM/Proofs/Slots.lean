/-
# The slots of the arena

No slot is lost, and none serves two frames.  `CallStack.Tidy` says how the slots are shared
out: the lowest ones hold the live frames, the root in the first of them, and the free list
names the others in ascending order, the lowest at its head.  So a push takes the lowest
empty slot, and the list never has more entries than there are slots.

Nor is there ever a slot too many.  An operation adds one only when more frames are live than
there were slots (`Holds.size_perform`), so there are as many as frames were ever live at
once (`tidy_performAll`).
-/

import Mathlib.Data.List.Induction
import Mathlib.Order.Bounds.Lattice
import WindowVM.Proofs.FrameList

namespace WindowVM
namespace CallStack

/-- Each slot holds a live frame or is named by the free list. -/
structure Tidy (c : CallStack) : Prop where
  live_le : c.live ≤ c.slots.size
  length_chain : c.chain.length = c.live
  /-- Each live frame has a slot of its own, the root the lowest. -/
  taken : ∀ slot, slot < c.live →
    ∃ f, c.chain.reverse[slot]? = some f ∧ c.slots[slot]? = some (some f)
  empty : ∀ slot, c.live ≤ slot → slot < c.slots.size → c.slots[slot]? = some none
  /-- The free list has the other slots in order. -/
  free_eq : c.free = List.range' c.live (c.slots.size - c.live)
  mem_free : ∀ slot, slot ∈ c.free ↔ c.slots[slot]? = some none
  nodup_free : c.free.Nodup
  length_free_le : c.free.length ≤ c.slots.size
  /-- A push that the limit allows takes the lowest empty slot. -/
  push : ∀ f, c.limit.any (· ≤ c.live) = false → ∃ d, c.push f = (.ok c.live, d)

section

variable {limit : Option Nat} {spare : Nat} {fs : List Frame}

theorem exists_slots_packed {slot : Nat} (h : slot < fs.length) :
    ∃ f, fs.reverse[slot]? = some f ∧
      (packed limit spare fs).slots[slot]? = some (some f) := by
  have hreverse : slot < fs.reverse.length := by simpa using h
  refine ⟨fs.reverse[slot], List.getElem?_eq_getElem hreverse, ?_⟩
  rw [slots_packed_of_lt h, List.getElem?_eq_getElem hreverse]

/-- The free list of a packed stack names the empty slots. -/
theorem mem_free_packed (slot : Nat) :
    slot ∈ (packed limit spare fs).free ↔ (packed limit spare fs).slots[slot]? = some none := by
  have hmem : slot ∈ (packed limit spare fs).free ↔
      fs.length ≤ slot ∧ slot < fs.length + spare := List.mem_range'_1
  rw [hmem]
  rcases Nat.lt_or_ge slot fs.length with hlt | hle
  · obtain ⟨f, -, hf⟩ := @exists_slots_packed limit spare fs slot hlt
    rw [hf]
    constructor
    · rintro ⟨hle, -⟩
      omega
    · intro hnone
      cases hnone
  · rw [slots_packed_of_le hle]
    split
    · rename_i hlt
      exact iff_of_true ⟨hle, hlt⟩ rfl
    · rename_i hge
      exact iff_of_false (fun hslot => hge hslot.2) nofun

/-- A packed stack is tidy. -/
theorem tidy_packed (h : Linked fs) : (packed limit spare fs).Tidy := by
  have hsize := size_packed limit spare fs
  constructor
  case live_le =>
    rw [hsize]
    exact Nat.le_add_right ..
  case length_chain => rw [chain_packed h, packed]
  case taken =>
    rw [chain_packed h]
    exact fun slot => exists_slots_packed
  case empty =>
    intro slot hle hlt
    rw [slots_packed_of_le hle, if_pos (hsize ▸ hlt)]
  case free_eq =>
    rw [hsize]
    simp [packed]
  case mem_free => exact mem_free_packed
  case nodup_free => exact List.nodup_range' 1
  case length_free_le =>
    rw [hsize, packed, List.length_range']
    exact Nat.le_add_left ..
  case push =>
    intro f hroom
    have hfull : ¬limit.any (· ≤ fs.length) = true := Bool.eq_false_iff.1 hroom
    have hpush := push_packed limit spare fs f
    rw [if_neg hfull] at hpush
    exact ⟨_, hpush⟩

end

namespace Holds

variable {c : CallStack} {fs : List Frame}

theorem tidy (h : c.Holds fs) : c.Tidy := by
  obtain ⟨hl, spare, hc⟩ := h
  rw [hc]
  exact tidy_packed hl

/-- A push needs a new slot only if all of them are taken. -/
theorem size_push (h : c.Holds fs) (f : Frame) :
    (perform.pushed (c.push f)).2.slots.size =
      max c.slots.size (perform.pushed (c.push f)).2.live := by
  obtain ⟨-, spare, hc⟩ := h
  rw [hc, push_packed]
  split
  · show (packed c.limit spare fs).slots.size = max _ fs.length
    rw [size_packed]
    omega
  · show (packed c.limit (spare - 1) (f :: fs)).slots.size = max _ (f :: fs).length
    rw [size_packed, size_packed, List.length_cons]
    omega

/-- A pop leaves the slots as many as they were. -/
theorem size_pop (h : c.Holds fs) :
    (c.perform .pop).2.slots.size = max c.slots.size (c.perform .pop).2.live := by
  obtain ⟨hl, spare, hc⟩ := h
  rw [hc, perform]
  cases fs with
  | nil =>
    rw [pop_packed_nil]
    show (packed c.limit spare []).slots.size = max _ 0
    omega
  | cons f fs =>
    rw [pop_packed hl.1]
    show (packed c.limit (spare + 1) fs).slots.size = max _ fs.length
    rw [size_packed, size_packed, List.length_cons]
    omega

/-- So does an unwinding. -/
theorem size_unwind (h : c.Holds fs) :
    (c.perform .unwind).2.slots.size = max c.slots.size (c.perform .unwind).2.live := by
  obtain ⟨hl, spare, hc⟩ := h
  rw [hc, perform, unwind_packed hl]
  show (packed c.limit (spare + fs.length) []).slots.size = max _ 0
  rw [size_packed, size_packed, List.length_nil]
  omega

/-- **An operation adds a slot only for a frame that has none,** and takes none away. -/
theorem size_perform (h : c.Holds fs) (op : Op) :
    (c.perform op).2.slots.size = max c.slots.size (c.perform op).2.live := by
  have hsame : c.slots.size = max c.slots.size c.live := (max_eq_left h.tidy.live_le).symm
  cases op with
  | pushRoot w =>
    rw [CallStack.perform, CallStack.pushRoot]
    split
    · exact hsame
    · exact h.size_push _
  | pushCall w resumePc destination =>
    rw [CallStack.perform, CallStack.pushCall]
    split
    · exact hsame
    · exact h.size_push _
  | pop => exact h.size_pop
  | unwind => exact h.size_unwind
  | get slot => exact hsame

end Holds

/-- The last of several operations is run on what the others leave. -/
theorem performAll_concat (c : CallStack) (ops : List Op) (op : Op) :
    (c.performAll (ops ++ [op])).2 = ((c.performAll ops).2.perform op).2 := by
  induction ops generalizing c with
  | nil => rfl
  | cons first ops ih => exact ih (c.perform first).2

theorem exists_holds (limit : Option Nat) (ops : List Op) :
    ∃ fs, ((empty limit).performAll ops).2.Holds fs := by
  obtain ⟨s, h⟩ := (Matches.empty limit).performAll ops
  exact ⟨_, h.holds⟩

/-- An operation that stops short changes nothing, whatever came before it. -/
theorem eq_of_performAll_error {limit : Option Nat} {ops : List Op} {op : Op} {stop : Stop}
    {d : CallStack} (h : ((empty limit).performAll ops).2.perform op = (.error stop, d)) :
    d = ((empty limit).performAll ops).2 := by
  obtain ⟨fs, hfs⟩ := exists_holds limit ops
  exact hfs.eq_of_perform_error h

/-- How many frames were live at first and after each of some operations. -/
def liveCounts (limit : Option Nat) (ops : List Op) : Set Nat :=
  {n | ∃ before, before <+: ops ∧ ((empty limit).performAll before).2.live = n}

theorem liveCounts_nil (limit : Option Nat) : liveCounts limit [] = {0} := by
  ext n
  simp only [liveCounts, List.prefix_nil, exists_eq_left, Set.mem_ofPred_eq,
    Set.mem_singleton_iff]
  exact eq_comm

theorem liveCounts_concat (limit : Option Nat) (ops : List Op) (op : Op) :
    liveCounts limit (ops ++ [op]) =
      insert ((empty limit).performAll (ops ++ [op])).2.live (liveCounts limit ops) := by
  ext n
  simp only [liveCounts, List.prefix_concat_iff, or_and_right, exists_or, exists_eq_left,
    Set.mem_insert_iff, Set.mem_ofPred_eq, eq_comm]

/-- **There are as many slots as frames were ever live at once.** -/
theorem isGreatest_liveCounts (limit : Option Nat) (ops : List Op) :
    IsGreatest (liveCounts limit ops) ((empty limit).performAll ops).2.slots.size := by
  induction ops using List.reverseRecOn with
  | nil =>
    rw [liveCounts_nil]
    exact isGreatest_singleton
  | append_singleton ops op ih =>
    obtain ⟨fs, h⟩ := exists_holds limit ops
    rw [liveCounts_concat, performAll_concat, h.size_perform, max_comm]
    exact ih.insert _

/-- **The arena is tidy and no larger than it had to be.**  After any operations, also those
that were refused, its lowest slots hold the live frames, the free list names the others in
ascending order, and there are as many slots as frames were ever live at once. -/
theorem tidy_performAll (limit : Option Nat) (ops : List Op) :
    ((empty limit).performAll ops).2.Tidy ∧
      IsGreatest (liveCounts limit ops) ((empty limit).performAll ops).2.slots.size := by
  obtain ⟨fs, h⟩ := exists_holds limit ops
  exact ⟨h.tidy, isGreatest_liveCounts limit ops⟩

/-- The hypotheses are satisfiable: a call without a caller, a fourth frame and a second root are
refused, and after two pops the second of three slots is taken next. -/
theorem tidy_performAll_of_refusal :
    ∃ c, ((empty (some 3)).performAll [.pushCall ⟨0, 1⟩ 0 0, .pushRoot ⟨0, 2⟩,
        .pushCall ⟨2, 1⟩ 1 0, .pushCall ⟨3, 4⟩ 5 0, .pushCall ⟨7, 1⟩ 6 0, .pop, .pop,
        .pushRoot ⟨0, 2⟩]).2 = c ∧
      c.live = 1 ∧ c.slots.size = 3 ∧ c.free = [1, 2] ∧ c.slots[2]? = some none ∧
      ∃ d, c.push ⟨⟨2, 5⟩, some ⟨0, 9, 1⟩⟩ = (.ok 1, d) := by
  have htidy := (tidy_performAll (some 3) [.pushCall ⟨0, 1⟩ 0 0, .pushRoot ⟨0, 2⟩,
    .pushCall ⟨2, 1⟩ 1 0, .pushCall ⟨3, 4⟩ 5 0, .pushCall ⟨7, 1⟩ 6 0, .pop, .pop,
    .pushRoot ⟨0, 2⟩]).1
  exact ⟨_, rfl, rfl, rfl, rfl, htidy.empty 2 (by decide) (by decide), htidy.push _ rfl⟩

end CallStack
end WindowVM
