/-
# The arena holds a list of frames

Whatever was pushed and popped, the frames that are live fill the slots of the arena
from below, in the order in which they were called, and the free list names the slots
above them in ascending order.  So a call stack is determined by its list of frames, its
limit and the number of empty slots: `CallStack.packed` builds it from these, and
`push_packed`, `pop_packed` and `unwind_packed` say that the operations lead from one
packed stack to another.

The slot of a frame is then the number of frames it was called from, and its link names
the slot one below (`Linked`).
-/

import WindowVM.CallStack

namespace WindowVM
namespace CallStack

/-- The slot of the current frame. -/
def topSlot? : List Frame → Option Slot
  | [] => none
  | _ :: fs => some fs.length

/-- Each frame is linked to the slot of the next one, and the last to none. -/
def Linked : List Frame → Prop
  | [] => True
  | f :: fs => f.caller = topSlot? fs ∧ Linked fs

/-- The slots that hold these frames, the current one highest, below `spare` empty ones. -/
def packedSlots (spare : Nat) (fs : List Frame) : List (Option Frame) :=
  (fs.map some).reverse ++ List.replicate spare none

/-- The call stack with these frames, the current one first, and `spare` empty slots. -/
def packed (limit : Option Nat) (spare : Nat) (fs : List Frame) : CallStack :=
  { slots := (packedSlots spare fs).toArray
    free := List.range' fs.length spare
    current := topSlot? fs
    live := fs.length
    limit }

theorem packedSlots_getElem?_top (spare : Nat) (f : Frame) (fs : List Frame) :
    (packedSlots spare (f :: fs))[fs.length]? = some (some f) := by
  simp [packedSlots]

theorem packedSlots_getElem?_free (spare : Nat) (fs : List Frame) :
    (packedSlots (spare + 1) fs)[fs.length]? = some none := by
  simp [packedSlots, List.replicate_succ]

/-- Filling the lowest empty slot. -/
theorem packedSlots_set_some (spare : Nat) (f : Frame) (fs : List Frame) :
    (packedSlots (spare + 1) fs).set fs.length (some f) = packedSlots spare (f :: fs) := by
  simp [packedSlots, List.replicate_succ, List.set_append_right]

/-- Emptying the highest slot in use. -/
theorem packedSlots_set_none (spare : Nat) (f : Frame) (fs : List Frame) :
    (packedSlots spare (f :: fs)).set fs.length none = packedSlots (spare + 1) fs := by
  simp [packedSlots, List.replicate_succ, List.set_append_right]

theorem size_packed (limit : Option Nat) (spare : Nat) (fs : List Frame) :
    (packed limit spare fs).slots.size = fs.length + spare := by
  simp [packed, packedSlots]

/-- The lowest slots hold the frames, the root in the first of them. -/
theorem slots_packed_of_lt {limit : Option Nat} {spare slot : Nat} {fs : List Frame}
    (h : slot < fs.length) : (packed limit spare fs).slots[slot]? = some fs.reverse[slot]? := by
  have hlen : slot < (fs.map some).reverse.length := by simpa using h
  rw [packed, List.getElem?_toArray, packedSlots, List.getElem?_append_left hlen,
    ← List.map_reverse, List.getElem?_map, List.getElem?_eq_getElem (by simpa using h)]
  rfl

/-- The slots above the frames are empty. -/
theorem slots_packed_of_le {limit : Option Nat} {spare slot : Nat} {fs : List Frame}
    (h : fs.length ≤ slot) : (packed limit spare fs).slots[slot]? =
      if slot < fs.length + spare then some none else none := by
  have hlen : (fs.map some).reverse.length ≤ slot := by simpa using h
  have hspare : slot - (fs.map some).reverse.length < spare ↔ slot < fs.length + spare := by
    rw [List.length_reverse, List.length_map]
    omega
  rw [packed, List.getElem?_toArray, packedSlots, List.getElem?_append_right hlen,
    List.getElem?_replicate]
  simp only [hspare]

/-- Each slot holds the frame that was called at that depth. -/
theorem get?_packed {limit : Option Nat} {spare slot : Nat} {fs : List Frame}
    (h : slot < fs.length) : (packed limit spare fs).get? slot = fs.reverse[slot]? := by
  rw [get?, slots_packed_of_lt h, Option.join_some]

/-- No frame is found above the frames. -/
theorem get?_packed_of_le {limit : Option Nat} {spare slot : Nat} {fs : List Frame}
    (h : fs.length ≤ slot) : (packed limit spare fs).get? slot = none := by
  rw [get?, slots_packed_of_le h]
  split <;> rfl

@[simp] theorem currentFrame?_packed (limit : Option Nat) (spare : Nat) (fs : List Frame) :
    (packed limit spare fs).currentFrame? = fs.head? := by
  cases fs with
  | nil => rfl
  | cons f fs =>
    rw [currentFrame?, List.head?_cons]
    change get? _ fs.length = _
    rw [get?_packed (by simp), List.getElem?_reverse (by simp)]
    simp

/-- **A push adds the frame above all others,** in an empty slot if there is one, and is
refused when the limit is reached. -/
theorem push_packed (limit : Option Nat) (spare : Nat) (fs : List Frame) (f : Frame) :
    (packed limit spare fs).push f =
      if limit.any (· ≤ fs.length) then
        (.error (.exhausted (.frames fs.length)), packed limit spare fs)
      else (.ok fs.length, packed limit (spare - 1) (f :: fs)) := by
  by_cases hfull : limit.any (· ≤ fs.length) = true
  · rw [if_pos hfull]
    exact if_pos hfull
  · rw [if_neg hfull]
    refine (if_neg hfull).trans ?_
    cases spare with
    | zero => simp [packed, packedSlots, topSlot?]
    | succ spare =>
      have hslot : (packedSlots (spare + 1) fs).toArray[fs.length]? = some none := by
        rw [List.getElem?_toArray, packedSlots_getElem?_free]
      simp only [packed, List.range'_succ, hslot, List.setIfInBounds_toArray,
        packedSlots_set_some, topSlot?, List.length_cons, Nat.add_sub_cancel]

theorem pop_packed_nil (limit : Option Nat) (spare : Nat) :
    (packed limit spare []).pop = (.ok none, packed limit spare []) := rfl

/-- **A pop takes the frame that was pushed last,** and its slot is the one taken next. -/
theorem pop_packed {limit : Option Nat} {spare : Nat} {f : Frame} {fs : List Frame}
    (h : f.caller = topSlot? fs) :
    (packed limit spare (f :: fs)).pop = (.ok (some f), packed limit (spare + 1) fs) := by
  have hslot : (packedSlots spare (f :: fs)).toArray[fs.length]? = some (some f) := by
    rw [List.getElem?_toArray, packedSlots_getElem?_top]
  have htop : topSlot? (f :: fs) = some fs.length := rfl
  simp only [pop, packed, htop, hslot, vacate, List.length_cons, Nat.add_one_ne_zero, if_false,
    List.setIfInBounds_toArray, packedSlots_set_none, h, List.range'_succ, Nat.add_sub_cancel]

/-- **Unwinding destroys every frame** and leaves all slots empty. -/
theorem unwind_packed {limit : Option Nat} {spare : Nat} {fs : List Frame} (h : Linked fs) :
    (packed limit spare fs).unwind = (.ok fs.length, packed limit (spare + fs.length) []) := by
  induction fs generalizing spare with
  | nil => exact unwind_of_none rfl
  | cons f fs ih =>
    rw [unwind_of_some (pop_packed h.1), ih h.2, Except.map, List.length_cons]
    rw [Nat.add_right_comm, Nat.add_assoc]

/-- The frames met from the current one back to the root are the frames of the list. -/
theorem chain_packed {limit : Option Nat} {spare : Nat} {fs : List Frame} (h : Linked fs) :
    (packed limit spare fs).chain = fs := by
  induction fs generalizing spare with
  | nil => rw [chain, packed, topSlot?, chainFrom]
  | cons f fs ih => rw [chain_of_pop (pop_packed h.1), ih h.2]

/-- The call stack holds these frames, the current one first. -/
def Holds (c : CallStack) (fs : List Frame) : Prop :=
  Linked fs ∧ ∃ spare, c = packed c.limit spare fs

namespace Holds

variable {c : CallStack} {f : Frame} {fs : List Frame}

theorem empty (limit : Option Nat) : (CallStack.empty limit).Holds [] :=
  ⟨trivial, 0, rfl⟩

theorem live (h : c.Holds fs) : c.live = fs.length := by
  obtain ⟨-, spare, hc⟩ := h
  rw [hc, packed]

theorem current (h : c.Holds fs) : c.current = topSlot? fs := by
  obtain ⟨-, spare, hc⟩ := h
  rw [hc, packed]

theorem chain (h : c.Holds fs) : c.chain = fs := by
  obtain ⟨hl, spare, hc⟩ := h
  rw [hc, chain_packed hl]

theorem currentFrame? (h : c.Holds fs) : c.currentFrame? = fs.head? := by
  obtain ⟨-, spare, hc⟩ := h
  rw [hc, currentFrame?_packed]

theorem get? {slot : Slot} (h : c.Holds fs) (hslot : slot < fs.length) :
    c.get? slot = fs.reverse[slot]? := by
  obtain ⟨-, spare, hc⟩ := h
  rw [hc, get?_packed hslot]

theorem get?_of_le {slot : Slot} (h : c.Holds fs) (hslot : fs.length ≤ slot) :
    c.get? slot = none := by
  obtain ⟨-, spare, hc⟩ := h
  rw [hc, get?_packed_of_le hslot]

/-- A stack below its limit takes one more frame. -/
theorem push (h : c.Holds fs) (hf : f.caller = topSlot? fs)
    (hroom : c.limit.any (· ≤ fs.length) = false) :
    ∃ d, c.push f = (.ok fs.length, d) ∧ d.Holds (f :: fs) ∧ d.limit = c.limit := by
  obtain ⟨hl, spare, hc⟩ := h
  refine ⟨packed c.limit (spare - 1) (f :: fs), ?_, ⟨⟨hf, hl⟩, spare - 1, rfl⟩, rfl⟩
  rw [hc, push_packed]
  exact if_neg (by simpa [packed] using hroom)

/-- A stack at its limit refuses the frame. -/
theorem push_full (h : c.Holds fs) (hfull : c.limit.any (· ≤ fs.length) = true) :
    c.push f = (.error (.exhausted (.frames fs.length)), c) := by
  obtain ⟨-, spare, hc⟩ := h
  rw [hc, push_packed]
  exact if_pos (by simpa [packed] using hfull)

/-- An empty stack takes a root. -/
theorem pushRoot (h : c.Holds []) (w : Window) :
    c.pushRoot w = c.push ⟨w, none⟩ := by
  rw [CallStack.pushRoot, h.current]
  rfl

/-- A callee is linked to the current frame. -/
theorem pushCall (h : c.Holds (f :: fs)) (w : Window) (resumePc destination : Nat) :
    c.pushCall w resumePc destination =
      c.push ⟨w, some { caller := fs.length, resumePc, destination }⟩ := by
  rw [CallStack.pushCall, h.current]
  rfl

theorem pop (h : c.Holds (f :: fs)) :
    ∃ d, c.pop = (.ok (some f), d) ∧ d.Holds fs ∧ d.limit = c.limit := by
  obtain ⟨hl, spare, hc⟩ := h
  refine ⟨packed c.limit (spare + 1) fs, ?_, ⟨hl.2, spare + 1, rfl⟩, rfl⟩
  rw [hc, pop_packed hl.1]
  rfl

theorem unwind (h : c.Holds fs) :
    ∃ d, c.unwind = (.ok fs.length, d) ∧ d.Holds [] ∧ d.limit = c.limit := by
  obtain ⟨hl, spare, hc⟩ := h
  refine ⟨packed c.limit (spare + fs.length) [], ?_, ⟨trivial, spare + fs.length, rfl⟩, rfl⟩
  rw [hc, unwind_packed hl]
  rfl

theorem eq_of_push_error {d : CallStack} {stop : Stop} (h : c.Holds fs)
    (hpush : c.push f = (.error stop, d)) : d = c := by
  obtain ⟨-, spare, hc⟩ := h
  rw [hc, push_packed] at hpush
  split at hpush
  · rw [hc]
    exact (Prod.mk.inj hpush).2.symm
  · simp at hpush

/-- **An operation that stops short leaves the stack as it was,** whatever it stops for. -/
theorem eq_of_perform_error {d : CallStack} {op : Op} {stop : Stop} (h : c.Holds fs)
    (herror : c.perform op = (.error stop, d)) : d = c := by
  cases op with
  | pushRoot w =>
    have hpush := eq_of_pushed_error herror
    unfold CallStack.pushRoot at hpush
    split at hpush
    · exact (Prod.mk.inj hpush).2.symm
    · exact h.eq_of_push_error hpush
  | pushCall w resumePc destination =>
    have hpush := eq_of_pushed_error herror
    unfold CallStack.pushCall at hpush
    split at hpush
    · exact (Prod.mk.inj hpush).2.symm
    · exact h.eq_of_push_error hpush
  | pop =>
    cases fs with
    | nil =>
      obtain ⟨-, spare, hc⟩ := h
      rw [perform, hc, pop_packed_nil] at herror
      simp at herror
    | cons f fs =>
      obtain ⟨e, hpop, -, -⟩ := h.pop
      rw [perform, hpop] at herror
      simp at herror
  | unwind =>
    obtain ⟨e, hunwind, -, -⟩ := h.unwind
    rw [perform, hunwind] at herror
    simp at herror
  | get slot => simp [perform] at herror

end Holds
end CallStack
end WindowVM
