/-
# The call stack

Frames live in the slots of an arena and are linked from the current frame back to the
root.  A slot is also the handle of the frame in it.  A popped frame leaves its slot to
the free list, and the slot freed last is taken first.

`CallStack.chain` reads the arena as a plain list of frames, the current one first; the
operations act on it as on a stack (`chain_of_pop`, `chain_of_push`).  Reading a frame
empties its slot, so the list is finite whatever the arena holds.

Every operation gives back the stack it leaves behind, also when it stops short.  Running
out of frames changes nothing (`eq_of_perform_exhausted`).  A fault of the arena itself may
come half way through an operation, but no operations lead to one (`Holds.eq_of_perform_error`
among the proofs).
-/

import WindowVM.RegisterFile

namespace WindowVM

/-- The index of a slot in the frame arena. -/
abbrev Slot := Nat

/-- Where a returning frame hands control and its result. -/
structure Link where
  caller : Slot
  resumePc : Nat
  /-- The absolute register that receives the result. -/
  destination : Nat
  deriving DecidableEq, Repr

/-- A call in progress.  The root frame has no link. -/
structure Frame where
  window : Window
  link : Option Link
  deriving DecidableEq, Repr

/-- The slot of the frame that called this one. -/
def Frame.caller (f : Frame) : Option Slot := f.link.map (·.caller)

/-- An arena of frames, linked from the current one to the root. -/
structure CallStack where
  slots : Array (Option Frame)
  /-- The empty slots, the one to take next at the head. -/
  free : List Slot
  current : Option Slot
  /-- How many frames were pushed and not yet popped. -/
  live : Nat
  /-- How many frames may be live at once. -/
  limit : Option Nat

namespace CallStack

/-- The stack without frames. -/
def empty (limit : Option Nat) : CallStack :=
  { slots := #[], free := [], current := none, live := 0, limit }

/-- The frame in a slot. -/
def get? (c : CallStack) (slot : Slot) : Option Frame := c.slots[slot]?.join

/-- The frame that executes. -/
def currentFrame? (c : CallStack) : Option Frame := c.current.bind c.get?

/-- Puts a frame into the free slot taken next, or into a new one, and makes it current. -/
def push (c : CallStack) (f : Frame) : Except Stop Slot × CallStack :=
  if c.limit.any (· ≤ c.live) then (.error (.exhausted (.frames c.live)), c)
  else
    match c.free with
    | [] =>
      let slot := c.slots.size
      (.ok slot, { c with
        slots := c.slots.push (some f), current := some slot, live := c.live + 1 })
    | slot :: free =>
      match c.slots[slot]? with
      | none => (.error (.fault (.slotOutOfRange slot c.slots.size)), { c with free })
      | some (some _) => (.error (.fault (.occupiedSlot slot)), { c with free })
      | some none =>
        (.ok slot, { c with
          slots := c.slots.setIfInBounds slot (some f), free,
          current := some slot, live := c.live + 1 })

/-- Pushes the frame of an execution. -/
def pushRoot (c : CallStack) (w : Window) : Except Stop Slot × CallStack :=
  match c.current with
  | some _ => (.error (.fault .rootOverLive), c)
  | none => c.push ⟨w, none⟩

/-- Pushes a callee of the current frame. -/
def pushCall (c : CallStack) (w : Window) (resumePc destination : Nat) :
    Except Stop Slot × CallStack :=
  match c.current with
  | none => (.error (.fault .callerMissing), c)
  | some caller => c.push ⟨w, some { caller, resumePc, destination }⟩

/-- The stack without the frame `f` in a slot, which is the one to take next. -/
def vacate (c : CallStack) (slot : Slot) (f : Frame) : CallStack :=
  { c with
    slots := c.slots.setIfInBounds slot none, free := slot :: c.free, current := f.caller }

/-- Takes the current frame out of its slot and makes its caller current.  There is
nothing to take when no frame is current. -/
def pop (c : CallStack) : Except Fault (Option Frame) × CallStack :=
  match c.current with
  | none => (.ok none, c)
  | some slot =>
    match c.slots[slot]? with
    | some (some f) =>
      if c.live = 0 then (.error .differenceOverflow, c.vacate slot f)
      else (.ok (some f), { c.vacate slot f with live := c.live - 1 })
    | _ => (.ok none, c)

/-- How many slots hold a frame. -/
def occupied (slots : Array (Option Frame)) : Nat := slots.countP Option.isSome

theorem occupied_setIfInBounds_lt {slots : Array (Option Frame)} {slot : Slot} {f : Frame}
    (h : slots[slot]? = some (some f)) :
    occupied (slots.setIfInBounds slot none) < occupied slots := by
  obtain ⟨hlt, hf⟩ := Array.getElem?_eq_some_iff.1 h
  have hpos : 0 < slots.countP Option.isSome :=
    Array.countP_pos_iff.2 ⟨some f, hf ▸ Array.getElem_mem hlt, rfl⟩
  have hcount : (slots.set slot none hlt).countP Option.isSome =
      slots.countP Option.isSome - 1 + 0 := by
    rw [Array.countP_set, hf]
    rfl
  rw [occupied, occupied, Array.setIfInBounds, dif_pos hlt, hcount]
  omega

theorem occupied_lt_of_pop {c d : CallStack} {f : Frame} (h : c.pop = (.ok (some f), d)) :
    occupied d.slots < occupied c.slots := by
  unfold pop at h
  split at h
  · simp at h
  · split at h
    · rename_i slot g hg
      split at h
      · simp at h
      · obtain ⟨-, rfl⟩ := Prod.mk.inj h
        exact occupied_setIfInBounds_lt hg
    · simp at h

/-- Pops every frame, and tells how many there were. -/
def unwind (c : CallStack) : Except Fault Nat × CallStack :=
  match _h : c.pop with
  | (.error fault, d) => (.error fault, d)
  | (.ok none, d) => (.ok 0, d)
  | (.ok (some _), d) =>
    match d.unwind with
    | (.error fault, e) => (.error fault, e)
    | (.ok n, e) => (.ok (n + 1), e)
termination_by occupied c.slots
decreasing_by exact occupied_lt_of_pop ‹_›

theorem unwind_of_none {c d : CallStack} (h : c.pop = (.ok none, d)) :
    c.unwind = (.ok 0, d) := by
  rw [unwind]; split <;> simp_all

theorem unwind_of_some {c d : CallStack} {f : Frame} (h : c.pop = (.ok (some f), d)) :
    c.unwind = (d.unwind.1.map (· + 1), d.unwind.2) := by
  rw [unwind]
  split
  · simp_all
  · simp_all
  · rename_i heq
    obtain ⟨rfl, rfl⟩ : _ = f ∧ _ = d := by simpa [h] using heq.symm
    cases hunwind : CallStack.unwind _ with
    | mk answer e => cases answer <;> rfl

/-- The frames met from a slot back to the root. -/
def chainFrom (slots : Array (Option Frame)) : Option Slot → List Frame
  | none => []
  | some slot =>
    match _h : slots[slot]? with
    | some (some f) => f :: chainFrom (slots.setIfInBounds slot none) f.caller
    | _ => []
termination_by occupied slots
decreasing_by exact occupied_setIfInBounds_lt ‹_›

/-- The live frames, the current one first and the root last. -/
def chain (c : CallStack) : List Frame := chainFrom c.slots c.current

theorem chainFrom_cons {slots : Array (Option Frame)} {slot : Slot} {f : Frame}
    (h : slots[slot]? = some (some f)) :
    chainFrom slots (some slot) = f :: chainFrom (slots.setIfInBounds slot none) f.caller := by
  rw [chainFrom]
  split
  · simp_all
  · simp_all

theorem chainFrom_nil {slots : Array (Option Frame)} {slot : Slot}
    (h : ∀ f, slots[slot]? ≠ some (some f)) : chainFrom slots (some slot) = [] := by
  rw [chainFrom]
  split
  · exact absurd ‹_› (h _)
  · rfl

/-- A new empty slot is on no chain. -/
theorem chainFrom_push_none (slots : Array (Option Frame)) (s : Option Slot) :
    chainFrom (slots.push none) s = chainFrom slots s := by
  fun_induction chainFrom slots s with
  | case1 => rw [chainFrom]
  | case2 slots slot f h ih =>
    have hlt := (Array.getElem?_eq_some_iff.1 h).1
    have hset : (slots.push none).setIfInBounds slot none =
        (slots.setIfInBounds slot none).push none := by
      rw [Array.setIfInBounds, Array.setIfInBounds, dif_pos hlt, dif_pos (by simp; omega),
        Array.set_push, dif_pos hlt]
    rw [chainFrom_cons (f := f) (by rw [Array.getElem?_push_lt hlt, ← h, Array.getElem?_eq_getElem hlt]),
      hset, ih]
  | case3 slots slot h =>
    refine chainFrom_nil fun f hf => ?_
    rw [Array.getElem?_push] at hf
    split at hf
    · simp at hf
    · exact h f hf

/-- A push onto a chain from the current frame puts the new frame before it. -/
theorem chain_of_push {c d : CallStack} {f : Frame} {slot : Slot}
    (h : c.push f = (.ok slot, d)) (hf : f.caller = c.current) : d.chain = f :: c.chain := by
  unfold push at h
  split at h
  · simp at h
  · split at h
    · obtain ⟨-, rfl⟩ := Prod.mk.inj h
      rw [chain, chainFrom_cons (f := f) (by simp), chain, hf]
      simp only [Array.setIfInBounds, Array.size_push, Nat.lt_add_one, dite_true, Array.set_push,
        Nat.lt_irrefl, dite_false]
      rw [chainFrom_push_none]
    · rename_i taken free hfree
      split at h
      · simp at h
      · simp at h
      · rename_i hslot
        obtain ⟨-, rfl⟩ := Prod.mk.inj h
        obtain ⟨hlt, hnone⟩ := Array.getElem?_eq_some_iff.1 hslot
        have hback : c.slots.setIfInBounds taken none = c.slots := by
          simp [Array.setIfInBounds, ← hnone]
        rw [chain, chainFrom_cons (f := f) (by simp [hlt]), chain, hf]
        simp [hback]

/-- A callee is linked to the chain it was called from. -/
theorem chain_of_pushCall {c d : CallStack} {w : Window} {resumePc destination : Nat} {slot : Slot}
    (h : c.pushCall w resumePc destination = (.ok slot, d)) :
    ∃ caller, d.chain = ⟨w, some { caller, resumePc, destination }⟩ :: c.chain := by
  unfold pushCall at h
  split at h
  · simp at h
  · exact ⟨_, chain_of_push h (by simp_all [Frame.caller])⟩

/-- A pop takes the first frame of the chain. -/
theorem chain_of_pop {c d : CallStack} {f : Frame} (h : c.pop = (.ok (some f), d)) :
    c.chain = f :: d.chain := by
  unfold pop at h
  split at h
  · simp at h
  · rename_i slot hslot
    split at h
    · rename_i g hg
      split at h
      · simp at h
      · simp only [Prod.mk.injEq, Except.ok.injEq, Option.some.injEq] at h
        obtain ⟨rfl, rfl⟩ := h
        rw [chain, hslot, chainFrom_cons hg, chain]
        rfl
    · simp at h

/-- An operation on the stack. -/
inductive Op where
  | pushRoot (w : Window)
  | pushCall (w : Window) (resumePc destination : Nat)
  | pop
  | unwind
  | get (slot : Slot)
  deriving DecidableEq, Repr

/-- What an operation that succeeds gives back. -/
inductive Answer where
  | pushed (slot : Slot)
  | frame (f : Option Frame)
  | destroyed (count : Nat)
  deriving DecidableEq, Repr

/-- Runs one operation. -/
def perform (c : CallStack) : Op → Except Stop Answer × CallStack
  | .pushRoot w => pushed (c.pushRoot w)
  | .pushCall w resumePc destination => pushed (c.pushCall w resumePc destination)
  | .pop =>
    match c.pop with
    | (.ok f, d) => (.ok (.frame f), d)
    | (.error fault, d) => (.error (.fault fault), d)
  | .unwind =>
    match c.unwind with
    | (.ok n, d) => (.ok (.destroyed n), d)
    | (.error fault, d) => (.error (.fault fault), d)
  | .get slot => (.ok (.frame (c.get? slot)), c)
where
  /-- The outcome of a push. -/
  pushed : Except Stop Slot × CallStack → Except Stop Answer × CallStack
    | (.ok slot, d) => (.ok (.pushed slot), d)
    | (.error stop, d) => (.error stop, d)

section Unchanged

variable {c d : CallStack} {cause : Exhaustion}

theorem eq_of_push_exhausted {f : Frame} (h : c.push f = (.error (.exhausted cause), d)) :
    d = c := by
  unfold push at h
  split at h
  · exact (Prod.mk.inj h).2.symm
  · split at h
    · simp at h
    · split at h <;> simp at h

/-- The outcome of a push stops short as the push does. -/
theorem eq_of_pushed_error {p : Except Stop Slot × CallStack} {stop : Stop}
    (h : perform.pushed p = (.error stop, d)) : p = (.error stop, d) := by
  obtain ⟨answer, e⟩ := p
  cases answer with
  | ok => simp [perform.pushed] at h
  | error => simpa [perform.pushed] using h

/-- **An operation that runs out of frames leaves the stack as it was.** -/
theorem eq_of_perform_exhausted {op : Op} (h : c.perform op = (.error (.exhausted cause), d)) :
    d = c := by
  cases op with
  | pushRoot w =>
    have hpush := eq_of_pushed_error h
    unfold pushRoot at hpush
    split at hpush
    · simp at hpush
    · exact eq_of_push_exhausted hpush
  | pushCall w resumePc destination =>
    have hpush := eq_of_pushed_error h
    unfold pushCall at hpush
    split at hpush
    · simp at hpush
    · exact eq_of_push_exhausted hpush
  | pop =>
    rw [perform] at h
    split at h <;> simp at h
  | unwind =>
    rw [perform] at h
    split at h <;> simp at h
  | get slot => simp [perform] at h

end Unchanged

/-- Runs operations one after another, and goes on after one that stops short. -/
def performAll (c : CallStack) : List Op → List (Except Stop Answer) × CallStack
  | [] => ([], c)
  | op :: ops =>
    let (answer, c) := c.perform op
    let (answers, c) := c.performAll ops
    (answer :: answers, c)

end CallStack
end WindowVM
