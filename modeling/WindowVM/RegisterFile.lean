/-
# The register file

One growable sequence of words, shared by every frame.  A frame owns a `Window` of it,
a base and a length; windows are handed out and taken back in stack order, and the
registers below `inUse` belong to them.  The capacity only grows, by multiples of the
increment, and a new register reads as zero.

Growing to 2^59 words or more fails: a word has eight bytes, and an allocation has
fewer than 2^62.

Every operation gives back the file it leaves behind, also when it stops short.  All its
checks come before its first write, so then it leaves the file as it was
(`eq_of_perform_error`).

`RegisterFile.Op` lists the operations as data, so that a sequence of them can be run
and spoken of.
-/

import WindowVM.Config

namespace WindowVM

/-- A frame's range of the register file. -/
structure Window where
  base : Nat
  len : Nat
  deriving DecidableEq, Repr

namespace Window

/-- Whether the window has no register. -/
def isEmpty (w : Window) : Bool := w.len == 0

/-- One past the last register of the window. -/
def stop (w : Window) : Except Fault Nat := boundedSum w.base w.len

/-- The place in the register file of a register of the window. -/
def absolute (w : Window) (index : Nat) : Except Fault Nat :=
  if index < w.len then boundedSum w.base index else .error (.outsideWindow index w.len)

end Window

/-- The words that every frame shares. -/
structure RegisterFile where
  words : Array Word
  /-- Registers below this one belong to windows that were handed out. -/
  inUse : Nat
  /-- The step of growth. -/
  increment : Nat
  /-- The capacity that the file may never pass. -/
  limit : Option Nat

namespace RegisterFile

/-- How many words an allocation cannot hold. -/
def unallocatable : Nat := 1 <<< 59

/-- The number of registers. -/
def capacity (r : RegisterFile) : Nat := r.words.size

/-- Grows the file to `target` registers, the new ones zero. -/
def resize (r : RegisterFile) (target : Nat) : Except Exhaustion Unit × RegisterFile :=
  if r.limit.any (· < target) || decide (unallocatable ≤ target) then
    (.error (.registers target), r)
  else
    (.ok (), { r with words := r.words ++ Array.replicate (target - r.words.size) 0 })

/-- The file without registers.  An increment of zero counts as one. -/
def empty (c : Config) : RegisterFile :=
  { words := #[]
    inUse := 0
    increment := max c.growthIncrement.toNat 1
    limit := c.maxRegisters.map (·.toNat) }

/-- The register file a machine starts with. -/
def ofConfig (c : Config) : Except Exhaustion RegisterFile :=
  match (empty c).resize c.initialRegisters.toNat with
  | (.ok (), r) => .ok r
  | (.error cause, _) => .error cause

theorem ofConfig_eq (c : Config) :
    ofConfig c =
      if (empty c).limit.any (· < c.initialRegisters.toNat) ||
          decide (unallocatable ≤ c.initialRegisters.toNat) then
        .error (.registers c.initialRegisters.toNat)
      else .ok { empty c with words := Array.replicate c.initialRegisters.toNat 0 } := by
  rw [ofConfig, resize]
  by_cases hrefused : ((empty c).limit.any (· < c.initialRegisters.toNat) ||
      decide (unallocatable ≤ c.initialRegisters.toNat)) = true
  · rw [if_pos hrefused, if_pos hrefused]
  · rw [if_neg hrefused, if_neg hrefused]
    simp [empty]

/-- The capacity to grow to for `required` registers: the next multiple of the
increment above the present capacity, or `required` itself when that multiple has no
64 bits, and never more than the limit. -/
def growthTarget (r : RegisterFile) (required : Nat) : Nat :=
  let steps := (required - r.capacity + r.increment - 1) / r.increment
  let rounded := r.capacity + steps * r.increment
  let target := if rounded < 1 <<< 64 then rounded else required
  match r.limit with
  | some limit => min target limit
  | none => target

/-- Grows the file to hold `required` registers. -/
def growTo (r : RegisterFile) (required : Nat) : Except Stop Unit × RegisterFile :=
  if r.increment = 0 then (.error (.fault .zeroDivisor), r)
  else if r.limit.any (· < required) then (.error (.exhausted (.registers required)), r)
  else
    match r.resize (r.growthTarget required) with
    | (.ok (), r) => (.ok (), r)
    | (.error cause, r) => (.error (.exhausted cause), r)

/-- Hands out the next `len` registers above everything in use, and grows the file
first when they do not fit. -/
def allocate (r : RegisterFile) (len : Nat) : Except Stop Window × RegisterFile :=
  let required := r.inUse + len
  if 1 <<< 64 ≤ required then (.error (.exhausted (.registers (1 <<< 64 - 1))), r)
  else if required ≤ r.capacity then (.ok ⟨r.inUse, len⟩, { r with inUse := required })
  else
    match r.growTo required with
    | (.ok (), grown) => (.ok ⟨r.inUse, len⟩, { grown with inUse := required })
    | (.error stop, r) => (.error stop, r)

/-- Takes back the topmost window. -/
def release (r : RegisterFile) (w : Window) : Except Fault Unit × RegisterFile :=
  match w.stop with
  | .error fault => (.error fault, r)
  | .ok stop =>
    if stop = r.inUse then (.ok (), { r with inUse := w.base })
    else (.error (.stackOrder stop r.inUse), r)

/-- Takes back every window.  The words stay as they are. -/
def releaseAll (r : RegisterFile) : RegisterFile := { r with inUse := 0 }

/-- The word of a register. -/
def get (r : RegisterFile) (index : Nat) : Except Fault Word :=
  match r.words[index]? with
  | some word => .ok word
  | none => .error (.outsideFile index r.capacity)

/-- The file with one word replaced; an index past the capacity changes nothing. -/
def write (r : RegisterFile) (index : Nat) (word : Word) : RegisterFile :=
  { r with words := r.words.setIfInBounds index word }

/-- Replaces the word of a register. -/
def set (r : RegisterFile) (index : Nat) (word : Word) : Except Fault Unit × RegisterFile :=
  if index < r.capacity then (.ok (), r.write index word)
  else (.error (.outsideFile index r.capacity), r)

/-- Replaces the word of a register by a function of it. -/
def update (r : RegisterFile) (index : Nat) (f : Word → Word) :
    Except Fault Unit × RegisterFile :=
  match r.get index with
  | .ok word => r.set index (f word)
  | .error fault => (.error fault, r)

/-- The registers that are not zero, each with its index, in order. -/
def nonzero (r : RegisterFile) : List (Nat × Word) :=
  r.words.toList.zipIdx.filterMap fun (word, index) =>
    if word = 0 then none else some (index, word)

/-- An operation on the file. -/
inductive Op where
  | allocate (len : Nat)
  | release (w : Window)
  | releaseAll
  | get (index : Nat)
  | set (index : Nat) (word : Word)
  | update (index : Nat) (f : Word → Word)

/-- What an operation that succeeds gives back. -/
inductive Answer where
  | window (w : Window)
  | word (w : Word)
  | done
  deriving DecidableEq, Repr

/-- Runs one operation. -/
def perform (r : RegisterFile) : Op → Except Stop Answer × RegisterFile
  | .allocate len =>
    match r.allocate len with
    | (.ok w, r) => (.ok (.window w), r)
    | (.error stop, r) => (.error stop, r)
  | .release w => changed (r.release w)
  | .releaseAll => (.ok .done, r.releaseAll)
  | .get index =>
    match r.get index with
    | .ok word => (.ok (.word word), r)
    | .error fault => (.error (.fault fault), r)
  | .set index word => changed (r.set index word)
  | .update index f => changed (r.update index f)
where
  /-- The outcome of an operation that only changes the file. -/
  changed : Except Fault Unit × RegisterFile → Except Stop Answer × RegisterFile
    | (.ok (), r) => (.ok .done, r)
    | (.error fault, r) => (.error (.fault fault), r)

section Unchanged

variable {r s : RegisterFile} {cause : Exhaustion} {stop : Stop} {fault : Fault}

theorem eq_of_resize_error {target : Nat} (h : r.resize target = (.error cause, s)) : s = r := by
  unfold resize at h
  split at h
  · exact (Prod.mk.inj h).2.symm
  · simp at h

theorem eq_of_growTo_error {required : Nat} (h : r.growTo required = (.error stop, s)) :
    s = r := by
  unfold growTo at h
  split at h
  · exact (Prod.mk.inj h).2.symm
  · split at h
    · exact (Prod.mk.inj h).2.symm
    · split at h
      · simp at h
      · rename_i hresize
        obtain ⟨-, rfl⟩ := Prod.mk.inj h
        exact eq_of_resize_error hresize

/-- An allocation that is refused changes nothing. -/
theorem eq_of_allocate_error {len : Nat} (h : r.allocate len = (.error stop, s)) : s = r := by
  simp only [allocate] at h
  split at h
  · exact (Prod.mk.inj h).2.symm
  · split at h
    · simp at h
    · split at h
      · simp at h
      · rename_i hgrow
        obtain ⟨-, rfl⟩ := Prod.mk.inj h
        exact eq_of_growTo_error hgrow

theorem eq_of_release_error {w : Window} (h : r.release w = (.error fault, s)) : s = r := by
  unfold release at h
  split at h
  · exact (Prod.mk.inj h).2.symm
  · split at h
    · simp at h
    · exact (Prod.mk.inj h).2.symm

theorem eq_of_set_error {index : Nat} {word : Word} (h : r.set index word = (.error fault, s)) :
    s = r := by
  unfold set at h
  split at h
  · simp at h
  · exact (Prod.mk.inj h).2.symm

theorem eq_of_update_error {index : Nat} {f : Word → Word}
    (h : r.update index f = (.error fault, s)) : s = r := by
  unfold update at h
  split at h
  · exact eq_of_set_error h
  · exact (Prod.mk.inj h).2.symm

theorem eq_of_changed_error {p : Except Fault Unit × RegisterFile}
    (hp : ∀ {fault t}, p = (.error fault, t) → t = r)
    (h : perform.changed p = (.error stop, s)) : s = r := by
  obtain ⟨answer, t⟩ := p
  cases answer with
  | ok => simp [perform.changed] at h
  | error fault =>
    obtain ⟨-, rfl⟩ := Prod.mk.inj h
    exact hp rfl

/-- **An operation that stops short leaves the file as it was.** -/
theorem eq_of_perform_error {op : Op} (h : r.perform op = (.error stop, s)) : s = r := by
  cases op with
  | allocate len =>
    rw [perform] at h
    split at h
    · simp at h
    · rename_i hallocate
      obtain ⟨-, rfl⟩ := Prod.mk.inj h
      exact eq_of_allocate_error hallocate
  | release w => exact eq_of_changed_error eq_of_release_error h
  | releaseAll => simp [perform] at h
  | get index =>
    rw [perform] at h
    split at h
    · simp at h
    · exact (Prod.mk.inj h).2.symm
  | set index word => exact eq_of_changed_error eq_of_set_error h
  | update index f => exact eq_of_changed_error eq_of_update_error h

end Unchanged

/-- Runs operations one after another, and goes on after one that stops short. -/
def performAll (r : RegisterFile) : List Op → List (Except Stop Answer) × RegisterFile
  | [] => ([], r)
  | op :: ops =>
    let (answer, r) := r.perform op
    let (answers, r) := r.performAll ops
    (answer :: answers, r)

end RegisterFile
end WindowVM
