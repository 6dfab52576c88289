/-
# Operands and the work they stand for

An instruction of the current frame goes wrong on its operands in two ways only: a
relative one lies outside the window, or an absolute one outside the register file.
`Instruction.misfit?` names the first that does, and `Instruction.work` is what there is
to do when none does.  `Instruction.effect_eq` says that these two are the whole effect of
an instruction, as long as the window lies inside the file: the registers that a frame
reaches through its window always exist.
-/

import Mathlib.Algebra.Group.Nat.Defs
import WindowVM.Machine.Basic

namespace WindowVM

/-- The word of a register, zero where there is none. -/
def RegisterFile.word (r : RegisterFile) (index : Nat) : Word := r.words[index]?.getD 0

theorem RegisterFile.get_eq (r : RegisterFile) (index : Nat) :
    r.get index =
      if index < r.capacity then .ok (r.word index)
      else .error (.outsideFile index r.capacity) := by
  by_cases h : index < r.capacity
  · rw [if_pos h, get, word, Array.getElem?_eq_getElem h, Option.getD_some]
  · rw [if_neg h, get, Array.getElem?_eq_none (Nat.not_lt.1 h)]

/-- A window inside the 64-bit range resolves each of its registers. -/
theorem Window.absolute_eq {w : Window} (h : w.base + w.len < 2 ^ 64) (index : Nat) :
    w.absolute index =
      if index < w.len then .ok (w.base + index) else .error (.outsideWindow index w.len) := by
  by_cases hi : index < w.len
  · rw [absolute, if_pos hi, if_pos hi, boundedSum_eq_ok_iff]
    omega
  · rw [absolute, if_neg hi, if_neg hi]

theorem Window.stop_eq {w : Window} (h : w.base + w.len < 2 ^ 64) :
    w.stop = .ok (w.base + w.len) :=
  boundedSum_eq_ok_iff.2 ⟨rfl, h⟩

namespace Instruction

/-- The operands that name a register of the whole file, in the order of their checks. -/
def absoluteOperands : Instruction → List Word
  | .move destination source => [source, destination]
  | .moveImmediate destination _ => [destination]
  | _ => []

/-- The operands that name a register of the window, in the order of their checks. -/
def relativeOperands : Instruction → List Word
  | .call _ _ destination => [destination]
  | .add destination source => [source, destination]
  | .addImmediate destination _ => [destination]
  | .increment register => [register]
  | .decrement register => [register]
  | _ => []

/-- The fault of the first operand that names no register, in a window of `len` registers
and a file of `capacity`. -/
def misfit? (len capacity : Nat) (i : Instruction) : Option Fault :=
  match i.relativeOperands.find? (len ≤ ·.toNat), i.absoluteOperands.find? (capacity ≤ ·.toNat) with
  | some index, _ => some (.outsideWindow index.toNat len)
  | none, some index => some (.outsideFile index.toNat capacity)
  | none, none => none

/-- The work of an instruction whose operands all name a register. -/
def work (r : RegisterFile) (w : Window) : Instruction → Effect
  | .ret => .leave
  | .call target frameSize destination => .enter target frameSize (w.base + destination.toNat)
  | .move destination source => .write destination.toNat (r.word source.toNat)
  | .moveImmediate destination value => .write destination.toNat value
  | .add destination source =>
    .write (w.base + destination.toNat)
      (r.word (w.base + destination.toNat) + r.word (w.base + source.toNat))
  | .addImmediate destination value =>
    .write (w.base + destination.toNat) (r.word (w.base + destination.toNat) + value)
  | .increment register =>
    .write (w.base + register.toNat) (r.word (w.base + register.toNat) + 1)
  | .decrement register =>
    .write (w.base + register.toNat) (r.word (w.base + register.toNat) - 1)

/-- **A misfit is an operand out of range,** relative or absolute. -/
theorem misfit?_eq_some {len capacity : Nat} {i : Instruction} {fault : Fault}
    (h : i.misfit? len capacity = some fault) :
    (∃ index ∈ i.relativeOperands, len ≤ index.toNat ∧ fault = .outsideWindow index.toNat len) ∨
      ∃ index ∈ i.absoluteOperands, capacity ≤ index.toNat ∧
        fault = .outsideFile index.toNat capacity := by
  unfold misfit? at h
  split at h
  · rename_i index hfind
    refine Or.inl ⟨index, List.mem_of_find?_eq_some hfind, ?_, (Option.some.inj h).symm⟩
    simpa using List.find?_some hfind
  · rename_i index _ hfind
    refine Or.inr ⟨index, List.mem_of_find?_eq_some hfind, ?_, (Option.some.inj h).symm⟩
    simpa using List.find?_some hfind
  · simp at h

/-- Without a misfit every operand names a register. -/
theorem misfit?_eq_none_iff {len capacity : Nat} {i : Instruction} :
    i.misfit? len capacity = none ↔
      (∀ index ∈ i.relativeOperands, index.toNat < len) ∧
        ∀ index ∈ i.absoluteOperands, index.toNat < capacity := by
  have hrelative : i.relativeOperands.find? (len ≤ ·.toNat) = none ↔
      ∀ index ∈ i.relativeOperands, index.toNat < len := by simp
  have habsolute : i.absoluteOperands.find? (capacity ≤ ·.toNat) = none ↔
      ∀ index ∈ i.absoluteOperands, index.toNat < capacity := by simp
  rw [← hrelative, ← habsolute, misfit?]
  constructor
  · intro h
    split at h
    · simp at h
    · simp at h
    · exact ⟨‹_›, ‹_›⟩
  · rintro ⟨h₁, h₂⟩
    rw [h₁, h₂]

section

variable {i : Instruction} {x y : Word} {len capacity : Nat}

/-- The misfit of an instruction with one operand, in its window. -/
theorem misfit?_relative (hrelative : i.relativeOperands = [x])
    (habsolute : i.absoluteOperands = []) :
    i.misfit? len capacity =
      if len ≤ x.toNat then some (.outsideWindow x.toNat len) else none := by
  rw [misfit?, hrelative, habsolute]
  by_cases hx : len ≤ x.toNat <;> simp [hx]

/-- The misfit of an instruction with two operands, in its window. -/
theorem misfit?_relative_pair (hrelative : i.relativeOperands = [x, y])
    (habsolute : i.absoluteOperands = []) :
    i.misfit? len capacity =
      if len ≤ x.toNat then some (.outsideWindow x.toNat len)
      else if len ≤ y.toNat then some (.outsideWindow y.toNat len) else none := by
  rw [misfit?, hrelative, habsolute]
  by_cases hx : len ≤ x.toNat <;> by_cases hy : len ≤ y.toNat <;> simp [hx, hy]

/-- The misfit of an instruction with one operand, in the file. -/
theorem misfit?_absolute (hrelative : i.relativeOperands = [])
    (habsolute : i.absoluteOperands = [x]) :
    i.misfit? len capacity =
      if capacity ≤ x.toNat then some (.outsideFile x.toNat capacity) else none := by
  rw [misfit?, hrelative, habsolute]
  by_cases hx : capacity ≤ x.toNat <;> simp [hx]

/-- The misfit of an instruction with two operands, in the file. -/
theorem misfit?_absolute_pair (hrelative : i.relativeOperands = [])
    (habsolute : i.absoluteOperands = [x, y]) :
    i.misfit? len capacity =
      if capacity ≤ x.toNat then some (.outsideFile x.toNat capacity)
      else if capacity ≤ y.toNat then some (.outsideFile y.toNat capacity) else none := by
  rw [misfit?, hrelative, habsolute]
  by_cases hx : capacity ≤ x.toNat <;> by_cases hy : capacity ≤ y.toNat <;> simp [hx, hy]

end

/-- Changing a register of the file. -/
theorem assign_eq (r : RegisterFile) (index : Nat) (word : Word) :
    Effect.assign r index word =
      if r.capacity ≤ index then .error (.outsideFile index r.capacity)
      else .ok (.write index word) := by
  rw [Effect.assign, Effect.change, RegisterFile.get_eq]
  by_cases h : r.capacity ≤ index
  · rw [if_pos h, if_neg (Nat.not_lt.2 h), Except.map]
  · rw [if_neg h, if_pos (Nat.not_le.1 h), Except.map]

/-- Changing a register of a window that lies inside the file. -/
theorem change_eq {r : RegisterFile} {w : Window} (hw : w.base + w.len ≤ r.capacity)
    (hr : r.capacity < 2 ^ 64) (index : Nat) (g : Word → Word) :
    (w.absolute index >>= fun target => Effect.change r target g) =
      if w.len ≤ index then .error (.outsideWindow index w.len)
      else .ok (.write (w.base + index) (g (r.word (w.base + index)))) := by
  rw [Window.absolute_eq (Nat.lt_of_le_of_lt hw hr)]
  by_cases h : w.len ≤ index
  · rw [if_pos h, if_neg (Nat.not_lt.2 h)]
    rfl
  · rw [if_neg h, if_pos (Nat.not_le.1 h)]
    change Effect.change r (w.base + index) g = _
    rw [Effect.change, RegisterFile.get_eq, if_pos (by omega), Except.map]

/-- **The effect of an instruction** is the fault of its first misfit, or its work. -/
theorem effect_eq {r : RegisterFile} {w : Window} (hw : w.base + w.len ≤ r.capacity)
    (hr : r.capacity < 2 ^ 64) (i : Instruction) :
    i.effect r w =
      match i.misfit? w.len r.capacity with
      | some fault => .error fault
      | none => .ok (i.work r w) := by
  have hlt : w.base + w.len < 2 ^ 64 := Nat.lt_of_le_of_lt hw hr
  cases i with
  | ret => rfl
  | call target frameSize destination =>
    rw [effect, Window.absolute_eq hlt, misfit?_relative rfl rfl]
    by_cases h : w.len ≤ destination.toNat
    · rw [if_pos h, if_neg (Nat.not_lt.2 h)]
      rfl
    · rw [if_neg h, if_pos (Nat.not_le.1 h)]
      rfl
  | move destination source =>
    rw [effect, RegisterFile.get_eq, misfit?_absolute_pair rfl rfl]
    by_cases hs : r.capacity ≤ source.toNat
    · rw [if_pos hs, if_neg (Nat.not_lt.2 hs)]
      rfl
    · rw [if_neg hs, if_pos (Nat.not_le.1 hs)]
      change Effect.assign r destination.toNat (r.word source.toNat) = _
      rw [assign_eq]
      by_cases hd : r.capacity ≤ destination.toNat
      · rw [if_pos hd, if_pos hd]
      · rw [if_neg hd, if_neg hd]
        rfl
  | moveImmediate destination value =>
    rw [effect, assign_eq, misfit?_absolute rfl rfl]
    by_cases h : r.capacity ≤ destination.toNat
    · rw [if_pos h, if_pos h]
    · rw [if_neg h, if_neg h]
      rfl
  | add destination source =>
    rw [effect, Window.absolute_eq hlt, misfit?_relative_pair rfl rfl]
    by_cases hs : w.len ≤ source.toNat
    · rw [if_pos hs, if_neg (Nat.not_lt.2 hs)]
      rfl
    · have hget : r.get (w.base + source.toNat) = .ok (r.word (w.base + source.toNat)) := by
        rw [RegisterFile.get_eq, if_pos (by omega)]
      rw [if_neg hs, if_pos (Nat.not_le.1 hs)]
      change (r.get (w.base + source.toNat) >>= fun word =>
        w.absolute destination.toNat >>= fun target => Effect.change r target (· + word)) = _
      rw [hget]
      change (w.absolute destination.toNat >>= fun target =>
        Effect.change r target (· + r.word (w.base + source.toNat))) = _
      rw [change_eq hw hr]
      by_cases hd : w.len ≤ destination.toNat
      · rw [if_pos hd, if_pos hd]
      · rw [if_neg hd, if_neg hd]
        rfl
  | addImmediate destination value =>
    rw [effect, change_eq hw hr, misfit?_relative rfl rfl]
    by_cases h : w.len ≤ destination.toNat
    · rw [if_pos h, if_pos h]
    · rw [if_neg h, if_neg h]
      rfl
  | increment register =>
    rw [effect, change_eq hw hr, misfit?_relative rfl rfl]
    by_cases h : w.len ≤ register.toNat
    · rw [if_pos h, if_pos h]
    · rw [if_neg h, if_neg h]
      rfl
  | decrement register =>
    rw [effect, change_eq hw hr, misfit?_relative rfl rfl]
    by_cases h : w.len ≤ register.toNat
    · rw [if_pos h, if_pos h]
    · rw [if_neg h, if_neg h]
      rfl

end Instruction
end WindowVM
