/-
# Execution statistics

What one execution counts: how often each opcode was dispatched, how many frames were
live and how many registers in use at the most, and how often the register file grew.
A count of dispatches is a word and wraps, as every word of the machine does.
-/

import WindowVM.Instruction

namespace WindowVM

/-- The counters of one execution. -/
structure Stats where
  /-- Dispatches, by the index of the opcode. -/
  counts : Vector Word 8 := Vector.replicate 8 0
  /-- The most frames that were live at once. -/
  maxDepth : Nat := 0
  /-- The most registers that were in use at once. -/
  peakRegisters : Nat := 0
  /-- How often the register file grew. -/
  growths : Nat := 0
  deriving DecidableEq, Repr

namespace Stats

/-- How often an opcode was dispatched. -/
def dispatched (s : Stats) (op : Opcode) : Word := s.counts[op.index]

/-- The dispatches of every opcode together. -/
def total (s : Stats) : Nat := s.counts.toList.foldr (fun count sum => count.toNat + sum) 0

/-- Counts a dispatch. -/
def count (s : Stats) (op : Opcode) : Stats :=
  { s with counts := s.counts.set op.index (s.counts[op.index] + 1) }

/-- Takes the depth and the registers in use right after a frame was created. -/
def observe (s : Stats) (depth inUse : Nat) : Stats :=
  { s with maxDepth := max s.maxDepth depth, peakRegisters := max s.peakRegisters inUse }

/-- Counts a growth of the register file. -/
def recordGrowth (s : Stats) : Stats := { s with growths := s.growths + 1 }

@[simp] theorem dispatched_count (s : Stats) (op : Opcode) :
    (s.count op).dispatched op = s.dispatched op + 1 := by
  simp [dispatched, count]

theorem dispatched_count_of_ne (s : Stats) {op other : Opcode} (h : other ≠ op) :
    (s.count op).dispatched other = s.dispatched other := by
  have hne : op.index.val ≠ other.index.val := fun he =>
    h (Opcode.index_inj.1 (Fin.ext he.symm))
  simp [dispatched, count, Vector.getElem_set_ne, hne]

end Stats
end WindowVM
