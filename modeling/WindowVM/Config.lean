/-
# Sizing and limits of a machine

A `Config` says how many registers a machine starts with, by which step its register
file grows, and how far registers and frames may go.  A `Setting` changes one of the
four; a growth increment of zero is refused there, although a configuration that is
read from a document may hold one (`RegisterFile.ofConfig` then grows by one).
-/

import WindowVM.Instruction
import WindowVM.Stop

namespace WindowVM

/-- The registers a machine starts with unless told otherwise. -/
def defaultCapacity : Word := 256

/-- The step a register file grows by unless told otherwise. -/
def defaultIncrement : Word := 256

/-- Sizing and limits of a machine. -/
structure Config where
  /-- The registers allocated up front. -/
  initialRegisters : Word := defaultCapacity
  /-- The step of growth: the file grows to the next multiple above its capacity. -/
  growthIncrement : Word := defaultIncrement
  /-- The capacity that the register file may never pass. -/
  maxRegisters : Option Word := none
  /-- How many frames may be live at once, the root included. -/
  maxFrames : Option Word := none
  deriving DecidableEq, Repr

namespace Config

/-- A change of one field. -/
inductive Setting where
  | initialRegisters (n : Word)
  | growthIncrement (n : Word)
  | maxRegisters (n : Word)
  | maxFrames (n : Word)
  deriving DecidableEq, Repr

/-- The configuration with one field changed. -/
def set (c : Config) : Setting → Except Fault Config
  | .initialRegisters n => .ok { c with initialRegisters := n }
  | .growthIncrement n =>
    if n = 0 then .error .zeroIncrement else .ok { c with growthIncrement := n }
  | .maxRegisters n => .ok { c with maxRegisters := some n }
  | .maxFrames n => .ok { c with maxFrames := some n }

/-- The default configuration after some settings, taken in order. -/
def ofSettings (settings : List Setting) : Except Fault Config :=
  settings.foldlM set {}

end Config
end WindowVM
