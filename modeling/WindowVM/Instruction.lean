/-
# Instructions and programs

An instruction is an opcode with up to three 64-bit operands.  `mov` and `movi`
address the whole register file, and their registers are written `%n`; every other
register operand is relative to the window of the frame that executes it and is
written `rn`.  The destination of a `call` lies in the caller's window.

A `Program` has fewer than 2^64 instructions, so a program counter can reach each of
them and the one after it.
-/


namespace WindowVM

/-- A register word, and every operand of an instruction. -/
abbrev Word := UInt64

/-- What an instruction does, without its operands. -/
inductive Opcode where
  | ret
  | call
  | move
  | moveImmediate
  | add
  | addImmediate
  | increment
  | decrement
  deriving DecidableEq, Repr

namespace Opcode

/-- Every opcode, in the order of its index. -/
def all : List Opcode :=
  [.ret, .call, .move, .moveImmediate, .add, .addImmediate, .increment, .decrement]

/-- The place of an opcode in `all`. -/
def index : Opcode → Fin 8
  | .ret => 0
  | .call => 1
  | .move => 2
  | .moveImmediate => 3
  | .add => 4
  | .addImmediate => 5
  | .increment => 6
  | .decrement => 7

theorem index_inj {a b : Opcode} : a.index = b.index ↔ a = b := by
  cases a <;> cases b <;> decide

/-- The short name that listings use. -/
def mnemonic : Opcode → String
  | .ret => "ret"
  | .call => "call"
  | .move => "mov"
  | .moveImmediate => "movi"
  | .add => "add"
  | .addImmediate => "addi"
  | .increment => "inc"
  | .decrement => "dec"

/-- The long name that structured documents use. -/
def name : Opcode → String
  | .ret => "Return"
  | .call => "Call"
  | .move => "Move"
  | .moveImmediate => "MoveImmediate"
  | .add => "Add"
  | .addImmediate => "AddImmediate"
  | .increment => "Increment"
  | .decrement => "Decrement"

/-- The names of the operands, in the order in which they are written. -/
def operandNames : Opcode → List String
  | .ret => []
  | .call => ["target_pc", "frame_size", "destination_register"]
  | .move | .add => ["destination_register", "source_register"]
  | .moveImmediate | .addImmediate => ["destination_register", "value"]
  | .increment | .decrement => ["register"]

theorem nodup_operandNames (op : Opcode) : op.operandNames.Nodup := by
  cases op <;> decide

/-- The opcode with a given mnemonic. -/
def ofMnemonic? (s : String) : Option Opcode := all.find? (·.mnemonic == s)

/-- The opcode with a given long name. -/
def ofName? (s : String) : Option Opcode := all.find? (·.name == s)

@[simp] theorem ofMnemonic?_mnemonic (op : Opcode) : ofMnemonic? op.mnemonic = some op := by
  cases op <;> decide

@[simp] theorem ofName?_name (op : Opcode) : ofName? op.name = some op := by
  cases op <;> decide

end Opcode

/-- One operation of the machine with its operands. -/
inductive Instruction where
  /-- Ends the current frame and hands its register 0 to the caller. -/
  | ret
  /-- Enters a new frame of `frameSize` registers at `target`.  The result of the
  callee goes to register `destination` of the caller. -/
  | call (target frameSize destination : Word)
  /-- Copies an absolute register. -/
  | move (destination source : Word)
  /-- Sets an absolute register. -/
  | moveImmediate (destination value : Word)
  /-- Adds one register of the window to another. -/
  | add (destination source : Word)
  /-- Adds a constant to a register of the window. -/
  | addImmediate (destination value : Word)
  /-- Adds one to a register of the window. -/
  | increment (register : Word)
  /-- Takes one from a register of the window. -/
  | decrement (register : Word)
  deriving DecidableEq, Repr

namespace Instruction

/-- The opcode of an instruction. -/
def opcode : Instruction → Opcode
  | .ret => .ret
  | .call .. => .call
  | .move .. => .move
  | .moveImmediate .. => .moveImmediate
  | .add .. => .add
  | .addImmediate .. => .addImmediate
  | .increment .. => .increment
  | .decrement .. => .decrement

/-- The operands of an instruction, in the order in which they are written. -/
def operands : Instruction → List Word
  | .ret => []
  | .call target frameSize destination => [target, frameSize, destination]
  | .move destination source => [destination, source]
  | .moveImmediate destination value => [destination, value]
  | .add destination source => [destination, source]
  | .addImmediate destination value => [destination, value]
  | .increment register => [register]
  | .decrement register => [register]

/-- The instruction with a given opcode and operands, if their number fits. -/
def ofOperands? : Opcode → List Word → Option Instruction
  | .ret, [] => some .ret
  | .call, [target, frameSize, destination] => some (.call target frameSize destination)
  | .move, [destination, source] => some (.move destination source)
  | .moveImmediate, [destination, value] => some (.moveImmediate destination value)
  | .add, [destination, source] => some (.add destination source)
  | .addImmediate, [destination, value] => some (.addImmediate destination value)
  | .increment, [register] => some (.increment register)
  | .decrement, [register] => some (.decrement register)
  | _, _ => none

/-- An instruction is its opcode and its operands. -/
theorem ofOperands?_eq_some_iff {op : Opcode} {ws : List Word} {i : Instruction} :
    ofOperands? op ws = some i ↔ op = i.opcode ∧ ws = i.operands := by
  constructor
  · intro h
    unfold ofOperands? at h
    split at h <;> simp_all [opcode, operands] <;> subst h <;> simp
  · rintro ⟨rfl, rfl⟩
    cases i <;> rfl

theorem length_operands (i : Instruction) :
    i.operands.length = i.opcode.operandNames.length := by
  cases i <;> rfl

/-- The line of a listing: the mnemonic and the operands, absolute registers as `%n`,
relative ones as `rn`, constants as `#n`. -/
def render : Instruction → String
  | .ret => "ret"
  | .call target frameSize destination =>
    s!"call @{target.toNat} frame {frameSize.toNat} -> r{destination.toNat}"
  | .move destination source => s!"mov %{destination.toNat}, %{source.toNat}"
  | .moveImmediate destination value => s!"movi %{destination.toNat}, #{value.toNat}"
  | .add destination source => s!"add r{destination.toNat}, r{source.toNat}"
  | .addImmediate destination value => s!"addi r{destination.toNat}, #{value.toNat}"
  | .increment register => s!"inc r{register.toNat}"
  | .decrement register => s!"dec r{register.toNat}"

end Instruction

/-- A sequence of instructions that a 64-bit counter can address. -/
structure Program where
  code : Array Instruction
  /-- The counter can also stand just past the last instruction. -/
  size_lt : code.size < 1 <<< 64
  deriving DecidableEq

namespace Program

/-- The program with these instructions, if a 64-bit counter can address them. -/
def ofArray? (code : Array Instruction) : Option Program :=
  if h : code.size < 1 <<< 64 then some ⟨code, h⟩ else none

/-- The number of instructions. -/
def size (p : Program) : Nat := p.code.size

/-- The instruction at `pc`. -/
def get? (p : Program) (pc : Nat) : Option Instruction := p.code[pc]?

theorem lt_size_of_get?_eq_some {p : Program} {pc : Nat} {i : Instruction}
    (h : p.get? pc = some i) : pc < p.size :=
  (Array.getElem?_eq_some_iff.1 h).1

end Program
end WindowVM
