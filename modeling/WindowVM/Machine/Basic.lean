/-
# The machine

A `Machine` carries out the instructions of its program one at a time.  An instruction
is dispatched in two parts.  `Instruction.effect` reads what the instruction needs and
checks every index it names; what is left to do is an `Effect`, with all registers
absolute and all sums done.  `Machine.carryOut` then changes the machine.  So an
instruction that breaks a rule of use changes nothing but its count, a call that runs
out of frames keeps the registers it was given, and `Machine.step` is a total function
from a machine to its `Progress`.
-/

import WindowVM.CallStack
import WindowVM.Stats

namespace WindowVM

/-- A program with the state that executes it. -/
structure Machine where
  program : Program
  registers : RegisterFile
  frames : CallStack
  /-- The index of the instruction to fetch next. -/
  pc : Nat
  stats : Stats
  /-- Set for good when an execution ran out of room. -/
  poisoned : Bool

/-- What is left of a machine after one step. -/
inductive Progress where
  | running (m : Machine)
  /-- The root frame returned this word. -/
  | finished (result : Word) (m : Machine)
  | stopped (stop : Stop) (m : Machine)

/-- The work of an instruction once its operands are resolved. -/
inductive Effect where
  /-- Write one register and go on with the next instruction. -/
  | write (index : Nat) (word : Word)
  /-- Enter a new frame whose result goes to an absolute register. -/
  | enter (target frameSize : Word) (destination : Nat)
  /-- End the current frame. -/
  | leave

namespace Machine

/-- A machine that has not executed anything yet. -/
def ofConfig (p : Program) (c : Config) : Except Exhaustion Machine :=
  match RegisterFile.ofConfig c with
  | .ok registers =>
    .ok
      { program := p
        registers
        frames := CallStack.empty (c.maxFrames.map (·.toNat))
        pc := 0
        stats := {}
        poisoned := false }
  | .error cause => .error cause

end Machine

/-- Replaces the word of a register by a function of it. -/
def Effect.change (r : RegisterFile) (index : Nat) (f : Word → Word) : Except Fault Effect :=
  (r.get index).map fun word => .write index (f word)

/-- Replaces the word of a register. -/
def Effect.assign (r : RegisterFile) (index : Nat) (word : Word) : Except Fault Effect :=
  Effect.change r index fun _ => word

/-- What an instruction has to do in a frame with window `w`.  Reads come before writes:
the source of a `mov` or an `add` is checked before its destination. -/
def Instruction.effect (r : RegisterFile) (w : Window) : Instruction → Except Fault Effect
  | .ret => .ok .leave
  | .call target frameSize destination =>
    (w.absolute destination.toNat).map (.enter target frameSize)
  | .move destination source => do
    let word ← r.get source.toNat
    Effect.assign r destination.toNat word
  | .moveImmediate destination value => Effect.assign r destination.toNat value
  | .add destination source => do
    let word ← r.get (← w.absolute source.toNat)
    Effect.change r (← w.absolute destination.toNat) (· + word)
  | .addImmediate destination value => do
    Effect.change r (← w.absolute destination.toNat) (· + value)
  | .increment register => do
    Effect.change r (← w.absolute register.toNat) (· + 1)
  | .decrement register => do
    Effect.change r (← w.absolute register.toNat) (· - 1)

namespace Machine

/-- Hands out the registers for a new frame.  A growth is counted. -/
def allocate (m : Machine) (len : Nat) : Except Stop Window × Machine :=
  match m.registers.allocate len with
  | (.error stop, registers) => (.error stop, { m with registers })
  | (.ok w, registers) =>
    let stats :=
      if registers.capacity = m.registers.capacity then m.stats else m.stats.recordGrowth
    (.ok w, { m with registers, stats })

/-- The machine with its depth and its registers in use recorded. -/
def observe (m : Machine) : Machine :=
  { m with stats := m.stats.observe m.frames.live m.registers.inUse }

/-- Writes a register that was checked, and goes on with the next instruction. -/
def write (m : Machine) (index : Nat) (word : Word) : Progress :=
  let m := { m with registers := m.registers.write index word }
  match boundedSum m.pc 1 with
  | .ok pc => .running { m with pc }
  | .error fault => .stopped (.fault fault) m

/-- Enters a new frame of `frameSize` registers above those in use. -/
def enter (m : Machine) (target frameSize : Word) (destination : Nat) : Progress :=
  if frameSize = 0 then .stopped (.fault (.emptyFrame m.pc)) m
  else
    match boundedSum m.pc 1 with
    | .error fault => .stopped (.fault fault) m
    | .ok resumePc =>
      match m.allocate frameSize.toNat with
      | (.error stop, m) => .stopped stop m
      | (.ok w, m) =>
        match m.frames.pushCall w resumePc destination with
        | (.error stop, frames) => .stopped stop { m with frames }
        | (.ok _, frames) => .running { { m with frames }.observe with pc := target.toNat }

/-- Hands a result to the frame that a link leads back to. -/
def resume (m : Machine) (link : Link) (result : Word) : Progress :=
  match m.registers.set link.destination result with
  | (.error fault, registers) => .stopped (.fault fault) { m with registers }
  | (.ok (), registers) => .running { m with registers, pc := link.resumePc }

/-- Ends the current frame.  Its register 0 is the result. -/
def leave (m : Machine) : Progress :=
  match m.frames.pop with
  | (.error fault, frames) => .stopped (.fault fault) { m with frames }
  | (.ok none, frames) => .stopped (.fault .returnWithoutFrame) { m with frames }
  | (.ok (some f), frames) =>
    let m := { m with frames }
    match (f.window.absolute 0).bind m.registers.get with
    | .error fault => .stopped (.fault fault) m
    | .ok result =>
      match m.registers.release f.window with
      | (.error fault, registers) => .stopped (.fault fault) { m with registers }
      | (.ok (), registers) =>
        match f.link with
        | none => .finished result { m with registers }
        | some link => { m with registers }.resume link result

/-- Does the work of an instruction. -/
def carryOut (m : Machine) : Effect → Progress
  | .write index word => m.write index word
  | .enter target frameSize destination => m.enter target frameSize destination
  | .leave => m.leave

/-- Dispatches an instruction in the current frame. -/
def dispatch (m : Machine) (i : Instruction) : Progress :=
  let m := { m with stats := m.stats.count i.opcode }
  match m.frames.currentFrame? with
  | none => .stopped (.fault .dispatchWithoutFrame) m
  | some f =>
    match i.effect m.registers f.window with
    | .ok effect => m.carryOut effect
    | .error fault => .stopped (.fault fault) m

/-- Fetches and dispatches one instruction. -/
def step (m : Machine) : Progress :=
  match m.program.get? m.pc with
  | none => .stopped (.fault (.pastEnd m.pc m.program.size)) m
  | some i => m.dispatch i

end Machine
end WindowVM
