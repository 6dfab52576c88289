/-
# How an operation stops short

The machine trusts its programs.  What a program may run out of is room, for
registers or for frames: that is an `Exhaustion`, reported as an error.  Everything
else that can go wrong is a `Fault`, a broken rule of use: a register index out of
range, a call with an empty frame, a counter past the end of the program.

Every number the machine counts or addresses with has 64 bits, so a sum of two
offsets that does not fit is a fault as well (`boundedSum`).
-/


namespace WindowVM

/-- The room that ran out. -/
inductive Exhaustion where
  /-- The register file cannot hold `requested` registers. -/
  | registers (requested : Nat)
  /-- The call stack already holds `depth` frames and may hold no more. -/
  | frames (depth : Nat)
  deriving DecidableEq, Repr

/-- The text an exhaustion is reported with. -/
def Exhaustion.message : Exhaustion → String
  | .registers requested => s!"the register file cannot grow to {requested} registers"
  | .frames depth => s!"the call stack cannot hold more than {depth} frames"

/-- A broken rule of use. -/
inductive Fault where
  /-- A relative index at or past the length of its window. -/
  | outsideWindow (index len : Nat)
  /-- An absolute index at or past the capacity of the register file. -/
  | outsideFile (index capacity : Nat)
  /-- An execution on a machine that already ran out of room. -/
  | poisoned
  /-- An execution whose root frame would own no register. -/
  | emptyRootWindow
  /-- An execution while frames of an earlier one are live. -/
  | framesLeft (live : Nat)
  /-- A window given back that does not end at the last register in use. -/
  | stackOrder (stop inUse : Nat)
  /-- A program counter at or past the end of the program. -/
  | pastEnd (pc len : Nat)
  /-- A call whose frame would own no register. -/
  | emptyFrame (pc : Nat)
  /-- A root frame pushed while a frame is live. -/
  | rootOverLive
  /-- A callee pushed while no frame is live. -/
  | callerMissing
  /-- An instruction carried out while no frame is live. -/
  | dispatchWithoutFrame
  /-- A return while no frame is live. -/
  | returnWithoutFrame
  /-- A free slot of the frame arena that holds a frame. -/
  | occupiedSlot (slot : Nat)
  /-- A free slot that the frame arena does not have. -/
  | slotOutOfRange (slot slots : Nat)
  /-- A sum of 2^64 or more. -/
  | sumOverflow
  /-- A difference below zero. -/
  | differenceOverflow
  /-- A division by zero. -/
  | zeroDivisor
  /-- A growth increment of zero where a positive one is asked for. -/
  | zeroIncrement
  deriving DecidableEq, Repr

/-- The text a fault is reported with. -/
def Fault.message : Fault → String
  | .outsideWindow index len => s!"register r{index} is outside a window of {len} registers"
  | .outsideFile index capacity =>
    s!"register %{index} is outside a register file of {capacity} registers"
  | .poisoned => "machine reused after a failed execution"
  | .emptyRootWindow => "the root frame needs a return register"
  | .framesLeft live => s!"assertion `left == right` failed\n  left: {live}\n right: 0"
  | .stackOrder stop inUse =>
    "assertion `left == right` failed: register windows must be released in stack order\n" ++
      s!"  left: {stop}\n right: {inUse}"
  | .pastEnd pc len => s!"pc {pc} ran past the end of a {len} instruction program"
  | .emptyFrame pc => s!"call at pc {pc} has an empty frame"
  | .rootOverLive => "root frame pushed over a live frame"
  | .callerMissing => "internal error: entered unreachable code: call without a live caller frame"
  | .dispatchWithoutFrame =>
    "internal error: entered unreachable code: dispatch without a live frame"
  | .returnWithoutFrame => "internal error: entered unreachable code: return without a live frame"
  | .occupiedSlot slot => s!"free frame slot {slot} is occupied"
  | .slotOutOfRange slot slots =>
    s!"index out of bounds: the len is {slots} but the index is {slot}"
  | .sumOverflow => "attempt to add with overflow"
  | .differenceOverflow => "attempt to subtract with overflow"
  | .zeroDivisor => "attempt to divide by zero"
  | .zeroIncrement => "register growth increment must be positive"

/-- Why an operation stopped short: it ran out of room, or a rule of use was broken. -/
inductive Stop where
  | exhausted (cause : Exhaustion)
  | fault (cause : Fault)
  deriving DecidableEq, Repr

/-- The text of either cause. -/
def Stop.message : Stop → String
  | .exhausted cause => cause.message
  | .fault cause => cause.message

/-- The sum of two offsets, when it has 64 bits. -/
def boundedSum (a b : Nat) : Except Fault Nat :=
  if a + b < 1 <<< 64 then .ok (a + b) else .error .sumOverflow

theorem boundedSum_eq_ok_iff {a b c : Nat} :
    boundedSum a b = .ok c ↔ a + b = c ∧ c < 1 <<< 64 := by
  unfold boundedSum
  split
  · simp only [Except.ok.injEq]; omega
  · simp only [reduceCtorEq, false_iff]; omega

end WindowVM
