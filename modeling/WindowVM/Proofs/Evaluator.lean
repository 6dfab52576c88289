/-
# A recursive evaluator

A program can be evaluated without a stack of frames.  An `Activation` is one activation
of code: its window, its program counter, and how many registers are in use and frames
live while it is the current one.  A `Store` is what all activations share.  `evaluate`
goes through the instructions of an activation one after another, evaluates each `call`
by evaluating the callee, and ends at a `ret`.

`Environment.evaluateRoot` is an execution in these terms: the root activation, and what
is left when it ends.
-/

import WindowVM.Proofs.Nesting

namespace WindowVM

/-- The registers and the counters of an execution. -/
structure Store where
  words : Array Word
  stats : Stats

/-- An activation of code. -/
structure Activation where
  /-- The first register of its window. -/
  base : Nat
  /-- The number of registers of its window. -/
  len : Nat
  /-- The index of the instruction to evaluate next. -/
  pc : Nat
  /-- The registers in use while it is the current one. -/
  inUse : Nat
  /-- The activations that have not ended, with itself. -/
  depth : Nat

/-- How an activation ends: it returns a word, or an activation under it stops short. -/
inductive Ending where
  | returned (result : Word) (a : Activation) (s : Store)
  | stopped (stop : Stop) (a : Activation) (s : Store)

/-- What an activation comes to at its program counter. -/
inductive Turn where
  /-- It ends. -/
  | ended (ending : Ending)
  /-- It goes on with the next instruction. -/
  | next (s : Store)
  /-- It waits for a callee, whose result goes to register `index`. -/
  | call (callee : Activation) (index : Nat) (s : Store)

namespace Store

/-- The word of a register, zero where there is none. -/
def read (s : Store) (index : Nat) : Word := s.words[index]?.getD 0

/-- The store with one word replaced. -/
def write (s : Store) (index : Nat) (word : Word) : Store :=
  { s with words := s.words.setIfInBounds index word }

/-- The store with a dispatch counted. -/
def count (s : Store) (op : Opcode) : Store := { s with stats := s.stats.count op }

/-- The store with `capacity` registers, the new ones zero. -/
def grow (s : Store) (capacity : Nat) : Store :=
  { words := s.words ++ Array.replicate (capacity - s.words.size) 0
    stats := if capacity = s.words.size then s.stats else s.stats.recordGrowth }

/-- The store as an activation begins. -/
def observe (s : Store) (a : Activation) : Store :=
  { s with stats := s.stats.observe a.depth a.inUse }

/-- The place of an absolute register. -/
def register (s : Store) (index : Word) : Except Fault Nat :=
  if index.toNat < s.words.size then .ok index.toNat
  else .error (.outsideFile index.toNat s.words.size)

end Store

namespace Activation

/-- The place of a register of the window. -/
def register (a : Activation) (index : Word) : Except Fault Nat :=
  if index.toNat < a.len then .ok (a.base + index.toNat)
  else .error (.outsideWindow index.toNat a.len)

/-- The activation about to evaluate its next instruction. -/
def next (a : Activation) : Activation := { a with pc := a.pc + 1 }

/-- The activation that a `call` begins. -/
def callee (a : Activation) (target frameSize : Word) : Activation :=
  { base := a.inUse
    len := frameSize.toNat
    pc := target.toNat
    inUse := a.inUse + frameSize.toNat
    depth := a.depth + 1 }

/-- What an instruction does to the store by itself.  A `ret` does nothing, and a `call`
only looks for the register of its result. -/
def perform (a : Activation) (s : Store) : Instruction → Except Fault Store
  | .ret => .ok s
  | .call _ _ destination => do
    let _ ← a.register destination
    return s
  | .move destination source => do
    let source ← s.register source
    let destination ← s.register destination
    return s.write destination (s.read source)
  | .moveImmediate destination value => do
    let destination ← s.register destination
    return s.write destination value
  | .add destination source => do
    let source ← a.register source
    let destination ← a.register destination
    return s.write destination (s.read destination + s.read source)
  | .addImmediate destination value => do
    let destination ← a.register destination
    return s.write destination (s.read destination + value)
  | .increment register => do
    let register ← a.register register
    return s.write register (s.read register + 1)
  | .decrement register => do
    let register ← a.register register
    return s.write register (s.read register - 1)

/-- What a `call` comes to once the register of its result is found. -/
def enter (e : Environment) (a : Activation) (s : Store) (target frameSize destination : Word) :
    Turn :=
  if frameSize = 0 then .ended (.stopped (.fault (.emptyFrame a.pc)) a s)
  else
    match growthRule e.increment e.registerLimit s.words.size (a.inUse + frameSize.toNat) with
    | .error cause => .ended (.stopped (.exhausted cause) a s)
    | .ok capacity =>
      if e.frameLimit.any (· ≤ a.depth) then
        .ended (.stopped (.exhausted (.frames a.depth)) a (s.grow capacity))
      else
        let callee := a.callee target frameSize
        .call callee (a.base + destination.toNat) ((s.grow capacity).observe callee)

/-- What an activation comes to at its program counter. -/
def turn (e : Environment) (a : Activation) (s : Store) : Turn :=
  match e.program.get? a.pc with
  | none => .ended (.stopped (.fault (.pastEnd a.pc e.program.size)) a s)
  | some i =>
    match a.perform (s.count i.opcode) i with
    | .error fault => .ended (.stopped (.fault fault) a (s.count i.opcode))
    | .ok s =>
      match i with
      | .ret => .ended (.returned (s.read a.base) a s)
      | .call target frameSize destination => a.enter e s target frameSize destination
      | _ => .next s

variable {e : Environment} {a callee : Activation} {s t : Store} {index : Nat}

/-- What a `call` of a frame that owns registers comes to. -/
theorem enter_of_pos {target frameSize destination : Word} (hsize : 0 < frameSize.toNat) :
    a.enter e s target frameSize destination =
      match growthRule e.increment e.registerLimit s.words.size (a.inUse + frameSize.toNat) with
      | .error cause => .ended (.stopped (.exhausted cause) a s)
      | .ok capacity =>
        if e.frameLimit.any (· ≤ a.depth) then
          .ended (.stopped (.exhausted (.frames a.depth)) a (s.grow capacity))
        else
          .call (a.callee target frameSize) (a.base + destination.toNat)
            ((s.grow capacity).observe (a.callee target frameSize)) := by
  refine if_neg ?_
  rintro rfl
  exact absurd hsize (Nat.lt_irrefl 0)

/-- A callee has registers of its own, within the 64-bit range. -/
theorem inUse_lt_of_enter {target frameSize destination : Word}
    (h : a.enter e s target frameSize destination = .call callee index t) :
    a.inUse < callee.inUse ∧ a.inUse < 2 ^ 64 := by
  unfold enter at h
  split at h
  · simp at h
  · rename_i hsize
    have hpos : 0 < frameSize.toNat :=
      Nat.pos_of_ne_zero fun h0 => hsize (UInt64.toNat_inj.1 h0)
    split at h
    · simp at h
    · rename_i hroom
      have hword := lt_of_growthRule_eq_ok hroom
      split at h
      · simp at h
      · obtain ⟨rfl, -, -⟩ := Turn.call.inj h
        simp only [Activation.callee]
        omega

theorem inUse_lt_of_turn (h : a.turn e s = .call callee index t) :
    a.inUse < callee.inUse ∧ a.inUse < 2 ^ 64 := by
  unfold turn at h
  split at h
  · simp at h
  · split at h
    · simp at h
    · split at h
      · simp at h
      · exact inUse_lt_of_enter h
      · simp at h

/-- An activation that does not end is at an instruction. -/
theorem lt_size_of_turn (h : ∀ ending, a.turn e s ≠ .ended ending) : a.pc < e.program.size := by
  cases hfetch : e.program.get? a.pc with
  | none => exact absurd (by rw [turn, hfetch]) (h _)
  | some i => exact Program.lt_size_of_get?_eq_some hfetch

end Activation

/-- Evaluates an activation to its end.  An activation counts up through the instructions
of the program, and a callee has fewer registers left above it. -/
def evaluate (e : Environment) (a : Activation) (s : Store) : Ending :=
  match _h : a.turn e s with
  | .ended ending => ending
  | .next t => evaluate e a.next t
  | .call callee index t =>
    match evaluate e callee t with
    | .returned result _ u => evaluate e a.next (u.write index result)
    | .stopped stop b u => .stopped stop b u
termination_by (2 ^ 64 - a.inUse, e.program.size - a.pc)
decreasing_by
  · have hpc := Activation.lt_size_of_turn (e := e) (a := a) (s := s) (by simp [*])
    exact Prod.Lex.right _ (by simp only [Activation.next]; omega)
  · have hlt := Activation.inUse_lt_of_turn ‹_›
    exact Prod.Lex.left _ _ (by omega)
  · have hpc := Activation.lt_size_of_turn (e := e) (a := a) (s := s) (by simp [*])
    exact Prod.Lex.right _ (by simp only [Activation.next]; omega)

section

variable {e : Environment} {a callee : Activation} {s t : Store} {index : Nat}

theorem evaluate_of_ended {ending : Ending} (h : a.turn e s = .ended ending) :
    evaluate e a s = ending := by
  rw [evaluate]
  split <;> simp_all

theorem evaluate_of_next (h : a.turn e s = .next t) : evaluate e a s = evaluate e a.next t := by
  rw [evaluate]
  split <;> simp_all

theorem evaluate_of_call (h : a.turn e s = .call callee index t) :
    evaluate e a s =
      match evaluate e callee t with
      | .returned result _ u => evaluate e a.next (u.write index result)
      | .stopped stop b u => .stopped stop b u := by
  rw [evaluate]
  split <;> simp_all

end

/-- What is left when an execution ends. -/
structure Aftermath where
  words : Array Word
  stats : Stats
  pc : Nat
  inUse : Nat
  live : Nat
  poisoned : Bool

/-- What an exhaustion leaves: nothing live, nothing in use, and no other execution. -/
def Aftermath.exhausted (s : Store) (pc : Nat) : Aftermath :=
  { words := s.words, stats := s.stats, pc, inUse := 0, live := 0, poisoned := true }

/-- The activation of a root frame. -/
def rootActivation (entry rootSize : Nat) : Activation :=
  { base := 0, len := rootSize, pc := entry, inUse := rootSize, depth := 1 }

/-- What the end of a root activation comes to. -/
def Ending.conclude : Ending → Except Stop Word × Aftermath
  | .returned result a s =>
    (.ok result, { s with pc := a.pc, inUse := 0, live := 0, poisoned := false })
  | .stopped (.fault fault) a s =>
    (.error (.fault fault),
      { s with pc := a.pc, inUse := a.inUse, live := a.depth, poisoned := false })
  | .stopped (.exhausted cause) a s => (.error (.exhausted cause), .exhausted s a.pc)

/-- Executes a program from `entry` with a root activation of `rootSize` registers, given
the words and the program counter that an earlier execution left. -/
def Environment.evaluateRoot (e : Environment) (words : Array Word) (pc entry rootSize : Nat) :
    Except Stop Word × Aftermath :=
  let s : Store := ⟨words, {}⟩
  match growthRule e.increment e.registerLimit words.size rootSize with
  | .error cause => (.error (.exhausted cause), .exhausted s pc)
  | .ok capacity =>
    if e.frameLimit.any (· ≤ 0) then
      (.error (.exhausted (.frames 0)), .exhausted (s.grow capacity) pc)
    else
      let root := rootActivation entry rootSize
      (evaluate e root ((s.grow capacity).observe root)).conclude

end WindowVM
