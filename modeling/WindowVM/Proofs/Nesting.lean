/-
# Live frames nest

`Nested p rootSize fs` describes the live frames of an execution of `p` whose root owns
`rootSize` registers: the root's window starts at register 0, each further window starts
where its caller's ends, and each link says which `call` of the program made the frame.
The frames are listed as the call stack chains them, the current one first.

`Machine.Live` is the state of a machine at each fetch: its call stack holds nested
frames, its registers in use are those of their windows, and both stay within the limits.
-/

import Mathlib.Algebra.Group.Nat.Defs
import WindowVM.Machine.Basic
import WindowVM.Proofs.Arena
import WindowVM.Proofs.Growth

namespace WindowVM

/-- One past the last register of the current frame, which is where the next one starts. -/
def extent : List Frame → Nat
  | [] => 0
  | f :: _ => f.window.base + f.window.len

/-- The frame that a `call` at `pc` makes over the frames `fs` of which `caller` is the
current one. -/
def calleeFrame (caller : Frame) (fs : List Frame) (pc : Nat) (frameSize destination : Word) :
    Frame :=
  { window := ⟨caller.window.base + caller.window.len, frameSize.toNat⟩
    link := some
      { caller := fs.length
        resumePc := pc + 1
        destination := caller.window.base + destination.toNat } }

/-- A limit that is not reached yet. -/
theorem lt_of_limit {limit : Option Nat} {n l : Nat} (h : limit.any (· ≤ n) = false)
    (hl : l ∈ limit) : n < l := by
  obtain rfl := Option.mem_def.1 hl
  rw [Option.any_some, decide_eq_false_iff_not] at h
  exact Nat.not_le.1 h

/-- The live frames of an execution whose root owns `rootSize` registers. -/
inductive Nested (p : Program) (rootSize : Nat) : List Frame → Prop
  | root (hsize : 0 < rootSize) : Nested p rootSize [⟨⟨0, rootSize⟩, none⟩]
  | call {caller : Frame} {fs : List Frame} {pc : Nat} {target frameSize destination : Word}
      (h : Nested p rootSize (caller :: fs))
      (hfetch : p.get? pc = some (.call target frameSize destination))
      (hsize : 0 < frameSize.toNat) (hdestination : destination.toNat < caller.window.len) :
      Nested p rootSize (calleeFrame caller fs pc frameSize destination :: caller :: fs)

namespace Nested

variable {p : Program} {rootSize : Nat} {f : Frame} {fs : List Frame}

theorem ne_nil (h : Nested p rootSize fs) : fs ≠ [] := by
  cases h <;> exact List.cons_ne_nil _ _

/-- Each window starts where the one below ends. -/
theorem base_eq (h : Nested p rootSize (f :: fs)) : f.window.base = extent fs := by
  cases h <;> rfl

/-- No window is empty. -/
theorem len_pos (h : Nested p rootSize (f :: fs)) : 0 < f.window.len := by
  cases h <;> assumption

theorem tail (h : Nested p rootSize (f :: fs)) (hne : fs ≠ []) : Nested p rootSize fs := by
  cases h with
  | root => exact absurd rfl hne
  | call h => exact h

/-- A frame without a link is the root, which is alone. -/
theorem eq_nil_of_link (h : Nested p rootSize (f :: fs)) (hlink : f.link = none) : fs = [] := by
  cases h with
  | root => rfl
  | call => simp [calleeFrame] at hlink

/-- A frame with a link has a caller, and the link leads to one of its registers. -/
theorem destination_lt (h : Nested p rootSize (f :: fs)) {link : Link}
    (hlink : f.link = some link) : fs ≠ [] ∧ link.destination < f.window.base := by
  cases h with
  | root => simp at hlink
  | call _ _ _ hdestination =>
    obtain rfl := Option.some.inj hlink
    exact ⟨List.cons_ne_nil _ _, by simp only [calleeFrame]; omega⟩

/-- **No more frames than registers:** each live frame owns one at least. -/
theorem length_le_extent (h : Nested p rootSize fs) : fs.length ≤ extent fs := by
  induction h with
  | root hsize => simpa [extent] using Nat.succ_le_of_lt hsize
  | call _ _ hsize _ ih =>
    simp only [extent, calleeFrame, List.length_cons] at ih ⊢
    omega

end Nested

/-- What a machine never changes: its program and the limits it keeps to. -/
structure Environment where
  program : Program
  increment : Nat
  registerLimit : Option Nat
  frameLimit : Option Nat

/-- The environment of a new machine. -/
def Environment.ofConfig (p : Program) (c : Config) : Environment :=
  { program := p
    increment := max c.growthIncrement.toNat 1
    registerLimit := c.maxRegisters.map (·.toNat)
    frameLimit := c.maxFrames.map (·.toNat) }

/-- The machine after a step. -/
def Progress.machine : Progress → Machine
  | .running m => m
  | .finished _ m => m
  | .stopped _ m => m

namespace Machine

/-- The program of a machine and the limits it keeps to. -/
def environment (m : Machine) : Environment :=
  { program := m.program
    increment := m.registers.increment
    registerLimit := m.registers.limit
    frameLimit := m.frames.limit }

/-- Another call stack with the same limit makes the same environment. -/
theorem environment_of_limit (m : Machine) {frames : CallStack}
    (h : frames.limit = m.frames.limit) :
    Environment.mk m.program m.registers.increment m.registers.limit frames.limit =
      m.environment := by
  rw [h]
  rfl

/-- A machine between executions. -/
structure Resting (m : Machine) : Prop where
  frames : m.frames.Holds []
  fits : m.registers.Fits
  inUse : m.registers.inUse = 0

/-- A machine at a fetch, with the live frames `fs`. -/
structure Live (m : Machine) (rootSize : Nat) (fs : List Frame) : Prop where
  frames : m.frames.Holds fs
  fits : m.registers.Fits
  nested : Nested m.program rootSize fs
  inUse : m.registers.inUse = extent fs
  length_le : ∀ l ∈ m.frames.limit, fs.length ≤ l

namespace Live

variable {m : Machine} {rootSize : Nat} {f : Frame} {fs : List Frame}

/-- The registers of the current frame exist. -/
theorem window_le (h : m.Live rootSize (f :: fs)) :
    f.window.base + f.window.len ≤ m.registers.capacity := by
  have hinUse : m.registers.inUse = f.window.base + f.window.len := h.inUse
  exact hinUse ▸ h.fits.inUse_le

/-- The register that a result goes to exists. -/
theorem destination_lt_capacity (h : m.Live rootSize (f :: fs)) {link : Link}
    (hlink : f.link = some link) : link.destination < m.registers.capacity := by
  have hwindow := h.window_le
  have hlt := (h.nested.destination_lt hlink).2
  omega

theorem capacity_lt (h : m.Live rootSize fs) : m.registers.capacity < 2 ^ 64 :=
  Nat.lt_trans h.fits.capacity_lt (by decide)

theorem live_ne_zero (h : m.Live rootSize fs) : m.frames.live ≠ 0 := by
  rw [h.frames.live]
  exact fun h0 => h.nested.ne_nil (List.length_eq_zero_iff.1 h0)

theorem currentFrame? (h : m.Live rootSize (f :: fs)) : m.frames.currentFrame? = some f := by
  rw [h.frames.currentFrame?, List.head?_cons]

end Live
end Machine
end WindowVM
