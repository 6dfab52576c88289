/-
# Executions

`Machine.run` repeats `Machine.step` until the root frame returns or a step stops
short, and `Machine.execute` wraps it in the life of a machine: the entry checks, a
fresh set of counters, the root frame, and the unwinding after an exhaustion.

Every run ends, whatever the program, because the program counter only moves up within
a frame and a callee starts above the registers of its caller, of which there are fewer
than 2^64.  `Machine.remaining` turns this into a number that each step makes smaller:
each live frame counts the instructions it has left, weighted so that one instruction
of a frame outweighs everything a frame above it can do.
-/

import WindowVM.Machine.Basic

namespace WindowVM

namespace RegisterFile

/-- An allocation hands out the registers right above those in use. -/
theorem allocate_eq_ok {r s : RegisterFile} {len : Nat} {w : Window}
    (h : r.allocate len = (.ok w, s)) :
    w = ⟨r.inUse, len⟩ ∧ s.inUse = r.inUse + len ∧ s.inUse < 1 <<< 64 := by
  simp only [allocate] at h
  split at h
  · simp at h
  · split at h
    · simp only [Prod.mk.injEq, Except.ok.injEq] at h
      obtain ⟨rfl, rfl⟩ := h
      exact ⟨rfl, rfl, by simp only; omega⟩
    · split at h
      · simp only [Prod.mk.injEq, Except.ok.injEq] at h
        obtain ⟨rfl, rfl⟩ := h
        exact ⟨rfl, rfl, by simp only; omega⟩
      · simp at h

/-- A release leaves in use what lies below the window. -/
theorem inUse_of_release {r s : RegisterFile} {w : Window} (h : r.release w = (.ok (), s)) :
    s.inUse = w.base := by
  unfold release at h
  split at h
  · simp at h
  · split at h
    · obtain ⟨-, rfl⟩ := Prod.mk.inj h
      rfl
    · simp at h

/-- A word that is replaced leaves the registers in use as they are. -/
theorem inUse_of_set {r s : RegisterFile} {index : Nat} {word : Word}
    (h : r.set index word = (.ok (), s)) : s.inUse = r.inUse := by
  unfold set at h
  split at h
  · obtain ⟨-, rfl⟩ := Prod.mk.inj h
    rfl
  · simp at h

end RegisterFile

namespace Machine

/-- What `left` instructions of a frame weigh in a program of `size` instructions when
the frames above it start at register `top` or later. -/
def weight (size left top : Nat) : Nat := left * Nat.pow (size + 1) (1 <<< 64 - top)

theorem weight_lt_weight {size a b top : Nat} (h : a < b) :
    weight size a top < weight size b top :=
  Nat.mul_lt_mul_of_pos_right h (Nat.pow_pos (Nat.succ_pos size))

/-- A frame that starts higher up weighs less than one instruction. -/
theorem weight_add_weight_lt {size left a low high : Nat} (hleft : left ≤ size)
    (hlow : low < high) (hhigh : high < 1 <<< 64) :
    weight size left high + weight size a low < weight size (a + 1) low := by
  have hpos : 0 < Nat.pow (size + 1) (1 <<< 64 - high) := Nat.pow_pos (Nat.succ_pos size)
  have hmono : Nat.pow (size + 1) (1 <<< 64 - high + 1) ≤ Nat.pow (size + 1) (1 <<< 64 - low) :=
    Nat.pow_le_pow_right (Nat.succ_pos size) (by omega)
  have hle : left * Nat.pow (size + 1) (1 <<< 64 - high) ≤
      size * Nat.pow (size + 1) (1 <<< 64 - high) := Nat.mul_le_mul_right _ hleft
  rw [Nat.pow, Nat.mul_eq, Nat.mul_add, Nat.mul_one, Nat.mul_comm _ size] at hmono
  unfold weight
  rw [Nat.add_mul, Nat.one_mul]
  omega

/-- What a suspended caller has left to do once the frame `f` returns to it. -/
def suspended (size : Nat) (f : Frame) : Nat :=
  match f.link with
  | none => 0
  | some link => weight size (size - link.resumePc) f.window.base

/-- What the live frames have left to do. -/
def remaining (m : Machine) : Nat :=
  weight m.program.size (m.program.size - m.pc) m.registers.inUse +
    m.frames.chain.foldr (fun f sum => suspended m.program.size f + sum) 0

theorem remaining_lt_of_write {m n : Machine} {index : Nat} {word : Word}
    (hpc : m.pc < m.program.size) (h : m.write index word = .running n) :
    n.remaining < m.remaining := by
  simp only [write] at h
  split at h
  · rename_i pc hsum
    obtain rfl := Progress.running.inj h
    have hnext := (boundedSum_eq_ok_iff.1 hsum).1
    have : weight m.program.size (m.program.size - pc) m.registers.inUse <
        weight m.program.size (m.program.size - m.pc) m.registers.inUse :=
      weight_lt_weight (by omega)
    simpa [remaining, RegisterFile.write] using this
  · simp at h

theorem remaining_lt_of_enter {m n : Machine} {target frameSize : Word} {destination : Nat}
    (hpc : m.pc < m.program.size) (h : m.enter target frameSize destination = .running n) :
    n.remaining < m.remaining := by
  unfold enter at h
  split at h
  · simp at h
  · rename_i hsize
    split at h
    · simp at h
    · rename_i resumePc hsum
      simp only [allocate] at h
      split at h
      · simp at h
      · rename_i heq
        split at heq
        · simp at heq
        · rename_i w registers halloc
          simp only [Prod.mk.injEq, Except.ok.injEq] at heq
          obtain ⟨rfl, rfl⟩ := heq
          split at h
          · simp at h
          · rename_i slot frames hpush
            obtain rfl := Progress.running.inj h
            obtain ⟨caller, hchain⟩ := CallStack.chain_of_pushCall hpush
            obtain ⟨rfl, hinUse, hlt⟩ := RegisterFile.allocate_eq_ok halloc
            have hnext := (boundedSum_eq_ok_iff.1 hsum).1
            have hpos : 0 < frameSize.toNat := by
              have : frameSize.toNat ≠ 0 := fun h0 => hsize (UInt64.toNat_inj.1 h0)
              omega
            have key : weight m.program.size (m.program.size - target.toNat) registers.inUse +
                weight m.program.size (m.program.size - resumePc) m.registers.inUse <
                weight m.program.size (m.program.size - resumePc + 1) m.registers.inUse :=
              weight_add_weight_lt (Nat.sub_le ..) (by omega) hlt
            have hleft : m.program.size - resumePc + 1 = m.program.size - m.pc := by omega
            rw [hleft] at key
            simp only [remaining, observe, hchain, suspended, List.foldr_cons]
            omega

theorem remaining_lt_of_leave {m n : Machine} (hpc : m.pc < m.program.size)
    (h : m.leave = .running n) : n.remaining < m.remaining := by
  unfold leave at h
  split at h
  · simp at h
  · simp at h
  · rename_i f frames hpop
    simp only at h
    split at h
    · simp at h
    · split at h
      · simp at h
      · rename_i registers hrelease
        split at h
        · simp at h
        · rename_i link hlink
          unfold resume at h
          split at h
          · simp at h
          · rename_i written hset
            obtain rfl := Progress.running.inj h
            have hbase := RegisterFile.inUse_of_release hrelease
            have hkept := RegisterFile.inUse_of_set hset
            have hpos : 0 < weight m.program.size (m.program.size - m.pc) m.registers.inUse :=
              Nat.mul_pos (by omega) (Nat.pow_pos (Nat.succ_pos _))
            simp only [remaining, CallStack.chain_of_pop hpop, suspended, hlink, List.foldr_cons,
              hkept, hbase]
            omega

/-- Each step that does not end the run leaves less to do. -/
theorem remaining_lt_of_step {m n : Machine} (h : m.step = .running n) :
    n.remaining < m.remaining := by
  unfold step at h
  split at h
  · simp at h
  · rename_i i hfetch
    have hpc := Program.lt_size_of_get?_eq_some hfetch
    simp only [dispatch] at h
    split at h
    · simp at h
    · split at h
      · rename_i effect _
        have hcount : ({ m with stats := m.stats.count i.opcode } : Machine).remaining =
            m.remaining := rfl
        rw [← hcount]
        cases effect with
        | write index word => exact remaining_lt_of_write hpc h
        | enter target frameSize destination => exact remaining_lt_of_enter hpc h
        | leave => exact remaining_lt_of_leave hpc h
      · simp at h

/-- Steps until the root frame returns or a step stops short. -/
def run (m : Machine) : Except Stop Word × Machine :=
  match _h : m.step with
  | .running n => n.run
  | .finished result n => (.ok result, n)
  | .stopped stop n => (.error stop, n)
termination_by m.remaining
decreasing_by exact remaining_lt_of_step ‹_›

theorem run_of_running {m n : Machine} (h : m.step = .running n) : m.run = n.run := by
  rw [run]; split <;> simp_all

theorem run_of_finished {m n : Machine} {result : Word} (h : m.step = .finished result n) :
    m.run = (.ok result, n) := by
  rw [run]; split <;> simp_all

theorem run_of_stopped {m n : Machine} {stop : Stop} (h : m.step = .stopped stop n) :
    m.run = (.error stop, n) := by
  rw [run]; split <;> simp_all

/-- What the machine comes to, if that takes no more than so many steps. -/
def runWithin (m : Machine) : Nat → Option (Except Stop Word × Machine)
  | 0 => none
  | k + 1 =>
    match m.step with
    | .running n => n.runWithin k
    | .finished result n => some (.ok result, n)
    | .stopped stop n => some (.error stop, n)

/-- Steps that are enough are the run. -/
theorem run_eq_of_runWithin {m : Machine} {k : Nat} {e : Except Stop Word × Machine}
    (h : m.runWithin k = some e) : m.run = e := by
  induction k generalizing m with
  | zero => simp [runWithin] at h
  | succ k ih =>
    rw [runWithin] at h
    split at h
    · rw [run_of_running ‹_›, ih h]
    · rw [run_of_finished ‹_›, Option.some.inj h]
    · rw [run_of_stopped ‹_›, Option.some.inj h]

/-- A machine about to execute its first instruction, or why there is none. -/
def start (m : Machine) (entry rootSize : Nat) : Except Stop Unit × Machine :=
  match m.allocate rootSize with
  | (.error stop, m) => (.error stop, m)
  | (.ok w, m) =>
    match m.frames.pushRoot w with
    | (.error stop, frames) => (.error stop, { m with frames })
    | (.ok _, frames) => (.ok (), { { m with frames }.observe with pc := entry })

/-- Starts the root frame and runs the program from `entry`. -/
def attempt (m : Machine) (entry rootSize : Nat) : Except Stop Word × Machine :=
  match m.start entry rootSize with
  | (.ok (), m) => m.run
  | (.error stop, m) => (.error stop, m)

/-- Destroys every frame, takes back every register and poisons the machine. -/
def abandon (m : Machine) : Except Fault Unit × Machine :=
  match m.frames.unwind with
  | (.error fault, frames) => (.error fault, { m with frames })
  | (.ok _, frames) =>
    (.ok (), { m with frames, registers := m.registers.releaseAll, poisoned := true })

/-- Ends an execution.  An exhaustion destroys every frame and poisons the machine; a
fault leaves the machine as it was when the fault arose. -/
def settle : Except Stop Word × Machine → Except Stop Word × Machine
  | (.error (.exhausted cause), m) =>
    match m.abandon with
    | (.ok (), m) => (.error (.exhausted cause), m)
    | (.error fault, m) => (.error (.fault fault), m)
  | ended => ended

/-- Why a machine may not execute with a root frame of `rootSize` registers. -/
def refusal? (m : Machine) (rootSize : Nat) : Option Fault :=
  if m.poisoned then some .poisoned
  else if rootSize = 0 then some .emptyRootWindow
  else if m.frames.live ≠ 0 then some (.framesLeft m.frames.live)
  else none

/-- Runs the program from `entry` with a root frame of `rootSize` registers, and with
fresh counters.  A machine that refuses stays as it is. -/
def execute (m : Machine) (entry rootSize : Nat) : Except Stop Word × Machine :=
  match m.refusal? rootSize with
  | some fault => (.error (.fault fault), m)
  | none => settle ({ m with stats := {} }.attempt entry rootSize)

/-- Executions one after another on the same machine. -/
def executeAll (m : Machine) : List (Nat × Nat) → List (Except Stop Word) × Machine
  | [] => ([], m)
  | (entry, rootSize) :: runs =>
    let (outcome, m) := m.execute entry rootSize
    let (outcomes, m) := m.executeAll runs
    (outcome :: outcomes, m)

end Machine
end WindowVM
