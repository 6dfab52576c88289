/-
# The faults a program can cause

Of the rules of use, some are for programs and their callers, and some guard the parts of
a machine against each other.  `Breach` lists how the first can be broken, each with the
state that breaks it; `Fault.isInternal` are the second.  `Reachable.breach_of_fault` says that
every fault of every execution is a breach and none is internal.

The registers that an instruction reaches through its window are not among the causes:
`Breach.outsideFile` needs an absolute operand, which only `mov` and `movi` have.
-/

import WindowVM.Proofs.FrameChain

namespace WindowVM

/-- The faults that guard the parts of a machine against each other. -/
def Fault.isInternal : Fault → Bool
  | .stackOrder .. | .rootOverLive | .callerMissing | .dispatchWithoutFrame
  | .returnWithoutFrame | .occupiedSlot _ | .slotOutOfRange .. | .sumOverflow
  | .differenceOverflow | .zeroDivisor | .zeroIncrement => true
  | .outsideWindow .. | .outsideFile .. | .poisoned | .emptyRootWindow | .framesLeft _
  | .pastEnd .. | .emptyFrame _ => false

namespace Machine

/-- The rules of use that an execution of `m` can break, `n` being the machine it leaves. -/
inductive Breach (m : Machine) (rootSize : Nat) (n : Machine) : Fault → Prop
  /-- The machine already ran out of room. -/
  | poisoned (hpoisoned : m.poisoned = true) (hn : n = m) : Breach m rootSize n .poisoned
  /-- The root frame would own no register. -/
  | emptyRootWindow (hroot : rootSize = 0) (hn : n = m) : Breach m rootSize n .emptyRootWindow
  /-- An earlier fault left frames. -/
  | framesLeft (hlive : m.frames.live ≠ 0) (hn : n = m) :
      Breach m rootSize n (.framesLeft m.frames.live)
  /-- The program ends before the counter. -/
  | pastEnd (hpc : n.program.size ≤ n.pc) : Breach m rootSize n (.pastEnd n.pc n.program.size)
  /-- The instruction calls a frame that would own no register. -/
  | emptyFrame {target frameSize destination : Word}
      (hfetch : n.program.get? n.pc = some (.call target frameSize destination))
      (hsize : frameSize = 0) : Breach m rootSize n (.emptyFrame n.pc)
  /-- A relative operand of the instruction lies outside the current window. -/
  | outsideWindow {i : Instruction} {f : Frame} {index : Word}
      (hfetch : n.program.get? n.pc = some i) (hframe : n.frames.currentFrame? = some f)
      (hindex : index ∈ i.relativeOperands) (hlen : f.window.len ≤ index.toNat) :
      Breach m rootSize n (.outsideWindow index.toNat f.window.len)
  /-- An absolute operand of the instruction lies outside the register file. -/
  | outsideFile {i : Instruction} {index : Word} (hfetch : n.program.get? n.pc = some i)
      (hindex : index ∈ i.absoluteOperands) (hcapacity : n.registers.capacity ≤ index.toNat) :
      Breach m rootSize n (.outsideFile index.toNat n.registers.capacity)

variable {p : Program} {c : Config} {m n : Machine} {rootSize : Nat} {fs : List Frame}

theorem Breach.not_internal {fault : Fault} (h : Breach m rootSize n fault) :
    fault.isInternal = false := by
  cases h <;> rfl

/-- A refusal is a breach by the caller. -/
theorem breach_of_refusal {fault : Fault} (h : m.refusal? rootSize = some fault) :
    Breach m rootSize m fault := by
  unfold refusal? at h
  split at h
  · rename_i hpoisoned
    obtain rfl := Option.some.inj h
    exact .poisoned hpoisoned rfl
  · split at h
    · rename_i hroot
      obtain rfl := Option.some.inj h
      exact .emptyRootWindow hroot rfl
    · split at h
      · rename_i hlive
        obtain rfl := Option.some.inj h
        exact .framesLeft hlive rfl
      · simp at h

/-- **A step breaks a rule by its operands or its counter,** and by nothing else. -/
theorem Live.breach (h : n.Live rootSize fs) {fault : Fault} {e : Machine}
    (hstep : n.step = .stopped (.fault fault) e) : Breach m rootSize e fault := by
  obtain ⟨f, fs, rfl, htransition⟩ := h.exists_transition hstep
  cases htransition with
  | pastEnd hfetch =>
    exact .pastEnd (Array.getElem?_eq_none_iff.1 hfetch)
  | emptyFrame hfetch _ hsize =>
    exact .emptyFrame (n := n.counted _) hfetch hsize
  | misfit hfetch hmisfit =>
    rcases Instruction.misfit?_eq_some hmisfit with
      ⟨index, hindex, hlen, rfl⟩ | ⟨index, hindex, hcapacity, rfl⟩
    · exact .outsideWindow (n := n.counted _) hfetch h.currentFrame? hindex hlen
    · exact .outsideFile (n := n.counted _) hfetch hindex hcapacity

/-! ### Counters -/

/-- A growth adds a register at least. -/
theorem growths_extend_le (h : m.registers.Fits) {capacity len : Nat}
    (hroom : m.registers.room (m.registers.inUse + len) = .ok capacity)
    (hm : m.stats.growths ≤ m.registers.capacity) :
    (m.extend capacity len).stats.growths ≤ (m.extend capacity len).registers.capacity := by
  have hle := (growthRule_eq_ok h.increment_pos hroom).1
  have hcapacity : (m.extend capacity len).registers.capacity = capacity :=
    RegisterFile.capacity_extend hle
  rw [hcapacity]
  simp only [extend]
  split
  · omega
  · simp only [Stats.recordGrowth]
    omega

/-- No step counts more growths than it adds registers. -/
theorem Live.growths_le (h : m.Live rootSize fs) (hstep : m.step = .running n)
    (hm : m.stats.growths ≤ m.registers.capacity) : n.stats.growths ≤ n.registers.capacity := by
  obtain ⟨f, fs, rfl, htransition⟩ := h.exists_transition hstep
  cases htransition with
  | wrote => rwa [Machine.writing, RegisterFile.capacity_write]
  | entered _ _ _ hroom => exact growths_extend_le (m := m.counted _) h.fits hroom hm
  | returned => rwa [Machine.writing, RegisterFile.capacity_write]

theorem Live.growths_le_of_reaches (h : m.Live rootSize fs) (hr : Reaches m n)
    (hm : m.stats.growths ≤ m.registers.capacity) : n.stats.growths ≤ n.registers.capacity := by
  induction hr with
  | refl => exact hm
  | tail hr hstep ih =>
    obtain ⟨gs, hlive⟩ := h.of_reaches hr
    exact hlive.growths_le hstep ih

theorem Resting.growths_le_of_start (h : m.Resting) {entry : Nat}
    (hstart : m.fresh.start entry rootSize = (.ok (), n)) :
    n.stats.growths ≤ n.registers.capacity := by
  have hopening := h.fresh.opening entry rootSize
  rw [hstart] at hopening
  cases hopening with
  | opened hroom =>
    refine growths_extend_le (m := m.fresh) h.fits ?_ (Nat.zero_le _)
    change m.registers.room (m.registers.inUse + rootSize) = _
    rw [h.inUse, Nat.zero_add]
    exact hroom

namespace Reachable

/-- **No counter of a machine outgrows 64 bits:** at each fetch there are no more live
frames, and no more growths counted, than registers. -/
theorem counters_le (h : Reachable p c m) {entry : Nat} (hn : m.Fetches entry rootSize n) :
    n.frames.live ≤ n.registers.capacity ∧ n.stats.growths ≤ n.registers.capacity ∧
      n.registers.capacity < RegisterFile.unallocatable := by
  obtain ⟨-, fs, hlive⟩ := h.live_of_fetches hn
  refine ⟨?_, ?_, hlive.fits.capacity_lt⟩
  · rw [hlive.frames.live]
    exact Nat.le_trans hlive.nested.length_le_extent (hlive.inUse ▸ hlive.fits.inUse_le)
  · obtain ⟨hrefusal, s, hstart, hreaches⟩ := hn
    have hgrowths := (h.resting_of_refusal hrefusal).growths_le_of_start hstart
    exact (h.live_of_start hrefusal hstart).1.growths_le_of_reaches hreaches hgrowths

/-- **Every fault is a breach of a rule of use:** whatever was executed before, an
execution that faults does so for one of the causes of `Breach`, and never for a check
that guards the parts of the machine against each other.  The two counters that the
machine adds to unchecked stay below 2^59. -/
theorem breach_of_fault (h : Reachable p c m) (entry rootSize : Nat) :
    (∀ fault n, m.execute entry rootSize = (.error (.fault fault), n) →
      Breach m rootSize n fault ∧ fault.isInternal = false) ∧
    ∀ n, m.Fetches entry rootSize n → n.frames.live < 2 ^ 59 ∧ n.stats.growths < 2 ^ 59 := by
  constructor
  · intro fault n hexecute
    suffices hbreach : Breach m rootSize n fault from ⟨hbreach, hbreach.not_internal⟩
    cases hrefusal : m.refusal? rootSize with
    | some refusal =>
      rw [execute, hrefusal] at hexecute
      obtain ⟨hfault, rfl⟩ := Prod.mk.inj hexecute
      obtain rfl := Stop.fault.inj (Except.error.inj hfault)
      exact breach_of_refusal hrefusal
    | none =>
      have hexecution := (h.resting_of_refusal hrefusal).execution hrefusal entry
      rw [hexecute] at hexecution
      cases hexecution with
      | faulted hstart hreaches hstep =>
        obtain ⟨-, fs, hlive⟩ := h.live_of_fetches ⟨hrefusal, _, hstart, hreaches⟩
        exact hlive.breach hstep
  · intro n hn
    obtain ⟨hframes, hgrowths, hcapacity⟩ := h.counters_le hn
    exact ⟨Nat.lt_of_le_of_lt hframes hcapacity, Nat.lt_of_le_of_lt hgrowths hcapacity⟩

/-- The hypotheses are satisfiable: a callee counts up a register that its window of two
does not have. -/
theorem breach_in_callee :
    ∃ m n, Reachable ⟨#[.call 1 2 0, .increment 2], by decide⟩
        { initialRegisters := 1, growthIncrement := 1 } m ∧
      m.execute 0 1 = (.error (.fault (.outsideWindow 2 2)), n) ∧
        Breach m 1 n (.outsideWindow 2 2) := by
  refine ⟨_, _, .new rfl, execute_of_fault rfl rfl (.single rfl) rfl, ?_⟩
  have hbreach := breach_of_fault (p := ⟨#[.call 1 2 0, .increment 2], by decide⟩)
    (c := { initialRegisters := 1, growthIncrement := 1 }) (.new rfl) 0 1
  exact (hbreach.1 _ _ (execute_of_fault rfl rfl (.single rfl) rfl)).1

end Reachable
end Machine
end WindowVM
