/-
# Programs that pass a check

`Program.Checked` is a condition on the text of a program, and on the sizes of the file and of
the root frame it starts with.  It looks at each instruction once and follows no execution.
Still it rules out every fault: the counter cannot run past a program that ends with a `ret`,
because the instruction before a resumption is a `call` (`Checked.resumePc_lt`); a relative
operand that fits into the frame of every `call` fits into every window
(`Checked.fitsWindow`); and the file never has fewer registers than at first.

`Secure` is the invariant, `Live.exhausted_of_checked` and `Live.secure_of_running` are the
step, and `execute_of_checked` is the result.
-/

import WindowVM.Proofs.Capacity
import WindowVM.Proofs.RegisterLimit
import WindowVM.Proofs.Segments

namespace WindowVM

/-- Where an instruction may jump to. -/
def Instruction.target? : Instruction → Option Nat
  | .call target _ _ => some target.toNat
  | _ => none

/-- The size of the frame that an instruction makes. -/
def Instruction.frameSize? : Instruction → Option Nat
  | .call _ frameSize _ => some frameSize.toNat
  | _ => none

/-- The registers that an instruction names in its window exist in a window of `len`. -/
def Instruction.FitsWindow (i : Instruction) (len : Nat) : Prop :=
  ∀ index ∈ i.relativeOperands, index.toNat < len

instance (i : Instruction) (len : Nat) : Decidable (i.FitsWindow len) :=
  List.decidableBAll (fun index : Word => index.toNat < len) i.relativeOperands

namespace Program

/-- The program keeps to its text, to a file of `initial` registers, and to its frames if the
root has `rootSize` registers. -/
structure Checked (p : Program) (initial rootSize : Nat) : Prop where
  /-- There is a last instruction, and it is a `ret`. -/
  last : p.code.back? = some .ret
  /-- Each `call` enters the program. -/
  target_lt : ∀ i ∈ p.code, ∀ target ∈ i.target?, target < p.size
  /-- Each `call` makes a frame with a register. -/
  frameSize_pos : ∀ i ∈ p.code, ∀ size ∈ i.frameSize?, 1 ≤ size
  /-- The registers that are named absolutely exist from the start. -/
  absolute_lt : p.NamesBelow initial
  /-- The registers that are named relatively exist in every frame. -/
  fits : ∀ i ∈ p.code, i.FitsWindow rootSize ∧
    ∀ j ∈ p.code, ∀ size ∈ j.frameSize?, i.FitsWindow size

instance (p : Program) (initial rootSize : Nat) : Decidable (p.Checked initial rootSize) :=
  decidable_of_iff
    (p.code.back? = some .ret ∧ (∀ i ∈ p.code, ∀ target ∈ i.target?, target < p.size) ∧
      (∀ i ∈ p.code, ∀ size ∈ i.frameSize?, 1 ≤ size) ∧ p.NamesBelow initial ∧
      ∀ i ∈ p.code, i.FitsWindow rootSize ∧
        ∀ j ∈ p.code, ∀ size ∈ j.frameSize?, i.FitsWindow size)
    ⟨fun ⟨hlast, htarget, hsize, habsolute, hfits⟩ => ⟨hlast, htarget, hsize, habsolute, hfits⟩,
      fun h => ⟨h.last, h.target_lt, h.frameSize_pos, h.absolute_lt, h.fits⟩⟩

theorem mem_of_get? {p : Program} {pc : Nat} {i : Instruction} (h : p.get? pc = some i) :
    i ∈ p.code :=
  Array.mem_of_getElem? h

namespace Checked

variable {p : Program} {initial rootSize pc : Nat} {i : Instruction} {f : Frame}
  {fs : List Frame}

/-- After every instruction but a `ret` there is another one. -/
theorem succ_lt (h : p.Checked initial rootSize) (hfetch : p.get? pc = some i)
    (hret : i ≠ .ret) : pc + 1 < p.size := by
  have hpc := lt_size_of_get?_eq_some hfetch
  have hlast : p.get? (p.size - 1) = some .ret := by
    have hback := h.last
    rwa [Array.back?_eq_getElem?] at hback
  by_contra hend
  have heq : pc = p.size - 1 := by omega
  rw [heq, hlast] at hfetch
  exact hret (Option.some.inj hfetch).symm

/-- A caller resumes at an instruction. -/
theorem resumePc_lt (h : p.Checked initial rootSize) (hnested : Nested p rootSize (f :: fs))
    {link : Link} (hlink : f.link = some link) : link.resumePc < p.size := by
  cases hnested with
  | root => cases hlink
  | call _ hfetch =>
    obtain rfl := Option.some.inj hlink
    exact h.succ_lt hfetch (by simp)

/-- An instruction fits the window of whatever frame is current. -/
theorem fitsWindow (h : p.Checked initial rootSize) (hnested : Nested p rootSize (f :: fs))
    (hi : i ∈ p.code) : i.FitsWindow f.window.len := by
  obtain ⟨hroot, hframes⟩ := h.fits i hi
  cases hnested with
  | root => exact hroot
  | call _ hfetch => exact hframes _ (mem_of_get? hfetch) _ rfl

end Checked
end Program

namespace Machine

variable {p : Program} {c : Config} {m n : Machine} {initial rootSize : Nat} {fs : List Frame}

/-- What keeps a checked program from a fault: the next instruction exists, and so do the
registers that the file had at first. -/
structure Secure (p : Program) (initial : Nat) (m : Machine) : Prop where
  program_eq : m.program = p
  pc_lt : m.pc < p.size
  initial_le : initial ≤ m.registers.capacity

/-- **The step of a checked program does not fault:** if it stops short, room ran out. -/
theorem Live.exhausted_of_checked (h : m.Live rootSize fs) (hsecure : m.Secure p initial)
    (hcheck : p.Checked initial rootSize) {stop : Stop} {e : Machine}
    (hstep : m.step = .stopped stop e) : ∃ cause, stop = .exhausted cause := by
  obtain ⟨rfl, hpc, hinitial⟩ := hsecure
  obtain ⟨f, fs, rfl, htransition⟩ := h.exists_transition hstep
  cases htransition with
  | pastEnd hfetch => exact absurd hpc (Nat.not_lt.2 (Array.getElem?_eq_none_iff.1 hfetch))
  | @misfit i fault hfetch hmisfit =>
    have hi := Program.mem_of_get? hfetch
    have hfit : i.misfit? f.window.len m.registers.capacity = none := by
      refine Instruction.misfit?_eq_none_iff.2 ⟨hcheck.fitsWindow h.nested hi, ?_⟩
      intro index hindex
      exact Nat.lt_of_lt_of_le (hcheck.absolute_lt i hi index hindex) hinitial
    rw [hfit] at hmisfit
    cases hmisfit
  | @emptyFrame target frameSize destination hfetch _ hsize =>
    have hpos := hcheck.frameSize_pos _ (Program.mem_of_get? hfetch) frameSize.toNat rfl
    rw [hsize] at hpos
    exact absurd hpos (by decide)
  | noRegisters => exact ⟨_, rfl⟩
  | noFrames => exact ⟨_, rfl⟩

/-- **The step of a checked program keeps it secure.** -/
theorem Live.secure_of_running (h : m.Live rootSize fs) (hsecure : m.Secure p initial)
    (hcheck : p.Checked initial rootSize) (hstep : m.step = .running n) : n.Secure p initial := by
  have hprogram : n.program = m.program :=
    congrArg Environment.program (h.environment_eq hstep).1
  have hinitial := Nat.le_trans hsecure.initial_le (h.capacity_le hstep)
  obtain ⟨rfl, hpc, -⟩ := hsecure
  refine ⟨hprogram, ?_, hinitial⟩
  obtain ⟨f, fs, rfl, htransition⟩ := h.exists_transition hstep
  cases htransition with
  | wrote hfetch _ hwork =>
    refine hcheck.succ_lt hfetch ?_
    rintro rfl
    cases hwork
  | @entered target _ _ _ _ hfetch =>
    exact hcheck.target_lt _ (Program.mem_of_get? hfetch) target.toNat rfl
  | returned _ hlink => exact hcheck.resumePc_lt h.nested hlink

theorem Live.secure_of_reaches (h : m.Live rootSize fs) (hsecure : m.Secure p initial)
    (hcheck : p.Checked initial rootSize) (hreaches : Reaches m n) : n.Secure p initial := by
  induction hreaches with
  | refl => exact hsecure
  | tail hreaches hstep ih =>
    obtain ⟨gs, hlive⟩ := h.of_reaches hreaches
    exact hlive.secure_of_running ih hcheck hstep

/-- A root frame that is entered at an instruction is secure. -/
theorem Resting.secure_of_start (h : m.Resting) {entry : Nat}
    (hentry : entry < m.program.size) (hstart : m.start entry rootSize = (.ok (), n)) :
    n.Secure m.program m.registers.capacity := by
  have hopening := h.opening entry rootSize
  rw [hstart] at hopening
  cases hopening with
  | opened hroom =>
    have hle := (growthRule_eq_ok h.fits.increment_pos hroom).1
    exact ⟨rfl, hentry, hle.trans_eq (RegisterFile.capacity_extend hle).symm⟩

/-- **A checked program never faults.**  Take a program that ends with a `ret`, whose calls
enter it and make frames with registers, whose absolute operands name registers that the file
has from the start, and whose relative operands name registers that the root frame and every
frame of a `call` have.  However long its execution by a new machine takes, it returns a word
or it runs out of room. -/
theorem execute_of_checked (hm : ofConfig p c = .ok m)
    (hcheck : p.Checked c.initialRegisters.toNat rootSize) (entry : Nat) (hentry : entry < p.size)
    (hroot : 1 ≤ rootSize) :
    (∃ v n, m.execute entry rootSize = (.ok v, n)) ∨
      ∃ cause n, m.execute entry rootSize = (.error (.exhausted cause), n) := by
  obtain ⟨henvironment, hresting, hpoisoned⟩ := resting_of_ofConfig hm
  have hidle : m.Idle := ⟨hpoisoned, hresting.frames.live⟩
  have hprogram : m.program = p := congrArg Environment.program henvironment
  have hcapacity : m.registers.capacity = c.initialRegisters.toNat := by
    unfold ofConfig at hm
    split at hm
    · rename_i registers hregisters
      obtain rfl := Except.ok.inj hm
      exact RegisterFile.capacity_ofConfig hregisters
    · cases hm
  have hexecution := hresting.execution (hidle.refusal? hroot) entry
  generalize m.execute entry rootSize = e at hexecution
  cases hexecution with
  | refused => exact Or.inr ⟨_, _, rfl⟩
  | finished => exact Or.inl ⟨_, _, rfl⟩
  | exhausted => exact Or.inr ⟨_, _, rfl⟩
  | @faulted s last _ fault hstart hreaches hstep =>
    obtain ⟨⟨gs, hlive⟩, -⟩ := hresting.live_of_fetch hroot hstart hreaches
    have hfirst : s.Secure p c.initialRegisters.toNat := by
      have hfirst := hresting.fresh.secure_of_start (hprogram ▸ hentry) hstart
      rwa [show m.fresh.program = p from hprogram,
        show m.fresh.registers.capacity = _ from hcapacity] at hfirst
    have hlast := (hresting.fresh.live_of_start hroot hstart).1.secure_of_reaches hfirst hcheck
      hreaches
    obtain ⟨cause, hcause⟩ := hlive.exhausted_of_checked hlast hcheck hstep
    cases hcause

/-- The hypotheses are satisfiable: a program with operands of each kind, whose frame calls
itself without end. -/
theorem execute_of_checked_of_selfCall :
    ∃ m, ofConfig ⟨#[.moveImmediate 1 5, .move 0 1, .add 1 0, .call 2 2 1, .ret], by decide⟩
        { initialRegisters := 2, growthIncrement := 1, maxRegisters := some 5 } = .ok m ∧
      ((∃ v n, m.execute 0 2 = (.ok v, n)) ∨
        ∃ cause n, m.execute 0 2 = (.error (.exhausted cause), n)) := by
  obtain ⟨m, hm⟩ : ∃ m, ofConfig
      ⟨#[.moveImmediate 1 5, .move 0 1, .add 1 0, .call 2 2 1, .ret], by decide⟩
      { initialRegisters := 2, growthIncrement := 1, maxRegisters := some 5 } = .ok m := ⟨_, rfl⟩
  exact ⟨m, hm, execute_of_checked hm (by decide) 0 (by decide) (by decide)⟩

end Machine
end WindowVM
