/-
# What one step can do

`Machine.Transition m f fs` lists every way in which a machine at a fetch may go on, with
the frame `f` current over `fs`: nine of them, each with what led to it and the machine it
leaves.  `Machine.Live.transition` says that the list is complete, and it is the only place
where a step is taken apart.  The checks that guard the parts of a machine against each
other are not on the list, because nested frames always pass them.

`Live.of_running` is the step lemma of the invariant: a machine that goes on running is at
a fetch again.  What a fault leaves behind still is one (`Live.of_fault`), and the return of
the root leaves no frame and no register in use (`Live.of_finished`).
-/

import Mathlib.Tactic.Set
import WindowVM.Machine.Run
import WindowVM.Proofs.Nesting
import WindowVM.Proofs.Operands

namespace WindowVM
namespace Machine

/-- The machine with a dispatch counted. -/
def counted (m : Machine) (i : Instruction) : Machine :=
  { m with stats := m.stats.count i.opcode }

/-- The machine with `capacity` registers of which `len` more are in use.  A growth is
counted. -/
def extend (m : Machine) (capacity len : Nat) : Machine :=
  { m with
    registers := m.registers.extend capacity len
    stats := if capacity = m.registers.capacity then m.stats else m.stats.recordGrowth }

/-- The machine in a new frame. -/
def entering (m : Machine) (frames : CallStack) (target : Nat) : Machine :=
  { m with
    frames
    stats := m.stats.observe frames.live m.registers.inUse
    pc := target }

/-- The machine without its current frame, whose registers started at `base`. -/
def leaving (m : Machine) (frames : CallStack) (base : Nat) : Machine :=
  { m with frames, registers := { m.registers with inUse := base } }

/-- The machine with a register written, about to execute the instruction at `pc`. -/
def writing (m : Machine) (index : Nat) (word : Word) (pc : Nat) : Machine :=
  { m with registers := m.registers.write index word, pc }

/-- An allocation for a frame follows the rule of growth. -/
theorem allocate_eq {m : Machine} (h : 0 < m.registers.increment) (len : Nat) :
    m.allocate len =
      match m.registers.room (m.registers.inUse + len) with
      | .ok capacity => (.ok ⟨m.registers.inUse, len⟩, m.extend capacity len)
      | .error cause => (.error (.exhausted cause), m) := by
  rw [allocate, RegisterFile.allocate_eq h]
  cases hroom : m.registers.room (m.registers.inUse + len) with
  | error cause => rfl
  | ok capacity =>
    have hle := (growthRule_eq_ok h hroom).1
    simp only [RegisterFile.capacity_extend hle, extend]

/-- A machine whose counter is past the end only stops. -/
theorem step_of_pastEnd {m : Machine} (hfetch : m.program.get? m.pc = none) :
    m.step = .stopped (.fault (.pastEnd m.pc m.program.size)) m := by
  rw [step, hfetch]

/-- There is a counter after that of an instruction. -/
theorem boundedSum_pc {m : Machine} {i : Instruction} (hfetch : m.program.get? m.pc = some i) :
    boundedSum m.pc 1 = .ok (m.pc + 1) :=
  boundedSum_eq_ok_iff.2
    ⟨rfl, Nat.lt_of_le_of_lt (Program.lt_size_of_get?_eq_some hfetch) m.program.size_lt⟩

/-- A write goes on with the next instruction. -/
theorem carryOut_write {m : Machine} {i : Instruction} (hfetch : m.program.get? m.pc = some i)
    (index : Nat) (word : Word) :
    (m.counted i).carryOut (.write index word) =
      .running ((m.counted i).writing index word (m.pc + 1)) := by
  have hnext : boundedSum (m.counted i).pc 1 = .ok (m.pc + 1) := boundedSum_pc hfetch
  rw [carryOut, write]
  simp only [hnext]
  rfl

/-- A result is handed to a caller whose destination exists. -/
theorem resume_eq {m : Machine} {link : Link} (h : link.destination < m.registers.capacity)
    (result : Word) :
    m.resume link result = .running (m.writing link.destination result link.resumePc) := by
  rw [resume, RegisterFile.set, if_pos h]
  rfl

/-- The ways to go on at a fetch, with the frame `f` current over the frames `fs`. -/
inductive Transition (m : Machine) (f : Frame) (fs : List Frame) : Progress → Prop
  /-- There is no instruction to fetch. -/
  | pastEnd (hfetch : m.program.get? m.pc = none) :
      Transition m f fs (.stopped (.fault (.pastEnd m.pc m.program.size)) m)
  /-- An operand names no register. -/
  | misfit {i : Instruction} {fault : Fault} (hfetch : m.program.get? m.pc = some i)
      (hmisfit : i.misfit? f.window.len m.registers.capacity = some fault) :
      Transition m f fs (.stopped (.fault fault) (m.counted i))
  /-- A register is written. -/
  | wrote {i : Instruction} {index : Nat} {word : Word} (hfetch : m.program.get? m.pc = some i)
      (hmisfit : i.misfit? f.window.len m.registers.capacity = none)
      (hwork : i.work m.registers f.window = .write index word) :
      Transition m f fs (.running ((m.counted i).writing index word (m.pc + 1)))
  /-- A call of a frame without registers. -/
  | emptyFrame {target frameSize destination : Word}
      (hfetch : m.program.get? m.pc = some (.call target frameSize destination))
      (hdestination : destination.toNat < f.window.len) (hsize : frameSize = 0) :
      Transition m f fs
        (.stopped (.fault (.emptyFrame m.pc)) (m.counted (.call target frameSize destination)))
  /-- A call that gets no registers. -/
  | noRegisters {target frameSize destination : Word} {cause : Exhaustion}
      (hfetch : m.program.get? m.pc = some (.call target frameSize destination))
      (hdestination : destination.toNat < f.window.len) (hsize : 0 < frameSize.toNat)
      (hroom : m.registers.room (m.registers.inUse + frameSize.toNat) = .error cause) :
      Transition m f fs
        (.stopped (.exhausted cause) (m.counted (.call target frameSize destination)))
  /-- A call that gets registers and no frame. -/
  | noFrames {target frameSize destination : Word} {capacity : Nat}
      (hfetch : m.program.get? m.pc = some (.call target frameSize destination))
      (hdestination : destination.toNat < f.window.len) (hsize : 0 < frameSize.toNat)
      (hroom : m.registers.room (m.registers.inUse + frameSize.toNat) = .ok capacity)
      (hfull : m.frames.limit.any (· ≤ fs.length + 1) = true) :
      Transition m f fs
        (.stopped (.exhausted (.frames (fs.length + 1)))
          ((m.counted (.call target frameSize destination)).extend capacity frameSize.toNat))
  /-- A call. -/
  | entered {target frameSize destination : Word} {capacity : Nat} {frames : CallStack}
      (hfetch : m.program.get? m.pc = some (.call target frameSize destination))
      (hdestination : destination.toNat < f.window.len) (hsize : 0 < frameSize.toNat)
      (hroom : m.registers.room (m.registers.inUse + frameSize.toNat) = .ok capacity)
      (hfree : m.frames.limit.any (· ≤ fs.length + 1) = false)
      (hframes : frames.Holds (calleeFrame f fs m.pc frameSize destination :: f :: fs))
      (hlimit : frames.limit = m.frames.limit) :
      Transition m f fs
        (.running (((m.counted (.call target frameSize destination)).extend capacity
          frameSize.toNat).entering frames target.toNat))
  /-- A return to the caller. -/
  | returned {link : Link} {frames : CallStack} (hfetch : m.program.get? m.pc = some .ret)
      (hlink : f.link = some link) (hframes : frames.Holds fs)
      (hlimit : frames.limit = m.frames.limit) :
      Transition m f fs
        (.running (((m.counted .ret).leaving frames f.window.base).writing link.destination
          (m.registers.word f.window.base) link.resumePc))
  /-- The return of the root. -/
  | finished {frames : CallStack} (hfetch : m.program.get? m.pc = some .ret)
      (hlink : f.link = none) (hframes : frames.Holds fs)
      (hlimit : frames.limit = m.frames.limit) :
      Transition m f fs
        (.finished (m.registers.word f.window.base)
          ((m.counted .ret).leaving frames f.window.base))

namespace Live

variable {m : Machine} {rootSize : Nat} {f : Frame} {fs : List Frame}

/-- Counting a dispatch leaves a machine at its fetch. -/
theorem counted (h : m.Live rootSize fs) (i : Instruction) :
    (m.counted i).Live rootSize fs :=
  ⟨h.frames, h.fits, h.nested, h.inUse, h.length_le⟩

/-- What a `call` does once its destination is resolved. -/
theorem transition_enter (h : m.Live rootSize (f :: fs)) {target frameSize destination : Word}
    (hfetch : m.program.get? m.pc = some (.call target frameSize destination))
    (hdestination : destination.toNat < f.window.len) :
    m.Transition f fs ((m.counted (.call target frameSize destination)).enter target frameSize
      (f.window.base + destination.toNat)) := by
  set n := m.counted (.call target frameSize destination) with hn
  have hlive : n.Live rootSize (f :: fs) := h.counted _
  have hresume : boundedSum n.pc 1 = .ok (n.pc + 1) := boundedSum_pc hfetch
  by_cases hsize : frameSize = 0
  · rw [enter, if_pos hsize]
    exact .emptyFrame hfetch hdestination hsize
  have hpos : 0 < frameSize.toNat :=
    Nat.pos_of_ne_zero fun h0 => hsize (UInt64.toNat_inj.1 h0)
  cases hroom : n.registers.room (n.registers.inUse + frameSize.toNat) with
  | error cause =>
    rw [enter, if_neg hsize, hresume]
    simp only [allocate_eq hlive.fits.increment_pos, hroom]
    exact .noRegisters hfetch hdestination hpos hroom
  | ok capacity =>
    have hframes : (n.extend capacity frameSize.toNat).frames.Holds (f :: fs) := hlive.frames
    rw [enter, if_neg hsize, hresume]
    simp only [allocate_eq hlive.fits.increment_pos, hroom, hframes.pushCall]
    by_cases hfull : n.frames.limit.any (· ≤ fs.length + 1) = true
    · rw [hframes.push_full hfull]
      exact .noFrames hfetch hdestination hpos hroom hfull
    · have hfree := Bool.eq_false_iff.2 hfull
      obtain ⟨frames, hpush, hholds, hlimit⟩ := hframes.push
        (f := calleeFrame f fs n.pc frameSize destination) rfl hfree
      have hwindow : (calleeFrame f fs n.pc frameSize destination) =
          ⟨⟨n.registers.inUse, frameSize.toNat⟩, some ⟨fs.length, n.pc + 1,
            f.window.base + destination.toNat⟩⟩ := by
        rw [show n.registers.inUse = _ from hlive.inUse]
        rfl
      rw [← hwindow, hpush]
      exact .entered hfetch hdestination hpos hroom hfree hholds hlimit

/-- What an instruction that writes a register does. -/
theorem transition_write {i : Instruction} {index : Nat} {word : Word}
    (hfetch : m.program.get? m.pc = some i)
    (hmisfit : i.misfit? f.window.len m.registers.capacity = none)
    (hwork : i.work m.registers f.window = .write index word) :
    m.Transition f fs ((m.counted i).carryOut (.write index word)) := by
  rw [carryOut_write hfetch]
  exact .wrote hfetch hmisfit hwork

/-- Register 0 of the current frame exists. -/
theorem get_base (h : m.Live rootSize (f :: fs)) :
    m.registers.get f.window.base = .ok (m.registers.word f.window.base) := by
  have hwindow := h.window_le
  have hlen := h.nested.len_pos
  rw [RegisterFile.get_eq, if_pos (by omega)]

/-- What a `ret` does. -/
theorem transition_leave (h : m.Live rootSize (f :: fs))
    (hfetch : m.program.get? m.pc = some .ret) :
    m.Transition f fs (m.counted .ret).leave := by
  have hwindow := h.window_le
  have hcapacity := h.capacity_lt
  have hstop : f.window.base + f.window.len < 2 ^ 64 := by omega
  have hresult : (f.window.absolute 0).bind (m.counted .ret).registers.get =
      .ok (m.registers.word f.window.base) := by
    rw [Window.absolute_eq hstop, if_pos h.nested.len_pos]
    exact h.get_base
  have hrelease : (m.counted .ret).registers.release f.window =
      (.ok (), { m.registers with inUse := f.window.base }) := by
    rw [RegisterFile.release, Window.stop_eq hstop]
    exact if_pos h.inUse.symm
  obtain ⟨frames, hpop, hholds, hlimit⟩ := h.frames.pop
  have hpop : (m.counted .ret).frames.pop = (.ok (some f), frames) := hpop
  rw [leave, hpop]
  simp only [hresult, hrelease]
  cases hlink : f.link with
  | none => exact .finished hfetch hlink hholds hlimit
  | some link =>
    have hlt : link.destination <
        ((m.counted .ret).leaving frames f.window.base).registers.capacity :=
      h.destination_lt_capacity hlink
    change m.Transition f fs (((m.counted .ret).leaving frames f.window.base).resume link _)
    rw [resume_eq hlt]
    exact .returned hfetch hlink hholds hlimit

/-- What the dispatch of an instruction does: it is counted, and stops at a misfit. -/
theorem dispatch_eq (h : m.Live rootSize (f :: fs)) (i : Instruction) :
    m.dispatch i =
      match i.misfit? f.window.len m.registers.capacity with
      | some fault => .stopped (.fault fault) (m.counted i)
      | none => (m.counted i).carryOut (i.work m.registers f.window) := by
  have hframe : m.frames.currentFrame? = some f := h.currentFrame?
  have heffect := Instruction.effect_eq h.window_le h.capacity_lt i
  simp only [dispatch, hframe, heffect]
  cases i.misfit? f.window.len m.registers.capacity <;> rfl

/-- An instruction that does not fit stops the machine. -/
theorem step_of_misfit (h : m.Live rootSize (f :: fs)) {i : Instruction}
    (hfetch : m.program.get? m.pc = some i) {fault : Fault}
    (hmisfit : i.misfit? f.window.len m.registers.capacity = some fault) :
    m.step = .stopped (.fault fault) (m.counted i) := by
  rw [step, hfetch]
  simp only [h.dispatch_eq, hmisfit]

/-- An instruction that fits is carried out. -/
theorem step_of_fit (h : m.Live rootSize (f :: fs)) {i : Instruction}
    (hfetch : m.program.get? m.pc = some i)
    (hmisfit : i.misfit? f.window.len m.registers.capacity = none) :
    m.step = (m.counted i).carryOut (i.work m.registers f.window) := by
  rw [step, hfetch]
  simp only [h.dispatch_eq, hmisfit]

/-- **The transitions are all there is:** the step of a machine at a fetch is one of them. -/
theorem transition (h : m.Live rootSize (f :: fs)) : m.Transition f fs m.step := by
  cases hfetch : m.program.get? m.pc with
  | none =>
    rw [step_of_pastEnd hfetch]
    exact .pastEnd hfetch
  | some i =>
    cases hmisfit : i.misfit? f.window.len m.registers.capacity with
    | some fault =>
      rw [h.step_of_misfit hfetch hmisfit]
      exact .misfit hfetch hmisfit
    | none =>
      rw [h.step_of_fit hfetch hmisfit]
      cases i with
      | ret => exact h.transition_leave hfetch
      | call target frameSize destination =>
        refine h.transition_enter hfetch ?_
        have hrelative := (Instruction.misfit?_eq_none_iff.1 hmisfit).1
        exact hrelative destination (List.mem_singleton_self _)
      | _ => exact transition_write hfetch hmisfit rfl

/-- A step at a fetch is a transition with some frame current. -/
theorem exists_transition {q : Progress} (h : m.Live rootSize fs) (hstep : m.step = q) :
    ∃ f gs, fs = f :: gs ∧ m.Transition f gs q := by
  obtain ⟨f, gs, rfl⟩ := List.exists_cons_of_ne_nil h.nested.ne_nil
  exact ⟨f, gs, rfl, hstep ▸ h.transition⟩

/-- A written register leaves the frames as they are. -/
theorem writing (h : m.Live rootSize fs) (index : Nat) (word : Word) (pc : Nat) :
    (m.writing index word pc).Live rootSize fs :=
  ⟨h.frames, h.fits.write index word, h.nested, h.inUse, h.length_le⟩

/-- A call nests one frame more. -/
theorem entering (h : m.Live rootSize (f :: fs)) {target frameSize destination : Word}
    {capacity : Nat} {frames : CallStack}
    (hfetch : m.program.get? m.pc = some (.call target frameSize destination))
    (hdestination : destination.toNat < f.window.len) (hsize : 0 < frameSize.toNat)
    (hroom : m.registers.room (m.registers.inUse + frameSize.toNat) = .ok capacity)
    (hfree : m.frames.limit.any (· ≤ fs.length + 1) = false)
    (hframes : frames.Holds (calleeFrame f fs m.pc frameSize destination :: f :: fs))
    (hlimit : frames.limit = m.frames.limit) (i : Instruction) :
    (((m.counted i).extend capacity frameSize.toNat).entering frames target.toNat).Live rootSize
      (calleeFrame f fs m.pc frameSize destination :: f :: fs) := by
  refine ⟨hframes, h.fits.extend hroom, h.nested.call hfetch hsize hdestination, ?_, ?_⟩
  · change m.registers.inUse + frameSize.toNat = _
    rw [h.inUse]
    rfl
  · intro l hl
    have hlt := lt_of_limit hfree (hlimit ▸ hl)
    simp only [List.length_cons]
    omega

/-- A return to the caller leaves the caller's frames. -/
theorem leaving (h : m.Live rootSize (f :: fs)) {frames : CallStack} (hne : fs ≠ [])
    (hframes : frames.Holds fs) (hlimit : frames.limit = m.frames.limit) (i : Instruction) :
    ((m.counted i).leaving frames f.window.base).Live rootSize fs := by
  have hbase := h.nested.base_eq
  have hinUse : m.registers.inUse = f.window.base + f.window.len := h.inUse
  refine ⟨hframes, h.fits.shrink (by omega), h.nested.tail hne, hbase, ?_⟩
  intro l hl
  have hle := h.length_le l (hlimit ▸ hl)
  simp only [List.length_cons] at hle
  omega

/-- **At each fetch the live frames nest:** a machine that goes on running is at a fetch. -/
theorem of_running {n : Machine} (h : m.Live rootSize fs) (hstep : m.step = .running n) :
    ∃ gs, n.Live rootSize gs := by
  obtain ⟨f, fs, rfl, htransition⟩ := h.exists_transition hstep
  cases htransition with
  | wrote => exact ⟨_, (h.counted _).writing ..⟩
  | entered hfetch hdestination hsize hroom hfree hframes hlimit =>
    exact ⟨_, h.entering hfetch hdestination hsize hroom hfree hframes hlimit _⟩
  | returned _ hlink hframes hlimit =>
    exact ⟨fs, (h.leaving (h.nested.destination_lt hlink).1 hframes hlimit _).writing ..⟩

/-- A fault changes nothing but a count. -/
theorem of_fault {n : Machine} {fault : Fault} (h : m.Live rootSize fs)
    (hstep : m.step = .stopped (.fault fault) n) : n.Live rootSize fs := by
  obtain ⟨f, fs, rfl, htransition⟩ := h.exists_transition hstep
  cases htransition with
  | pastEnd => exact h
  | misfit => exact h.counted _
  | emptyFrame => exact h.counted _

/-- An exhaustion leaves the frames as they are, and a register file that fits. -/
theorem of_exhausted {n : Machine} {cause : Exhaustion} (h : m.Live rootSize fs)
    (hstep : m.step = .stopped (.exhausted cause) n) :
    n.frames.Holds fs ∧ n.registers.Fits := by
  obtain ⟨f, fs, rfl, htransition⟩ := h.exists_transition hstep
  cases htransition with
  | noRegisters => exact ⟨h.frames, h.fits⟩
  | noFrames _ _ _ hroom => exact ⟨h.frames, h.fits.extend hroom⟩

/-- The return of the root leaves nothing live. -/
theorem of_finished {n : Machine} {result : Word} (h : m.Live rootSize fs)
    (hstep : m.step = .finished result n) : n.Resting := by
  obtain ⟨f, fs, rfl, htransition⟩ := h.exists_transition hstep
  cases htransition with
  | finished _ hlink hframes =>
    obtain rfl := h.nested.eq_nil_of_link hlink
    have hbase : f.window.base = 0 := h.nested.base_eq
    refine ⟨hframes, h.fits.shrink ?_, hbase⟩
    rw [hbase]
    exact Nat.zero_le _

end Live

/-- No step changes the program, the limits or the mark of an exhaustion. -/
theorem Transition.environment_eq {m : Machine} {f : Frame} {fs : List Frame} {p : Progress}
    (h : m.Transition f fs p) :
    p.machine.environment = m.environment ∧ p.machine.poisoned = m.poisoned := by
  cases h with
  | entered _ _ _ _ _ _ hlimit =>
    exact ⟨m.environment_of_limit hlimit, rfl⟩
  | returned _ _ _ hlimit =>
    exact ⟨m.environment_of_limit hlimit, rfl⟩
  | finished _ _ _ hlimit =>
    exact ⟨m.environment_of_limit hlimit, rfl⟩
  | _ => exact ⟨rfl, rfl⟩

/-! ### What an instruction does -/

section

variable {m : Machine} {f : Frame} {fs : List Frame} {q : Progress}

/-- What a `ret` does. -/
theorem Transition.of_ret {q : Progress} (h : m.Transition f fs q)
    (hfetch : m.program.get? m.pc = some .ret) :
    ∃ frames : CallStack, frames.Holds fs ∧ frames.limit = m.frames.limit ∧
      q = match f.link with
        | some link =>
          .running (((m.counted .ret).leaving frames f.window.base).writing link.destination
            (m.registers.word f.window.base) link.resumePc)
        | none =>
          .finished (m.registers.word f.window.base)
            ((m.counted .ret).leaving frames f.window.base) := by
  cases h with
  | returned _ hlink hframes hlimit => exact ⟨_, hframes, hlimit, by rw [hlink]⟩
  | finished _ hlink hframes hlimit => exact ⟨_, hframes, hlimit, by rw [hlink]⟩
  | misfit hfetch' hmisfit =>
    obtain rfl := Option.some.inj (hfetch'.symm.trans hfetch)
    simp [Instruction.misfit?, Instruction.relativeOperands, Instruction.absoluteOperands]
      at hmisfit
  | wrote hfetch' _ hwork =>
    obtain rfl := Option.some.inj (hfetch'.symm.trans hfetch)
    simp [Instruction.work] at hwork
  | _ hfetch' => simp [hfetch] at hfetch'

/-- An instruction that writes a register does so if it does not stop short. -/
theorem Transition.of_write {i : Instruction} {index : Nat} {word : Word}
    (h : m.Transition f fs q) (hfetch : m.program.get? m.pc = some i)
    (hwork : i.work m.registers f.window = .write index word)
    (hq : ∀ stop e, q ≠ .stopped stop e) :
    i.misfit? f.window.len m.registers.capacity = none ∧
      q = .running ((m.counted i).writing index word (m.pc + 1)) := by
  cases h with
  | wrote hfetch' hmisfit hwork' =>
    obtain rfl := Option.some.inj (hfetch'.symm.trans hfetch)
    obtain ⟨rfl, rfl⟩ := Effect.write.inj (hwork'.symm.trans hwork)
    exact ⟨hmisfit, rfl⟩
  | entered hfetch' =>
    obtain rfl := Option.some.inj (hfetch'.symm.trans hfetch)
    simp [Instruction.work] at hwork
  | returned hfetch' =>
    obtain rfl := Option.some.inj (hfetch'.symm.trans hfetch)
    simp [Instruction.work] at hwork
  | finished hfetch' =>
    obtain rfl := Option.some.inj (hfetch'.symm.trans hfetch)
    simp [Instruction.work] at hwork
  | _ => exact absurd rfl (hq _ _)

/-- A `call` enters a frame if it does not stop short. -/
theorem Transition.of_call {target frameSize destination : Word} (h : m.Transition f fs q)
    (hfetch : m.program.get? m.pc = some (.call target frameSize destination))
    (hq : ∀ stop e, q ≠ .stopped stop e) :
    ∃ capacity frames, destination.toNat < f.window.len ∧ 0 < frameSize.toNat ∧
      m.registers.room (m.registers.inUse + frameSize.toNat) = .ok capacity ∧
      m.frames.limit.any (· ≤ fs.length + 1) = false ∧
      frames.Holds (calleeFrame f fs m.pc frameSize destination :: f :: fs) ∧
      frames.limit = m.frames.limit ∧
      q = .running (((m.counted (.call target frameSize destination)).extend capacity
        frameSize.toNat).entering frames target.toNat) := by
  cases h with
  | entered hfetch' hdestination hsize hroom hfree hframes hlimit =>
    obtain ⟨rfl, rfl, rfl⟩ := Instruction.call.inj (Option.some.inj (hfetch'.symm.trans hfetch))
    exact ⟨_, _, hdestination, hsize, hroom, hfree, hframes, hlimit, rfl⟩
  | wrote hfetch' _ hwork =>
    obtain rfl := Option.some.inj (hfetch'.symm.trans hfetch)
    simp [Instruction.work] at hwork
  | returned hfetch' => simp [hfetch] at hfetch'
  | finished hfetch' => simp [hfetch] at hfetch'
  | _ => exact absurd rfl (hq _ _)

end

end Machine
end WindowVM
