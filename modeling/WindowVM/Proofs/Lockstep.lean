/-
# Machines in lockstep

The size of a register file decides which absolute registers exist, and nothing else about
an execution that returns.  Two machines are `Alike` when they are at the same instruction
of the same program, their words agree where a register that does not exist counts as zero,
and they counted the same, growths apart.  With the same live frames, two steps that do not
stop short go the same way (`Live.abreast`), although one register file may grow where the
other does not: growing adds zeros, which is what the missing registers counted as.

`run_alike` carries this through whole runs, and `execute_eq_of_ofConfig` is the result for
new machines: whatever their configurations, executions that return return the same word
and leave the same registers.
-/

import Mathlib.Order.Basic
import WindowVM.Proofs.Lifecycle
import WindowVM.Proofs.Memory

namespace WindowVM

namespace Instruction

/-- The work of an instruction depends on the words alone. -/
theorem work_congr {r s : RegisterFile} (h : ∀ index, r.word index = s.word index) (w : Window)
    (i : Instruction) : i.work r w = i.work s w := by
  cases i <;> simp only [work, h]

/-- An instruction whose operands name registers writes a register that exists. -/
theorem lt_capacity_of_work {r : RegisterFile} {w : Window} {i : Instruction} {index : Nat}
    {word : Word} (hw : w.base + w.len ≤ r.capacity) (hmisfit : i.misfit? w.len r.capacity = none)
    (hwork : i.work r w = .write index word) : index < r.capacity := by
  obtain ⟨hrelative, habsolute⟩ := misfit?_eq_none_iff.1 hmisfit
  cases i with
  | ret => simp [work] at hwork
  | call => simp [work] at hwork
  | move destination source =>
    obtain ⟨rfl, -⟩ := Effect.write.inj hwork
    exact habsolute destination (by simp [absoluteOperands])
  | moveImmediate destination value =>
    obtain ⟨rfl, -⟩ := Effect.write.inj hwork
    exact habsolute destination (by simp [absoluteOperands])
  | add destination source =>
    obtain ⟨rfl, -⟩ := Effect.write.inj hwork
    have hlt := hrelative destination (by simp [relativeOperands])
    omega
  | addImmediate destination value =>
    obtain ⟨rfl, -⟩ := Effect.write.inj hwork
    have hlt := hrelative destination (by simp [relativeOperands])
    omega
  | increment register =>
    obtain ⟨rfl, -⟩ := Effect.write.inj hwork
    have hlt := hrelative register (by simp [relativeOperands])
    omega
  | decrement register =>
    obtain ⟨rfl, -⟩ := Effect.write.inj hwork
    have hlt := hrelative register (by simp [relativeOperands])
    omega

end Instruction

/-- Counters that differ at most in the growths of the register file. -/
structure Stats.Alike (s t : Stats) : Prop where
  counts : s.counts = t.counts
  maxDepth : s.maxDepth = t.maxDepth
  peakRegisters : s.peakRegisters = t.peakRegisters

namespace Stats.Alike

variable {s t : Stats}

theorem count (h : s.Alike t) (op : Opcode) : (s.count op).Alike (t.count op) :=
  ⟨by simp only [Stats.count, h.counts], h.maxDepth, h.peakRegisters⟩

theorem observe (h : s.Alike t) (depth inUse : Nat) :
    (s.observe depth inUse).Alike (t.observe depth inUse) :=
  ⟨h.counts, congrArg (max · depth) h.maxDepth, congrArg (max · inUse) h.peakRegisters⟩

/-- The growths do not matter. -/
theorem of_growths (h : s.Alike t) (i j : Nat) :
    Alike { s with growths := i } { t with growths := j } :=
  ⟨h.counts, h.maxDepth, h.peakRegisters⟩

end Stats.Alike

namespace Machine

/-- Machines at the same instruction, which differ at most in which registers exist, in
their frames and limits and in the growths they counted. -/
structure Alike (m n : Machine) : Prop where
  program : m.program = n.program
  pc : m.pc = n.pc
  word : ∀ index, m.registers.word index = n.registers.word index
  stats : m.stats.Alike n.stats

/-- Steps that go the same way. -/
inductive Abreast (rootSize : Nat) : Progress → Progress → Prop
  /-- Both get to a fetch, with the same live frames. -/
  | running {m n : Machine} {fs : List Frame} (hm : m.Live rootSize fs) (hn : n.Live rootSize fs)
      (h : m.Alike n) : Abreast rootSize (.running m) (.running n)
  /-- In both the root returns, with the same word. -/
  | finished {m n : Machine} {result : Word} (h : m.Alike n) :
      Abreast rootSize (.finished result m) (.finished result n)

variable {p : Program} {c d : Config} {m n a b : Machine} {entry rootSize : Nat} {f : Frame}
  {fs : List Frame} {v w : Word}

namespace Alike

/-- Machines that are alike fetch the same instruction. -/
theorem fetch_eq (h : m.Alike n) {i : Instruction} (hfetch : m.program.get? m.pc = some i) :
    n.program.get? n.pc = some i := by
  rw [← h.program, ← h.pc, hfetch]

theorem fresh (h : m.Alike n) : m.fresh.Alike n.fresh :=
  ⟨h.program, h.pc, h.word, ⟨rfl, rfl, rfl⟩⟩

theorem counted (h : m.Alike n) (i : Instruction) : (m.counted i).Alike (n.counted i) :=
  ⟨h.program, h.pc, h.word, h.stats.count i.opcode⟩

/-- A register that exists in both is written in both. -/
theorem writing (h : m.Alike n) {index : Nat} (hm : index < m.registers.capacity)
    (hn : index < n.registers.capacity) (word : Word) (pc : Nat) :
    (m.writing index word pc).Alike (n.writing index word pc) := by
  refine ⟨h.program, rfl, ?_, h.stats⟩
  intro other
  simp only [Machine.writing]
  rw [RegisterFile.word_write _ hm, RegisterFile.word_write _ hn, h.word]

/-- Machines stay alike when registers are handed out, also if only one of them grows. -/
theorem extend (h : m.Alike n) (i j len : Nat) : (m.extend i len).Alike (n.extend j len) := by
  refine ⟨h.program, h.pc, ?_, ?_⟩
  · intro index
    simp only [Machine.extend]
    rw [RegisterFile.word_extend, RegisterFile.word_extend, h.word]
  · simp only [Machine.extend]
    split <;> split
    · exact h.stats
    · exact h.stats.of_growths _ _
    · exact h.stats.of_growths _ _
    · exact h.stats.of_growths _ _

/-- Machines that enter a frame at the same depth and with the same registers in use. -/
theorem entering (h : m.Alike n) {frames others : CallStack} (hlive : frames.live = others.live)
    (hinUse : m.registers.inUse = n.registers.inUse) (target : Nat) :
    (m.entering frames target).Alike (n.entering others target) := by
  refine ⟨h.program, rfl, h.word, ?_⟩
  simp only [Machine.entering]
  rw [hlive, hinUse]
  exact h.stats.observe _ _

theorem leaving (h : m.Alike n) (frames others : CallStack) (base : Nat) :
    (m.leaving frames base).Alike (n.leaving others base) :=
  ⟨h.program, h.pc, h.word, h.stats⟩

end Alike

/-- **Machines that are alike and have the same live frames step the same way,** as long as
neither stops short. -/
theorem Live.abreast (hm : m.Live rootSize fs) (hn : n.Live rootSize fs) (h : m.Alike n)
    (hp : ∀ stop e, m.step ≠ .stopped stop e) (hq : ∀ stop e, n.step ≠ .stopped stop e) :
    Abreast rootSize m.step n.step := by
  obtain ⟨f, fs, rfl, htm⟩ := hm.exists_transition rfl
  have htn := hn.transition
  have hinUse : m.registers.inUse = n.registers.inUse := hm.inUse.trans hn.inUse.symm
  generalize m.step = p at htm hp
  generalize n.step = q at htn hq
  cases htm with
  | @wrote i index word hfetch hmisfit hwork =>
    have hwork' := (Instruction.work_congr h.word f.window i).symm.trans hwork
    obtain ⟨hmisfit', rfl⟩ := htn.of_write (h.fetch_eq hfetch) hwork' hq
    have hi := Instruction.lt_capacity_of_work hm.window_le hmisfit hwork
    have hj := Instruction.lt_capacity_of_work hn.window_le hmisfit' hwork'
    rw [← h.pc]
    exact .running ((hm.counted i).writing ..) ((hn.counted i).writing ..)
      ((h.counted i).writing hi hj ..)
  | @entered target frameSize destination capacity frames hfetch hdestination hsize hroom hfree
      hframes hlimit =>
    have hfetch' := h.fetch_eq hfetch
    obtain ⟨capacity', frames', -, -, hroom', hfree', hframes', hlimit', rfl⟩ :=
      htn.of_call hfetch' hq
    have hlive := hm.entering hfetch hdestination hsize hroom hfree hframes hlimit
      (.call target frameSize destination)
    have hlive' := hn.entering hfetch' hdestination hsize hroom' hfree' hframes' hlimit'
      (.call target frameSize destination)
    rw [← h.pc] at hlive' hframes'
    refine .running hlive hlive' (((h.counted _).extend ..).entering ?_ ?_ _)
    · rw [hframes.live, hframes'.live]
    · exact congrArg (· + frameSize.toNat) hinUse
  | @returned link frames hfetch hlink hframes hlimit =>
    obtain ⟨frames', hframes', hlimit', hq'⟩ := htn.of_ret (h.fetch_eq hfetch)
    rw [hlink] at hq'
    obtain rfl := hq'
    have hne := (hm.nested.destination_lt hlink).1
    have hi := hm.destination_lt_capacity hlink
    have hj := hn.destination_lt_capacity hlink
    rw [← h.word]
    exact .running ((hm.leaving hne hframes hlimit _).writing ..)
      ((hn.leaving hne hframes' hlimit' _).writing ..)
      (((h.counted .ret).leaving frames frames' f.window.base).writing hi hj ..)
  | finished hfetch hlink hframes hlimit =>
    obtain ⟨frames', hframes', hlimit', hq'⟩ := htn.of_ret (h.fetch_eq hfetch)
    rw [hlink] at hq'
    obtain rfl := hq'
    rw [h.word]
    exact .finished ((h.counted _).leaving ..)
  | _ => exact absurd rfl (hp _ _)

/-- A run that returns never stops short. -/
theorem step_ne_stopped (h : m.run = (.ok v, a)) (stop : Stop) (e : Machine) :
    m.step ≠ .stopped stop e := by
  intro hstep
  rw [run_of_stopped hstep] at h
  simp at h

/-- **Runs that return stay in lockstep to the end.** -/
theorem run_alike (hm : m.Live rootSize fs) (hn : n.Live rootSize fs) (h : m.Alike n)
    (hv : m.run = (.ok v, a)) (hw : n.run = (.ok w, b)) : v = w ∧ a.Alike b := by
  have habreast := hm.abreast hn h (step_ne_stopped hv) (step_ne_stopped hw)
  fun_induction run m generalizing n fs with
  | case1 m m' hstep ih =>
    rw [hstep] at habreast
    generalize hother : n.step = q at habreast
    cases habreast with
    | running hm' hn' h' =>
      rw [run_of_running hother] at hw
      exact ih hm' hn' h' hv hw (hm'.abreast hn' h' (step_ne_stopped hv) (step_ne_stopped hw))
  | case2 m result m' hstep =>
    rw [hstep] at habreast
    generalize hother : n.step = q at habreast
    cases habreast with
    | finished h' =>
      rw [run_of_finished hother] at hw
      obtain ⟨rfl, rfl⟩ : result = v ∧ m' = a := by simpa using hv
      obtain ⟨rfl, rfl⟩ : result = w ∧ _ = b := by simpa using hw
      exact ⟨rfl, h'⟩
  | case3 m stop m' hstep => simp at hv

/-! ### Executions -/

/-- Root frames of machines that are alike. -/
theorem Resting.alike_of_start (hm : m.Resting) (hn : n.Resting) (h : m.fresh.Alike n.fresh)
    (hs : m.fresh.start entry rootSize = (.ok (), a))
    (ht : n.fresh.start entry rootSize = (.ok (), b)) : a.Alike b := by
  have hopening := hm.fresh.opening entry rootSize
  have hopening' := hn.fresh.opening entry rootSize
  rw [hs] at hopening
  rw [ht] at hopening'
  cases hopening with
  | opened _ _ hframes =>
    cases hopening' with
    | opened _ _ hframes' =>
      refine (h.extend ..).entering ?_ ?_ entry
      · rw [hframes.live, hframes'.live]
      · exact congrArg (· + rootSize) (hm.inUse.trans hn.inUse.symm)

/-- Executions that return stay in lockstep to the end. -/
theorem Resting.execute_alike (hm : m.Resting) (hn : n.Resting) (h : m.fresh.Alike n.fresh)
    (hv : m.execute entry rootSize = (.ok v, a)) (hw : n.execute entry rootSize = (.ok w, b)) :
    v = w ∧ a.Alike b := by
  obtain ⟨hrefusal, s, hs, hrun⟩ := hm.run_of_execute hv
  obtain ⟨-, t, ht, hrun'⟩ := hn.run_of_execute hw
  have hroot := (refusal?_eq_none_iff.1 hrefusal).2.1
  exact run_alike (hm.fresh.live_of_start hroot hs).1 (hn.fresh.live_of_start hroot ht).1
    (hm.alike_of_start hn h hs ht) hrun hrun'

/-- New machines over the same program are alike, however they are configured. -/
theorem alike_of_ofConfig (hm : ofConfig p c = .ok m) (hn : ofConfig p d = .ok n) :
    m.Alike n := by
  unfold ofConfig at hm hn
  split at hm
  · rename_i registers hregisters
    obtain rfl := Except.ok.inj hm
    split at hn
    · rename_i others hothers
      obtain rfl := Except.ok.inj hn
      refine ⟨rfl, rfl, ?_, ⟨rfl, rfl, rfl⟩⟩
      intro index
      rw [RegisterFile.word_ofConfig hregisters, RegisterFile.word_ofConfig hothers]
    · simp at hn
  · simp at hm

/-- **The size of the register file is invisible to executions that return.**  Two new
machines over the same program, with any configurations, that both return return the same
word.  They stop at the same instruction, with the same counters, growths apart; they agree
on the registers that exist in both, and those that exist in one only hold zero. -/
theorem execute_eq_of_ofConfig (hm : ofConfig p c = .ok m) (hn : ofConfig p d = .ok n)
    (hv : m.execute entry rootSize = (.ok v, a)) (hw : n.execute entry rootSize = (.ok w, b)) :
    v = w ∧ a.pc = b.pc ∧ (∀ op, a.stats.dispatched op = b.stats.dispatched op) ∧
      a.stats.maxDepth = b.stats.maxDepth ∧ a.stats.peakRegisters = b.stats.peakRegisters ∧
      (∀ index, index < a.registers.capacity → index < b.registers.capacity →
        a.registers.get index = b.registers.get index) ∧
      (∀ index, b.registers.capacity ≤ index → index < a.registers.capacity →
        a.registers.get index = .ok 0) ∧
      (∀ index, a.registers.capacity ≤ index → index < b.registers.capacity →
        b.registers.get index = .ok 0) := by
  obtain ⟨-, hm', -⟩ := resting_of_ofConfig hm
  obtain ⟨-, hn', -⟩ := resting_of_ofConfig hn
  obtain ⟨rfl, h⟩ := hm'.execute_alike hn' (alike_of_ofConfig hm hn).fresh hv hw
  refine ⟨rfl, h.pc, ?_, h.stats.maxDepth, h.stats.peakRegisters, ?_, ?_, ?_⟩
  · intro op
    simp only [Stats.dispatched, h.stats.counts]
  · intro index ha hb
    rw [RegisterFile.get_eq, RegisterFile.get_eq, if_pos ha, if_pos hb, h.word]
  · intro index hb ha
    rw [RegisterFile.get_eq, if_pos ha, h.word, RegisterFile.word_of_capacity_le hb]
  · intro index ha hb
    rw [RegisterFile.get_eq, if_pos hb, ← h.word, RegisterFile.word_of_capacity_le ha]

/-- The hypotheses are satisfiable: a parameter is stored above the registers in use, and
the call grows the smaller file and not the larger. -/
theorem execute_eq_of_ofConfig_of_growth :
    ∃ m n a b, ofConfig ⟨#[.moveImmediate 1 5, .call 3 2 0, .ret, .increment 0, .ret], by decide⟩
        { initialRegisters := 2, growthIncrement := 1 } = .ok m ∧
      ofConfig ⟨#[.moveImmediate 1 5, .call 3 2 0, .ret, .increment 0, .ret], by decide⟩
        { initialRegisters := 6, maxFrames := some 2 } = .ok n ∧
      m.execute 0 1 = (.ok 6, a) ∧ n.execute 0 1 = (.ok 6, b) ∧
      a.registers.capacity = 3 ∧ b.registers.capacity = 6 ∧ b.registers.get 5 = .ok 0 := by
  obtain ⟨m, hm, hv⟩ : ∃ m, ofConfig
      ⟨#[.moveImmediate 1 5, .call 3 2 0, .ret, .increment 0, .ret], by decide⟩
      { initialRegisters := 2, growthIncrement := 1 } = .ok m ∧
      ((m.execute 0 1).1, (m.execute 0 1).2.registers.capacity) = (.ok 6, 3) :=
    ⟨_, rfl, execute_of_runWithin (k := 5) (f := fun e => (e.1, e.2.registers.capacity)) rfl rfl
      (by decide +kernel)⟩
  obtain ⟨n, hn, hw⟩ : ∃ n, ofConfig
      ⟨#[.moveImmediate 1 5, .call 3 2 0, .ret, .increment 0, .ret], by decide⟩
      { initialRegisters := 6, maxFrames := some 2 } = .ok n ∧
      ((n.execute 0 1).1, (n.execute 0 1).2.registers.capacity) = (.ok 6, 6) :=
    ⟨_, rfl, execute_of_runWithin (k := 5) (f := fun e => (e.1, e.2.registers.capacity)) rfl rfl
      (by decide +kernel)⟩
  obtain ⟨hv, ha⟩ := Prod.mk.inj hv
  obtain ⟨hw, hb⟩ := Prod.mk.inj hw
  have hv : m.execute 0 1 = (.ok 6, (m.execute 0 1).2) := Prod.ext hv rfl
  have hw : n.execute 0 1 = (.ok 6, (n.execute 0 1).2) := Prod.ext hw rfl
  obtain ⟨-, -, -, -, -, -, -, habove⟩ := execute_eq_of_ofConfig hm hn hv hw
  exact ⟨m, n, _, _, hm, hn, hv, hw, ha, hb, habove 5 (by omega) (by omega)⟩

end Machine
end WindowVM
