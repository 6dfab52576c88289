/-
# The machine computes what the evaluator does

A machine at a fetch has an activation, the one of its current frame, and a store.  For
each way in which the machine can step, one lemma says what that activation comes to
(`turn_of_pastEnd` to `turn_of_entered`).  `Live.arrives` puts the steps together: from a
fetch, the machine gets to where the evaluation of its activation ends, with the same
store.  The frames under the current one stay as they are in the meantime, which is why a
caller resumes where the evaluator goes on.

`Reachable.execute_eq_evaluateRoot` is the same for whole executions.
-/

import WindowVM.Proofs.Evaluator
import WindowVM.Proofs.Lifecycle

namespace WindowVM

/-- The store after the work of an instruction. -/
def Store.carryOut (s : Store) : Effect → Store
  | .write index word => s.write index word
  | .enter .. => s
  | .leave => s

namespace Machine

/-- The registers and the counters of a machine. -/
def store (m : Machine) : Store := ⟨m.registers.words, m.stats⟩

/-- The activation of the current frame, whose window is `w`. -/
def activation (m : Machine) (w : Window) : Activation :=
  { base := w.base
    len := w.len
    pc := m.pc
    inUse := m.registers.inUse
    depth := m.frames.live }

/-- What is left of a machine. -/
def aftermath (m : Machine) : Aftermath :=
  { words := m.registers.words
    stats := m.stats
    pc := m.pc
    inUse := m.registers.inUse
    live := m.frames.live
    poisoned := m.poisoned }

variable {m n : Machine} {rootSize : Nat} {f : Frame} {fs : List Frame}

/-! ### One instruction -/

theorem store_register (m : Machine) (index : Word) :
    m.store.register index =
      if m.registers.capacity ≤ index.toNat then
        .error (.outsideFile index.toNat m.registers.capacity)
      else .ok index.toNat := by
  by_cases h : m.registers.capacity ≤ index.toNat
  · rw [if_pos h]
    exact if_neg (Nat.not_lt.2 h)
  · rw [if_neg h]
    exact if_pos (Nat.not_le.1 h)

theorem activation_register (m : Machine) (w : Window) (index : Word) :
    (m.activation w).register index =
      if w.len ≤ index.toNat then .error (.outsideWindow index.toNat w.len)
      else .ok (w.base + index.toNat) := by
  by_cases h : w.len ≤ index.toNat
  · rw [if_pos h]
    exact if_neg (Nat.not_lt.2 h)
  · rw [if_neg h]
    exact if_pos (Nat.not_le.1 h)

open Instruction in
/-- **An activation performs an instruction** as the machine does. -/
theorem perform_eq (m : Machine) (w : Window) (i : Instruction) :
    (m.activation w).perform m.store i =
      match i.misfit? w.len m.registers.capacity with
      | some fault => .error fault
      | none => .ok (m.store.carryOut (i.work m.registers w)) := by
  cases i with
  | ret => rfl
  | call target frameSize destination =>
    rw [Activation.perform, activation_register, misfit?_relative rfl rfl]
    by_cases h : w.len ≤ destination.toNat
    · rw [if_pos h, if_pos h]
      rfl
    · rw [if_neg h, if_neg h]
      rfl
  | move destination source =>
    rw [Activation.perform, store_register, store_register, misfit?_absolute_pair rfl rfl]
    by_cases hs : m.registers.capacity ≤ source.toNat
    · rw [if_pos hs, if_pos hs]
      rfl
    · rw [if_neg hs, if_neg hs]
      by_cases hd : m.registers.capacity ≤ destination.toNat
      · rw [if_pos hd, if_pos hd]
        rfl
      · rw [if_neg hd, if_neg hd]
        rfl
  | moveImmediate destination value =>
    rw [Activation.perform, store_register, misfit?_absolute rfl rfl]
    by_cases h : m.registers.capacity ≤ destination.toNat
    · rw [if_pos h, if_pos h]
      rfl
    · rw [if_neg h, if_neg h]
      rfl
  | add destination source =>
    rw [Activation.perform, activation_register, activation_register,
      misfit?_relative_pair rfl rfl]
    by_cases hs : w.len ≤ source.toNat
    · rw [if_pos hs, if_pos hs]
      rfl
    · rw [if_neg hs, if_neg hs]
      by_cases hd : w.len ≤ destination.toNat
      · rw [if_pos hd, if_pos hd]
        rfl
      · rw [if_neg hd, if_neg hd]
        rfl
  | addImmediate destination value =>
    rw [Activation.perform, activation_register, misfit?_relative rfl rfl]
    by_cases h : w.len ≤ destination.toNat
    · rw [if_pos h, if_pos h]
      rfl
    · rw [if_neg h, if_neg h]
      rfl
  | increment register =>
    rw [Activation.perform, activation_register, misfit?_relative rfl rfl]
    by_cases h : w.len ≤ register.toNat
    · rw [if_pos h, if_pos h]
      rfl
    · rw [if_neg h, if_neg h]
      rfl
  | decrement register =>
    rw [Activation.perform, activation_register, misfit?_relative rfl rfl]
    by_cases h : w.len ≤ register.toNat
    · rw [if_pos h, if_pos h]
      rfl
    · rw [if_neg h, if_neg h]
      rfl

theorem turn_of_pastEnd {w : Window} (hfetch : m.program.get? m.pc = none) :
    (m.activation w).turn m.environment m.store =
      .ended (.stopped (.fault (.pastEnd m.pc m.program.size)) (m.activation w) m.store) := by
  have hfetch : m.environment.program.get? (m.activation w).pc = none := hfetch
  rw [Activation.turn, hfetch]
  rfl

theorem turn_of_misfit {w : Window} {i : Instruction} {fault : Fault}
    (hfetch : m.program.get? m.pc = some i)
    (hmisfit : i.misfit? w.len m.registers.capacity = some fault) :
    (m.activation w).turn m.environment m.store =
      .ended (.stopped (.fault fault) (m.activation w) (m.counted i).store) := by
  have hfetch : m.environment.program.get? (m.activation w).pc = some i := hfetch
  have hperform : (m.activation w).perform (m.store.count i.opcode) i = .error fault := by
    refine (perform_eq (m.counted i) w i).trans ?_
    rw [show (m.counted i).registers = m.registers from rfl, hmisfit]
  rw [Activation.turn, hfetch]
  simp only [hperform]
  rfl

/-- An instruction without a misfit goes on to its work. -/
theorem turn_of_fit {w : Window} {i : Instruction} (hfetch : m.program.get? m.pc = some i)
    (hmisfit : i.misfit? w.len m.registers.capacity = none) :
    (m.activation w).turn m.environment m.store =
      match i with
      | .ret =>
        .ended (.returned (m.registers.word w.base) (m.activation w) (m.counted .ret).store)
      | .call target frameSize destination =>
        (m.activation w).enter m.environment (m.counted i).store target frameSize destination
      | _ => .next ((m.counted i).store.carryOut (i.work m.registers w)) := by
  have hfetch : m.environment.program.get? (m.activation w).pc = some i := hfetch
  have hperform : (m.activation w).perform (m.store.count i.opcode) i =
      .ok ((m.counted i).store.carryOut (i.work m.registers w)) := by
    refine (perform_eq (m.counted i) w i).trans ?_
    rw [show (m.counted i).registers = m.registers from rfl, hmisfit]
  rw [Activation.turn, hfetch]
  simp only [hperform]
  cases i <;> rfl

theorem turn_of_write {w : Window} {i : Instruction} {index : Nat} {word : Word}
    (hfetch : m.program.get? m.pc = some i)
    (hmisfit : i.misfit? w.len m.registers.capacity = none)
    (hwork : i.work m.registers w = .write index word) :
    (m.activation w).turn m.environment m.store =
      .next ((m.counted i).store.write index word) := by
  rw [turn_of_fit hfetch hmisfit]
  cases i with
  | ret => simp [Instruction.work] at hwork
  | call => simp [Instruction.work] at hwork
  | _ => simp only [hwork, Store.carryOut]

/-- An activation asks for the room that the machine does. -/
theorem room_activation (m : Machine) (w : Window) (i : Instruction) (len : Nat) :
    growthRule m.environment.increment m.environment.registerLimit
        (m.counted i).store.words.size ((m.activation w).inUse + len) =
      m.registers.room (m.registers.inUse + len) :=
  rfl

section

variable {w : Window} {target frameSize destination : Word}
  (hfetch : m.program.get? m.pc = some (.call target frameSize destination))
  (hdestination : destination.toNat < w.len)

include hfetch hdestination

theorem turn_of_call :
    (m.activation w).turn m.environment m.store =
      (m.activation w).enter m.environment (m.counted (.call target frameSize destination)).store
        target frameSize destination := by
  refine turn_of_fit hfetch (Instruction.misfit?_eq_none_iff.2 ⟨?_, ?_⟩)
  · intro index hindex
    obtain rfl := List.mem_singleton.1 hindex
    exact hdestination
  · intro index hindex
    simp [Instruction.absoluteOperands] at hindex

theorem turn_of_emptyFrame (hsize : frameSize = 0) :
    (m.activation w).turn m.environment m.store =
      .ended (.stopped (.fault (.emptyFrame m.pc)) (m.activation w)
        (m.counted (.call target frameSize destination)).store) := by
  rw [turn_of_call hfetch hdestination, Activation.enter, if_pos hsize]
  rfl

theorem turn_of_noRegisters {cause : Exhaustion} (hsize : 0 < frameSize.toNat)
    (hroom : m.registers.room (m.registers.inUse + frameSize.toNat) = .error cause) :
    (m.activation w).turn m.environment m.store =
      .ended (.stopped (.exhausted cause) (m.activation w)
        (m.counted (.call target frameSize destination)).store) := by
  rw [turn_of_call hfetch hdestination, Activation.enter_of_pos hsize, room_activation, hroom]

theorem turn_of_noFrames {capacity : Nat} (hsize : 0 < frameSize.toNat)
    (hroom : m.registers.room (m.registers.inUse + frameSize.toNat) = .ok capacity)
    (hfull : m.frames.limit.any (· ≤ m.frames.live) = true) :
    (m.activation w).turn m.environment m.store =
      .ended (.stopped (.exhausted (.frames m.frames.live)) (m.activation w)
        ((m.counted (.call target frameSize destination)).extend capacity
          frameSize.toNat).store) := by
  rw [turn_of_call hfetch hdestination, Activation.enter_of_pos hsize, room_activation, hroom]
  exact if_pos hfull

/-- The frames of the callee are one more than those of the caller. -/
theorem turn_of_entered {capacity : Nat} {frames : CallStack} (hsize : 0 < frameSize.toNat)
    (hroom : m.registers.room (m.registers.inUse + frameSize.toNat) = .ok capacity)
    (hfree : m.frames.limit.any (· ≤ m.frames.live) = false)
    (hlive : frames.live = m.frames.live + 1) :
    (m.activation w).turn m.environment m.store =
      let n := ((m.counted (.call target frameSize destination)).extend capacity
        frameSize.toNat).entering frames target.toNat
      .call (n.activation ⟨m.registers.inUse, frameSize.toNat⟩) (w.base + destination.toNat)
        n.store := by
  have hcallee : (m.activation w).callee target frameSize =
      activation (((m.counted (.call target frameSize destination)).extend capacity
        frameSize.toNat).entering frames target.toNat)
        ⟨m.registers.inUse, frameSize.toNat⟩ := by
    exact congrArg (Activation.mk _ _ _ _) hlive.symm
  rw [turn_of_call hfetch hdestination, Activation.enter_of_pos hsize, room_activation, hroom]
  refine (if_neg (Bool.eq_false_iff.1 hfree)).trans ?_
  rw [hcallee]
  rfl

end

/-! ### Runs -/

/-- The machine gets from its fetch to where the evaluation of its activation ends, with
the frame `f` current over the frames `fs`. -/
inductive Arrives (m : Machine) (rootSize : Nat) (f : Frame) (fs : List Frame) : Ending → Prop
  /-- It gets to the `ret` of the frame, over the same frames. -/
  | returned {n : Machine} (hreaches : Reaches m n) (hlive : n.Live rootSize (f :: fs))
      (hfetch : n.program.get? n.pc = some .ret) :
      Arrives m rootSize f fs (.returned (n.registers.word f.window.base)
        (n.activation f.window) (n.counted .ret).store)
  /-- It gets to a fetch whose step faults, in a frame with the window `w`. -/
  | faulted {n e : Machine} {fault : Fault} (w : Window) (hreaches : Reaches m n)
      (hstep : n.step = .stopped (.fault fault) e) :
      Arrives m rootSize f fs (.stopped (.fault fault) (e.activation w) e.store)
  /-- It gets to a fetch whose step runs out of room. -/
  | exhausted {n e : Machine} {cause : Exhaustion} {a : Activation} (hreaches : Reaches m n)
      (hstep : n.step = .stopped (.exhausted cause) e) (hpc : e.pc = a.pc) :
      Arrives m rootSize f fs (.stopped (.exhausted cause) a e.store)

/-- A machine arrives where a machine that it reaches does. -/
theorem Arrives.of_reaches {ending : Ending} (hreaches : Reaches m n)
    (h : n.Arrives rootSize f fs ending) : m.Arrives rootSize f fs ending := by
  cases h with
  | returned hlater hlive hfetch => exact .returned (hreaches.trans hlater) hlive hfetch
  | faulted w hlater hstep => exact .faulted w (hreaches.trans hlater) hstep
  | exhausted hlater hstep hpc => exact .exhausted (hreaches.trans hlater) hstep hpc

theorem remaining_le_of_reaches (h : Reaches m n) : n.remaining ≤ m.remaining := by
  induction h with
  | refl => exact Nat.le_refl _
  | tail _ hstep ih => exact Nat.le_trans (Nat.le_of_lt (remaining_lt_of_step hstep)) ih

/-- The caller as it resumes. -/
theorem Live.exists_resumed {callee : Frame} {link : Link} (h : m.Live rootSize (callee :: f :: fs))
    (hfetch : m.program.get? m.pc = some .ret) (hlink : callee.link = some link) :
    ∃ n, m.step = .running n ∧ n.Live rootSize (f :: fs) ∧
      n.activation f.window =
        ⟨f.window.base, f.window.len, link.resumePc, callee.window.base, (f :: fs).length⟩ ∧
      n.store = (m.counted .ret).store.write link.destination
        (m.registers.word callee.window.base) := by
  obtain ⟨frames, hframes, hlimit, hstep⟩ := h.transition.of_ret hfetch
  rw [hlink] at hstep
  refine ⟨_, hstep, (h.leaving (List.cons_ne_nil _ _) hframes hlimit _).writing .., ?_, rfl⟩
  exact congrArg (Activation.mk f.window.base f.window.len link.resumePc callee.window.base)
    hframes.live

/-- The caller of a frame that arrives arrives where its own evaluation goes on. -/
theorem Live.arrives_of_callee (h : m.Live rootSize (f :: fs)) {frameSize destination : Word}
    {ending : Ending} (hstep : m.step = .running n)
    (hresume : ∀ k : Machine, k.remaining < m.remaining → k.Live rootSize (f :: fs) →
      k.Arrives rootSize f fs (evaluate k.environment (k.activation f.window) k.store)) :
    n.Arrives rootSize (calleeFrame f fs m.pc frameSize destination) (f :: fs) ending →
    m.Arrives rootSize f fs
      (match ending with
      | .returned result _ u =>
        evaluate m.environment (m.activation f.window).next
          (u.write (f.window.base + destination.toNat) result)
      | .stopped stop b u => .stopped stop b u) := by
  intro hcallee
  have hfirst : Reaches m n := .single hstep
  cases hcallee with
  | faulted w hreaches hlast => exact .faulted w (hfirst.trans hreaches) hlast
  | exhausted hreaches hlast hpc => exact .exhausted (hfirst.trans hreaches) hlast hpc
  | @returned k hreaches hlive hfetch =>
    obtain ⟨b, hret, hback, hactivation, hstore⟩ := hlive.exists_resumed hfetch rfl
    have hreached : Reaches m b := hfirst.trans (hreaches.tail hret)
    have hless : b.remaining < m.remaining :=
      Nat.lt_of_lt_of_le (remaining_lt_of_step hret)
        (remaining_le_of_reaches (hfirst.trans hreaches))
    have hresumed := hresume b hless hback
    have hnext : b.activation f.window = (m.activation f.window).next := by
      rw [hactivation]
      simp only [activation, Activation.next, calleeFrame, h.frames.live, h.inUse, extent]
    rw [(h.environment_of_reaches hreached).1, hnext, hstore] at hresumed
    exact hresumed.of_reaches hreached

/-- **A machine arrives where the evaluation of its activation ends.** -/
theorem Live.arrives (h : m.Live rootSize (f :: fs)) :
    m.Arrives rootSize f fs (evaluate m.environment (m.activation f.window) m.store) := by
  -- A callee and the rest of its caller are two recursions of the evaluator, and one run of
  -- the machine: the induction is on what the machine has left to do.
  induction hleft : m.remaining using Nat.strongRecOn generalizing m f fs with
  | ind left ih =>
    subst hleft
    have hdepth : m.frames.live = fs.length + 1 := h.frames.live
    have htransition := h.transition
    generalize hstep : m.step = progress at htransition
    cases htransition with
    | pastEnd hfetch =>
      rw [evaluate_of_ended (turn_of_pastEnd hfetch)]
      exact .faulted f.window .refl hstep
    | misfit hfetch hmisfit =>
      rw [evaluate_of_ended (turn_of_misfit hfetch hmisfit)]
      exact .faulted f.window .refl hstep
    | wrote hfetch hmisfit hwork =>
      rw [evaluate_of_next (turn_of_write hfetch hmisfit hwork)]
      have hnext := ih _ (remaining_lt_of_step hstep) ((h.counted _).writing ..) rfl
      exact hnext.of_reaches (.single hstep)
    | emptyFrame hfetch hdestination hsize =>
      rw [evaluate_of_ended (turn_of_emptyFrame hfetch hdestination hsize)]
      exact .faulted f.window .refl hstep
    | noRegisters hfetch hdestination hsize hroom =>
      rw [evaluate_of_ended (turn_of_noRegisters hfetch hdestination hsize hroom)]
      exact .exhausted .refl hstep rfl
    | noFrames hfetch hdestination hsize hroom hfull =>
      rw [← hdepth] at hfull hstep
      rw [evaluate_of_ended (turn_of_noFrames hfetch hdestination hsize hroom hfull)]
      exact .exhausted .refl hstep rfl
    | @entered target frameSize destination _ _ hfetch hdestination hsize hroom hfree hframes
        hlimit =>
      have hentered := h.entering hfetch hdestination hsize hroom hfree hframes hlimit
        (.call target frameSize destination)
      have hwindow : (calleeFrame f fs m.pc frameSize destination).window =
          ⟨m.registers.inUse, frameSize.toNat⟩ := by
        rw [h.inUse]
        rfl
      have hcallee := ih _ (remaining_lt_of_step hstep) hentered rfl
      rw [(h.environment_of_reaches (.single hstep)).1, hwindow] at hcallee
      rw [← hdepth] at hfree
      rw [evaluate_of_call (turn_of_entered hfetch hdestination hsize hroom hfree
        (by rw [hframes.live, hdepth]; rfl))]
      exact h.arrives_of_callee hstep (fun k hk hlive => ih _ hk hlive rfl) hcallee
    | returned hfetch =>
      rw [evaluate_of_ended (turn_of_fit hfetch rfl)]
      exact .returned .refl h hfetch
    | finished hfetch =>
      rw [evaluate_of_ended (turn_of_fit hfetch rfl)]
      exact .returned .refl h hfetch

/-! ### Executions -/

/-- An exhaustion leaves the store and the program counter. -/
theorem aftermath_abandoned {frames : CallStack} (h : frames.Holds []) :
    (m.abandoned frames).aftermath = .exhausted m.store m.pc :=
  congrArg (Aftermath.mk m.registers.words m.stats m.pc 0 · true) h.live

/-- A run of a root frame ends as the evaluation of its activation does. -/
theorem Live.settle_run_eq (h : m.Live rootSize [rootFrame rootSize]) (hmark : m.poisoned = false) :
    ((settle m.run).1, (settle m.run).2.aftermath) =
      (evaluate m.environment (m.activation (rootFrame rootSize).window) m.store).conclude := by
  have harrives := h.arrives
  generalize evaluate _ _ _ = ending at harrives
  cases harrives with
  | @returned n hreaches hlive hfetch =>
    obtain ⟨frames, hframes, hlimit, hstep⟩ := hlive.transition.of_ret hfetch
    have hmark : n.poisoned = false := (h.environment_of_reaches hreaches).2.trans hmark
    rw [run_eq_of_reaches hreaches, run_of_finished hstep]
    exact congrArg (Prod.mk _) (congrArg₂
      (Aftermath.mk n.registers.words (n.counted .ret).stats n.pc 0) hframes.live hmark)
  | @faulted n e fault w hreaches hstep =>
    have hmark : e.poisoned = false := by
      obtain ⟨gs, hlast⟩ := h.of_reaches hreaches
      have hkept := (h.environment_of_reaches hreaches).2.trans hmark
      exact (hlast.environment_eq hstep).2.trans hkept
    rw [run_eq_of_reaches hreaches, run_of_stopped hstep]
    exact congrArg (Prod.mk _) (congrArg
      (Aftermath.mk e.registers.words e.stats e.pc e.registers.inUse e.frames.live) hmark)
  | @exhausted n e cause a hreaches hstep hpc =>
    obtain ⟨gs, hlast⟩ := h.of_reaches hreaches
    obtain ⟨frames, hframes, -, hsettle⟩ :=
      settle_exhausted (hlast.of_exhausted hstep).1 cause
    rw [run_eq_of_reaches hreaches, run_of_stopped hstep, hsettle]
    exact congrArg (Prod.mk _) ((aftermath_abandoned hframes).trans (by rw [hpc]))

/-- **The machine computes what the evaluator does.**  An execution of a machine that can
execute ends with the same word, the same exhaustion or the same fault as the evaluation of
a root activation, and leaves the same words and counters. -/
theorem Reachable.execute_eq_evaluateRoot {p : Program} {c : Config} (h : Reachable p c m)
    (hidle : m.Idle) (entry : Nat) (hroot : 0 < rootSize) :
    ((m.execute entry rootSize).1, (m.execute entry rootSize).2.aftermath) =
      (Environment.ofConfig p c).evaluateRoot m.registers.words m.pc entry rootSize := by
  have hrefusal := hidle.refusal? hroot
  have hresting := (h.resting_of_refusal hrefusal).fresh
  have hopening := hresting.opening entry rootSize
  rw [execute_eq_settle_attempt hrefusal, attempt, ← h.resting_or_live.1]
  generalize hstart : m.fresh.start entry rootSize = started at hopening
  cases hopening with
  | noRegisters hroom =>
    obtain ⟨frames, hframes, -, hsettle⟩ := settle_exhausted hresting.frames _
    have hroom : growthRule m.environment.increment m.environment.registerLimit
      m.registers.words.size rootSize = _ := hroom
    rw [hsettle, aftermath_abandoned hframes, Environment.evaluateRoot, hroom]
    rfl
  | @noFrames capacity hroom hfull =>
    have hgrown : (m.fresh.extend capacity rootSize).frames.Holds [] := hresting.frames
    obtain ⟨frames, hframes, -, hsettle⟩ := settle_exhausted hgrown (.frames 0)
    have hroom : growthRule m.environment.increment m.environment.registerLimit
      m.registers.words.size rootSize = _ := hroom
    rw [hsettle, aftermath_abandoned hframes, Environment.evaluateRoot, hroom]
    exact (if_pos hfull).symm
  | @opened capacity frames hroom hfree hframes =>
    obtain ⟨hlive, henvironment, hmark⟩ := hresting.live_of_start hroot hstart
    have hroom : growthRule m.environment.increment m.environment.registerLimit
      m.registers.words.size rootSize = _ := hroom
    have hactivation : activation ((m.fresh.extend capacity rootSize).entering frames entry)
        (rootFrame rootSize).window = rootActivation entry rootSize := by
      have hinUse : m.registers.inUse + rootSize = rootSize := by
        rw [show m.registers.inUse = 0 from hresting.inUse, Nat.zero_add]
      exact congrArg₂ (Activation.mk 0 rootSize entry) hinUse hframes.live
    have hsettle := hlive.settle_run_eq (hmark.trans hidle.not_poisoned)
    rw [henvironment, hactivation] at hsettle
    rw [Environment.evaluateRoot, hroom]
    refine hsettle.trans (Eq.symm ((if_neg (Bool.eq_false_iff.1 hfree)).trans ?_))
    rw [← hactivation]
    rfl

/-- The hypotheses are satisfiable: a callee counts its register up and returns it. -/
theorem Reachable.execute_eq_evaluateRoot_of_callee :
    ∃ m, Reachable ⟨#[.call 2 1 0, .ret, .increment 0, .ret], by decide⟩
        { initialRegisters := 1, growthIncrement := 1 } m ∧ m.Idle ∧
      ((m.execute 0 1).1, (m.execute 0 1).2.aftermath) = Environment.evaluateRoot
        ⟨⟨#[.call 2 1 0, .ret, .increment 0, .ret], by decide⟩, 1, none, none⟩ #[0] 0 0 1 := by
  have hreachable : Reachable ⟨#[.call 2 1 0, .ret, .increment 0, .ret], by decide⟩
    { initialRegisters := 1, growthIncrement := 1 } _ := .new rfl
  refine ⟨_, hreachable, ⟨rfl, rfl⟩, ?_⟩
  exact hreachable.execute_eq_evaluateRoot ⟨rfl, rfl⟩ 0 Nat.one_pos

end Machine
end WindowVM
