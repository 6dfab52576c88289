/-
# What earlier executions leave behind

A machine that has executed keeps an arena with empty slots, a free list, a program counter
and the counters of its last execution.  None of these matters to what it does next.
Machines of one environment are `Interchangeable` when they hold the same words, have
equally many registers in use and frames live, and are poisoned both or neither.

A call stack enters an execution only through the frames it holds, of which there are none
at the start.  So the root frames of two such machines open alike (`Resting.endAlike`), and
evaluate alike from there.  `Reachable.execute_interchangeable` is the step from one
execution to the next, and `Reachable.executeAll_eq` any number of them.
-/

import WindowVM.Proofs.FrameChain
import WindowVM.Proofs.Refinement

namespace WindowVM
namespace Machine

/-- Machines that differ at most in their arenas, program counters and statistics. -/
structure Interchangeable (m n : Machine) : Prop where
  words : m.registers.words = n.registers.words
  inUse : m.registers.inUse = n.registers.inUse
  live : m.frames.live = n.frames.live
  poisoned : m.poisoned = n.poisoned

/-- Ends of executions with the same outcome and the same statistics, which leave
interchangeable machines. -/
structure EndAlike (e e' : Except Stop Word × Machine) : Prop where
  outcome : e.1 = e'.1
  left : Interchangeable e.2 e'.2
  stats : e.2.stats = e'.2.stats

variable {p : Program} {c d : Config} {m n : Machine} {rootSize : Nat} {fs gs : List Frame}

namespace Interchangeable

/-- Interchangeable machines refuse the same root frames. -/
theorem refusal?_eq (h : Interchangeable m n) (rootSize : Nat) :
    m.refusal? rootSize = n.refusal? rootSize := by
  rw [refusal?, refusal?, h.poisoned, h.live]

/-- Registers that are handed out leave machines interchangeable. -/
theorem extend (h : Interchangeable m n) (capacity len : Nat) :
    Interchangeable (m.extend capacity len) (n.extend capacity len) := by
  refine ⟨?_, congrArg (· + len) h.inUse, h.live, h.poisoned⟩
  simp only [Machine.extend, RegisterFile.extend, RegisterFile.capacity, h.words]

theorem stats_extend (h : Interchangeable m n) (hstats : m.stats = n.stats) (capacity len : Nat) :
    (m.extend capacity len).stats = (n.extend capacity len).stats := by
  have hcapacity : m.registers.capacity = n.registers.capacity := congrArg Array.size h.words
  simp only [Machine.extend]
  by_cases hgrown : capacity = n.registers.capacity
  · rw [if_pos (hgrown.trans hcapacity.symm), if_pos hgrown, hstats]
  · rw [if_neg fun heq => hgrown (heq.trans hcapacity), if_neg hgrown, hstats]

/-- The register files of one environment grow alike. -/
theorem room_eq (h : Interchangeable m n) (henvironment : m.environment = n.environment)
    (required : Nat) : m.registers.room required = n.registers.room required := by
  have hincrement : m.registers.increment = n.registers.increment :=
    congrArg Environment.increment henvironment
  have hlimit : m.registers.limit = n.registers.limit :=
    congrArg Environment.registerLimit henvironment
  rw [RegisterFile.room, RegisterFile.room, hincrement, hlimit, RegisterFile.capacity,
    RegisterFile.capacity, h.words]

/-- Exhaustions with the same cause end alike, whatever frames they destroy. -/
theorem settle_exhausted (h : Interchangeable m n) (hstats : m.stats = n.stats)
    (hm : m.frames.Holds fs) (hn : n.frames.Holds gs) (cause : Exhaustion) :
    EndAlike (settle (.error (.exhausted cause), m)) (settle (.error (.exhausted cause), n)) := by
  obtain ⟨frames, hframes, -, hsettle⟩ := Machine.settle_exhausted hm cause
  obtain ⟨frames', hframes', -, hsettle'⟩ := Machine.settle_exhausted hn cause
  rw [hsettle, hsettle']
  exact ⟨rfl, ⟨h.words, rfl, hframes.live.trans hframes'.live.symm, rfl⟩, hstats⟩

end Interchangeable

/-- Root frames that begin with the same words and counters end alike. -/
theorem Live.endAlike (hm : m.Live rootSize [rootFrame rootSize])
    (hn : n.Live rootSize [rootFrame rootSize]) (henvironment : m.environment = n.environment)
    (h : Interchangeable m n) (hstats : m.stats = n.stats) (hpc : m.pc = n.pc)
    (hmark : m.poisoned = false) :
    EndAlike (settle m.run) (settle n.run) ∧ (settle m.run).2.pc = (settle n.run).2.pc := by
  have hsettle := hm.settle_run_eq hmark
  have hsettle' := hn.settle_run_eq (h.poisoned ▸ hmark)
  have hstore : m.store = n.store := congrArg₂ Store.mk h.words hstats
  have hactivation : m.activation (rootFrame rootSize).window =
      n.activation (rootFrame rootSize).window := by
    rw [activation, activation, hpc, h.inUse, h.live]
  rw [henvironment, hactivation, hstore, ← hsettle'] at hsettle
  obtain ⟨houtcome, haftermath⟩ := Prod.mk.inj hsettle
  obtain ⟨hwords, hstats, hpc, hinUse, hlive, hmark⟩ := Aftermath.mk.inj haftermath
  exact ⟨⟨houtcome, ⟨hwords, hinUse, hlive, hmark⟩, hstats⟩, hpc⟩

/-- Starts of executions that go the same way. -/
inductive StartAlike (rootSize : Nat) :
    Except Stop Unit × Machine → Except Stop Unit × Machine → Prop
  /-- There is no room for the root frame, for the same cause. -/
  | refused {m n : Machine} (cause : Exhaustion) (hm : m.frames.Holds []) (hn : n.frames.Holds [])
      (h : Interchangeable m n) (hstats : m.stats = n.stats) :
      StartAlike rootSize (.error (.exhausted cause), m) (.error (.exhausted cause), n)
  /-- The root frame is at the same instruction. -/
  | opened {m n : Machine} (hm : m.Live rootSize [rootFrame rootSize])
      (hn : n.Live rootSize [rootFrame rootSize]) (henvironment : m.environment = n.environment)
      (h : Interchangeable m n) (hstats : m.stats = n.stats) (hpc : m.pc = n.pc) :
      StartAlike rootSize (.ok (), m) (.ok (), n)

/-- Machines at rest with the same words make the same start. -/
theorem Resting.startAlike (hm : m.Resting) (hn : n.Resting)
    (henvironment : m.environment = n.environment) (h : Interchangeable m n)
    (hstats : m.stats = n.stats) (hroot : 0 < rootSize) (entry : Nat) :
    StartAlike rootSize (m.start entry rootSize) (n.start entry rootSize) := by
  have hopening := hm.opening entry rootSize
  have hopening' := hn.opening entry rootSize
  have hlimit : m.frames.limit = n.frames.limit := congrArg Environment.frameLimit henvironment
  generalize hs : m.start entry rootSize = started at hopening
  generalize ht : n.start entry rootSize = started' at hopening'
  cases hopening with
  | noRegisters hroom =>
    rw [h.room_eq henvironment] at hroom
    cases hopening' with
    | noRegisters hroom' =>
      obtain rfl := Except.error.inj (hroom.symm.trans hroom')
      exact .refused _ hm.frames hn.frames h hstats
    | _ hroom' => simp [hroom] at hroom'
  | @noFrames capacity hroom hfull =>
    rw [h.room_eq henvironment] at hroom
    rw [hlimit] at hfull
    cases hopening' with
    | noRegisters hroom' => simp [hroom] at hroom'
    | noFrames hroom' =>
      obtain rfl := Except.ok.inj (hroom.symm.trans hroom')
      exact .refused _ hm.frames hn.frames (h.extend ..) (h.stats_extend hstats ..)
    | opened _ hfree => cases hfull.symm.trans hfree
  | @opened capacity frames hroom hfree hframes =>
    rw [h.room_eq henvironment] at hroom
    rw [hlimit] at hfree
    cases hopening' with
    | noRegisters hroom' => simp [hroom] at hroom'
    | noFrames _ hfull => cases hfull.symm.trans hfree
    | @opened _ frames' hroom' _ hframes' =>
      obtain rfl := Except.ok.inj (hroom.symm.trans hroom')
      obtain ⟨hlive, henv, -⟩ := hm.live_of_start hroot hs
      obtain ⟨hlive', henv', -⟩ := hn.live_of_start hroot ht
      have hextended := h.extend capacity rootSize
      have hdepth : frames.live = frames'.live := hframes.live.trans hframes'.live.symm
      refine .opened hlive hlive' (henv.trans (henvironment.trans henv'.symm))
        ⟨hextended.words, hextended.inUse, hdepth, hextended.poisoned⟩ ?_ rfl
      simp only [entering]
      rw [h.stats_extend hstats, hdepth, hextended.inUse]

/-- **Machines at rest with the same words execute alike,** and stop at the same instruction
once there is a root frame. -/
theorem Resting.endAlike (hm : m.Resting) (hn : n.Resting)
    (henvironment : m.environment = n.environment) (h : Interchangeable m n)
    (hrefusal : m.refusal? rootSize = none) (entry : Nat) :
    EndAlike (m.execute entry rootSize) (n.execute entry rootSize) ∧
      ((m.fresh.start entry rootSize).1 = .ok () →
        (m.execute entry rootSize).2.pc = (n.execute entry rootSize).2.pc) := by
  obtain ⟨hmark, hroot, -⟩ := refusal?_eq_none_iff.1 hrefusal
  have hfresh : Interchangeable m.fresh n.fresh := ⟨h.words, h.inUse, h.live, h.poisoned⟩
  have hstart := hm.fresh.startAlike hn.fresh henvironment hfresh rfl hroot entry
  rw [execute_eq_settle_attempt hrefusal,
    execute_eq_settle_attempt ((h.refusal?_eq rootSize).symm.trans hrefusal), attempt, attempt]
  generalize hs : m.fresh.start entry rootSize = started at hstart
  generalize n.fresh.start entry rootSize = started' at hstart
  cases hstart with
  | refused cause hm' hn' h' hstats =>
    exact ⟨h'.settle_exhausted hstats hm' hn' cause, by simp⟩
  | opened hlive hlive' henvironment' h' hstats hpc =>
    have hopened := (hm.fresh.live_of_start hroot hs).2.2
    have hends := hlive.endAlike hlive' henvironment' h' hstats hpc (hopened.trans hmark)
    exact ⟨hends.1, fun _ => hends.2⟩

namespace Reachable

variable (hm : Reachable p c m) (hn : Reachable p d n)

include hm hn

/-- Interchangeable machines that do not refuse execute alike. -/
theorem endAlike (henvironment : Environment.ofConfig p c = .ofConfig p d)
    (h : Interchangeable m n) (hrefusal : m.refusal? rootSize = none) (entry : Nat) :
    EndAlike (m.execute entry rootSize) (n.execute entry rootSize) ∧
      ((m.fresh.start entry rootSize).1 = .ok () →
        (m.execute entry rootSize).2.pc = (n.execute entry rootSize).2.pc) := by
  have hresting := hm.resting_of_refusal hrefusal
  have hresting' := hn.resting_of_refusal ((h.refusal?_eq rootSize).symm.trans hrefusal)
  have henv := hm.resting_or_live.1.trans (henvironment.trans hn.resting_or_live.1.symm)
  exact hresting.endAlike hresting' henv h hrefusal entry

/-- **Interchangeable machines execute alike, and are interchangeable again,** also when
they refuse. -/
theorem execute_interchangeable (henvironment : Environment.ofConfig p c = .ofConfig p d)
    (h : Interchangeable m n) (entry rootSize : Nat) :
    (m.execute entry rootSize).1 = (n.execute entry rootSize).1 ∧
      Interchangeable (m.execute entry rootSize).2 (n.execute entry rootSize).2 := by
  cases hrefusal : m.refusal? rootSize with
  | some fault =>
    rw [execute_of_refusal hrefusal,
      execute_of_refusal ((h.refusal?_eq rootSize).symm.trans hrefusal)]
    exact ⟨rfl, h⟩
  | none =>
    have hends := (hm.endAlike hn henvironment h hrefusal entry).1
    exact ⟨hends.outcome, hends.left⟩

/-- So executions one after another have the same outcomes on both. -/
theorem executeAll_eq (henvironment : Environment.ofConfig p c = .ofConfig p d)
    (h : Interchangeable m n) (runs : List (Nat × Nat)) :
    (m.executeAll runs).1 = (n.executeAll runs).1 := by
  induction runs generalizing m n with
  | nil => rfl
  | cons run runs ih =>
    obtain ⟨houtcome, hnext⟩ := hm.execute_interchangeable hn henvironment h run.1 run.2
    have hrest := ih (hm.executed run.1 run.2) (hn.executed run.1 run.2) hnext
    exact congrArg₂ List.cons houtcome hrest

/-- Machines that can execute and hold the same words are interchangeable. -/
theorem interchangeable (hidle : m.Idle) (hidle' : n.Idle)
    (hwords : m.registers.words = n.registers.words) : Interchangeable m n := by
  have hresting := hm.resting_of_refusal (hidle.refusal? Nat.one_pos)
  have hresting' := hn.resting_of_refusal (hidle'.refusal? Nat.one_pos)
  exact ⟨hwords, hresting.inUse.trans hresting'.inUse.symm, hidle.live_eq.trans hidle'.live_eq.symm,
    hidle.not_poisoned.trans hidle'.not_poisoned.symm⟩

/-- **Earlier executions influence a machine only through its words.**  Take two machines
over one program, with the same limits and the same words, that can both execute.  Whatever
they executed before, their next executions have the same outcome, and leave the same words,
equally many registers in use and frames live, and the same mark.  They count the same
unless they are refused, and stop at the same instruction if there is a root frame. -/
theorem execute_eq_of_words (hincrement : c.growthIncrement = d.growthIncrement)
    (hregisters : c.maxRegisters = d.maxRegisters) (hframes : c.maxFrames = d.maxFrames)
    (hidle : m.Idle) (hidle' : n.Idle) (hwords : m.registers.words = n.registers.words)
    (entry rootSize : Nat) :
    (m.execute entry rootSize).1 = (n.execute entry rootSize).1 ∧
      (m.execute entry rootSize).2.registers.words =
        (n.execute entry rootSize).2.registers.words ∧
      (m.execute entry rootSize).2.registers.inUse =
        (n.execute entry rootSize).2.registers.inUse ∧
      (m.execute entry rootSize).2.frames.live = (n.execute entry rootSize).2.frames.live ∧
      (m.execute entry rootSize).2.poisoned = (n.execute entry rootSize).2.poisoned ∧
      (m.refusal? rootSize = none →
        (m.execute entry rootSize).2.stats = (n.execute entry rootSize).2.stats) ∧
      (∀ s, m.Fetches entry rootSize s →
        (m.execute entry rootSize).2.pc = (n.execute entry rootSize).2.pc) := by
  have henvironment : Environment.ofConfig p c = .ofConfig p d := by
    rw [Environment.ofConfig, Environment.ofConfig, hincrement, hregisters, hframes]
  have h := hm.interchangeable hn hidle hidle' hwords
  obtain ⟨houtcome, hleft⟩ := hm.execute_interchangeable hn henvironment h entry rootSize
  refine ⟨houtcome, hleft.words, hleft.inUse, hleft.live, hleft.poisoned, ?_, ?_⟩
  · intro hrefusal
    exact (hm.endAlike hn henvironment h hrefusal entry).1.stats
  · rintro s ⟨hrefusal, root, hstart, -⟩
    exact (hm.endAlike hn henvironment h hrefusal entry).2 (by rw [hstart])

end Reachable

/-- The hypotheses are satisfiable: a machine that called a function before, and has its
counters and an arena with two empty slots from that, executes as a new machine does. -/
theorem Reachable.execute_eq_of_words_of_history :
    ∃ m n : Machine,
      Reachable ⟨#[.call 2 1 0, .ret, .ret], by decide⟩
        { initialRegisters := 2, growthIncrement := 1 } m ∧
      Reachable ⟨#[.call 2 1 0, .ret, .ret], by decide⟩
        { initialRegisters := 2, growthIncrement := 1 } n ∧
      m.frames.slots.size = 2 ∧ n.frames.slots.size = 0 ∧ m.Idle ∧ n.Idle ∧
      (m.execute 0 1).1 = (n.execute 0 1).1 := by
  obtain ⟨n, hn, hempty, hidle, hzero, hseen⟩ : ∃ n, ofConfig
      ⟨#[.call 2 1 0, .ret, .ret], by decide⟩ { initialRegisters := 2, growthIncrement := 1 } =
        .ok n ∧ n.frames.slots.size = 0 ∧ n.Idle ∧ n.registers.words = #[0, 0] ∧
      ((n.execute 0 1).2.frames.slots.size, (n.execute 0 1).2.poisoned,
        (n.execute 0 1).2.frames.live, (n.execute 0 1).2.registers.words) =
          (2, false, 0, #[0, 0]) :=
    ⟨_, rfl, rfl, ⟨rfl, rfl⟩, rfl, execute_of_runWithin (k := 3)
      (f := fun e => (e.2.frames.slots.size, e.2.poisoned, e.2.frames.live, e.2.registers.words))
      rfl rfl (by decide +kernel)⟩
  simp only [Prod.mk.injEq] at hseen
  obtain ⟨hslots, hpoisoned, hlive, hwords⟩ := hseen
  have hnew : Reachable _ _ n := .new hn
  have hused := hnew.executed 0 1
  refine ⟨_, n, hused, hnew, hslots, hempty, ⟨hpoisoned, hlive⟩, hidle, ?_⟩
  exact (hused.execute_eq_of_words hnew rfl rfl rfl ⟨hpoisoned, hlive⟩ hidle
    (hwords.trans hzero.symm) 0 1).1

end Machine
end WindowVM
