/-
# The life of a machine

A machine comes from a configuration and is executed any number of times (`Reachable`).
Between executions it rests, with no frame live and no register in use, or it is stranded:
a fault left it at a fetch, with its frames live.  An exhaustion poisons a machine that
rests.  Only a machine that rests and is not poisoned executes again; every other one
refuses and stays as it is (`Reachable.resting_or_live`, `Reachable.resting_of_refusal`).

`Execution` lists how an execution of a resting machine can go: the root frame is refused,
or the machine goes from fetch to fetch (`Reaches`) until a step ends the run.
-/

import Mathlib.Logic.Relation
import WindowVM.Proofs.Transition

namespace WindowVM
namespace Machine

variable {m n : Machine} {rootSize : Nat} {fs : List Frame}

/-- The machine gets from one fetch to another. -/
def Reaches : Machine → Machine → Prop := Relation.ReflTransGen fun m n => m.step = .running n

/-- **At each fetch of a run the live frames nest.** -/
theorem Live.of_reaches (h : m.Live rootSize fs) (hr : Reaches m n) :
    ∃ gs, n.Live rootSize gs := by
  induction hr with
  | refl => exact ⟨fs, h⟩
  | tail _ hstep ih =>
    obtain ⟨gs, hlive⟩ := ih
    exact hlive.of_running hstep

/-- A step leaves the program, the limits and the mark of an exhaustion as they are. -/
theorem Live.environment_eq {q : Progress} (h : m.Live rootSize fs) (hstep : m.step = q) :
    q.machine.environment = m.environment ∧ q.machine.poisoned = m.poisoned := by
  obtain ⟨f, fs, rfl, htransition⟩ := h.exists_transition hstep
  exact htransition.environment_eq

theorem Live.environment_of_reaches (h : m.Live rootSize fs) (hr : Reaches m n) :
    n.environment = m.environment ∧ n.poisoned = m.poisoned := by
  induction hr with
  | refl => exact ⟨rfl, rfl⟩
  | tail hr hstep ih =>
    obtain ⟨gs, hlive⟩ := h.of_reaches hr
    have hkept := hlive.environment_eq hstep
    exact ⟨hkept.1.trans ih.1, hkept.2.trans ih.2⟩

theorem run_eq_of_reaches (hr : Reaches m n) : m.run = n.run := by
  induction hr with
  | refl => rfl
  | tail _ hstep ih => rw [ih, run_of_running hstep]

/-- **Every run ends** at a fetch whose step returns from the root or stops short. -/
theorem exists_last_fetch (m : Machine) :
    ∃ n, Reaches m n ∧
      ((∃ result e, n.step = .finished result e ∧ m.run = (.ok result, e)) ∨
        ∃ stop e, n.step = .stopped stop e ∧ m.run = (.error stop, e)) := by
  fun_induction run m with
  | case1 m n hstep ih =>
    obtain ⟨last, hr, hend⟩ := ih
    exact ⟨last, .head hstep hr, hend⟩
  | case2 m result n hstep => exact ⟨m, .refl, Or.inl ⟨result, n, hstep, rfl⟩⟩
  | case3 m stop n hstep => exact ⟨m, .refl, Or.inr ⟨stop, n, hstep, rfl⟩⟩

/-! ### The root frame -/

/-- The frame of an execution. -/
def rootFrame (rootSize : Nat) : Frame := ⟨⟨0, rootSize⟩, none⟩

/-- What can become of the root frame of a resting machine. -/
inductive Opening (m : Machine) (entry rootSize : Nat) : Except Stop Unit × Machine → Prop
  /-- It gets no registers. -/
  | noRegisters {cause : Exhaustion} (hroom : m.registers.room rootSize = .error cause) :
      Opening m entry rootSize (.error (.exhausted cause), m)
  /-- It gets registers, and no frame may be live. -/
  | noFrames {capacity : Nat} (hroom : m.registers.room rootSize = .ok capacity)
      (hfull : m.frames.limit.any (· ≤ 0) = true) :
      Opening m entry rootSize (.error (.exhausted (.frames 0)), m.extend capacity rootSize)
  /-- It is the current frame. -/
  | opened {capacity : Nat} {frames : CallStack} (hroom : m.registers.room rootSize = .ok capacity)
      (hfree : m.frames.limit.any (· ≤ 0) = false) (hframes : frames.Holds [rootFrame rootSize])
      (hlimit : frames.limit = m.frames.limit) :
      Opening m entry rootSize (.ok (), (m.extend capacity rootSize).entering frames entry)

theorem Resting.opening (h : m.Resting) (entry rootSize : Nat) :
    m.Opening entry rootSize (m.start entry rootSize) := by
  have hallocate := allocate_eq h.fits.increment_pos rootSize
  rw [h.inUse, Nat.zero_add] at hallocate
  cases hroom : m.registers.room rootSize with
  | error cause =>
    rw [hroom] at hallocate
    rw [start, hallocate]
    exact .noRegisters hroom
  | ok capacity =>
    rw [hroom] at hallocate
    have hframes : (m.extend capacity rootSize).frames.Holds [] := h.frames
    rw [start, hallocate]
    simp only [hframes.pushRoot]
    by_cases hfull : m.frames.limit.any (· ≤ 0) = true
    · rw [hframes.push_full hfull]
      exact .noFrames hroom hfull
    · have hfree := Bool.eq_false_iff.2 hfull
      obtain ⟨frames, hpush, hholds, hlimit⟩ :=
        hframes.push (f := rootFrame rootSize) rfl hfree
      rw [show (⟨⟨0, rootSize⟩, none⟩ : Frame) = rootFrame rootSize from rfl, hpush]
      exact .opened hroom hfree hholds hlimit

/-- An opened root frame is alone at the first fetch. -/
theorem Resting.live_of_start (h : m.Resting) (hroot : 0 < rootSize) {entry : Nat}
    (hstart : m.start entry rootSize = (.ok (), n)) :
    n.Live rootSize [rootFrame rootSize] ∧ n.environment = m.environment ∧
      n.poisoned = m.poisoned := by
  have hopening := h.opening entry rootSize
  rw [hstart] at hopening
  cases hopening with
  | opened hroom hfree hframes hlimit =>
    refine ⟨⟨hframes, ?_, .root hroot, ?_, ?_⟩, m.environment_of_limit hlimit, rfl⟩
    · exact h.fits.extend (by rwa [h.inUse, Nat.zero_add])
    · change m.registers.inUse + rootSize = 0 + rootSize
      rw [h.inUse]
    · intro l hl
      exact lt_of_limit hfree (hlimit ▸ hl)

/-! ### Executions -/

/-- The machine with fresh counters. -/
def fresh (m : Machine) : Machine := { m with stats := {} }

/-- Fresh counters leave a machine at rest. -/
theorem Resting.fresh (h : m.Resting) : m.fresh.Resting := ⟨h.frames, h.fits, h.inUse⟩

/-- The machine after an exhaustion. -/
def abandoned (m : Machine) (frames : CallStack) : Machine :=
  { m with frames, registers := m.registers.releaseAll, poisoned := true }

/-- How an execution of a resting machine can go. -/
inductive Execution (m : Machine) (entry rootSize : Nat) : Except Stop Word × Machine → Prop
  /-- There is no room for the root frame. -/
  | refused {cause : Exhaustion} {e : Machine} {frames : CallStack}
      (hstart : m.fresh.start entry rootSize = (.error (.exhausted cause), e))
      (hframes : frames.Holds []) (hlimit : frames.limit = e.frames.limit) :
      Execution m entry rootSize (.error (.exhausted cause), e.abandoned frames)
  /-- The root returns. -/
  | finished {s n e : Machine} {result : Word}
      (hstart : m.fresh.start entry rootSize = (.ok (), s)) (hreaches : Reaches s n)
      (hstep : n.step = .finished result e) :
      Execution m entry rootSize (.ok result, e)
  /-- A rule of use is broken. -/
  | faulted {s n e : Machine} {fault : Fault}
      (hstart : m.fresh.start entry rootSize = (.ok (), s)) (hreaches : Reaches s n)
      (hstep : n.step = .stopped (.fault fault) e) :
      Execution m entry rootSize (.error (.fault fault), e)
  /-- There is no room for a callee. -/
  | exhausted {s n e : Machine} {cause : Exhaustion} {frames : CallStack}
      (hstart : m.fresh.start entry rootSize = (.ok (), s)) (hreaches : Reaches s n)
      (hstep : n.step = .stopped (.exhausted cause) e)
      (hframes : frames.Holds []) (hlimit : frames.limit = e.frames.limit) :
      Execution m entry rootSize (.error (.exhausted cause), e.abandoned frames)

/-- An exhaustion destroys every frame. -/
theorem settle_exhausted (h : m.frames.Holds fs) (cause : Exhaustion) :
    ∃ frames : CallStack, frames.Holds [] ∧ frames.limit = m.frames.limit ∧
      settle (.error (.exhausted cause), m) = (.error (.exhausted cause), m.abandoned frames) := by
  obtain ⟨frames, hunwind, hholds, hlimit⟩ := h.unwind
  refine ⟨frames, hholds, hlimit, ?_⟩
  rw [settle, abandon, hunwind]
  rfl

/-- A machine that does not refuse is neither poisoned nor stranded. -/
theorem refusal?_eq_none_iff {m : Machine} {rootSize : Nat} :
    m.refusal? rootSize = none ↔ m.poisoned = false ∧ 0 < rootSize ∧ m.frames.live = 0 := by
  unfold refusal?
  cases m.poisoned with
  | true => simp
  | false =>
    by_cases hroot : rootSize = 0
    · simp [hroot]
    · by_cases hlive : m.frames.live = 0
      · simp [hroot, hlive, Nat.pos_of_ne_zero]
      · simp [hroot, hlive]

/-- A machine that can execute: not poisoned, and with no frame live. -/
structure Idle (m : Machine) : Prop where
  not_poisoned : m.poisoned = false
  live_eq : m.frames.live = 0

theorem Idle.refusal? (h : m.Idle) (hroot : 0 < rootSize) : m.refusal? rootSize = none :=
  refusal?_eq_none_iff.2 ⟨h.not_poisoned, hroot, h.live_eq⟩

/-- A machine that refuses stays as it is. -/
theorem execute_of_refusal {fault : Fault} (h : m.refusal? rootSize = some fault) (entry : Nat) :
    m.execute entry rootSize = (.error (.fault fault), m) := by
  rw [execute, h]

/-- An execution that does not fault was not refused. -/
theorem refusal?_of_execute {entry : Nat} {outcome : Except Stop Word}
    (h : m.execute entry rootSize = (outcome, n))
    (hfault : ∀ fault, outcome ≠ .error (.fault fault)) : m.refusal? rootSize = none := by
  cases hrefusal : m.refusal? rootSize with
  | none => rfl
  | some fault =>
    rw [execute_of_refusal hrefusal] at h
    exact absurd (Prod.mk.inj h).1.symm (hfault fault)

/-- A machine that does not refuse makes an attempt. -/
theorem execute_eq_settle_attempt (hrefusal : m.refusal? rootSize = none) (entry : Nat) :
    m.execute entry rootSize = settle (m.fresh.attempt entry rootSize) := by
  rw [execute, hrefusal]
  rfl

/-- **The executions of a resting machine** are those of the list. -/
theorem Resting.execution (h : m.Resting) (hrefusal : m.refusal? rootSize = none) (entry : Nat) :
    m.Execution entry rootSize (m.execute entry rootSize) := by
  have hroot := (refusal?_eq_none_iff.1 hrefusal).2.1
  have hfresh := h.fresh
  rw [execute_eq_settle_attempt hrefusal, attempt]
  have hopening := hfresh.opening entry rootSize
  generalize hstart : m.fresh.start entry rootSize = started at hopening
  cases hopening with
  | noRegisters =>
    obtain ⟨frames, hholds, hlimit, hsettle⟩ := settle_exhausted hfresh.frames _
    exact hsettle ▸ .refused hstart hholds hlimit
  | @noFrames capacity hroom =>
    have hframes : (m.fresh.extend capacity rootSize).frames.Holds [] := hfresh.frames
    obtain ⟨frames, hholds, hlimit, hsettle⟩ := settle_exhausted hframes (.frames 0)
    exact hsettle ▸ .refused hstart hholds hlimit
  | @opened capacity frames =>
    have hlive := (hfresh.live_of_start hroot hstart).1
    obtain ⟨last, hr, ⟨result, e, hstep, hrun⟩ | ⟨stop, e, hstep, hrun⟩⟩ :=
      exists_last_fetch ((m.fresh.extend capacity rootSize).entering frames entry)
    · simp only [hrun]
      exact .finished hstart hr hstep
    · simp only [hrun]
      obtain ⟨gs, hlast⟩ := hlive.of_reaches hr
      cases stop with
      | fault fault => exact .faulted hstart hr hstep
      | exhausted cause =>
        obtain ⟨frames, hholds, hlimit, hsettle⟩ :=
          settle_exhausted (hlast.of_exhausted hstep).1 cause
        exact hsettle ▸ .exhausted hstart hr hstep hholds hlimit

/-- An execution that gets to a fetch goes on as a run from there. -/
theorem execute_eq_settle {s : Machine} {entry : Nat} (hrefusal : m.refusal? rootSize = none)
    (hstart : m.fresh.start entry rootSize = (.ok (), s)) (hreaches : Reaches s n) :
    m.execute entry rootSize = settle n.run := by
  have hattempt : m.fresh.attempt entry rootSize = n.run := by
    rw [attempt, hstart]
    exact run_eq_of_reaches hreaches
  rw [execute_eq_settle_attempt hrefusal, hattempt]

/-- What can be seen of a run that ends within `k` steps. -/
theorem run_of_runWithin {α : Type} {k : Nat} {f : Except Stop Word × Machine → α} {x : α}
    (h : (m.runWithin k).map f = some x) : f m.run = x := by
  obtain ⟨e, he, rfl⟩ := Option.map_eq_some_iff.1 h
  rw [run_eq_of_runWithin he]

/-- What can be seen of an execution whose run ends within `k` steps. -/
theorem execute_of_runWithin {α : Type} {entry k : Nat} {f : Except Stop Word × Machine → α} {x : α}
    (hrefusal : m.refusal? rootSize = none) (hstart : (m.fresh.start entry rootSize).1 = .ok ())
    (hrun : ((m.fresh.start entry rootSize).2.runWithin k).map (fun e => f (settle e)) = some x) :
    f (m.execute entry rootSize) = x := by
  rw [execute_eq_settle hrefusal (Prod.ext hstart rfl) .refl]
  exact run_of_runWithin hrun

/-- An execution that gets to a fetch whose step faults ends there. -/
theorem execute_of_fault {s e : Machine} {entry : Nat} {fault : Fault}
    (hrefusal : m.refusal? rootSize = none) (hstart : m.fresh.start entry rootSize = (.ok (), s))
    (hreaches : Reaches s n) (hstep : n.step = .stopped (.fault fault) e) :
    m.execute entry rootSize = (.error (.fault fault), e) := by
  rw [execute_eq_settle hrefusal hstart hreaches, run_of_stopped hstep]
  rfl

/-- An execution that returns is the run of a root frame that returns. -/
theorem Resting.run_of_execute (h : m.Resting) {entry : Nat} {result : Word} {e : Machine}
    (hexecute : m.execute entry rootSize = (.ok result, e)) :
    m.refusal? rootSize = none ∧
      ∃ s, m.fresh.start entry rootSize = (.ok (), s) ∧ s.run = (.ok result, e) := by
  have hrefusal := refusal?_of_execute hexecute (by simp)
  have hexecution := h.execution hrefusal entry
  rw [hexecute] at hexecution
  cases hexecution with
  | finished hstart hreaches hstep =>
    exact ⟨hrefusal, _, hstart, (run_eq_of_reaches hreaches).trans (run_of_finished hstep)⟩

/-- A root frame that is refused leaves a register file that fits. -/
theorem Resting.of_refused (h : m.Resting) {entry : Nat} {stop : Stop}
    (hstart : m.start entry rootSize = (.error stop, n)) :
    n.registers.Fits ∧ n.environment = m.environment := by
  have hopening := h.opening entry rootSize
  rw [hstart] at hopening
  cases hopening with
  | noRegisters => exact ⟨h.fits, rfl⟩
  | noFrames hroom => exact ⟨h.fits.extend (by rwa [h.inUse, Nat.zero_add]), rfl⟩

theorem abandoned_resting {frames : CallStack} (hframes : frames.Holds [])
    (hfits : m.registers.Fits) : (m.abandoned frames).Resting :=
  ⟨hframes, hfits.shrink (Nat.zero_le _), rfl⟩

theorem abandoned_environment {frames : CallStack} (hlimit : frames.limit = m.frames.limit) :
    (m.abandoned frames).environment = m.environment :=
  m.environment_of_limit hlimit

/-- A fetch of an execution of a resting machine. -/
theorem Resting.live_of_fetch (h : m.Resting) (hroot : 0 < rootSize) {entry : Nat} {s : Machine}
    (hstart : m.fresh.start entry rootSize = (.ok (), s)) (hreaches : Reaches s n) :
    (∃ fs, n.Live rootSize fs) ∧ n.environment = m.environment ∧ n.poisoned = m.poisoned := by
  obtain ⟨hlive, henvironment, hmark⟩ := h.fresh.live_of_start hroot hstart
  obtain ⟨henv, hmarked⟩ := hlive.environment_of_reaches hreaches
  exact ⟨hlive.of_reaches hreaches, henv.trans henvironment, hmarked.trans hmark⟩

/-- **An execution ends at rest or stranded,** and at rest also when room ran out. -/
theorem Resting.execution_phase (h : m.Resting) (hrefusal : m.refusal? rootSize = none)
    {entry : Nat} {e : Except Stop Word × Machine} (hexecution : m.Execution entry rootSize e) :
    e.2.environment = m.environment ∧
      (e.2.Resting ∨ e.2.poisoned = false ∧ ∃ fs, e.2.Live rootSize fs) := by
  obtain ⟨hpoisoned, hroot, -⟩ := refusal?_eq_none_iff.1 hrefusal
  cases hexecution with
  | refused hstart hframes hlimit =>
    obtain ⟨hfits, henvironment⟩ := h.fresh.of_refused hstart
    exact ⟨(abandoned_environment hlimit).trans henvironment,
      Or.inl (abandoned_resting hframes hfits)⟩
  | finished hstart hreaches hstep =>
    obtain ⟨⟨gs, hlast⟩, henvironment, -⟩ := h.live_of_fetch hroot hstart hreaches
    exact ⟨(hlast.environment_eq hstep).1.trans henvironment, Or.inl (hlast.of_finished hstep)⟩
  | faulted hstart hreaches hstep =>
    obtain ⟨⟨gs, hlast⟩, henvironment, hmark⟩ := h.live_of_fetch hroot hstart hreaches
    have hkept := hlast.environment_eq hstep
    refine ⟨hkept.1.trans henvironment, Or.inr ⟨?_, gs, hlast.of_fault hstep⟩⟩
    exact hkept.2.trans (hmark.trans hpoisoned)
  | exhausted hstart hreaches hstep hframes hlimit =>
    obtain ⟨⟨gs, hlast⟩, henvironment, -⟩ := h.live_of_fetch hroot hstart hreaches
    have hkept := hlast.environment_eq hstep
    exact ⟨(abandoned_environment hlimit).trans (hkept.1.trans henvironment),
      Or.inl (abandoned_resting hframes (hlast.of_exhausted hstep).2)⟩

/-! ### Reachable machines -/

/-- A new machine rests, and is not poisoned. -/
theorem resting_of_ofConfig {p : Program} {c : Config} (h : ofConfig p c = .ok m) :
    m.environment = .ofConfig p c ∧ m.Resting ∧ m.poisoned = false := by
  unfold ofConfig at h
  split at h
  · rename_i registers hregisters
    obtain rfl := Except.ok.inj h
    obtain ⟨hfits, hinUse⟩ := RegisterFile.fits_ofConfig hregisters
    obtain ⟨hincrement, hlimit⟩ := RegisterFile.limits_ofConfig hregisters
    refine ⟨?_, ⟨CallStack.Holds.empty _, hfits, hinUse⟩, rfl⟩
    simp only [environment, Environment.ofConfig, hincrement, hlimit, CallStack.empty]
  · simp at h

/-- The machines that a program and a configuration lead to. -/
inductive Reachable (p : Program) (c : Config) : Machine → Prop
  | new {m : Machine} (h : ofConfig p c = .ok m) : Reachable p c m
  | executed {m : Machine} (h : Reachable p c m) (entry rootSize : Nat) :
      Reachable p c (m.execute entry rootSize).2

namespace Reachable

variable {p : Program} {c : Config}

/-- **A reachable machine keeps its program and limits, and rests or is stranded.** -/
theorem resting_or_live (h : Reachable p c m) :
    m.environment = .ofConfig p c ∧
      (m.Resting ∨ m.poisoned = false ∧ ∃ rootSize fs, m.Live rootSize fs) := by
  induction h with
  | new h =>
    obtain ⟨henvironment, hresting, -⟩ := resting_of_ofConfig h
    exact ⟨henvironment, Or.inl hresting⟩
  | @executed m h entry rootSize ih =>
    obtain ⟨henvironment, hphase⟩ := ih
    cases hrefusal : m.refusal? rootSize with
    | some fault =>
      rw [execute, hrefusal]
      exact ⟨henvironment, hphase⟩
    | none =>
      obtain ⟨-, -, hlive⟩ := refusal?_eq_none_iff.1 hrefusal
      rcases hphase with hresting | ⟨-, r, fs, hstranded⟩
      · obtain ⟨henv, hnext⟩ := hresting.execution_phase hrefusal
          (hresting.execution hrefusal entry)
        refine ⟨henv.trans henvironment, hnext.imp_right ?_⟩
        rintro ⟨hmark, fs, hfs⟩
        exact ⟨hmark, rootSize, fs, hfs⟩
      · exact absurd hlive hstranded.live_ne_zero

/-- A reachable machine that does not refuse rests. -/
theorem resting_of_refusal (h : Reachable p c m) (hrefusal : m.refusal? rootSize = none) :
    m.Resting := by
  obtain ⟨-, -, hlive⟩ := refusal?_eq_none_iff.1 hrefusal
  rcases h.resting_or_live.2 with hresting | ⟨-, r, fs, hstranded⟩
  · exact hresting
  · exact absurd hlive hstranded.live_ne_zero

/-- The first fetch of an execution of a reachable machine. -/
theorem live_of_start {s : Machine} {entry : Nat} (h : Reachable p c m)
    (hrefusal : m.refusal? rootSize = none)
    (hstart : m.fresh.start entry rootSize = (.ok (), s)) :
    s.Live rootSize [rootFrame rootSize] ∧ s.environment = .ofConfig p c := by
  have hresting := h.resting_of_refusal hrefusal
  obtain ⟨hlive, henvironment, -⟩ :=
    hresting.fresh.live_of_start (refusal?_eq_none_iff.1 hrefusal).2.1 hstart
  exact ⟨hlive, henvironment.trans h.resting_or_live.1⟩

end Reachable
end Machine
end WindowVM
