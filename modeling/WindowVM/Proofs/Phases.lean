/-
# The phases of a machine

Between executions a machine is in one of three phases.  It is idle, and can execute; it
is poisoned, after an exhaustion that destroyed all its frames; or it is stranded, with the
frames that a fault left live.  `Reachable.phases` says that every reachable machine is in
exactly one of them, and where an execution leads from each: an idle machine stays idle
when the root returns, and the other two phases are never left.

`RunsOut` is the moment at which room runs out, before the frames are destroyed.
-/

import Mathlib.Logic.ExistsUnique
import Mathlib.Order.Basic
import WindowVM.Proofs.Lifecycle

namespace WindowVM

/-- What a machine can be between executions. -/
inductive Phase where
  /-- It can execute. -/
  | idle
  /-- It ran out of room. -/
  | poisoned
  /-- A fault left its frames live. -/
  | stranded
  deriving DecidableEq, Repr

namespace Machine

variable {p : Program} {c : Config} {m n : Machine} {entry rootSize : Nat} {fs : List Frame}

/-- No frame is live and no register in use. -/
structure Vacant (m : Machine) : Prop where
  live_eq : m.frames.live = 0
  current_eq : m.frames.current = none
  inUse_eq : m.registers.inUse = 0

/-- The registers in use end with the window of the current frame, and there is one. -/
structure Stranded (m : Machine) : Prop where
  live_pos : 1 ≤ m.frames.live
  inUse_eq : ∃ f, m.frames.currentFrame? = some f ∧
    m.registers.inUse = f.window.base + f.window.len
  inUse_pos : 0 < m.registers.inUse

/-- The machine is in a phase. -/
def InPhase (m : Machine) : Phase → Prop
  | .idle => m.poisoned = false ∧ m.Vacant
  | .poisoned => m.poisoned = true ∧ m.Vacant
  | .stranded => m.poisoned = false ∧ m.Stranded

/-- A machine is in one phase at the most. -/
theorem InPhase.eq {φ ψ : Phase} (h : m.InPhase φ) (h' : m.InPhase ψ) : φ = ψ := by
  have hmark : m.poisoned = true → m.poisoned = false → False := by simp_all
  have hlive : m.Vacant → m.Stranded → False := by
    intro hvacant hstranded
    have hzero := hvacant.live_eq
    have hpos := hstranded.live_pos
    omega
  cases φ <;> cases ψ
  case idle.idle => rfl
  case poisoned.poisoned => rfl
  case stranded.stranded => rfl
  case idle.poisoned => exact (hmark h'.1 h.1).elim
  case poisoned.idle => exact (hmark h.1 h'.1).elim
  case idle.stranded => exact (hlive h.2 h'.2).elim
  case stranded.idle => exact (hlive h'.2 h.2).elim
  case poisoned.stranded => exact (hmark h.1 h'.1).elim
  case stranded.poisoned => exact (hmark h'.1 h.1).elim

theorem Resting.vacant (h : m.Resting) : m.Vacant :=
  ⟨h.frames.live, h.frames.current, h.inUse⟩

/-- A machine that rests is idle or poisoned. -/
theorem Resting.inPhase (h : m.Resting) : m.InPhase (if m.poisoned then .poisoned else .idle) := by
  cases hmark : m.poisoned with
  | false => exact ⟨hmark, h.vacant⟩
  | true => exact ⟨hmark, h.vacant⟩

theorem Live.stranded (h : m.Live rootSize fs) : m.Stranded := by
  obtain ⟨f, fs, rfl⟩ := List.exists_cons_of_ne_nil h.nested.ne_nil
  have hinUse : m.registers.inUse = f.window.base + f.window.len := h.inUse
  have hlen := h.nested.len_pos
  refine ⟨Nat.one_le_iff_ne_zero.2 h.live_ne_zero, ⟨f, h.currentFrame?, hinUse⟩, ?_⟩
  omega

/-- The machine `e` is what an execution of `m` comes to when room runs out. -/
inductive RunsOut (m : Machine) (entry rootSize : Nat) (cause : Exhaustion) (e : Machine) : Prop
  /-- There is no room for the root frame. -/
  | root (hstart : m.fresh.start entry rootSize = (.error (.exhausted cause), e))
  /-- There is no room for a callee. -/
  | callee {s n : Machine} (hstart : m.fresh.start entry rootSize = (.ok (), s))
      (hreaches : Reaches s n) (hstep : n.step = .stopped (.exhausted cause) e)

/-! ### Executions of an idle machine -/

/-- The return of the root leaves the machine idle. -/
theorem Resting.idle_of_ok (h : m.Resting) {v : Word}
    (hexecute : m.execute entry rootSize = (.ok v, n)) : n.InPhase .idle := by
  have hrefusal := refusal?_of_execute hexecute (by simp)
  obtain ⟨hmark, hroot, -⟩ := refusal?_eq_none_iff.1 hrefusal
  have hexecution := h.execution hrefusal entry
  rw [hexecute] at hexecution
  cases hexecution with
  | finished hstart hreaches hstep =>
    obtain ⟨⟨gs, hlast⟩, -, hkept⟩ := h.live_of_fetch hroot hstart hreaches
    refine ⟨?_, (hlast.of_finished hstep).vacant⟩
    exact (hlast.environment_eq hstep).2.trans (hkept.trans hmark)

/-- A fault in an execution leaves the machine stranded. -/
theorem Resting.stranded_of_fault (h : m.Resting) (hrefusal : m.refusal? rootSize = none)
    {fault : Fault} (hexecute : m.execute entry rootSize = (.error (.fault fault), n)) :
    n.InPhase .stranded := by
  obtain ⟨hmark, hroot, -⟩ := refusal?_eq_none_iff.1 hrefusal
  have hexecution := h.execution hrefusal entry
  rw [hexecute] at hexecution
  cases hexecution with
  | faulted hstart hreaches hstep =>
    obtain ⟨⟨gs, hlast⟩, -, hkept⟩ := h.live_of_fetch hroot hstart hreaches
    refine ⟨?_, (hlast.of_fault hstep).stranded⟩
    exact (hlast.environment_eq hstep).2.trans (hkept.trans hmark)

/-- **An exhaustion destroys every frame and keeps every register.** -/
theorem Resting.poisoned_of_exhausted (h : m.Resting) {cause : Exhaustion}
    (hexecute : m.execute entry rootSize = (.error (.exhausted cause), n)) :
    n.InPhase .poisoned ∧ (∀ slot, n.frames.get? slot = none) ∧
      ∃ e, m.RunsOut entry rootSize cause e ∧ n.registers.words = e.registers.words := by
  have hrefusal := refusal?_of_execute hexecute (by simp)
  obtain ⟨-, hroot, -⟩ := refusal?_eq_none_iff.1 hrefusal
  have hexecution := h.execution hrefusal entry
  rw [hexecute] at hexecution
  cases hexecution with
  | refused hstart hframes =>
    have hresting := abandoned_resting hframes (h.fresh.of_refused hstart).1
    refine ⟨⟨rfl, hresting.vacant⟩, ?_, _, .root hstart, rfl⟩
    exact fun slot => hframes.get?_of_le (Nat.zero_le slot)
  | exhausted hstart hreaches hstep hframes =>
    obtain ⟨⟨gs, hlast⟩, -, -⟩ := h.live_of_fetch hroot hstart hreaches
    have hresting := abandoned_resting hframes (hlast.of_exhausted hstep).2
    refine ⟨⟨rfl, hresting.vacant⟩, ?_, _, .callee hstart hreaches hstep, rfl⟩
    exact fun slot => hframes.get?_of_le (Nat.zero_le slot)

/-! ### Phases that are never left -/

/-- A machine that is not idle refuses. -/
theorem InPhase.exists_refusal {φ : Phase} (h : m.InPhase φ) (hφ : φ ≠ .idle) (rootSize : Nat) :
    ∃ fault, m.refusal? rootSize = some fault := by
  refine Option.ne_none_iff_exists'.1 ?_
  intro hnone
  obtain ⟨hmark, -, hlive⟩ := refusal?_eq_none_iff.1 hnone
  cases φ with
  | idle => exact hφ rfl
  | poisoned => simp [h.1] at hmark
  | stranded =>
    have hpos := h.2.live_pos
    omega

/-- **A machine that is not idle stays as it is,** and every execution of it is refused. -/
theorem InPhase.executeAll_eq {φ : Phase} (h : m.InPhase φ) (hφ : φ ≠ .idle)
    (runs : List (Nat × Nat)) :
    (m.executeAll runs).2 = m ∧
      ∀ outcome ∈ (m.executeAll runs).1, ∃ fault, outcome = .error (.fault fault) := by
  induction runs with
  | nil => exact ⟨rfl, fun outcome hmem => absurd hmem List.not_mem_nil⟩
  | cons run runs ih =>
    obtain ⟨fault, hrefusal⟩ := h.exists_refusal hφ run.2
    simp only [executeAll, execute_of_refusal hrefusal]
    refine ⟨ih.1, ?_⟩
    intro outcome hmem
    rcases List.mem_cons.1 hmem with rfl | hmem
    · exact ⟨fault, rfl⟩
    · exact ih.2 outcome hmem

namespace Reachable

/-- A reachable machine is in some phase. -/
theorem exists_inPhase (h : Reachable p c m) : ∃ φ, m.InPhase φ := by
  rcases h.resting_or_live.2 with hresting | ⟨hmark, r, fs, hlive⟩
  · exact ⟨_, hresting.inPhase⟩
  · exact ⟨.stranded, hmark, hlive.stranded⟩

/-- **Every machine is in exactly one phase,** and each execution leads from phase to phase:
from idle, a return leads to idle, an exhaustion to poisoned and a fault to stranded.  The
exhaustion destroys every frame, at whatever depth and whether the registers or the frames
ran out, and keeps the registers of that moment.  A root window without registers is refused,
and a machine that is poisoned or stranded refuses everything and stays as it is. -/
theorem phases (h : Reachable p c m) :
    (∃! φ, m.InPhase φ) ∧
      (m.InPhase .idle → ∀ entry,
        m.execute entry 0 = (.error (.fault .emptyRootWindow), m) ∧
        ∀ rootSize n,
          (∀ v, m.execute entry rootSize = (.ok v, n) → n.InPhase .idle) ∧
          (∀ cause, m.execute entry rootSize = (.error (.exhausted cause), n) →
            n.InPhase .poisoned ∧ (∀ slot, n.frames.get? slot = none) ∧
              ∃ e, m.RunsOut entry rootSize cause e ∧
                n.registers.capacity = e.registers.capacity ∧
                n.registers.words = e.registers.words) ∧
          ∀ fault, 0 < rootSize → m.execute entry rootSize = (.error (.fault fault), n) →
            n.InPhase .stranded) ∧
      (m.InPhase .poisoned ∨ m.InPhase .stranded → ∀ runs,
        (m.executeAll runs).2 = m ∧
          ∀ outcome ∈ (m.executeAll runs).1, ∃ fault, outcome = .error (.fault fault)) := by
  refine ⟨?_, ?_, ?_⟩
  · obtain ⟨φ, hφ⟩ := h.exists_inPhase
    exact ⟨φ, hφ, fun ψ hψ => hψ.eq hφ⟩
  · rintro ⟨hmark, hvacant⟩ entry
    have hempty : m.refusal? 0 = some .emptyRootWindow := by simp [refusal?, hmark]
    refine ⟨execute_of_refusal hempty entry, ?_⟩
    intro rootSize n
    have hrefusal {rootSize : Nat} (hroot : 0 < rootSize) : m.refusal? rootSize = none :=
      refusal?_eq_none_iff.2 ⟨hmark, hroot, hvacant.live_eq⟩
    have hresting : m.Resting := h.resting_of_refusal (hrefusal Nat.one_pos)
    refine ⟨fun v hexecute => hresting.idle_of_ok hexecute, ?_, ?_⟩
    · intro cause hexecute
      obtain ⟨hpoisoned, hslots, e, hrunsOut, hwords⟩ := hresting.poisoned_of_exhausted hexecute
      exact ⟨hpoisoned, hslots, e, hrunsOut, congrArg Array.size hwords, hwords⟩
    · intro fault hroot hexecute
      exact hresting.stranded_of_fault (hrefusal hroot) hexecute
  · rintro (hphase | hphase) runs
    · exact hphase.executeAll_eq (by decide) runs
    · exact hphase.executeAll_eq (by decide) runs

/-- The hypotheses are satisfiable: a program that calls itself runs out of registers two
frames deep, and its machine is poisoned for good. -/
theorem phases_of_selfCall :
    ∃ m n, Reachable ⟨#[.call 0 1 0], by decide⟩
        { initialRegisters := 1, growthIncrement := 1, maxRegisters := some 2 } m ∧
      m.InPhase .idle ∧ m.execute 0 1 = (.error (.exhausted (.registers 3)), n) ∧
        n.InPhase .poisoned ∧ (n.executeAll [(0, 1), (0, 0)]).2 = n := by
  obtain ⟨m, hm, hidle, hexecute⟩ : ∃ m, ofConfig ⟨#[.call 0 1 0], by decide⟩
      { initialRegisters := 1, growthIncrement := 1, maxRegisters := some 2 } = .ok m ∧
      m.InPhase .idle ∧ (m.execute 0 1).1 = .error (.exhausted (.registers 3)) :=
    ⟨_, rfl, ⟨rfl, rfl, rfl, rfl⟩,
      execute_of_runWithin (k := 2) (f := Prod.fst) rfl rfl (by decide +kernel)⟩
  have hreachable := Reachable.new hm
  have hexecute : m.execute 0 1 = (.error (.exhausted (.registers 3)), (m.execute 0 1).2) :=
    Prod.ext hexecute rfl
  obtain ⟨hpoisoned, -⟩ := ((hreachable.phases.2.1 hidle 0).2 1 _).2.1 _ hexecute
  obtain ⟨hkept, -⟩ := (hreachable.executed 0 1).phases.2.2 (Or.inl hpoisoned) [(0, 1), (0, 0)]
  exact ⟨m, _, hreachable, hidle, hexecute, hpoisoned, hkept⟩

end Reachable
end Machine
end WindowVM
