/-
# Segments of a run

`Walk P k m n` says that a machine takes `k` steps from one fetch to another, all of them
from fetches with the property `P`.  What matters of such a segment is often how deep it
goes: as long as more frames are live than the `below` of a callee, the callee is live, and
so is everything it was called from.  `Live.of_walk` is this, and how it ends: the first
fetch with no more frames than `below` is the one that the callee returns to.
-/

import WindowVM.Proofs.Lifecycle

namespace WindowVM
namespace Machine

/-- The machine takes `k` steps from one fetch to another, each from a fetch with the
property `P`. -/
inductive Walk (P : Machine → Prop) : Nat → Machine → Machine → Prop
  | refl (m : Machine) : Walk P 0 m m
  | tail {k : Nat} {m n o : Machine} (h : Walk P k m n) (hn : P n) (hstep : n.step = .running o) :
      Walk P (k + 1) m o

variable {P : Machine → Prop} {m n : Machine} {rootSize k : Nat} {f callee : Frame}
  {fs below : List Frame}

theorem Walk.reaches (h : Walk P k m n) : Reaches m n := by
  induction h with
  | refl => exact .refl
  | tail _ _ hstep ih => exact ih.tail hstep

/-- A walk goes where the program and the limits stay the same. -/
theorem Live.program_of_walk (h : m.Live rootSize fs) (hwalk : Walk P k m n) :
    n.program = m.program :=
  congrArg Environment.program (h.environment_of_reaches hwalk.reaches).1

/-- No step takes registers from the file. -/
theorem Live.capacity_le (h : m.Live rootSize fs) (hstep : m.step = .running n) :
    m.registers.capacity ≤ n.registers.capacity := by
  obtain ⟨f, fs, rfl, htransition⟩ := h.exists_transition hstep
  cases htransition with
  | wrote => exact Nat.le_of_eq (RegisterFile.capacity_write ..).symm
  | entered _ _ _ hroom =>
    have hle := (growthRule_eq_ok h.fits.increment_pos hroom).1
    exact Nat.le_trans hle (Nat.le_of_eq (RegisterFile.capacity_extend hle).symm)
  | returned => exact Nat.le_of_eq (RegisterFile.capacity_write ..).symm

theorem Live.capacity_le_of_reaches (h : m.Live rootSize fs) (hr : Reaches m n) :
    m.registers.capacity ≤ n.registers.capacity := by
  induction hr with
  | refl => exact Nat.le_refl _
  | tail hr hstep ih =>
    obtain ⟨gs, hlive⟩ := h.of_reaches hr
    exact Nat.le_trans ih (hlive.capacity_le hstep)

/-- A `call` that goes on is in its callee. -/
theorem Live.of_call (h : m.Live rootSize (f :: fs)) {target frameSize destination : Word}
    (hfetch : m.program.get? m.pc = some (.call target frameSize destination))
    (hstep : m.step = .running n) :
    n.Live rootSize (calleeFrame f fs m.pc frameSize destination :: f :: fs) := by
  have hrunning : ∀ stop e, m.step ≠ .stopped stop e := by simp [hstep]
  obtain ⟨capacity, frames, hdestination, hsize, hroom, hfree, hframes, hlimit, hn⟩ :=
    h.transition.of_call hfetch hrunning
  obtain rfl := Progress.running.inj (hstep.symm.trans hn)
  exact h.entering hfetch hdestination hsize hroom hfree hframes hlimit _

/-- **A frame is left only by its own return:** a step with a callee and the frames `below`
it live keeps them all live, or it is the return of the callee. -/
theorem Live.keeps_or_returns (h : m.Live rootSize fs) (hsuffix : callee :: below <:+ fs)
    (hstep : m.step = .running n) :
    (∃ gs, n.Live rootSize gs ∧ callee :: below <:+ gs) ∨
      fs = callee :: below ∧ m.program.get? m.pc = some .ret ∧ n.Live rootSize below := by
  obtain ⟨f, fs, rfl, htransition⟩ := h.exists_transition hstep
  cases htransition with
  | wrote => exact Or.inl ⟨_, (h.counted _).writing .., hsuffix⟩
  | entered hfetch hdestination hsize hroom hfree hframes hlimit =>
    refine Or.inl ⟨_, h.entering hfetch hdestination hsize hroom hfree hframes hlimit _, ?_⟩
    exact hsuffix.trans (List.suffix_cons _ _)
  | returned hfetch hlink hframes hlimit =>
    have hnext := (h.leaving (h.nested.destination_lt hlink).1 hframes hlimit .ret).writing
    rcases List.suffix_cons_iff.1 hsuffix with heq | hsuffix
    · obtain ⟨rfl, rfl⟩ := List.cons.inj heq
      exact Or.inr ⟨rfl, hfetch, hnext ..⟩
    · exact Or.inl ⟨_, hnext .., hsuffix⟩

/-- **A walk above the frames `below` a callee stays in the callee,** or in frames it called,
and ends in it or with its return. -/
theorem Live.of_walk (h : m.Live rootSize (callee :: below))
    (hP : ∀ a, P a → a.frames.live ≠ below.length) (hwalk : Walk P k m n) :
    (∃ gs, n.Live rootSize gs ∧ callee :: below <:+ gs) ∨
      ∃ j a, k = j + 1 ∧ Walk P j m a ∧ P a ∧ a.Live rootSize (callee :: below) ∧
        a.program.get? a.pc = some .ret ∧ a.step = .running n ∧ n.Live rootSize below := by
  induction hwalk with
  | refl => exact Or.inl ⟨_, h, List.suffix_refl _⟩
  | @tail j m a n hwalk ha hstep ih =>
    rcases ih h with ⟨gs, hlive, hsuffix⟩ | ⟨-, -, -, -, -, -, -, -, hback⟩
    · rcases hlive.keeps_or_returns hsuffix hstep with hkept | ⟨rfl, hfetch, hback⟩
      · exact Or.inl hkept
      · exact Or.inr ⟨j, a, rfl, hwalk, ha, hlive, hfetch, hstep, hback⟩
    · exact absurd hback.frames.live (hP a ha)

end Machine
end WindowVM
