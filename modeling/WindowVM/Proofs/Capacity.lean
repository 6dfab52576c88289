/-
# The capacities of a register file

A file grows by whole increments, and by the fewest that make room (`isLeast_steps`).  Two
things can keep it from that: the sum may have no 64 bits, and then it grows to just the
registers that are required; and a limit may cut the growth off.  After a cut the capacity is
the limit, and the file never grows again.

So the capacities that a file can come to are those above its first one by a multiple of the
increment, and the limit.  There is a third kind only where the increment leaves no room for a
second step below 2^64 (`Residue`).  `Reachable.allocate_exact` says exactly what an allocation
answers, for every file that operations lead to; the files of machines are among them
(`Machine.Reachable.registers_reachable`).
-/

import Mathlib.Data.Nat.ModEq
import Mathlib.Order.Bounds.Defs
import WindowVM.Proofs.Lockstep
import WindowVM.Proofs.Memory
import WindowVM.Proofs.Records

namespace WindowVM

/-! ### Steps of growth -/

section

variable {increment capacity required target initial : Nat} {limit : Option Nat}

/-- Rounding up takes as few steps as make room. -/
theorem isLeast_steps (hincrement : 0 < increment) (hlt : capacity < required) :
    IsLeast {k | required ≤ capacity + k * increment}
      ((required - capacity + increment - 1) / increment) := by
  constructor
  · change required ≤ capacity + (required - capacity + increment - 1) / increment * increment
    have hceil := le_ceil_mul hincrement (required - capacity)
    omega
  · intro k hk
    have hroom : required ≤ capacity + k * increment := hk
    refine Nat.lt_succ_iff.1 (Nat.div_lt_of_lt_mul ?_)
    rw [Nat.mul_succ, Nat.mul_comm increment k]
    omega

/-- What a growth aims for, in steps. -/
theorem nextCapacity_eq (increment capacity required : Nat) :
    let k := (required - capacity + increment - 1) / increment
    nextCapacity increment capacity required =
      if 2 ^ 64 ≤ capacity + k * increment ∨ 2 ^ 64 ≤ k * increment then required
      else capacity + k * increment := by
  simp only [nextCapacity]
  split
  · rw [if_neg (by omega)]
  · rw [if_pos (by omega)]

theorem nextCapacity_lt (hword : required < 2 ^ 64) :
    nextCapacity increment capacity required < 2 ^ 64 := by
  simp only [nextCapacity]
  split
  · assumption
  · exact hword

theorem capped_le_target (limit : Option Nat) (target : Nat) : capped limit target ≤ target := by
  cases limit with
  | none => exact Nat.le_refl _
  | some l => exact Nat.min_le_left ..

/-- What the rule of growth answers where the registers have 64-bit places, do not exist yet and
are not forbidden. -/
theorem growthRule_of_lt (hword : required < 2 ^ 64) (hlt : capacity < required)
    (hlimit : ∀ l ∈ limit, required ≤ l) :
    growthRule increment limit capacity required =
      if RegisterFile.unallocatable ≤ capped limit (nextCapacity increment capacity required) then
        .error (.registers (capped limit (nextCapacity increment capacity required)))
      else .ok (capped limit (nextCapacity increment capacity required)) := by
  have hallowed : limit.any (· < required) = false := by
    cases limit with
    | none => rfl
    | some l => exact decide_eq_false (Nat.not_lt.2 (hlimit l rfl))
  rw [growthRule, if_neg (Nat.not_le.2 hword), if_neg (Nat.not_le.2 hlt), hallowed]
  rfl

/-- What it answers where they are forbidden. -/
theorem growthRule_of_forbidden (hword : required < 2 ^ 64) (hlt : capacity < required)
    (hlimit : ∃ l ∈ limit, l < required) :
    growthRule increment limit capacity required = .error (.registers required) := by
  obtain ⟨l, hl, hforbidden⟩ := hlimit
  have hany : limit.any (· < required) = true :=
    (Option.any_eq_true ..).2 ⟨l, hl, decide_eq_true hforbidden⟩
  rw [growthRule, if_neg (Nat.not_le.2 hword), if_neg (Nat.not_le.2 hlt), if_pos hany]

/-- The capacity is above the first one by a multiple of the increment, or it is the limit, or
the increment leaves no room for a step from one capacity to another. -/
def Residue (increment : Nat) (limit : Option Nat) (initial capacity : Nat) : Prop :=
  capacity ≡ initial [MOD increment] ∨ capacity ∈ limit ∨ 2 ^ 64 - 2 ^ 59 < increment

/-- A step that has no 64 bits, from a capacity to one that can be allocated, is a large one. -/
theorem increment_large (hincrement : 0 < increment) (hlt : capacity < required)
    (halloc : required < RegisterFile.unallocatable)
    (hword : 2 ^ 64 ≤ capacity + (required - capacity + increment - 1) / increment * increment) :
    2 ^ 64 - 2 ^ 59 < increment := by
  have hdiv := Nat.div_mul_le_self (required - capacity + increment - 1) increment
  unfold RegisterFile.unallocatable at halloc
  omega

/-- **A growth keeps the residue of the capacity.** -/
theorem Residue.grow (h : Residue increment limit initial capacity)
    (hincrement : 0 < increment)
    (hgrown : growthRule increment limit capacity required = .ok target) :
    Residue increment limit initial target := by
  have hgrant := grant_growthRule increment limit capacity required
  rw [hgrown] at hgrant
  cases hgrant with
  | fits => exact h
  | grown hword hlt hlimit halloc =>
    rcases h with hmod | hat | hlarge
    · have hcut : capped limit (nextCapacity increment capacity required) =
          nextCapacity increment capacity required ∨
          capped limit (nextCapacity increment capacity required) ∈ limit := by
        cases limit with
        | none => exact Or.inl rfl
        | some l =>
          rcases Nat.le_total (nextCapacity increment capacity required) l with hle | hle
          · exact Or.inl (Nat.min_eq_left hle)
          · exact Or.inr (congrArg some (Nat.min_eq_right hle).symm)
      rcases hcut with hcut | hcut
      · rw [hcut] at halloc ⊢
        simp only [nextCapacity] at halloc ⊢
        split
        · exact Or.inl ((Nat.add_modEq_left_iff.2 (dvd_mul_left ..)).trans hmod)
        · rename_i hpast
          rw [if_neg hpast] at halloc
          exact Or.inr (Or.inr (increment_large hincrement hlt halloc (Nat.not_lt.1 hpast)))
      · exact Or.inr (Or.inl hcut)
    · -- A file that is at its limit has no more registers to give.
      exact absurd (hlimit capacity hat) (Nat.not_le.2 hlt)
    · exact Or.inr (Or.inr hlarge)

end

namespace RegisterFile

/-! ### The files that operations lead to -/

/-- The register files that operations lead to, from the one of a configuration. -/
inductive Reachable (c : Config) : RegisterFile → Prop
  | new {r : RegisterFile} (h : ofConfig c = .ok r) : Reachable c r
  | performed {r : RegisterFile} (h : Reachable c r) (op : Op) : Reachable c (r.perform op).2

/-- What the operations keep of a configuration. -/
structure Sized (c : Config) (r : RegisterFile) : Prop where
  fits : r.Fits
  increment_eq : r.increment = max c.growthIncrement.toNat 1
  limit_eq : r.limit = c.maxRegisters.map (·.toNat)
  residue : Residue r.increment r.limit c.initialRegisters.toNat r.capacity

variable {c : Config} {r s : RegisterFile} {len capacity : Nat}

theorem capacity_ofConfig (h : ofConfig c = .ok r) : r.capacity = c.initialRegisters.toNat := by
  rw [ofConfig_eq] at h
  split at h
  · cases h
  · obtain rfl := Except.ok.inj h
    simp [RegisterFile.capacity]

/-- **An operation keeps the size of the file to the configuration.** -/
theorem Outcome.sized {op : Op} {e : Except Stop Answer × RegisterFile} (h : r.Outcome op e)
    (hr : r.Sized c) : e.2.Sized c := by
  have hfits := (h.fits hr.fits).1
  cases h with
  | allocated hroom =>
    refine ⟨hfits, hr.increment_eq, hr.limit_eq, ?_⟩
    change Residue r.increment r.limit _ _
    rw [capacity_extend (growthRule_eq_ok hr.fits.increment_pos hroom).1]
    exact hr.residue.grow hr.fits.increment_pos hroom
  | written =>
    refine ⟨hfits, hr.increment_eq, hr.limit_eq, ?_⟩
    rw [capacity_write]
    exact hr.residue
  | updated =>
    refine ⟨hfits, hr.increment_eq, hr.limit_eq, ?_⟩
    rw [capacity_write]
    exact hr.residue
  | _ => exact ⟨hfits, hr.increment_eq, hr.limit_eq, hr.residue⟩

theorem Reachable.sized (h : Reachable c r) : r.Sized c := by
  induction h with
  | @new r h =>
    obtain ⟨hincrement, hlimit⟩ := limits_ofConfig h
    refine ⟨(fits_ofConfig h).1, hincrement, hlimit, Or.inl ?_⟩
    rw [capacity_ofConfig h]
  | performed _ op ih => exact (outcome ih.fits op).sized ih

/-- An allocation that is granted room hands out the next registers. -/
theorem exists_allocate (h : r.Fits) (hroom : r.room (r.inUse + len) = .ok capacity) :
    ∃ s, r.allocate len = (.ok ⟨r.inUse, len⟩, s) ∧ s.capacity = capacity := by
  refine ⟨r.extend capacity len, ?_, capacity_extend (growthRule_eq_ok h.increment_pos hroom).1⟩
  rw [allocate_eq h.increment_pos, hroom]

/-- An allocation that is not granted room is refused for the same cause. -/
theorem allocate_eq_error (h : r.Fits) {cause : Exhaustion}
    (hroom : r.room (r.inUse + len) = .error cause) :
    r.allocate len = (.error (.exhausted cause), r) := by
  rw [allocate_eq h.increment_pos, hroom]

/-- **Growth is exact.**  Of a file that any operations led to, `len` more registers are asked
for.  If that makes 2^64 or more in use, none are given, and the refusal names 2^64 - 1; if
they exist they are given, and the file stays as large as it is; if the limit forbids them the
refusal names the number required.  In all other cases the file grows by the least number of
increments that makes room, or to the number required where that has no 64 bits, but not past
the limit; and if this target is 2^59 or more, the refusal names it.  The capacity is therefore
congruent to the first one, or it is the limit, or the increment is above 2^64 - 2^59. -/
theorem Reachable.allocate_exact (h : Reachable c r) (len : Nat) :
    (r.increment = max c.growthIncrement.toNat 1 ∧ r.limit = c.maxRegisters.map (·.toNat)) ∧
    (2 ^ 64 ≤ r.inUse + len →
      r.allocate len = (.error (.exhausted (.registers (2 ^ 64 - 1))), r)) ∧
    (r.inUse + len ≤ r.capacity →
      ∃ s, r.allocate len = (.ok ⟨r.inUse, len⟩, s) ∧ s.capacity = r.capacity) ∧
    (r.capacity < r.inUse + len → r.inUse + len < 2 ^ 64 →
      (∃ l ∈ r.limit, l < r.inUse + len) →
      r.allocate len = (.error (.exhausted (.registers (r.inUse + len))), r)) ∧
    (r.capacity < r.inUse + len → r.inUse + len < 2 ^ 64 →
      (∀ l ∈ r.limit, r.inUse + len ≤ l) →
      ∃ k target, IsLeast {k | r.inUse + len ≤ r.capacity + k * r.increment} k ∧
        target = capped r.limit
          (if 2 ^ 64 ≤ r.capacity + k * r.increment ∨ 2 ^ 64 ≤ k * r.increment then r.inUse + len
          else r.capacity + k * r.increment) ∧
        r.inUse + len ≤ target ∧ target < 2 ^ 64 ∧
        (target < 2 ^ 59 →
          ∃ s, r.allocate len = (.ok ⟨r.inUse, len⟩, s) ∧ s.capacity = target) ∧
        (2 ^ 59 ≤ target →
          r.allocate len = (.error (.exhausted (.registers target)), r))) ∧
    (r.capacity ≡ c.initialRegisters.toNat [MOD r.increment] ∨ r.capacity ∈ r.limit ∨
      2 ^ 64 - 2 ^ 59 < r.increment) := by
  have hsized := h.sized
  have hfits := hsized.fits
  have hcapacity : r.capacity < 2 ^ 64 := Nat.lt_trans hfits.capacity_lt (by decide)
  refine ⟨⟨hsized.increment_eq, hsized.limit_eq⟩, ?_, ?_, ?_, ?_, hsized.residue⟩
  · intro hword
    exact allocate_eq_error hfits (if_pos hword)
  · intro hfit
    exact exists_allocate hfits (room_of_le hfit hcapacity)
  · intro hlt hword hlimit
    exact allocate_eq_error hfits (growthRule_of_forbidden hword hlt hlimit)
  · intro hlt hword hlimit
    have hroom : r.room (r.inUse + len) = _ := growthRule_of_lt hword hlt hlimit
    refine ⟨_, _, isLeast_steps hfits.increment_pos hlt, ?_,
      le_capped hlimit (le_nextCapacity hfits.increment_pos hlt),
      Nat.lt_of_le_of_lt (capped_le_target ..) (nextCapacity_lt hword), ?_, ?_⟩
    · rw [nextCapacity_eq]
    · intro halloc
      exact exists_allocate hfits (hroom.trans (if_neg (Nat.not_le.2 halloc)))
    · intro halloc
      exact allocate_eq_error hfits (hroom.trans (if_pos halloc))

/-- The hypotheses are satisfiable: a step of the increment has no 64 bits, and the file grows
to the two registers that are asked for. -/
theorem Reachable.allocate_exact_of_largeIncrement :
    ∃ r s, Reachable { initialRegisters := 1, growthIncrement := 18446744073709551615 } r ∧
      r.allocate 2 = (.ok ⟨0, 2⟩, s) ∧ s.capacity = 2 := by
  obtain ⟨r, hr, hcapacity, hinUse, hincrement, hlimit⟩ :
      ∃ r, ofConfig { initialRegisters := 1, growthIncrement := 18446744073709551615 } = .ok r ∧
        r.capacity = 1 ∧ r.inUse = 0 ∧ r.increment = 2 ^ 64 - 1 ∧ r.limit = none :=
    ⟨_, rfl, rfl, rfl, by decide, rfl⟩
  obtain ⟨-, -, -, -, hgrowth, -⟩ := (Reachable.new hr).allocate_exact 2
  rw [hcapacity, hinUse, hincrement, hlimit] at hgrowth
  obtain ⟨k, target, ⟨hroom, hleast⟩, htarget, -, -, hgranted, -⟩ :=
    hgrowth (by decide) (by decide) (by simp)
  have hsteps : k = 1 := by
    have hle : k ≤ 1 := hleast (show 0 + 2 ≤ 1 + 1 * (2 ^ 64 - 1) by decide)
    have hroom' : 0 + 2 ≤ 1 + k * (2 ^ 64 - 1) := hroom
    omega
  rw [hsteps, if_pos (Or.inl (by decide))] at htarget
  obtain rfl : target = 2 := htarget
  obtain ⟨s, hs, hsize⟩ := hgranted (by decide)
  exact ⟨r, s, .new hr, hs, hsize⟩

end RegisterFile

/-! ### The register file of a machine -/

namespace RegisterFile

variable {c : Config} {r : RegisterFile}

theorem Reachable.extend (h : Reachable c r) {len capacity : Nat}
    (hroom : r.room (r.inUse + len) = .ok capacity) : Reachable c (r.extend capacity len) := by
  have hnext := h.performed (.allocate len)
  rwa [perform, allocate_eq h.sized.fits.increment_pos, hroom] at hnext

theorem Reachable.write (h : Reachable c r) {index : Nat} (hindex : index < r.capacity)
    (word : Word) : Reachable c (r.write index word) := by
  have hnext := h.performed (.set index word)
  rwa [perform, set, if_pos hindex] at hnext

theorem Reachable.takeBack (h : Reachable c r) {w : Window} (hw : w.base + w.len = r.inUse) :
    Reachable c { r with inUse := w.base } := by
  have hnext := h.performed (.release w)
  have hstop : w.base + w.len < 2 ^ 64 := by
    have hle := h.sized.fits.inUse_le
    have hlt := h.sized.fits.capacity_lt
    unfold unallocatable at hlt
    omega
  rw [perform, release, Window.stop_eq hstop] at hnext
  simp only [hw, if_true] at hnext
  exact hnext

end RegisterFile

namespace Machine

variable {p : Program} {c : Config} {m n : Machine} {rootSize entry : Nat} {fs : List Frame}

/-- **A step only operates on the register file.** -/
theorem Live.registers_reachable {q : Progress} (h : m.Live rootSize fs) (hstep : m.step = q)
    (hr : RegisterFile.Reachable c m.registers) :
    RegisterFile.Reachable c q.machine.registers := by
  obtain ⟨f, fs, rfl, htransition⟩ := h.exists_transition hstep
  cases htransition with
  | wrote _ hmisfit hwork =>
    exact hr.write (Instruction.lt_capacity_of_work h.window_le hmisfit hwork) _
  | noFrames _ _ _ hroom => exact hr.extend hroom
  | entered _ _ _ hroom => exact hr.extend hroom
  | returned _ hlink =>
    exact (hr.takeBack h.inUse.symm).write (h.destination_lt_capacity hlink) _
  | finished => exact hr.takeBack h.inUse.symm
  | _ => exact hr

/-- So does a root frame, made or not. -/
theorem Resting.registers_reachable {outcome : Except Stop Unit} (h : m.Resting)
    (hstart : m.start entry rootSize = (outcome, n))
    (hr : RegisterFile.Reachable c m.registers) : RegisterFile.Reachable c n.registers := by
  have hopening := h.opening entry rootSize
  have hroom' : m.registers.room (m.registers.inUse + rootSize) = m.registers.room rootSize := by
    rw [h.inUse, Nat.zero_add]
  rw [hstart] at hopening
  cases hopening with
  | noRegisters => exact hr
  | noFrames hroom => exact hr.extend (hroom'.trans hroom)
  | opened hroom => exact hr.extend (hroom'.trans hroom)

theorem Live.registers_reachable_of_reaches (h : m.Live rootSize fs) (hreaches : Reaches m n)
    (hr : RegisterFile.Reachable c m.registers) : RegisterFile.Reachable c n.registers := by
  induction hreaches with
  | refl => exact hr
  | tail hreaches hstep ih =>
    obtain ⟨gs, hlive⟩ := h.of_reaches hreaches
    exact hlive.registers_reachable hstep ih

/-- The register file at a fetch, if the execution started from one that operations lead to. -/
theorem Resting.registers_reachable_of_fetch (h : m.Resting) (hroot : 0 < rootSize) {s : Machine}
    (hstart : m.fresh.start entry rootSize = (.ok (), s)) (hreaches : Reaches s n)
    (hr : RegisterFile.Reachable c m.registers) : RegisterFile.Reachable c n.registers :=
  (h.fresh.live_of_start hroot hstart).1.registers_reachable_of_reaches hreaches
    (h.fresh.registers_reachable hstart hr)

namespace Reachable

/-- **A machine only operates on its register file,** so whatever holds of all the files that
operations lead to holds between executions. -/
theorem registers_reachable (h : Reachable p c m) : RegisterFile.Reachable c m.registers := by
  induction h with
  | @new m h =>
    unfold ofConfig at h
    split at h
    · rename_i registers hregisters
      obtain rfl := Except.ok.inj h
      exact .new hregisters
    · cases h
  | @executed m h entry rootSize ih =>
    cases hrefusal : m.refusal? rootSize with
    | some fault =>
      rw [execute, hrefusal]
      exact ih
    | none =>
      have hroot := (refusal?_eq_none_iff.1 hrefusal).2.1
      have hresting := h.resting_of_refusal hrefusal
      have hexecution := hresting.execution hrefusal entry
      generalize m.execute entry rootSize = e at hexecution
      cases hexecution with
      | refused hstart =>
        exact (hresting.fresh.registers_reachable hstart ih).performed .releaseAll
      | finished hstart hreaches hstep =>
        obtain ⟨⟨gs, hlive⟩, -⟩ := hresting.live_of_fetch hroot hstart hreaches
        exact hlive.registers_reachable hstep
          (hresting.registers_reachable_of_fetch hroot hstart hreaches ih)
      | faulted hstart hreaches hstep =>
        obtain ⟨⟨gs, hlive⟩, -⟩ := hresting.live_of_fetch hroot hstart hreaches
        exact hlive.registers_reachable hstep
          (hresting.registers_reachable_of_fetch hroot hstart hreaches ih)
      | exhausted hstart hreaches hstep =>
        obtain ⟨⟨gs, hlive⟩, -⟩ := hresting.live_of_fetch hroot hstart hreaches
        have hlast := hlive.registers_reachable hstep
          (hresting.registers_reachable_of_fetch hroot hstart hreaches ih)
        exact hlast.performed .releaseAll

end Reachable
end Machine
end WindowVM
