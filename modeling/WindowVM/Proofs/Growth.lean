/-
# How the register file grows

`growthRule` is the rule of growth as arithmetic on capacities: which capacity a file of
a given one takes on for a required number of registers, or what it is refused with; `Grant`
lists its answers.  `RegisterFile.allocate_eq` says that an allocation follows it and does
nothing else: the old words stay, the new ones are zero, and the window lies right above the
registers in use.

`RegisterFile.Fits` is what every register file of a machine keeps: its registers in use
exist, and its capacity stays within the limit and within what can be allocated.
-/

import Mathlib.Algebra.Group.Nat.Defs
import WindowVM.RegisterFile

namespace WindowVM

/-- The next multiple of the increment above a capacity that holds `required` registers,
or `required` itself when that multiple has no 64 bits. -/
def nextCapacity (increment capacity required : Nat) : Nat :=
  let rounded := capacity + (required - capacity + increment - 1) / increment * increment
  if rounded < 2 ^ 64 then rounded else required

/-- A target that never passes the limit. -/
def capped (limit : Option Nat) (target : Nat) : Nat := limit.elim target (min target)

/-- The capacity that a file of `capacity` registers has after room was asked for
`required` ones: the same if they fit, else the next one. -/
def growthRule (increment : Nat) (limit : Option Nat) (capacity required : Nat) :
    Except Exhaustion Nat :=
  if 2 ^ 64 ≤ required then .error (.registers (2 ^ 64 - 1))
  else if required ≤ capacity then .ok capacity
  else if limit.any (· < required) then .error (.registers required)
  else
    let target := capped limit (nextCapacity increment capacity required)
    if RegisterFile.unallocatable ≤ target then .error (.registers target) else .ok target

/-- What the rule of growth can answer. -/
inductive Grant (increment : Nat) (limit : Option Nat) (capacity required : Nat) :
    Except Exhaustion Nat → Prop
  /-- So many registers have no 64-bit places. -/
  | unplaceable (hword : 2 ^ 64 ≤ required) :
      Grant increment limit capacity required (.error (.registers (2 ^ 64 - 1)))
  /-- The registers exist. -/
  | fits (hword : required < 2 ^ 64) (hfit : required ≤ capacity) :
      Grant increment limit capacity required (.ok capacity)
  /-- There may not be so many. -/
  | forbidden {l : Nat} (hlt : capacity < required) (hl : l ∈ limit) (hlimit : l < required) :
      Grant increment limit capacity required (.error (.registers required))
  /-- The next capacity cannot be allocated. -/
  | unallocatable (hlt : capacity < required) (hlimit : ∀ l ∈ limit, required ≤ l)
      (halloc : RegisterFile.unallocatable ≤
        capped limit (nextCapacity increment capacity required)) :
      Grant increment limit capacity required
        (.error (.registers (capped limit (nextCapacity increment capacity required))))
  /-- The file grows. -/
  | grown (hword : required < 2 ^ 64) (hlt : capacity < required)
      (hlimit : ∀ l ∈ limit, required ≤ l)
      (halloc : capped limit (nextCapacity increment capacity required) <
        RegisterFile.unallocatable) :
      Grant increment limit capacity required
        (.ok (capped limit (nextCapacity increment capacity required)))

/-- **The rule of growth answers in one of these ways.** -/
theorem grant_growthRule (increment : Nat) (limit : Option Nat) (capacity required : Nat) :
    Grant increment limit capacity required (growthRule increment limit capacity required) := by
  rw [growthRule]
  split
  · exact .unplaceable ‹_›
  · rename_i hword
    split
    · exact .fits (Nat.not_le.1 hword) ‹_›
    · rename_i hfit
      split
      · rename_i hlimit
        obtain ⟨l, hl, hlt⟩ := (Option.any_eq_true ..).1 hlimit
        exact .forbidden (Nat.not_le.1 hfit) hl (of_decide_eq_true hlt)
      · rename_i hlimit
        have hle : ∀ l ∈ limit, required ≤ l := by
          intro l hl
          refine Nat.not_lt.1 fun hlt => hlimit ?_
          exact (Option.any_eq_true ..).2 ⟨l, hl, decide_eq_true hlt⟩
        simp only
        split
        · exact .unallocatable (Nat.not_le.1 hfit) hle ‹_›
        · rename_i halloc
          exact .grown (Nat.not_le.1 hword) (Nat.not_le.1 hfit) hle (Nat.not_le.1 halloc)

/-- Rounding up to a multiple loses nothing. -/
theorem le_ceil_mul {increment : Nat} (h : 0 < increment) (n : Nat) :
    n ≤ (n + increment - 1) / increment * increment := by
  have hdiv := Nat.div_add_mod (n + increment - 1) increment
  have hmod := Nat.mod_lt (n + increment - 1) h
  rw [Nat.mul_comm] at hdiv
  omega

theorem le_nextCapacity {increment : Nat} (h : 0 < increment) {capacity required : Nat}
    (hlt : capacity < required) : required ≤ nextCapacity increment capacity required := by
  have hceil := le_ceil_mul h (required - capacity)
  simp only [nextCapacity]
  split <;> omega

theorem le_capped {limit : Option Nat} {required target : Nat}
    (hlimit : ∀ l ∈ limit, required ≤ l) (h : required ≤ target) :
    required ≤ capped limit target := by
  cases limit with
  | none => exact h
  | some l => exact Nat.le_min.2 ⟨h, hlimit l rfl⟩

theorem capped_le {limit : Option Nat} {target l : Nat} (hl : l ∈ limit) :
    capped limit target ≤ l := by
  obtain rfl := Option.mem_def.1 hl
  exact Nat.min_le_right ..

/-- **A growth that is granted makes room,** loses no register, and stays within the
limit and within what can be allocated. -/
theorem growthRule_eq_ok {increment capacity required target : Nat} {limit : Option Nat}
    (hincrement : 0 < increment) (h : growthRule increment limit capacity required = .ok target) :
    capacity ≤ target ∧ required ≤ target ∧ required < 2 ^ 64 ∧
      (target = capacity ∨
        target < RegisterFile.unallocatable ∧ ∀ l ∈ limit, target ≤ l) := by
  have hgrant := grant_growthRule increment limit capacity required
  rw [h] at hgrant
  cases hgrant with
  | fits hword hfit => exact ⟨Nat.le_refl _, hfit, hword, Or.inl rfl⟩
  | grown hword hlt hlimit halloc =>
    have hroom := le_capped hlimit (le_nextCapacity hincrement hlt)
    exact ⟨by omega, hroom, hword, Or.inr ⟨halloc, fun l hl => capped_le hl⟩⟩

/-- Registers that are granted have 64-bit places. -/
theorem lt_of_growthRule_eq_ok {increment capacity required target : Nat} {limit : Option Nat}
    (h : growthRule increment limit capacity required = .ok target) : required < 2 ^ 64 := by
  have hgrant := grant_growthRule increment limit capacity required
  rw [h] at hgrant
  cases hgrant with
  | fits hword => exact hword
  | grown hword => exact hword

namespace RegisterFile

/-- The capacity of the file after room was asked for `required` registers. -/
def room (r : RegisterFile) (required : Nat) : Except Exhaustion Nat :=
  growthRule r.increment r.limit r.capacity required

/-- The file with `capacity` registers, the new ones zero, and `len` more of them in use. -/
def extend (r : RegisterFile) (capacity len : Nat) : RegisterFile :=
  { r with
    words := r.words ++ Array.replicate (capacity - r.capacity) 0
    inUse := r.inUse + len }

/-- What every register file of a machine keeps. -/
structure Fits (r : RegisterFile) : Prop where
  increment_pos : 0 < r.increment
  inUse_le : r.inUse ≤ r.capacity
  capacity_lt : r.capacity < unallocatable
  capacity_le : ∀ l ∈ r.limit, r.capacity ≤ l

@[simp] theorem capacity_write (r : RegisterFile) (index : Nat) (word : Word) :
    (r.write index word).capacity = r.capacity := by
  simp [capacity, write]

theorem capacity_extend {r : RegisterFile} {capacity len : Nat} (h : r.capacity ≤ capacity) :
    (r.extend capacity len).capacity = capacity := by
  simp only [RegisterFile.capacity] at h
  simp only [extend, RegisterFile.capacity, Array.size_append, Array.size_replicate]
  omega

theorem growthTarget_eq (r : RegisterFile) (required : Nat) :
    r.growthTarget required = capped r.limit (nextCapacity r.increment r.capacity required) := by
  unfold growthTarget
  cases r.limit <;> rfl

/-- A growth to a capacity that is allowed gives it. -/
theorem resize_eq {r : RegisterFile} {target : Nat} (hlimit : ∀ l ∈ r.limit, target ≤ l) :
    r.resize target =
      if unallocatable ≤ target then (.error (.registers target), r)
      else (.ok (), { r with words := r.words ++ Array.replicate (target - r.capacity) 0 }) := by
  have hany : r.limit.any (· < target) = false := by
    cases hl : r.limit with
    | none => rfl
    | some l => simpa using hlimit l (Option.mem_def.2 hl)
  rw [resize, hany, Bool.false_or, capacity]
  simp only [decide_eq_true_eq]

/-- **An allocation follows the rule of growth.** -/
theorem allocate_eq {r : RegisterFile} (h : 0 < r.increment) (len : Nat) :
    r.allocate len =
      match r.room (r.inUse + len) with
      | .ok capacity => (.ok ⟨r.inUse, len⟩, r.extend capacity len)
      | .error cause => (.error (.exhausted cause), r) := by
  simp only [allocate, room, growthRule, Nat.one_shiftLeft]
  by_cases hword : 2 ^ 64 ≤ r.inUse + len
  · rw [if_pos hword, if_pos hword]
  · rw [if_neg hword, if_neg hword]
    by_cases hfit : r.inUse + len ≤ r.capacity
    · rw [if_pos hfit, if_pos hfit]
      simp [extend]
    · rw [if_neg hfit, if_neg hfit, growTo, if_neg (Nat.pos_iff_ne_zero.1 h)]
      by_cases hlimit : r.limit.any (· < r.inUse + len) = true
      · rw [if_pos hlimit, if_pos hlimit]
      · rw [if_neg hlimit, if_neg hlimit, growthTarget_eq,
          resize_eq fun l hl => capped_le hl]
        by_cases halloc :
            unallocatable ≤ capped r.limit (nextCapacity r.increment r.capacity (r.inUse + len))
        · rw [if_pos halloc, if_pos halloc]
        · rw [if_neg halloc, if_neg halloc]
          rfl

/-- A file that was granted room fits again. -/
theorem Fits.extend {r : RegisterFile} (h : r.Fits) {len capacity : Nat}
    (hroom : r.room (r.inUse + len) = .ok capacity) : (r.extend capacity len).Fits := by
  obtain ⟨hle, hreq, -, hcap⟩ := growthRule_eq_ok h.increment_pos hroom
  have hcapacity : (r.extend capacity len).capacity = capacity := capacity_extend hle
  refine ⟨h.increment_pos, by rw [hcapacity]; exact hreq, ?_, ?_⟩
  · rw [hcapacity]
    rcases hcap with rfl | ⟨hlt, -⟩
    · exact h.capacity_lt
    · exact hlt
  · rw [hcapacity]
    rcases hcap with rfl | ⟨-, hlimit⟩
    · exact h.capacity_le
    · exact hlimit

theorem Fits.write {r : RegisterFile} (h : r.Fits) (index : Nat) (word : Word) :
    (r.write index word).Fits :=
  ⟨h.increment_pos, by rw [capacity_write]; exact h.inUse_le,
    by rw [capacity_write]; exact h.capacity_lt, by rw [capacity_write]; exact h.capacity_le⟩

/-- Taking registers back keeps the file fit. -/
theorem Fits.shrink {r : RegisterFile} (h : r.Fits) {inUse : Nat} (hle : inUse ≤ r.inUse) :
    ({ r with inUse } : RegisterFile).Fits :=
  ⟨h.increment_pos, Nat.le_trans hle h.inUse_le, h.capacity_lt, h.capacity_le⟩

/-- The register file a machine starts with fits. -/
theorem fits_ofConfig {c : Config} {r : RegisterFile} (h : ofConfig c = .ok r) :
    r.Fits ∧ r.inUse = 0 := by
  rw [ofConfig_eq] at h
  split at h
  · simp at h
  · rename_i hrefused
    obtain rfl := Except.ok.inj h
    simp only [Bool.not_eq_true, Bool.or_eq_false_iff, decide_eq_false_iff_not, Nat.not_le]
      at hrefused
    obtain ⟨hlimit, halloc⟩ := hrefused
    refine ⟨⟨by simp only [empty]; omega, Nat.zero_le _, by simpa [capacity] using halloc, ?_⟩, rfl⟩
    intro l hl
    obtain ⟨w, hw, rfl⟩ := Option.map_eq_some_iff.1 (Option.mem_def.1 hl)
    rw [empty, hw] at hlimit
    simpa [capacity] using hlimit

/-- The register file a machine starts with keeps to the configuration. -/
theorem limits_ofConfig {c : Config} {r : RegisterFile} (h : ofConfig c = .ok r) :
    r.increment = max c.growthIncrement.toNat 1 ∧ r.limit = c.maxRegisters.map (·.toNat) := by
  rw [ofConfig_eq] at h
  split at h
  · simp at h
  · obtain rfl := Except.ok.inj h
    exact ⟨rfl, rfl⟩

end RegisterFile
end WindowVM
