/-
# The limit on registers

A limit on the number of registers may cut off the growth of a register file, and nothing
else.  A file that was cut off has as many registers as the limit allows, and without limit
it would have more: as long as no more registers are in use than the limit allows, both files
have room (`CutTo.grow`), and the first time that more are asked for, the limited one refuses
(`CutTo.refuse`).

`Clipped` carries this through two executions.  What parts the limited one from the other is
a demand above the limit, which the peak of the other covers, or an operand that names a
register above a capacity that was cut off (`CutOff`).  `execute_of_maxRegisters` is the
result for new machines.
-/

import WindowVM.Proofs.Parting

namespace WindowVM

/-! ### Growth with and without a limit -/

/-- The capacity `other` is `capacity`, or what a limit leaves of it. -/
def CutTo (limit capacity other : Nat) : Prop :=
  other = capacity ∨ other = limit ∧ limit < capacity

section

variable {increment limit capacity other required grown clipped : Nat} {cause : Exhaustion}

theorem CutTo.le (h : CutTo limit capacity other) : other ≤ capacity := by
  rcases h with rfl | ⟨rfl, hlt⟩
  · exact Nat.le_refl _
  · exact Nat.le_of_lt hlt

/-- A capacity that is cut off stays so, and one that is not stays the same or is cut off. -/
theorem CutTo.grow (h : CutTo limit capacity other)
    (hgrown : growthRule increment none capacity required = .ok grown)
    (hclipped : growthRule increment (some limit) other required = .ok clipped) :
    CutTo limit grown clipped := by
  have hgrant := grant_growthRule increment none capacity required
  have hgrant' := grant_growthRule increment (some limit) other required
  rw [hgrown] at hgrant
  rw [hclipped] at hgrant'
  unfold CutTo at h ⊢
  cases hgrant with
  | fits _ hfit =>
    cases hgrant' with
    | fits => exact h
    | grown _ hlt hlimit =>
      have hallowed := hlimit limit rfl
      omega
  | grown _ hlt =>
    cases hgrant' with
    | fits _ hfit => omega
    | grown _ hlt' hlimit =>
      -- A file that is at the limit does not grow.
      have hallowed := hlimit limit rfl
      obtain rfl : other = capacity := by omega
      simp only [capped, Option.elim_none, Option.elim_some]
      omega

/-- Capacities that differ after a growth, and not before, were cut off by it. -/
theorem clamped_of_growthRule (hgrown : growthRule increment none capacity required = .ok grown)
    (hclipped : growthRule increment (some limit) capacity required = .ok clipped)
    (hne : clipped ≠ grown) :
    capacity < required ∧ required ≤ limit ∧
      limit < nextCapacity increment capacity required := by
  have hgrant := grant_growthRule increment none capacity required
  have hgrant' := grant_growthRule increment (some limit) capacity required
  rw [hgrown] at hgrant
  rw [hclipped] at hgrant'
  cases hgrant with
  | fits _ hfit =>
    cases hgrant' with
    | fits => exact absurd rfl hne
    | grown _ hlt => exact absurd hfit (Nat.not_le.2 hlt)
  | grown _ hlt =>
    cases hgrant' with
    | fits _ hfit => exact absurd hfit (Nat.not_le.2 hlt)
    | grown _ _ hlimit =>
      simp only [capped, Option.elim_none, Option.elim_some] at hne
      exact ⟨hlt, hlimit limit rfl, by omega⟩

/-- What the limit refuses and is granted without it is more than the limit allows. -/
theorem CutTo.refuse (h : CutTo limit capacity other)
    (hgrown : growthRule increment none capacity required = .ok grown)
    (hrefused : growthRule increment (some limit) other required = .error cause) :
    cause = .registers required ∧ limit < required := by
  have hgrant := grant_growthRule increment none capacity required
  have hgrant' := grant_growthRule increment (some limit) other required
  have hword := lt_of_growthRule_eq_ok hgrown
  rw [hgrown] at hgrant
  rw [hrefused] at hgrant'
  unfold CutTo at h
  cases hgrant' with
  | unplaceable hword' => omega
  | forbidden _ hl hlimit =>
    obtain rfl := Option.some.inj hl
    exact ⟨rfl, hlimit⟩
  | unallocatable hlt hlimit halloc =>
    have hallowed := hlimit limit rfl
    cases hgrant with
    | fits _ hfit => omega
    | grown _ _ _ halloc' =>
      obtain rfl : other = capacity := by omega
      simp only [capped, Option.elim_none, Option.elim_some] at halloc halloc'
      omega

/-- What is refused without a limit cannot be allocated. -/
theorem unallocatable_of_growthRule (hword : required < 2 ^ 64)
    (hrefused : growthRule increment none capacity required = .error cause) :
    capacity < required ∧
      RegisterFile.unallocatable ≤ nextCapacity increment capacity required := by
  have hgrant := grant_growthRule increment none capacity required
  rw [hrefused] at hgrant
  cases hgrant with
  | unplaceable hword' => omega
  | forbidden _ hl => cases hl
  | unallocatable hlt _ halloc => exact ⟨hlt, halloc⟩

end

namespace RegisterFile

/-- The register file a machine starts with is the same with a limit that allows it. -/
theorem ofConfig_of_maxRegisters {c : Config} {r : RegisterFile} (h : ofConfig c = .ok r)
    {limit : Word} (hinitial : c.initialRegisters ≤ limit) :
    ofConfig { c with maxRegisters := some limit } = .ok { r with limit := some limit.toNat } := by
  rw [ofConfig_eq] at h ⊢
  split at h
  · cases h
  · rename_i hallowed
    obtain rfl := Except.ok.inj h
    simp only [Bool.or_eq_true, decide_eq_true_eq, not_or] at hallowed
    have hle : ¬ limit.toNat < c.initialRegisters.toNat :=
      Nat.not_lt.2 (UInt64.le_iff_toNat_le.1 hinitial)
    rw [if_neg (by simp [empty, hle, hallowed.2])]
    rfl

/-- A growth that is granted can be allocated. -/
theorem growthTarget_lt {r : RegisterFile} {required capacity : Nat}
    (hroom : r.room required = .ok capacity) (hlt : r.capacity < required) :
    r.growthTarget required < unallocatable := by
  have hgrant := grant_growthRule r.increment r.limit r.capacity required
  rw [growthTarget_eq]
  rw [room] at hroom
  rw [hroom] at hgrant
  cases hgrant with
  | fits _ hfit => exact absurd hfit (Nat.not_le.2 hlt)
  | grown _ _ _ halloc => exact halloc

end RegisterFile

/-- The instruction names registers of the whole file below the bound only. -/
def Instruction.NamesBelow (i : Instruction) (bound : Nat) : Prop :=
  ∀ index ∈ i.absoluteOperands, index.toNat < bound

-- Left to itself, instance search decides this by going through all words.
instance (i : Instruction) (bound : Nat) : Decidable (i.NamesBelow bound) :=
  List.decidableBAll (fun index : Word => index.toNat < bound) i.absoluteOperands

/-- No instruction of the program names a register from the bound on. -/
def Program.NamesBelow (p : Program) (bound : Nat) : Prop := ∀ i ∈ p.code, i.NamesBelow bound

instance (p : Program) (bound : Nat) : Decidable (p.NamesBelow bound) :=
  inferInstanceAs (Decidable (∀ i ∈ p.code, i.NamesBelow bound))

namespace Machine

/-- An execution of `m` asks the register file `r` for more registers than it has. -/
inductive Growth (m : Machine) (entry rootSize : Nat) : RegisterFile → Nat → Prop
  /-- It does so for the root frame. -/
  | root (hrefusal : m.refusal? rootSize = none) (hlt : m.registers.capacity < rootSize)
      (hword : rootSize < 2 ^ 64) : Growth m entry rootSize m.registers rootSize
  /-- It does so for a callee. -/
  | callee {y : Machine} {required : Nat} (hy : m.Fetches entry rootSize y)
      (hdemand : y.demand? = some required) (hlt : y.registers.capacity < required)
      (hword : required < 2 ^ 64) : Growth m entry rootSize y.registers required

/-- In an execution of `m` the register file grows to `limit`, and to more without limit. -/
def Clamps (m : Machine) (entry rootSize limit : Nat) : Prop :=
  ∃ r required, m.Growth entry rootSize r required ∧ required ≤ limit ∧
    r.growthTarget required = limit ∧ limit < nextCapacity r.increment r.capacity required

/-- How an execution of `n`, which may have `limit` registers, ends where it would return `v`
without limit and use `peak` registers. -/
inductive CutOff (n : Machine) (entry rootSize limit peak : Nat) (v : Word) :
    Except Stop Word × Machine → Prop
  /-- The limit is not felt. -/
  | returned {b : Machine} (hle : peak ≤ limit) :
      CutOff n entry rootSize limit peak v (.ok v, b)
  /-- More registers are asked for than there may be. -/
  | exhausted {b : Machine} {requested : Nat} (hlt : limit < requested) (hle : requested ≤ peak) :
      CutOff n entry rootSize limit peak v (.error (.exhausted (.registers requested)), b)
  /-- A `mov` or a `movi` names a register above a capacity that was cut off. -/
  | outside {b : Machine} {i : Instruction} {index : Word}
      (hfetch : n.program.get? b.pc = some i) (hindex : index ∈ i.absoluteOperands)
      (hle : limit ≤ index.toNat) (hcapacity : b.registers.capacity = limit)
      (hclamps : n.Clamps entry rootSize limit) :
      CutOff n entry rootSize limit peak v (.error (.fault (.outsideFile index.toNat limit)), b)

/-- The machine `y`, in an execution of `n`, has the register file of `x`, or one that was cut
off at the limit. -/
structure Clipped (n : Machine) (entry rootSize limit : Nat) (x y : Machine) : Prop where
  environment : y.environment = { x.environment with registerLimit := some limit }
  unlimited : x.registers.limit = none
  capacity : CutTo limit x.registers.capacity y.registers.capacity
  clamps : y.registers.capacity ≠ x.registers.capacity → n.Clamps entry rootSize limit

variable {p : Program} {c : Config} {m n x y z a b : Machine} {entry rootSize limit : Nat}
  {v : Word}

namespace Clipped

theorem increment_eq (h : Clipped n entry rootSize limit x y) :
    y.registers.increment = x.registers.increment :=
  congrArg Environment.increment h.environment

theorem limit_eq (h : Clipped n entry rootSize limit x y) : y.registers.limit = some limit :=
  congrArg Environment.registerLimit h.environment

theorem frameLimit_eq (h : Clipped n entry rootSize limit x y) :
    y.frames.limit = x.frames.limit :=
  congrArg Environment.frameLimit h.environment

theorem room_left (h : Clipped n entry rootSize limit x y) (required : Nat) :
    x.registers.room required =
      growthRule x.registers.increment none x.registers.capacity required := by
  rw [RegisterFile.room, h.unlimited]

theorem room_right (h : Clipped n entry rootSize limit x y) (required : Nat) :
    y.registers.room required =
      growthRule x.registers.increment (some limit) y.registers.capacity required := by
  rw [RegisterFile.room, h.increment_eq, h.limit_eq]

/-- A growth that is cut off takes the file to the limit. -/
theorem growthTarget_eq (h : Clipped n entry rootSize limit x y) {required : Nat}
    (hlt : limit < nextCapacity y.registers.increment y.registers.capacity required) :
    y.registers.growthTarget required = limit := by
  rw [RegisterFile.growthTarget_eq, h.limit_eq]
  exact Nat.min_eq_right (Nat.le_of_lt hlt)

/-- **Machines that use the same number of registers stay clipped.** -/
theorem recorded (h : Clipped n entry rootSize limit x y) (ha : x.Recorded a) (hb : y.Recorded b)
    (hinUse : b.registers.inUse = a.registers.inUse)
    (hgrowth : y.registers.capacity < b.registers.inUse → b.registers.inUse < 2 ^ 64 →
      n.Growth entry rootSize y.registers b.registers.inUse) :
    Clipped n entry rootSize limit a b := by
  have hroom := ha.room
  have hroom' := hb.room
  rw [h.room_left, ← hinUse] at hroom
  rw [h.room_right] at hroom'
  constructor
  case environment => rw [hb.environment, h.environment, ha.environment]
  case unlimited => exact (congrArg Environment.registerLimit ha.environment).trans h.unlimited
  case capacity => exact h.capacity.grow hroom hroom'
  case clamps =>
    intro hne
    by_cases hsame : y.registers.capacity = x.registers.capacity
    · rw [← hsame] at hroom
      obtain ⟨hlt, hle, hnext⟩ := clamped_of_growthRule hroom hroom' hne
      rw [← h.increment_eq] at hnext
      exact ⟨y.registers, b.registers.inUse, hgrowth hlt (lt_of_growthRule_eq_ok hroom'), hle,
        h.growthTarget_eq hnext, hnext⟩
    · exact h.clamps hsame

/-- What the machine with the limit lacks is more registers than the limit allows. -/
theorem of_shortage (h : Clipped n entry rootSize limit x y) (hz : x.Recorded z)
    (hle : ∀ l ∈ z.frames.limit, z.frames.live ≤ l) {cause : Exhaustion}
    (hshort : Shortage y z cause) :
    cause = .registers z.registers.inUse ∧ limit < z.registers.inUse := by
  have hlimit : z.frames.limit = x.frames.limit := congrArg Environment.frameLimit hz.environment
  have hroom := hz.room
  have hrefused := hshort.room_eq_error (h.frameLimit_eq.trans hlimit.symm) hle
  rw [h.room_left] at hroom
  rw [h.room_right] at hrefused
  exact h.capacity.refuse hroom hrefused

/-- What the machine without limit lacks cannot be allocated. -/
theorem unallocatable_of_shortage (h : Clipped n entry rootSize limit x y) (hz : y.Recorded z)
    (hle : ∀ l ∈ z.frames.limit, z.frames.live ≤ l) {cause : Exhaustion}
    (hshort : Shortage x z cause) :
    x.registers.capacity < z.registers.inUse ∧ z.registers.inUse < 2 ^ 64 ∧
      RegisterFile.unallocatable ≤ x.registers.growthTarget z.registers.inUse := by
  have hlimit : z.frames.limit = y.frames.limit := congrArg Environment.frameLimit hz.environment
  have hword := lt_of_growthRule_eq_ok hz.room
  have hrefused := hshort.room_eq_error (h.frameLimit_eq.symm.trans hlimit.symm) hle
  rw [h.room_left] at hrefused
  obtain ⟨hlt, halloc⟩ := unallocatable_of_growthRule hword hrefused
  rw [RegisterFile.growthTarget_eq, h.unlimited]
  exact ⟨hlt, hword, halloc⟩

end Clipped

section

variable (hm : m.Resting) (hn : n.Resting) (halike : m.fresh.Alike n.fresh)
  (hclipped : Clipped n entry rootSize limit m.fresh n.fresh)

include hm hn halike hclipped

/-- **Executions with and without the limit stay clipped.** -/
theorem Paired.clipped (h : Paired m n entry rootSize x y) :
    Clipped n entry rootSize limit x y := by
  induction h with
  | start hroot hroot' hx hy =>
    have hinUse := hm.inUse_of_start hroot hx
    have hinUse' := hn.inUse_of_start hroot' hy
    refine hclipped.recorded (hm.fresh.recorded_of_start hx) (hn.fresh.recorded_of_start hy)
      (hinUse'.trans hinUse.symm) ?_
    rw [hinUse']
    exact .root hroot'
  | step h hx hy ih =>
    obtain ⟨hrecorded, hrecorded', hinUse⟩ := h.recorded hm hn halike hx hy
    obtain ⟨fs, hlive⟩ := hn.live_of_fetches h.symm.fetches
    refine ih.recorded hrecorded hrecorded' hinUse.symm ?_
    intro hlt hword
    exact .callee h.symm.fetches (hlive.demand_of_running hy hlt) hlt hword

/-- **The limit parts two executions** at a demand above it, or at an operand above a capacity
that was cut off. -/
theorem Parting.cutOff (hv : m.execute entry rootSize = (.ok v, a)) {stop : Stop}
    (h : Parting m n entry rootSize stop) (hstop : (n.execute entry rootSize).1 = .error stop) :
    n.CutOff entry rootSize limit a.stats.peakRegisters v (n.execute entry rootSize) := by
  cases h with
  | @root z cause hz hstart hshort =>
    obtain ⟨fs, hlive⟩ := hm.live_of_fetches hz
    obtain ⟨rfl, hlt⟩ :=
      hclipped.of_shortage (hm.fresh.recorded_of_start hstart) hlive.live_le hshort
    rw [← Prod.eta (n.execute entry rootSize), hstop]
    exact .exhausted hlt (hm.le_records_of_fetches hz hv).2
  | @callee x y z cause hpaired hz _ hshort =>
    have hfetches := hpaired.fetches.tail hz
    obtain ⟨fs, hlive⟩ := hm.live_of_fetches hfetches
    have hrecorded := hm.recorded_of_running hpaired.fetches hz
    obtain ⟨rfl, hlt⟩ := (hpaired.clipped hm hn halike hclipped).of_shortage hrecorded
      hlive.live_le hshort
    rw [← Prod.eta (n.execute entry rootSize), hstop]
    exact .exhausted hlt (hm.le_records_of_fetches hfetches hv).2
  | @operand x y i index hpaired hfetch hindex hlt hle hstep =>
    have hcut := hpaired.clipped hm hn halike hclipped
    have hne : y.registers.capacity ≠ x.registers.capacity := by omega
    obtain ⟨hcapacity, -⟩ := hcut.capacity.resolve_left hne
    have hprogram : y.program = n.program :=
      congrArg Environment.program (hn.environment_of_fetches hpaired.symm.fetches)
    obtain ⟨hrefusal, s, hstart, hreaches⟩ := hpaired.symm.fetches
    rw [execute_of_fault hrefusal hstart hreaches hstep, hcapacity]
    exact .outside (hprogram ▸ hfetch) hindex (hcapacity ▸ hle) hcapacity (hcut.clamps hne)

/-- An execution that returns with the limit has kept to it. -/
theorem Paired.peakRegisters_le (h : Paired m n entry rootSize x y)
    (hy : y.step = .finished v b) : b.stats.peakRegisters ≤ limit := by
  obtain ⟨fs, -, hlive, -⟩ := h.live hm hn halike
  obtain ⟨hrecorded, hobserved⟩ := hn.recorded_of_finished h.symm.fetches hy
  have hlimit : b.registers.limit = some limit :=
    (congrArg Environment.registerLimit hrecorded.environment).trans
      (h.clipped hm hn halike hclipped).limit_eq
  calc b.stats.peakRegisters ≤ b.registers.capacity := hobserved.peakRegisters_le
    _ ≤ limit := (hlive.of_finished hy).fits.capacity_le _ (Option.mem_def.2 hlimit)

/-- **How an execution ends with the limit** that returns without it. -/
theorem Resting.cutOff (hrefusal : n.refusal? rootSize = none)
    (hv : m.execute entry rootSize = (.ok v, a)) :
    n.CutOff entry rootSize limit a.stats.peakRegisters v (n.execute entry rootSize) := by
  rcases hm.returns_or_parts hn halike hrefusal hv with
    ⟨x, y, b, hpaired, -, hy, hend, hw⟩ | ⟨stop, hparting, hstop⟩
  · rw [hw, hend.stats.peakRegisters]
    exact .returned (hpaired.peakRegisters_le hm hn halike hclipped hy)
  · exact hparting.cutOff hm hn halike hclipped hv hstop

/-- **An execution that returns with the limit returns without it,** if the file can grow. -/
theorem Resting.returns_of_clipped (hrefusal : m.refusal? rootSize = none)
    (hgrowth : ∀ r required, m.Growth entry rootSize r required →
      r.growthTarget required < RegisterFile.unallocatable)
    (hw : n.execute entry rootSize = (.ok v, b)) :
    ∃ a, m.execute entry rootSize = (.ok v, a) := by
  rcases hn.returns_or_parts hm halike.symm hrefusal hw with
    ⟨-, -, a, -, -, -, -, hv⟩ | ⟨stop, hparting, -⟩
  · exact ⟨a, hv⟩
  exfalso
  cases hparting with
  | @root z cause hz hstart hshort =>
    obtain ⟨fs, hlive⟩ := hn.live_of_fetches hz
    obtain ⟨hlt, hword, halloc⟩ := hclipped.unallocatable_of_shortage
      (hn.fresh.recorded_of_start hstart) hlive.live_le hshort
    rw [hn.inUse_of_start hz.1 hstart] at hlt hword halloc
    exact absurd (hgrowth _ _ (.root hrefusal hlt hword)) (Nat.not_lt.2 halloc)
  | @callee y x z cause hpaired hz hdemand hshort =>
    obtain ⟨fs, hlive⟩ := hn.live_of_fetches (hpaired.fetches.tail hz)
    have hcut := hpaired.symm.clipped hm hn halike hclipped
    obtain ⟨hlt, hword, halloc⟩ := hcut.unallocatable_of_shortage
      (hn.recorded_of_running hpaired.fetches hz) hlive.live_le hshort
    have hcallee := Growth.callee hpaired.symm.fetches hdemand hlt hword
    exact absurd (hgrowth _ _ hcallee) (Nat.not_lt.2 halloc)
  | operand hpaired _ _ hlt hle =>
    have hcut := (hpaired.symm.clipped hm hn halike hclipped).capacity.le
    omega

end

/-- An execution that returns asked for no growth that cannot be allocated. -/
theorem Resting.growthTarget_lt (h : m.Resting) (hv : m.execute entry rootSize = (.ok v, a))
    {r : RegisterFile} {required : Nat} (hgrowth : m.Growth entry rootSize r required) :
    r.growthTarget required < RegisterFile.unallocatable := by
  cases hgrowth with
  | root hrefusal hlt =>
    obtain ⟨-, s, hstart, -⟩ := h.run_of_execute hv
    have hroom := (h.fresh.recorded_of_start hstart).room
    rw [h.inUse_of_start hrefusal hstart] at hroom
    exact RegisterFile.growthTarget_lt hroom hlt
  | callee hy hdemand hlt =>
    obtain ⟨fs, hlive⟩ := h.live_of_fetches hy
    obtain ⟨hrefusal, s, hstart, hreaches⟩ := hy
    rw [execute_eq_settle hrefusal hstart hreaches] at hv
    obtain ⟨capacity, hroom⟩ := hlive.room_of_demand hdemand (hlive.step_ne_stopped_of_settle hv)
    exact RegisterFile.growthTarget_lt hroom hlt

/-- A configuration that gives a machine gives one of the same size also with a limit that
allows it. -/
theorem exists_ofConfig_of_maxRegisters (hm : ofConfig p c = .ok m) {limit : Word}
    (hinitial : c.initialRegisters ≤ limit) :
    ∃ n, ofConfig p { c with maxRegisters := some limit } = .ok n ∧
      n.registers.capacity = m.registers.capacity := by
  unfold ofConfig at hm
  split at hm
  · rename_i registers hregisters
    obtain rfl := Except.ok.inj hm
    rw [ofConfig, RegisterFile.ofConfig_of_maxRegisters hregisters hinitial]
    exact ⟨_, rfl, rfl⟩
  · cases hm

/-- New machines with and without a limit start clipped. -/
theorem clipped_of_ofConfig (hm : ofConfig p c = .ok m) (hunlimited : c.maxRegisters = none)
    {limit : Word} (hn : ofConfig p { c with maxRegisters := some limit } = .ok n)
    (hcapacity : n.registers.capacity = m.registers.capacity) (entry rootSize : Nat) :
    Clipped n entry rootSize limit.toNat m.fresh n.fresh := by
  have henvironment : m.fresh.environment = .ofConfig p c := (resting_of_ofConfig hm).1
  constructor
  case environment =>
    rw [henvironment]
    exact (resting_of_ofConfig hn).1
  case unlimited =>
    refine (congrArg Environment.registerLimit henvironment).trans ?_
    simp only [Environment.ofConfig, hunlimited, Option.map_none]
  case capacity => exact Or.inl hcapacity
  case clamps => exact fun hne => absurd hcapacity hne

/-- Where no operand names a register that the limit may take away, an execution returns
exactly if the limit allows its peak. -/
theorem CutOff.of_namesBelow {peak bound : Nat} {e : Except Stop Word × Machine}
    (h : n.CutOff entry rootSize limit peak v e) (hprogram : n.program = p)
    (hnames : p.NamesBelow bound) (hbound : bound ≤ limit) :
    (∀ fault, e.1 ≠ .error (.fault fault)) ∧ (e.1 = .ok v ↔ peak ≤ limit) := by
  cases h with
  | returned hle => simp [hle]
  | exhausted hlt hle =>
    have hpeak : ¬ peak ≤ limit := by omega
    simp [hpeak]
  | @outside b i index hfetch hindex hle =>
    rw [hprogram] at hfetch
    have hlt := hnames i (Array.mem_of_getElem? hfetch) index hindex
    omega

/-- **A limit on registers cuts executions off at their peak, and changes nothing else.**  Take
a new machine without such a limit, and one with a limit that allows its initial registers.

What returns with the limit returns the same word without it, as long as the file can be
allocated.  What returns without it ends with the limit as `CutOff` says: it returns the same
word, and its peak was within the limit; or a number of registers above the limit and up to the
peak is refused; or an operand of a `mov` or a `movi` is above a capacity that was cut off.  The
last is impossible in a program whose operands are all below the initial registers; there the
execution returns exactly if the limit allows its peak. -/
theorem execute_of_maxRegisters (hm : ofConfig p c = .ok m) (hunlimited : c.maxRegisters = none)
    {limit : Word} (hinitial : c.initialRegisters ≤ limit) (entry rootSize : Nat) :
    ∃ n, ofConfig p { c with maxRegisters := some limit } = .ok n ∧
      ((∀ r required, m.Growth entry rootSize r required →
          r.growthTarget required < RegisterFile.unallocatable) →
        ∀ v b, n.execute entry rootSize = (.ok v, b) →
          ∃ a, m.execute entry rootSize = (.ok v, a)) ∧
      ∀ v a, m.execute entry rootSize = (.ok v, a) →
        n.CutOff entry rootSize limit.toNat a.stats.peakRegisters v (n.execute entry rootSize) ∧
        (p.NamesBelow c.initialRegisters.toNat →
          (∀ fault, (n.execute entry rootSize).1 ≠ .error (.fault fault)) ∧
            ((n.execute entry rootSize).1 = .ok v ↔ a.stats.peakRegisters ≤ limit.toNat)) := by
  obtain ⟨n, hn, hcapacity⟩ := exists_ofConfig_of_maxRegisters hm hinitial
  obtain ⟨-, hm', hpoisoned⟩ := resting_of_ofConfig hm
  obtain ⟨henvironment, hn', hpoisoned'⟩ := resting_of_ofConfig hn
  have hidle : m.Idle := ⟨hpoisoned, hm'.frames.live⟩
  have hidle' : n.Idle := ⟨hpoisoned', hn'.frames.live⟩
  have halike := (alike_of_ofConfig hm hn).fresh
  have hclipped := clipped_of_ofConfig hm hunlimited hn hcapacity entry rootSize
  refine ⟨n, hn, ?_, ?_⟩
  · intro hgrowth v b hw
    obtain ⟨hrefusal, -⟩ := hn'.run_of_execute hw
    have hroot := (refusal?_eq_none_iff.1 hrefusal).2.1
    exact hm'.returns_of_clipped hn' halike hclipped (hidle.refusal? hroot) hgrowth hw
  · intro v a hv
    obtain ⟨hrefusal, -⟩ := hm'.run_of_execute hv
    have hroot := (refusal?_eq_none_iff.1 hrefusal).2.1
    have hcutOff := hm'.cutOff hn' halike hclipped (hidle'.refusal? hroot) hv
    refine ⟨hcutOff, ?_⟩
    intro hnames
    have hprogram : n.program = p := congrArg Environment.program henvironment
    exact hcutOff.of_namesBelow hprogram hnames (UInt64.le_iff_toNat_le.1 hinitial)

/-- The hypotheses are satisfiable: a call makes the file grow to five registers, or to two if
there may not be more.  With two, the register that is written after it does not exist, unless
it is one of the initial ones. -/
theorem execute_of_maxRegisters_of_callee :
    (∃ m n a b, ofConfig ⟨#[.call 3 1 0, .moveImmediate 0 7, .ret, .ret], by decide⟩
        { initialRegisters := 1, growthIncrement := 4 } = .ok m ∧
      ofConfig ⟨#[.call 3 1 0, .moveImmediate 0 7, .ret, .ret], by decide⟩
        { initialRegisters := 1, growthIncrement := 4, maxRegisters := some 2 } = .ok n ∧
      m.execute 0 1 = (.ok 7, a) ∧ a.registers.capacity = 5 ∧ a.stats.peakRegisters = 2 ∧
      n.execute 0 1 = (.ok 7, b) ∧
      ∀ v b, n.execute 0 1 = (.ok v, b) → ∃ a, m.execute 0 1 = (.ok v, a)) ∧
    ∃ n, ofConfig ⟨#[.call 3 1 0, .moveImmediate 4 7, .ret, .ret], by decide⟩
        { initialRegisters := 1, growthIncrement := 4, maxRegisters := some 2 } = .ok n ∧
      (n.execute 0 1).1 = .error (.fault (.outsideFile 4 2)) ∧ n.Clamps 0 1 2 := by
  constructor
  · obtain ⟨m, hm, hseen⟩ : ∃ m, ofConfig
        ⟨#[.call 3 1 0, .moveImmediate 0 7, .ret, .ret], by decide⟩
        { initialRegisters := 1, growthIncrement := 4 } = .ok m ∧
        ((m.execute 0 1).1, (m.execute 0 1).2.registers.capacity,
          (m.execute 0 1).2.stats.peakRegisters) = (.ok 7, 5, 2) :=
      ⟨_, rfl, execute_of_runWithin (k := 4)
        (f := fun e => (e.1, e.2.registers.capacity, e.2.stats.peakRegisters)) rfl rfl
        (by decide +kernel)⟩
    simp only [Prod.mk.injEq] at hseen
    obtain ⟨hv, hcapacity, hpeak⟩ := hseen
    have hv : m.execute 0 1 = (.ok 7, (m.execute 0 1).2) := Prod.ext hv rfl
    obtain ⟨n, hn, hreturns, hends⟩ :=
      execute_of_maxRegisters hm rfl (show (1 : Word) ≤ 2 by decide) 0 1
    obtain ⟨-, hnames⟩ := hends _ _ hv
    have hw := (hnames (by decide)).2.2 (Nat.le_of_eq hpeak)
    refine ⟨m, n, _, _, hm, hn, hv, hcapacity, hpeak, Prod.ext hw rfl, hreturns ?_⟩
    intro r required hgrowth
    exact (resting_of_ofConfig hm).2.1.growthTarget_lt hv hgrowth
  · obtain ⟨m, n, hm, hn, hv, hfault⟩ : ∃ m n, ofConfig
        ⟨#[.call 3 1 0, .moveImmediate 4 7, .ret, .ret], by decide⟩
        { initialRegisters := 1, growthIncrement := 4 } = .ok m ∧
        ofConfig ⟨#[.call 3 1 0, .moveImmediate 4 7, .ret, .ret], by decide⟩
          { initialRegisters := 1, growthIncrement := 4, maxRegisters := some 2 } = .ok n ∧
        (m.execute 0 1).1 = .ok 0 ∧ (n.execute 0 1).1 = .error (.fault (.outsideFile 4 2)) :=
      ⟨_, _, rfl, rfl,
        execute_of_runWithin (k := 4) (f := Prod.fst) rfl rfl (by decide +kernel),
        execute_of_runWithin (k := 3) (f := Prod.fst) rfl rfl (by decide +kernel)⟩
    have hv : m.execute 0 1 = (.ok 0, (m.execute 0 1).2) := Prod.ext hv rfl
    obtain ⟨n', hn', -, hends⟩ :=
      execute_of_maxRegisters hm rfl (show (1 : Word) ≤ 2 by decide) 0 1
    obtain rfl : n' = n := Except.ok.inj (hn'.symm.trans hn)
    have hcutOff := (hends _ _ hv).1
    refine ⟨n', hn, hfault, ?_⟩
    rw [← Prod.eta (n'.execute 0 1), hfault] at hcutOff
    generalize Fault.outsideFile 4 2 = fault at hcutOff
    cases hcutOff with
    | outside _ _ _ _ hclamps => exact hclamps

end Machine
end WindowVM
