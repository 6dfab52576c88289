/-
# The limit on frames

A limit on the number of live frames decides whether an execution returns, and nothing else
about it.  Two machines that differ in this limit grow their register files alike
(`SizedAlike`): the rule of growth asks for the registers in use only.  So the one with the
limit neither lacks registers where the other has them nor stops at an operand, and what
parts it from the other is a frame above the limit (`Parting.of_sizedAlike`).

`execute_of_maxFrames` puts the limit beside the depth that the other execution records: with
a limit of that depth or more the two end in the same state, and below it the limit is
exceeded.
-/

import WindowVM.Proofs.Parting

namespace WindowVM

/-- A register file is what its words, its registers in use and its limits are. -/
theorem RegisterFile.eq_of_word {r s : RegisterFile} (hcapacity : r.capacity = s.capacity)
    (hword : ∀ index, r.word index = s.word index) (hinUse : r.inUse = s.inUse)
    (hincrement : r.increment = s.increment) (hlimit : r.limit = s.limit) : r = s := by
  have hwords : r.words = s.words := by
    refine Array.ext hcapacity ?_
    intro index hr hs
    have h := hword index
    rwa [word, word, Array.getElem?_eq_getElem hr, Array.getElem?_eq_getElem hs] at h
  cases r
  cases s
  exact (RegisterFile.mk.injEq ..).mpr ⟨hwords, hinUse, hincrement, hlimit⟩

/-- Counters that differ at most in the growths, and not in those, are the same. -/
theorem Stats.Alike.eq_of_growths {s t : Stats} (h : s.Alike t) (hgrowths : s.growths = t.growths) :
    s = t := by
  cases s
  cases t
  exact (Stats.mk.injEq ..).mpr ⟨h.counts, h.maxDepth, h.peakRegisters, hgrowths⟩

namespace Machine

/-- Machines whose register files have the same size and grow alike. -/
structure SizedAlike (m n : Machine) : Prop where
  increment : m.registers.increment = n.registers.increment
  limit : m.registers.limit = n.registers.limit
  capacity : m.registers.capacity = n.registers.capacity
  growths : m.stats.growths = n.stats.growths

variable {p : Program} {c : Config} {m n x y z a b : Machine} {entry rootSize : Nat} {v : Word}

namespace SizedAlike

/-- The same room is granted, or refused. -/
theorem room_eq (h : x.SizedAlike y) (required : Nat) :
    x.registers.room required = y.registers.room required := by
  rw [RegisterFile.room, RegisterFile.room, h.increment, h.limit, h.capacity]

/-- Machines that use the same number of registers stay of the same size. -/
theorem recorded (h : x.SizedAlike y) (ha : x.Recorded a) (hb : y.Recorded b)
    (hinUse : a.registers.inUse = b.registers.inUse) : a.SizedAlike b := by
  have hcapacity : a.registers.capacity = b.registers.capacity := by
    have hroom := h.room_eq a.registers.inUse
    rw [ha.room, hinUse, hb.room] at hroom
    exact Except.ok.inj hroom
  constructor
  case increment =>
    calc a.registers.increment = x.registers.increment :=
          congrArg Environment.increment ha.environment
      _ = y.registers.increment := h.increment
      _ = b.registers.increment := (congrArg Environment.increment hb.environment).symm
  case limit =>
    calc a.registers.limit = x.registers.limit :=
          congrArg Environment.registerLimit ha.environment
      _ = y.registers.limit := h.limit
      _ = b.registers.limit := (congrArg Environment.registerLimit hb.environment).symm
  case capacity => exact hcapacity
  case growths => rw [ha.growths, hb.growths, h.growths, h.capacity, hcapacity]

/-- What one of two machines of the same size lacks is a frame. -/
theorem of_shortage (h : x.SizedAlike y) (hz : x.Recorded z) {cause : Exhaustion}
    (hshort : Shortage y z cause) (hle : ∀ l ∈ y.frames.limit, y.frames.live ≤ l) :
    ∃ l ∈ y.frames.limit, cause = .frames l ∧ l < z.frames.live := by
  cases hshort with
  | registers hroom =>
    rw [← h.room_eq, hz.room] at hroom
    cases hroom
  | frames hfull hlive =>
    obtain ⟨l, hl, hfull⟩ := (Option.any_eq_true ..).1 hfull
    have hlimit := hle l hl
    have hreached : l ≤ y.frames.live := of_decide_eq_true hfull
    obtain rfl : l = y.frames.live := Nat.le_antisymm hreached hlimit
    exact ⟨_, hl, rfl, by omega⟩

end SizedAlike

section

variable (hm : m.Resting) (hn : n.Resting) (halike : m.fresh.Alike n.fresh)
  (hsized : m.fresh.SizedAlike n.fresh)

include hm hn halike hsized

/-- **Executions of machines of the same size stay of the same size.** -/
theorem Paired.sizedAlike (h : Paired m n entry rootSize x y) : x.SizedAlike y := by
  induction h with
  | start hroot hroot' hx hy =>
    exact hsized.recorded (hm.fresh.recorded_of_start hx) (hn.fresh.recorded_of_start hy)
      ((hm.inUse_of_start hroot hx).trans (hn.inUse_of_start hroot' hy).symm)
  | step h hx hy ih =>
    obtain ⟨hrecorded, hrecorded', hinUse⟩ := h.recorded hm hn halike hx hy
    exact ih.recorded hrecorded hrecorded' hinUse

/-- Executions that return leave machines of the same size. -/
theorem Paired.sizedAlike_of_finished (h : Paired m n entry rootSize x y)
    (hx : x.step = .finished v a) (hy : y.step = .finished v b) : a.SizedAlike b := by
  obtain ⟨fs, hlive, hlive', -⟩ := h.live hm hn halike
  have hrecorded := (hm.recorded_of_finished h.fetches hx).1
  have hrecorded' := (hn.recorded_of_finished h.symm.fetches hy).1
  exact (h.sizedAlike hm hn halike hsized).recorded hrecorded hrecorded'
    ((hlive.of_finished hx).inUse.trans (hlive'.of_finished hy).inUse.symm)

/-- **Machines of the same size are parted by the limit on frames,** at a frame above it. -/
theorem Parting.of_sizedAlike {stop : Stop} (h : Parting m n entry rootSize stop) :
    ∃ l ∈ n.frames.limit, stop = .exhausted (.frames l) ∧
      ∃ z, m.Fetches entry rootSize z ∧ l < z.frames.live := by
  cases h with
  | @root z cause hz hstart hshort =>
    have hlive : n.fresh.frames.live = 0 := hn.fresh.frames.live
    have hle : ∀ l ∈ n.fresh.frames.limit, n.fresh.frames.live ≤ l := by
      intro l _
      rw [hlive]
      exact Nat.zero_le l
    obtain ⟨l, hl, rfl, hlt⟩ :=
      hsized.of_shortage (hm.fresh.recorded_of_start hstart) hshort hle
    exact ⟨l, hl, rfl, z, hz, hlt⟩
  | @callee x y z cause hpaired hz _ hshort =>
    obtain ⟨fs, hlive⟩ := hn.live_of_fetches hpaired.symm.fetches
    have hrecorded := hm.recorded_of_running hpaired.fetches hz
    obtain ⟨l, hl, rfl, hlt⟩ := (hpaired.sizedAlike hm hn halike hsized).of_shortage hrecorded
      hshort hlive.live_le
    have hlimit : y.frames.limit = n.frames.limit :=
      congrArg Environment.frameLimit (hn.environment_of_fetches hpaired.symm.fetches)
    exact ⟨l, hlimit ▸ hl, rfl, z, hpaired.fetches.tail hz, hlt⟩
  | operand hpaired _ _ hlt hle =>
    have hcapacity := (hpaired.sizedAlike hm hn halike hsized).capacity
    omega

/-- Executions of machines of the same size that return end in the same state, but for the
frames. -/
theorem Paired.eq_of_finished (h : Paired m n entry rootSize x y)
    (hx : x.step = .finished v a) (hy : y.step = .finished v b) (hend : a.Alike b) :
    b.registers = a.registers ∧ b.stats = a.stats ∧ b.pc = a.pc := by
  obtain ⟨fs, hlive, hlive', -⟩ := h.live hm hn halike
  have hsized' := h.sizedAlike_of_finished hm hn halike hsized hx hy
  have hinUse := (hlive.of_finished hx).inUse.trans (hlive'.of_finished hy).inUse.symm
  refine ⟨?_, ?_, hend.pc.symm⟩
  · exact (RegisterFile.eq_of_word hsized'.capacity hend.word hinUse hsized'.increment
      hsized'.limit).symm
  · exact (hend.stats.eq_of_growths hsized'.growths).symm

end

/-- An execution that returns has kept to the limit on frames. -/
theorem Resting.maxDepth_le_of_finished (hn : n.Resting) (hy : n.Fetches entry rootSize y)
    (hstep : y.step = .finished v b) {l : Nat} (hl : l ∈ n.frames.limit) :
    b.stats.maxDepth ≤ l := by
  obtain ⟨hrecorded, hobserved⟩ := hn.recorded_of_finished hy hstep
  have henvironment := hrecorded.environment.trans (hn.environment_of_fetches hy)
  have hlimit : b.frames.limit = n.frames.limit := congrArg Environment.frameLimit henvironment
  exact hobserved.maxDepth_le l (hlimit ▸ hl)

/-- A configuration that gives a machine gives one also with another limit on frames. -/
theorem exists_ofConfig_of_maxFrames (hm : ofConfig p c = .ok m) (maxFrames : Option Word) :
    ∃ n, ofConfig p { c with maxFrames } = .ok n ∧ n.registers = m.registers := by
  unfold ofConfig at hm
  split at hm
  · rename_i registers hregisters
    obtain rfl := Except.ok.inj hm
    have hregisters' : RegisterFile.ofConfig { c with maxFrames } = .ok registers := hregisters
    rw [ofConfig, hregisters']
    exact ⟨_, rfl, rfl⟩
  · cases hm

/-- **A limit on frames is sharp, and otherwise invisible.**  Take an execution of a new
machine that returns, such as one without a limit on frames.  With a limit of at least the
depth it records, the execution returns the same word and leaves the same registers and
statistics; with a smaller limit it stops at the first frame above it, and at nothing else. -/
theorem execute_of_maxFrames (hm : ofConfig p c = .ok m)
    (hv : m.execute entry rootSize = (.ok v, a)) (limit : Word) :
    ∃ n, ofConfig p { c with maxFrames := some limit } = .ok n ∧
      (a.stats.maxDepth ≤ limit.toNat → ∃ b, n.execute entry rootSize = (.ok v, b) ∧
        b.registers = a.registers ∧ b.stats = a.stats ∧ b.pc = a.pc) ∧
      (limit.toNat < a.stats.maxDepth →
        (n.execute entry rootSize).1 = .error (.exhausted (.frames limit.toNat))) := by
  obtain ⟨n, hn, hregisters⟩ := exists_ofConfig_of_maxFrames hm (some limit)
  obtain ⟨-, hm', -⟩ := resting_of_ofConfig hm
  obtain ⟨henvironment, hn', hpoisoned⟩ := resting_of_ofConfig hn
  have halike := (alike_of_ofConfig hm hn).fresh
  have hsized : m.fresh.SizedAlike n.fresh := by
    have hregisters' : n.fresh.registers = m.fresh.registers := hregisters
    exact ⟨by rw [hregisters'], by rw [hregisters'], by rw [hregisters'], rfl⟩
  have hlimit : n.frames.limit = some limit.toNat :=
    congrArg Environment.frameLimit henvironment
  obtain ⟨hrefusal, -⟩ := hm'.run_of_execute hv
  have hidle : n.Idle := ⟨hpoisoned, hn'.frames.live⟩
  have hrefusal' := hidle.refusal? (refusal?_eq_none_iff.1 hrefusal).2.1
  refine ⟨n, hn, ?_⟩
  rcases hm'.returns_or_parts hn' halike hrefusal' hv with
    ⟨x, y, b, hpaired, hx, hy, hend, hw⟩ | ⟨stop, hparting, hstop⟩
  · constructor
    · intro _
      exact ⟨b, hw, hpaired.eq_of_finished hm' hn' halike hsized hx hy hend⟩
    · have hdepth := hn'.maxDepth_le_of_finished hpaired.symm.fetches hy hlimit
      rw [hend.stats.maxDepth]
      exact fun hlt => absurd hdepth (Nat.not_le.2 hlt)
  · obtain ⟨l, hl, rfl, z, hz, hlt⟩ := hparting.of_sizedAlike hm' hn' halike hsized
    obtain rfl : limit.toNat = l := Option.some.inj (hlimit.symm.trans hl)
    have hrecord := (hm'.le_records_of_fetches hz hv).1
    constructor
    · intro hle
      omega
    · exact fun _ => hstop

/-- The hypotheses are satisfiable: the callee of a callee needs three frames, and registers
that are made for it. -/
theorem execute_of_maxFrames_of_callees :
    ∃ m a, ofConfig ⟨#[.call 2 1 0, .ret, .call 4 2 0, .ret, .increment 0, .ret], by decide⟩
        { initialRegisters := 1, growthIncrement := 1 } = .ok m ∧
      m.execute 0 1 = (.ok 1, a) ∧ a.stats.maxDepth = 3 ∧
      (∃ n b, ofConfig ⟨#[.call 2 1 0, .ret, .call 4 2 0, .ret, .increment 0, .ret], by decide⟩
          { initialRegisters := 1, growthIncrement := 1, maxFrames := some 3 } = .ok n ∧
        n.execute 0 1 = (.ok 1, b) ∧ b.registers = a.registers ∧ b.stats = a.stats) ∧
      ∃ n, ofConfig ⟨#[.call 2 1 0, .ret, .call 4 2 0, .ret, .increment 0, .ret], by decide⟩
          { initialRegisters := 1, growthIncrement := 1, maxFrames := some 2 } = .ok n ∧
        (n.execute 0 1).1 = .error (.exhausted (.frames 2)) := by
  obtain ⟨m, hm, hseen⟩ : ∃ m, ofConfig
      ⟨#[.call 2 1 0, .ret, .call 4 2 0, .ret, .increment 0, .ret], by decide⟩
      { initialRegisters := 1, growthIncrement := 1 } = .ok m ∧
      ((m.execute 0 1).1, (m.execute 0 1).2.stats.maxDepth) = (.ok 1, 3) :=
    ⟨_, rfl, execute_of_runWithin (k := 6) (f := fun e => (e.1, e.2.stats.maxDepth)) rfl rfl
      (by decide +kernel)⟩
  obtain ⟨hv, hdepth⟩ := Prod.mk.inj hseen
  have hv : m.execute 0 1 = (.ok 1, (m.execute 0 1).2) := Prod.ext hv rfl
  refine ⟨m, _, hm, hv, hdepth, ?_, ?_⟩
  · obtain ⟨n, hn, hreturns, -⟩ := execute_of_maxFrames hm hv 3
    obtain ⟨b, hw, hregisters, hstats, -⟩ := hreturns (Nat.le_of_eq hdepth)
    exact ⟨n, b, hn, hw, hregisters, hstats⟩
  · obtain ⟨n, hn, -, hstops⟩ := execute_of_maxFrames hm hv 2
    exact ⟨n, hn, hstops (hdepth ▸ by decide)⟩

end Machine
end WindowVM
