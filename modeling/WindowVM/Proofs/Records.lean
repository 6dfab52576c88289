/-
# What a run records

A step does the same to the capacity of the register file and to the records of a machine,
whatever its instruction is: the file follows the rule of growth for the registers that are in
use after the step, a change of the capacity is counted, and the records take in the frames
that are live and the registers that are in use (`Live.recorded`).  `Observed` is the
invariant this keeps: the records cover the present state, and stay within the limits.

So the records at the end of an execution are no less than what was live or in use at any of
its fetches (`Resting.le_records_of_fetches`).
-/

import WindowVM.Proofs.FrameChain
import WindowVM.Proofs.RunLength

namespace WindowVM

/-- Registers that exist are granted as they are. -/
theorem RegisterFile.room_of_le {r : RegisterFile} {required : Nat} (hle : required ≤ r.capacity)
    (hword : r.capacity < 2 ^ 64) : r.room required = .ok r.capacity := by
  rw [room, growthRule, if_neg (by omega), if_pos hle]

namespace Machine

variable {m n x : Machine} {entry rootSize : Nat} {fs : List Frame}

/-- How the machine `n` came out of `m`, whatever was carried out in between. -/
structure Recorded (m n : Machine) : Prop where
  environment : n.environment = m.environment
  /-- The capacity follows the rule of growth. -/
  room : m.registers.room n.registers.inUse = .ok n.registers.capacity
  growths : n.stats.growths =
    if n.registers.capacity = m.registers.capacity then m.stats.growths else m.stats.growths + 1
  maxDepth : n.stats.maxDepth = max m.stats.maxDepth n.frames.live
  peakRegisters : n.stats.peakRegisters = max m.stats.peakRegisters n.registers.inUse

/-- The records cover what is live and in use, and what is recorded was within the limits. -/
structure Observed (m : Machine) : Prop where
  live_le : m.frames.live ≤ m.stats.maxDepth
  inUse_le : m.registers.inUse ≤ m.stats.peakRegisters
  maxDepth_le : ∀ l ∈ m.frames.limit, m.stats.maxDepth ≤ l
  peakRegisters_le : m.stats.peakRegisters ≤ m.registers.capacity

theorem growths_extend (m : Machine) (capacity len : Nat) :
    (m.extend capacity len).stats.growths =
      if capacity = m.registers.capacity then m.stats.growths else m.stats.growths + 1 := by
  simp only [extend]
  split <;> rfl

theorem peakRegisters_extend (m : Machine) (capacity len : Nat) :
    (m.extend capacity len).stats.peakRegisters = m.stats.peakRegisters := by
  simp only [extend]
  split <;> rfl

/-- The count of a dispatch is not a record. -/
theorem Recorded.of_counted {i : Instruction} (h : (m.counted i).Recorded n) : m.Recorded n :=
  ⟨h.environment, h.room, h.growths, h.maxDepth, h.peakRegisters⟩

/-- The state after a frame was made. -/
theorem recorded_entering (hincrement : 0 < m.registers.increment) {capacity len : Nat}
    (hroom : m.registers.room (m.registers.inUse + len) = .ok capacity) {frames : CallStack}
    (hlimit : frames.limit = m.frames.limit) (target : Nat) :
    m.Recorded ((m.extend capacity len).entering frames target) := by
  have hcapacity : (m.registers.extend capacity len).capacity = capacity :=
    RegisterFile.capacity_extend (growthRule_eq_ok hincrement hroom).1
  constructor
  case environment => exact m.environment_of_limit hlimit
  case room => exact hroom.trans (congrArg Except.ok hcapacity.symm)
  case growths =>
    change _ = if (m.registers.extend capacity len).capacity = m.registers.capacity then _ else _
    rw [hcapacity]
    exact growths_extend m capacity len
  case maxDepth => exact congrArg (max · _) (maxDepth_extend m capacity len)
  case peakRegisters => exact congrArg (max · _) (peakRegisters_extend m capacity len)

/-- The state after a step that makes no frame. -/
theorem Observed.recorded (ho : m.Observed) (hfits : m.registers.Fits)
    (henvironment : n.environment = m.environment)
    (hcapacity : n.registers.capacity = m.registers.capacity)
    (hinUse : n.registers.inUse ≤ m.registers.inUse) (hlive : n.frames.live ≤ m.frames.live)
    (hstats : ∃ op, n.stats = m.stats.count op) : m.Recorded n := by
  have hword : m.registers.capacity < 2 ^ 64 := Nat.lt_trans hfits.capacity_lt (by decide)
  obtain ⟨op, hstats⟩ := hstats
  constructor
  case environment => exact henvironment
  case room =>
    rw [hcapacity]
    exact RegisterFile.room_of_le (Nat.le_trans hinUse hfits.inUse_le) hword
  case growths =>
    rw [if_pos hcapacity, hstats]
    rfl
  case maxDepth =>
    rw [Nat.max_eq_left (Nat.le_trans hlive ho.live_le), hstats]
    rfl
  case peakRegisters =>
    rw [Nat.max_eq_left (Nat.le_trans hinUse ho.inUse_le), hstats]
    rfl

/-- A return leaves fewer frames live. -/
theorem Live.live_le_of_holds {f : Frame} (h : m.Live rootSize (f :: fs)) {frames : CallStack}
    (hframes : frames.Holds fs) : frames.live ≤ m.frames.live := by
  rw [hframes.live, h.frames.live]
  exact Nat.le_succ _

/-- **Each step that does not stop short is recorded.** -/
theorem Live.recorded {q : Progress} (h : m.Live rootSize fs) (ho : m.Observed)
    (hstep : m.step = q) (hq : ∀ stop e, q ≠ .stopped stop e) : m.Recorded q.machine := by
  have henvironment := (h.environment_eq hstep).1
  obtain ⟨f, fs, rfl, htransition⟩ := h.exists_transition hstep
  have hinUse : m.registers.inUse = f.window.base + f.window.len := h.inUse
  cases htransition with
  | wrote =>
    exact ho.recorded h.fits henvironment (RegisterFile.capacity_write ..) (Nat.le_refl _)
      (Nat.le_refl _) ⟨_, rfl⟩
  | @entered target frameSize destination capacity frames _ _ _ hroom _ _ hlimit =>
    have hlive := h.counted (.call target frameSize destination)
    exact (recorded_entering hlive.fits.increment_pos hroom hlimit target.toNat).of_counted
  | returned _ _ hframes =>
    refine ho.recorded h.fits henvironment (RegisterFile.capacity_write ..) ?_ ?_ ⟨_, rfl⟩
    · change f.window.base ≤ m.registers.inUse
      omega
    · exact h.live_le_of_holds hframes
  | finished _ _ hframes =>
    refine ho.recorded h.fits henvironment rfl ?_ ?_ ⟨_, rfl⟩
    · change f.window.base ≤ m.registers.inUse
      omega
    · exact h.live_le_of_holds hframes
  | _ => exact absurd rfl (hq _ _)

/-- What is recorded stays within the limits. -/
theorem Recorded.observed (h : m.Recorded n) (ho : m.Observed) (hm : m.registers.Fits)
    (hn : n.registers.Fits) (hlive : ∀ l ∈ n.frames.limit, n.frames.live ≤ l) : n.Observed := by
  have hlimit : n.frames.limit = m.frames.limit := congrArg Environment.frameLimit h.environment
  have hcapacity := (growthRule_eq_ok hm.increment_pos h.room).1
  constructor
  case live_le => exact h.maxDepth ▸ Nat.le_max_right ..
  case inUse_le => exact h.peakRegisters ▸ Nat.le_max_right ..
  case maxDepth_le =>
    intro l hl
    rw [h.maxDepth]
    exact Nat.max_le.2 ⟨ho.maxDepth_le l (hlimit ▸ hl), hlive l hl⟩
  case peakRegisters_le =>
    rw [h.peakRegisters]
    exact Nat.max_le.2 ⟨Nat.le_trans ho.peakRegisters_le hcapacity, hn.inUse_le⟩

/-! ### The records of an execution -/

/-- Fresh counters record nothing, and nothing is live. -/
theorem Resting.observed (h : m.Resting) : m.fresh.Observed :=
  ⟨Nat.le_of_eq h.frames.live, Nat.le_of_eq h.inUse, fun _ _ => Nat.zero_le _, Nat.zero_le _⟩

/-- The root frame is recorded. -/
theorem Resting.recorded_of_start (h : m.Resting) (hstart : m.start entry rootSize = (.ok (), n)) :
    m.Recorded n := by
  have hopening := h.opening entry rootSize
  rw [hstart] at hopening
  cases hopening with
  | opened hroom _ _ hlimit =>
    exact recorded_entering h.fits.increment_pos (by rwa [h.inUse, Nat.zero_add]) hlimit entry

/-- The root frame uses the first registers. -/
theorem Resting.inUse_of_start (h : m.Resting) (hrefusal : m.refusal? rootSize = none)
    (hstart : m.fresh.start entry rootSize = (.ok (), n)) : n.registers.inUse = rootSize := by
  have hpos := (refusal?_eq_none_iff.1 hrefusal).2.1
  have hinUse := (h.fresh.live_of_start hpos hstart).1.inUse
  exact hinUse.trans (Nat.zero_add rootSize)

/-- The frames at a fetch keep to the limit. -/
theorem Live.live_le (h : m.Live rootSize fs) : ∀ l ∈ m.frames.limit, m.frames.live ≤ l := by
  intro l hl
  rw [h.frames.live]
  exact h.length_le l hl

/-- Between two fetches of a run the records only grow. -/
theorem Live.observed_of_reaches (h : m.Live rootSize fs) (ho : m.Observed) (hr : Reaches m n) :
    n.Observed ∧ m.stats.maxDepth ≤ n.stats.maxDepth ∧
      m.stats.peakRegisters ≤ n.stats.peakRegisters := by
  induction hr with
  | refl => exact ⟨ho, Nat.le_refl _, Nat.le_refl _⟩
  | tail hr hstep ih =>
    obtain ⟨ho', hdepth, hpeak⟩ := ih
    obtain ⟨gs, hlive⟩ := h.of_reaches hr
    obtain ⟨hs, hnext⟩ := hlive.of_running hstep
    have hrecorded := hlive.recorded ho' hstep (by simp)
    refine ⟨hrecorded.observed ho' hlive.fits hnext.fits hnext.live_le, ?_, ?_⟩
    · exact hrecorded.maxDepth ▸ Nat.le_trans hdepth (Nat.le_max_left ..)
    · exact hrecorded.peakRegisters ▸ Nat.le_trans hpeak (Nat.le_max_left ..)

/-- The return of the root is recorded too. -/
theorem Live.observed_of_finished {v : Word} (h : m.Live rootSize fs) (ho : m.Observed)
    (hstep : m.step = .finished v n) : m.Recorded n ∧ n.Observed := by
  have hrecorded : m.Recorded n := h.recorded ho hstep (by simp)
  have hresting := h.of_finished hstep
  refine ⟨hrecorded, hrecorded.observed ho h.fits hresting.fits ?_⟩
  intro l _
  rw [hresting.frames.live]
  exact Nat.zero_le l

/-- A step leads from a fetch to the next. -/
theorem Fetches.tail (h : m.Fetches entry rootSize x) (hstep : x.step = .running n) :
    m.Fetches entry rootSize n := by
  obtain ⟨hrefusal, s, hstart, hreaches⟩ := h
  exact ⟨hrefusal, s, hstart, Relation.ReflTransGen.tail hreaches hstep⟩

/-- At each fetch of an execution frames are live. -/
theorem Resting.live_of_fetches (h : m.Resting) (hx : m.Fetches entry rootSize x) :
    ∃ fs, x.Live rootSize fs := by
  obtain ⟨hrefusal, s, hstart, hreaches⟩ := hx
  exact (h.live_of_fetch (refusal?_eq_none_iff.1 hrefusal).2.1 hstart hreaches).1

/-- The limits are the same at each fetch. -/
theorem Resting.environment_of_fetches (h : m.Resting) (hx : m.Fetches entry rootSize x) :
    x.environment = m.environment := by
  obtain ⟨hrefusal, s, hstart, hreaches⟩ := hx
  exact (h.live_of_fetch (refusal?_eq_none_iff.1 hrefusal).2.1 hstart hreaches).2.1

/-- At each fetch of an execution the records cover what is live and in use. -/
theorem Resting.observed_of_fetches (h : m.Resting) (hx : m.Fetches entry rootSize x) :
    x.Observed := by
  obtain ⟨hrefusal, s, hstart, hreaches⟩ := hx
  obtain ⟨hlive, -, -⟩ := h.fresh.live_of_start (refusal?_eq_none_iff.1 hrefusal).2.1 hstart
  have hopened := h.fresh.recorded_of_start hstart
  have ho := hopened.observed h.observed h.fresh.fits hlive.fits hlive.live_le
  exact (hlive.observed_of_reaches ho hreaches).1

/-- Each step of an execution is recorded. -/
theorem Resting.recorded_of_running (h : m.Resting) (hx : m.Fetches entry rootSize x)
    (hstep : x.step = .running n) : x.Recorded n := by
  obtain ⟨fs, hlive⟩ := h.live_of_fetches hx
  exact hlive.recorded (h.observed_of_fetches hx) hstep (by simp)

/-- The last step of an execution that returns is recorded, and leaves records that cover it. -/
theorem Resting.recorded_of_finished (h : m.Resting) (hx : m.Fetches entry rootSize x) {v : Word}
    (hstep : x.step = .finished v n) : x.Recorded n ∧ n.Observed := by
  obtain ⟨fs, hlive⟩ := h.live_of_fetches hx
  exact hlive.observed_of_finished (h.observed_of_fetches hx) hstep

/-- The end of an execution keeps the outcome of its run. -/
theorem Live.settle_run_fst (h : m.Live rootSize fs) : (settle m.run).1 = m.run.1 := by
  obtain ⟨last, hr, ⟨w, e, -, hrun⟩ | ⟨stop, e, hstep, hrun⟩⟩ := exists_last_fetch m
  · rw [hrun]
    rfl
  · obtain ⟨gs, hlast⟩ := h.of_reaches hr
    rw [hrun]
    cases stop with
    | fault fault => rfl
    | exhausted cause =>
      obtain ⟨frames, -, -, hsettle⟩ := settle_exhausted (hlast.of_exhausted hstep).1 cause
      rw [hsettle]

/-- An execution that returns stops short at none of its fetches. -/
theorem Live.step_ne_stopped_of_settle (h : m.Live rootSize fs) {v : Word}
    (hv : settle m.run = (.ok v, n)) (stop : Stop) (e : Machine) : m.step ≠ .stopped stop e := by
  intro hstep
  have houtcome := h.settle_run_fst
  rw [hv, run_of_stopped hstep] at houtcome
  cases houtcome

/-- **What an execution records in the end** is no less than what was live or in use at any
of its fetches. -/
theorem Resting.le_records_of_fetches (h : m.Resting) (hx : m.Fetches entry rootSize x) {v : Word}
    (hv : m.execute entry rootSize = (.ok v, n)) :
    x.frames.live ≤ n.stats.maxDepth ∧ x.registers.inUse ≤ n.stats.peakRegisters := by
  have ho := h.observed_of_fetches hx
  obtain ⟨gs, hlive⟩ := h.live_of_fetches hx
  obtain ⟨hrefusal, s, hstart, hreaches⟩ := hx
  rw [execute_eq_settle hrefusal hstart hreaches] at hv
  obtain ⟨last, hr, ⟨w, e, hstep, hrun⟩ | ⟨stop, e, hstep, hrun⟩⟩ := exists_last_fetch x
  · rw [hrun] at hv
    obtain rfl : e = n := congrArg Prod.snd hv
    obtain ⟨ho', hdepth, hpeak⟩ := hlive.observed_of_reaches ho hr
    obtain ⟨hs, hlast⟩ := hlive.of_reaches hr
    have hrecorded := (hlast.observed_of_finished ho' hstep).1
    constructor
    · calc x.frames.live ≤ x.stats.maxDepth := ho.live_le
        _ ≤ last.stats.maxDepth := hdepth
        _ ≤ e.stats.maxDepth := hrecorded.maxDepth ▸ Nat.le_max_left ..
    · calc x.registers.inUse ≤ x.stats.peakRegisters := ho.inUse_le
        _ ≤ last.stats.peakRegisters := hpeak
        _ ≤ e.stats.peakRegisters := hrecorded.peakRegisters ▸ Nat.le_max_left ..
  · have houtcome := hlive.settle_run_fst
    rw [hv, hrun] at houtcome
    simp at houtcome

end Machine
end WindowVM
