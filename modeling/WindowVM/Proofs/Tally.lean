/-
# The statistics tell the truth

A machine counts a dispatch before the instruction takes effect, a growth before the frame
is made that it is for, and the depth and the registers in use after that.  So no counter
describes the state it is kept in, and the statistics are compared here with what an
execution went through: the machines at its dispatches (`Dispatches`).

`Tallied` is what one dispatch does to every counter, and `Totals` is what a run does, by
induction over its trace.  `Trace.balance` is the double entry: each `call` makes a frame and
each `ret` destroys one, save for the `call` that runs out of room.
-/

import Mathlib.Tactic.IntervalCases
import WindowVM.Proofs.Records

namespace WindowVM

/-- How often a number differs from the one before it. -/
def changes (l : List Nat) : Nat := (l.zip l.tail).countP fun x => x.1 ≠ x.2

/-- The greatest of some numbers, and 0 if there is none. -/
def greatest (l : List Nat) : Nat := l.foldr max 0

theorem changes_cons_cons (a b : Nat) (l : List Nat) :
    changes (a :: b :: l) = changes [a, b] + changes (b :: l) :=
  @List.countP_append _ _ [(a, b)] _

theorem add_changes (k a b : Nat) : k + changes [a, b] = if b = a then k else k + 1 := by
  by_cases h : b = a
  · subst h
    simp [changes]
  · simp [changes, h, Ne.symm h]

/-- The windows of nested frames lie next to each other, from register 0 on. -/
theorem Nested.sum_len {p : Program} {rootSize : Nat} {fs : List Frame}
    (h : Nested p rootSize fs) : (fs.map (·.window.len)).sum = extent fs := by
  induction h with
  | root => simp [extent]
  | call _ _ _ _ ih =>
    rw [List.map_cons, List.sum_cons, ih]
    exact Nat.add_comm ..

namespace Stats

/-- Every opcode has its own counter. -/
theorem total_eq (s : Stats) :
    s.total = (Opcode.all.map fun op => (s.dispatched op).toNat).sum := by
  have hcounts : s.counts.toList = Opcode.all.map s.dispatched := by
    refine List.ext_getElem (by simp [Opcode.all]) ?_
    intro i hi _
    have hi : i < 8 := by simpa using hi
    interval_cases i <;> rfl
  rw [total, hcounts, List.sum_eq_foldr, List.foldr_map, List.foldr_map]

theorem dispatched_count_eq (s : Stats) (op other : Opcode) :
    (s.count op).dispatched other =
      s.dispatched other + UInt64.ofNat (if op = other then 1 else 0) := by
  by_cases h : op = other
  · subst h
    rw [dispatched_count, if_pos rfl]
    rfl
  · rw [dispatched_count_of_ne s (Ne.symm h), if_neg h]
    exact (UInt64.add_zero _).symm

/-- Fresh counters have counted nothing. -/
theorem dispatched_fresh (op : Opcode) : ({} : Stats).dispatched op = 0 := by
  cases op <;> rfl

end Stats

namespace Machine

variable {p : Program} {c : Config} {m n s : Machine} {entry rootSize : Nat} {f : Frame}
  {fs : List Frame} {ms : List Machine} {e : Except Stop Word × Machine} {i : Instruction}

/-- The opcode of the instruction to fetch. -/
def opcode? (m : Machine) : Option Opcode := (m.program.get? m.pc).map (·.opcode)

/-- How many of these machines fetch an instruction of the opcode. -/
def tally (op : Opcode) (ms : List Machine) : Nat := ms.countP (·.opcode? = some op)

/-- How many registers the windows of the live frames have together. -/
def windowed (m : Machine) : Nat := (m.frames.chain.map (·.window.len)).sum

/-- The `call`s of a run with this outcome that made no frame. -/
def unmade : Except Stop Word → Nat
  | .ok _ => 0
  | .error _ => 1

/-- Those of these machines that have more live frames than the one before: each is the
state right after a frame was made. -/
def creations (ms : List Machine) : List Machine :=
  ((ms.zip ms.tail).filter fun x => x.1.frames.live < x.2.frames.live).map (·.2)

theorem tally_cons (op : Opcode) (m : Machine) (ms : List Machine) :
    tally op (m :: ms) = tally op ms + if m.opcode? = some op then 1 else 0 := by
  simp only [tally, List.countP_cons, decide_eq_true_eq]

theorem tally_cons_append (op : Opcode) (m : Machine) (ms : List Machine) :
    tally op (m :: ms) = tally op [m] + tally op ms :=
  @List.countP_append _ _ [m] ms

theorem creations_cons_of_lt (h : m.frames.live < n.frames.live) (ms : List Machine) :
    creations (m :: n :: ms) = n :: creations (n :: ms) := by
  simp [creations, h]

theorem creations_cons_of_le (h : n.frames.live ≤ m.frames.live) (ms : List Machine) :
    creations (m :: n :: ms) = creations (n :: ms) := by
  simp [creations, Nat.not_lt.2 h]

/-- A record that takes in a frame when it is made is the greatest over the creations. -/
theorem max_greatest_creations (size : Machine → Nat) (k : Nat) (m n : Machine)
    (ms : List Machine) :
    max (if m.frames.live < n.frames.live then max k (size n) else k)
        (greatest ((creations (n :: ms)).map size)) =
      max k (greatest ((creations (m :: n :: ms)).map size)) := by
  by_cases hlive : m.frames.live < n.frames.live
  · rw [if_pos hlive, creations_cons_of_lt hlive, max_assoc]
    rfl
  · rw [if_neg hlive, creations_cons_of_le (Nat.not_lt.1 hlive)]

theorem Live.windowed_eq (h : m.Live rootSize fs) : m.windowed = m.registers.inUse := by
  rw [windowed, h.frames.chain, h.nested.sum_len, h.inUse]

/-! ### One dispatch -/

/-- What the dispatch of an instruction with the opcode `op`, which leads from `m` to `n`,
does to the counters. -/
structure Tallied (m : Machine) (op : Opcode) (n : Machine) : Prop where
  counts : n.stats.counts = (m.stats.count op).counts
  growths : n.stats.growths =
    m.stats.growths + changes [m.registers.capacity, n.registers.capacity]
  maxDepth : n.stats.maxDepth =
    if m.frames.live < n.frames.live then max m.stats.maxDepth n.frames.live
    else m.stats.maxDepth
  peakRegisters : n.stats.peakRegisters =
    if m.frames.live < n.frames.live then max m.stats.peakRegisters n.windowed
    else m.stats.peakRegisters

/-- A dispatch that makes no frame and leaves the capacity as it is. -/
theorem tallied_of_count {op : Opcode} (hstats : n.stats = m.stats.count op)
    (hcapacity : n.registers.capacity = m.registers.capacity)
    (hlive : n.frames.live ≤ m.frames.live) : m.Tallied op n := by
  constructor
  case counts => rw [hstats]
  case growths =>
    rw [add_changes, if_pos hcapacity, hstats]
    rfl
  case maxDepth =>
    rw [if_neg (Nat.not_lt.2 hlive), hstats]
    rfl
  case peakRegisters =>
    rw [if_neg (Nat.not_lt.2 hlive), hstats]
    rfl

theorem counts_extend (m : Machine) (capacity len : Nat) :
    (m.extend capacity len).stats.counts = m.stats.counts := by
  simp only [extend]
  split <;> rfl

/-- Fresh counters have counted no dispatch when the root frame gets its registers. -/
theorem dispatched_extend_fresh (m : Machine) (capacity len : Nat) (op : Opcode) :
    (m.fresh.extend capacity len).stats.dispatched op = 0 := by
  rw [Stats.dispatched, counts_extend]
  exact Stats.dispatched_fresh op

/-- A growth for a frame that is not made yet is counted. -/
theorem growths_extend_eq {capacity : Nat} (h : m.registers.capacity ≤ capacity) (len : Nat) :
    (m.extend capacity len).stats.growths = m.stats.growths +
      changes [m.registers.capacity, (m.extend capacity len).registers.capacity] := by
  have hcapacity : (m.extend capacity len).registers.capacity = capacity :=
    RegisterFile.capacity_extend h
  rw [growths_extend, add_changes, hcapacity]

/-- Registers handed out for a frame that is not made yet. -/
theorem tallied_extend (hincrement : 0 < m.registers.increment) {len capacity : Nat}
    (hroom : m.registers.room (m.registers.inUse + len) = .ok capacity) (i : Instruction) :
    m.Tallied i.opcode ((m.counted i).extend capacity len) := by
  constructor
  case counts => exact counts_extend ..
  case growths =>
    exact growths_extend_eq (m := m.counted i) (growthRule_eq_ok hincrement hroom).1 len
  case maxDepth =>
    rw [maxDepth_extend]
    exact (if_neg (Nat.lt_irrefl _)).symm
  case peakRegisters =>
    rw [peakRegisters_extend]
    exact (if_neg (Nat.lt_irrefl _)).symm

/-- A frame that is made over the present ones. -/
theorem Tallied.entering {op : Opcode} (h : m.Tallied op n) (hkept : n.frames = m.frames)
    {frames : CallStack} {target : Nat} (hlive : m.frames.live < frames.live)
    (hwindowed : (n.entering frames target).windowed = n.registers.inUse) :
    m.Tallied op (n.entering frames target) := by
  have hle : ¬ m.frames.live < n.frames.live := by
    rw [hkept]
    exact Nat.lt_irrefl _
  constructor
  case counts => exact h.counts
  case growths => exact h.growths
  case maxDepth =>
    have hdepth := h.maxDepth
    rw [if_neg hle] at hdepth
    exact (congrArg (max · _) hdepth).trans (if_pos hlive).symm
  case peakRegisters =>
    have hpeak := h.peakRegisters
    rw [if_neg hle] at hpeak
    rw [hwindowed]
    exact (congrArg (max · _) hpeak).trans (if_pos hlive).symm

/-- **Each dispatch is tallied,** also when it stops short. -/
theorem Live.tallied {q : Progress} (h : m.Live rootSize fs)
    (hfetch : m.program.get? m.pc = some i) (hstep : m.step = q) :
    m.Tallied i.opcode q.machine := by
  obtain ⟨f, fs, rfl, htransition⟩ := h.exists_transition hstep
  have hopcode {j : Instruction} (hj : m.program.get? m.pc = some j) : i = j :=
    Option.some.inj (hfetch.symm.trans hj)
  have hlive := h.frames.live
  cases htransition with
  | pastEnd hnone => simp [hfetch] at hnone
  | misfit hj | emptyFrame hj | noRegisters hj =>
    obtain rfl := hopcode hj
    exact tallied_of_count rfl rfl (Nat.le_refl _)
  | wrote hj =>
    obtain rfl := hopcode hj
    exact tallied_of_count rfl (RegisterFile.capacity_write ..) (Nat.le_refl _)
  | returned hj _ hframes =>
    obtain rfl := hopcode hj
    exact tallied_of_count rfl (RegisterFile.capacity_write ..) (h.live_le_of_holds hframes)
  | finished hj _ hframes =>
    obtain rfl := hopcode hj
    exact tallied_of_count rfl rfl (h.live_le_of_holds hframes)
  | noFrames hj _ _ hroom =>
    obtain rfl := hopcode hj
    exact tallied_extend h.fits.increment_pos hroom _
  | @entered target frameSize destination capacity frames hj hdestination hsize hroom hfree
      hframes hlimit =>
    obtain rfl := hopcode hj
    have hnext := h.entering hfetch hdestination hsize hroom hfree hframes hlimit
      (.call target frameSize destination)
    refine (tallied_extend h.fits.increment_pos hroom _).entering rfl ?_ hnext.windowed_eq
    rw [hframes.live, hlive]
    exact Nat.lt_succ_self _

/-! ### The balance of a dispatch -/

/-- A dispatch that does not stop short makes a frame if it is a `call`, destroys one if it
is a `ret`, and leaves the number of frames as it is otherwise. -/
theorem Live.balance {q : Progress} (h : m.Live rootSize fs) (hstep : m.step = q)
    (hq : ∀ stop e, q ≠ .stopped stop e) :
    q.machine.frames.live + tally .ret [m] = m.frames.live + tally .call [m] := by
  obtain ⟨f, fs, rfl, htransition⟩ := h.exists_transition hstep
  have hlive := h.frames.live
  rw [List.length_cons] at hlive
  have htally {i : Instruction} (hfetch : m.program.get? m.pc = some i) (op : Opcode) :
      tally op [m] = if i.opcode = op then 1 else 0 := by
    rw [tally_cons, opcode?, hfetch]
    simp [tally]
  cases htransition with
  | @wrote i _ _ hfetch _ hwork =>
    rw [htally hfetch, htally hfetch]
    cases i with
    | ret | call => simp [Instruction.work] at hwork
    | _ => rfl
  | @entered _ _ _ _ frames hfetch _ _ _ _ hframes =>
    rw [htally hfetch, htally hfetch]
    change frames.live + 0 = m.frames.live + 1
    rw [hframes.live, hlive]
    rfl
  | @returned _ frames hfetch _ hframes | @finished frames hfetch _ hframes =>
    rw [htally hfetch, htally hfetch]
    change frames.live + 1 = m.frames.live + 0
    rw [hframes.live, hlive]
  | _ => exact absurd rfl (hq _ _)

/-- Room only runs out at a `call`, which makes no frame. -/
theorem Live.balance_of_exhausted {cause : Exhaustion} (h : m.Live rootSize fs)
    (hstep : m.step = .stopped (.exhausted cause) n) :
    n.frames.live = m.frames.live ∧ m.opcode? = some .call := by
  obtain ⟨f, fs, rfl, htransition⟩ := h.exists_transition hstep
  cases htransition with
  | noRegisters hfetch => exact ⟨rfl, by rw [opcode?, hfetch]; rfl⟩
  | noFrames hfetch => exact ⟨rfl, by rw [opcode?, hfetch]; rfl⟩

/-! ### A run -/

/-- What a run through the machines `ms`, of which `m` is the first, and to `e` does to the
counters. -/
structure Totals (m : Machine) (ms : List Machine) (e : Machine) : Prop where
  dispatched : ∀ op, e.stats.dispatched op = m.stats.dispatched op + UInt64.ofNat (tally op ms)
  growths : e.stats.growths =
    m.stats.growths + changes ((ms ++ [e]).map (·.registers.capacity))
  maxDepth : e.stats.maxDepth =
    max m.stats.maxDepth (greatest ((creations ms).map (·.frames.live)))
  peakRegisters : e.stats.peakRegisters =
    max m.stats.peakRegisters (greatest ((creations ms).map windowed))

theorem Tallied.dispatched_eq (h : m.Tallied i.opcode n)
    (hfetch : m.program.get? m.pc = some i) (op : Opcode) :
    n.stats.dispatched op = m.stats.dispatched op + UInt64.ofNat (tally op [m]) := by
  have hcounts : n.stats.dispatched op = (m.stats.count i.opcode).dispatched op :=
    congrArg (·[op.index]) h.counts
  rw [hcounts, Stats.dispatched_count_eq, tally_cons, opcode?, hfetch]
  simp [tally]

/-- The last dispatch, which makes no frame. -/
theorem Tallied.totals (h : m.Tallied i.opcode n) (hfetch : m.program.get? m.pc = some i)
    (hlive : n.frames.live ≤ m.frames.live) : m.Totals [m] n := by
  constructor
  case dispatched => exact h.dispatched_eq hfetch
  case growths =>
    rw [h.growths]
    rfl
  case maxDepth =>
    rw [h.maxDepth, if_neg (Nat.not_lt.2 hlive)]
    exact (Nat.max_zero _).symm
  case peakRegisters =>
    rw [h.peakRegisters, if_neg (Nat.not_lt.2 hlive)]
    exact (Nat.max_zero _).symm

/-- A dispatch before a run. -/
theorem Totals.cons {e : Machine} (hrest : n.Totals (n :: ms) e) (h : m.Tallied i.opcode n)
    (hfetch : m.program.get? m.pc = some i) : m.Totals (m :: n :: ms) e := by
  constructor
  case dispatched =>
    intro op
    rw [hrest.dispatched, h.dispatched_eq hfetch, UInt64.add_assoc, ← UInt64.ofNat_add,
      tally_cons_append op m (n :: ms)]
  case growths =>
    rw [hrest.growths, h.growths, Nat.add_assoc]
    exact congrArg _ (changes_cons_cons ..).symm
  case maxDepth =>
    rw [hrest.maxDepth, h.maxDepth]
    exact max_greatest_creations (·.frames.live) ..
  case peakRegisters =>
    rw [hrest.peakRegisters, h.peakRegisters]
    exact max_greatest_creations windowed ..

/-- Past the end there is nothing but a fault. -/
theorem exists_fault_of_pastEnd {stop : Stop} (hfetch : m.program.get? m.pc = none)
    (hstep : m.step = .stopped stop n) : ∃ fault, stop = .fault fault := by
  rw [step_of_pastEnd hfetch] at hstep
  cases hstep
  exact ⟨_, rfl⟩

namespace Trace

/-- A run that does not fault starts with a dispatch. -/
theorem exists_cons (h : Trace m ms e) (hfault : ∀ fault, e.1 ≠ .error (.fault fault)) :
    ∃ tail, ms = m :: tail := by
  cases h with
  | pastEnd hfetch hstep =>
    obtain ⟨fault, rfl⟩ := exists_fault_of_pastEnd hfetch hstep
    exact absurd rfl (hfault fault)
  | finished => exact ⟨_, rfl⟩
  | stopped => exact ⟨_, rfl⟩
  | running => exact ⟨_, rfl⟩

/-- **A run adds up its dispatches.** -/
theorem totals (h : Trace m ms e) (hlive : m.Live rootSize fs)
    (hfault : ∀ fault, e.1 ≠ .error (.fault fault)) : m.Totals ms e.2 := by
  induction h generalizing fs with
  | pastEnd hfetch hstep =>
    obtain ⟨fault, rfl⟩ := exists_fault_of_pastEnd hfetch hstep
    exact absurd rfl (hfault fault)
  | @finished m e _ _ hfetch hstep =>
    have hnone : e.frames.live = 0 := (hlive.of_finished hstep).frames.live
    exact (hlive.tallied hfetch hstep).totals hfetch (hnone.trans_le (Nat.zero_le _))
  | @stopped m e i stop hfetch hstep =>
    cases stop with
    | fault fault => exact absurd rfl (hfault fault)
    | exhausted cause =>
      refine (hlive.tallied hfetch hstep).totals hfetch ?_
      exact Nat.le_of_eq (hlive.balance_of_exhausted hstep).1
  | running hfetch hstep htrace ih =>
    obtain ⟨gs, hnext⟩ := hlive.of_running hstep
    obtain ⟨tail, rfl⟩ := htrace.exists_cons hfault
    exact (ih hnext hfault).cons (hlive.tallied hfetch hstep) hfetch

/-- **Calls and returns balance:** what is live in the end was live before or made by a `call`
and not destroyed by a `ret`. -/
theorem balance (h : Trace m ms e) (hlive : m.Live rootSize fs)
    (hfault : ∀ fault, e.1 ≠ .error (.fault fault)) :
    e.2.frames.live + tally .ret ms + unmade e.1 = m.frames.live + tally .call ms := by
  induction h generalizing fs with
  | pastEnd hfetch hstep =>
    obtain ⟨fault, rfl⟩ := exists_fault_of_pastEnd hfetch hstep
    exact absurd rfl (hfault fault)
  | finished hfetch hstep => exact hlive.balance hstep (by simp)
  | @stopped m e i stop hfetch hstep =>
    cases stop with
    | fault fault => exact absurd rfl (hfault fault)
    | exhausted cause =>
      obtain ⟨hkept, hcall⟩ := hlive.balance_of_exhausted hstep
      rw [tally_cons, tally_cons, hcall]
      exact congrArg (· + 1) hkept
  | @running m n i ms e hfetch hstep htrace ih =>
    obtain ⟨gs, hnext⟩ := hlive.of_running hstep
    have hrest := ih hnext hfault
    have hfirst : n.frames.live + tally .ret [m] = m.frames.live + tally .call [m] :=
      hlive.balance hstep (by simp)
    rw [tally_cons_append .ret m ms, tally_cons_append .call m ms]
    omega

end Trace

/-- The root returns when no other frame is live. -/
theorem Live.live_eq_zero_of_returned {v : Word} (h : m.Live rootSize fs)
    (hrun : m.run = (.ok v, n)) : n.frames.live = 0 := by
  obtain ⟨last, hr, ⟨w, e, hstep, hlast⟩ | ⟨stop, e, hstep, hlast⟩⟩ := exists_last_fetch m
  · rw [hrun] at hlast
    cases hlast
    obtain ⟨gs, hlive⟩ := h.of_reaches hr
    exact (hlive.of_finished hstep).frames.live
  · rw [hrun] at hlast
    cases hlast

/-- Room runs out with a frame live, and the end of the execution destroys each that is. -/
theorem Live.unwind_of_exhausted {cause : Exhaustion} (h : m.Live rootSize fs)
    (hrun : m.run = (.error (.exhausted cause), n)) :
    ∃ frames, n.frames.unwind = (.ok n.frames.live, frames) ∧ 1 ≤ n.frames.live ∧
      settle m.run = (.error (.exhausted cause), n.abandoned frames) := by
  obtain ⟨last, hr, ⟨w, e, hstep, hlast⟩ | ⟨stop, e, hstep, hlast⟩⟩ := exists_last_fetch m
  · rw [hrun] at hlast
    cases hlast
  · rw [hrun] at hlast
    cases hlast
    obtain ⟨gs, hlive⟩ := h.of_reaches hr
    have hholds := (hlive.of_exhausted hstep).1
    obtain ⟨frames, hunwind, -, -⟩ := hholds.unwind
    rw [← hholds.live] at hunwind
    refine ⟨frames, hunwind, ?_, ?_⟩
    · rw [(hlive.balance_of_exhausted hstep).1]
      exact Nat.one_le_iff_ne_zero.2 hlive.live_ne_zero
    · rw [hrun, settle, abandon, hunwind]
      rfl

/-- A root that returns made one `ret` more than there were `call`s. -/
theorem Trace.returned {v : Word} (h : Trace m ms (.ok v, n)) (hlive : m.Live rootSize [f]) :
    tally .ret ms = tally .call ms + 1 := by
  have hbalance := h.balance hlive (by simp)
  rw [hlive.live_eq_zero_of_returned h.run_eq, hlive.frames.live] at hbalance
  simp only [unmade, List.length_singleton] at hbalance
  omega

/-- Each `call` without its `ret` is a frame that is live when room runs out. -/
theorem Trace.exhausted {cause : Exhaustion} (h : Trace m ms (.error (.exhausted cause), n))
    (hlive : m.Live rootSize [f]) : tally .call ms = tally .ret ms + n.frames.live := by
  have hbalance := h.balance hlive (by simp)
  rw [hlive.frames.live] at hbalance
  simp only [unmade, List.length_singleton] at hbalance
  omega

/-! ### An execution -/

/-- What the statistics say after an execution of `m` that dispatched at the machines `ms` and
ended with `e`. -/
structure Accounts (m : Machine) (entry rootSize : Nat) (ms : List Machine)
    (e : Except Stop Word × Machine) : Prop where
  /-- A counter is a word, and exact as long as fewer instructions are dispatched than it has
  values. -/
  dispatched : ms.length < 2 ^ 64 → ∀ op, (e.2.stats.dispatched op).toNat = tally op ms
  total : e.2.stats.total = (Opcode.all.map fun op => (e.2.stats.dispatched op).toNat).sum
  growths : e.2.stats.growths = changes ((m :: ms ++ [e.2]).map (·.registers.capacity))
  maxDepth : e.2.stats.maxDepth = greatest ((creations (m :: ms)).map (·.frames.live))
  peakRegisters : e.2.stats.peakRegisters = greatest ((creations (m :: ms)).map windowed)
  peakRegisters_le : e.2.stats.peakRegisters ≤ e.2.registers.capacity
  /-- The root makes one `ret` more than there are `call`s. -/
  returned : ms.length < 2 ^ 64 → ∀ v, e.1 = .ok v →
    (e.2.stats.dispatched .ret).toNat = (e.2.stats.dispatched .call).toNat + 1
  /-- Each `call` without its `ret` is a frame that the unwinding destroyed. -/
  destroyed : ms.length < 2 ^ 64 → ∀ stop s, m.fresh.start entry rootSize = (.ok (), s) →
    e.1 = .error stop → ∃ n count, s.run = (.error stop, n) ∧
      n.frames.unwind = (.ok count, e.2.frames) ∧ 1 ≤ count ∧
      (e.2.stats.dispatched .call).toNat = (e.2.stats.dispatched .ret).toNat + count
  /-- Without a root frame nothing is counted but a growth. -/
  refused : ∀ stop s, m.fresh.start entry rootSize = (.error stop, s) →
    (∀ op, e.2.stats.dispatched op = 0) ∧ e.2.stats.maxDepth = 0 ∧ e.2.stats.peakRegisters = 0

/-- The end of an execution keeps its capacity. -/
theorem settle_capacity (e : Except Stop Word × Machine) :
    (settle e).2.registers.capacity = e.2.registers.capacity :=
  congrArg Array.size (settle_snd e).2

/-- What stopped short ends with an error. -/
theorem exists_settle_error (stop : Stop) (m : Machine) :
    ∃ stop', (settle (.error stop, m)).1 = .error stop' := by
  cases stop with
  | fault fault => exact ⟨_, rfl⟩
  | exhausted cause =>
    rw [settle]
    split
    · exact ⟨_, rfl⟩
    · exact ⟨_, rfl⟩

/-- What is counted when the root frame is made. -/
theorem Resting.stats_of_start (h : m.Resting) (hroot : 0 < rootSize)
    (hstart : m.fresh.start entry rootSize = (.ok (), s)) :
    (∀ op, s.stats.dispatched op = 0) ∧
      s.stats.growths = changes [m.registers.capacity, s.registers.capacity] ∧
      s.stats.maxDepth = s.frames.live ∧ s.stats.peakRegisters = s.windowed := by
  have hrecorded := h.fresh.recorded_of_start hstart
  refine ⟨?_, ?_, hrecorded.maxDepth.trans (Nat.zero_max _), ?_⟩
  · intro op
    have hopening := h.fresh.opening entry rootSize
    rw [hstart] at hopening
    cases hopening with
    | @opened capacity => exact dispatched_extend_fresh m capacity rootSize op
  · rw [← Nat.zero_add (changes _), add_changes]
    exact hrecorded.growths
  · rw [(h.fresh.live_of_start hroot hstart).1.windowed_eq]
    exact hrecorded.peakRegisters.trans (Nat.zero_max _)

/-- What an execution counts whose root frame gets no room. -/
theorem Resting.stats_of_refused (h : m.Resting) {stop : Stop}
    (hstart : m.fresh.start entry rootSize = (.error stop, s)) :
    (∀ op, s.stats.dispatched op = 0) ∧
      s.stats.growths = changes [m.registers.capacity, s.registers.capacity] ∧
      s.stats.maxDepth = 0 ∧ s.stats.peakRegisters = 0 := by
  have hopening := h.fresh.opening entry rootSize
  rw [hstart] at hopening
  cases hopening with
  | noRegisters =>
    refine ⟨Stats.dispatched_fresh, ?_, rfl, rfl⟩
    rw [← Nat.zero_add (changes _), add_changes]
    exact (if_pos rfl).symm
  | @noFrames capacity hroom =>
    have hle := (growthRule_eq_ok h.fits.increment_pos hroom).1
    refine ⟨dispatched_extend_fresh m capacity rootSize, ?_, maxDepth_extend ..,
      peakRegisters_extend ..⟩
    exact (growths_extend_eq (m := m.fresh) hle rootSize).trans (Nat.zero_add _)

/-- A growth for a frame that is not made leaves the peak within the capacity. -/
theorem peakRegisters_le_extend (h : m.stats.peakRegisters ≤ m.registers.capacity) {capacity : Nat}
    (hle : m.registers.capacity ≤ capacity) (len : Nat) :
    (m.extend capacity len).stats.peakRegisters ≤ (m.extend capacity len).registers.capacity :=
  calc (m.extend capacity len).stats.peakRegisters = m.stats.peakRegisters :=
        peakRegisters_extend m capacity len
    _ ≤ capacity := h.trans hle
    _ = (m.extend capacity len).registers.capacity := (RegisterFile.capacity_extend hle).symm

/-- The registers in use were there. -/
theorem Resting.peakRegisters_le (h : m.Resting) (hrefusal : m.refusal? rootSize = none)
    (hfault : ∀ fault, (m.execute entry rootSize).1 ≠ .error (.fault fault)) :
    (m.execute entry rootSize).2.stats.peakRegisters ≤
      (m.execute entry rootSize).2.registers.capacity := by
  have hexecution := h.execution hrefusal entry
  generalize m.execute entry rootSize = e at hexecution hfault
  cases hexecution with
  | refused hstart =>
    exact (h.stats_of_refused hstart).2.2.2.trans_le (Nat.zero_le _)
  | finished hstart hreaches hstep =>
    exact (h.recorded_of_finished ⟨hrefusal, _, hstart, hreaches⟩ hstep).2.peakRegisters_le
  | faulted => exact absurd rfl (hfault _)
  | exhausted hstart hreaches hstep =>
    have hobserved := h.observed_of_fetches ⟨hrefusal, _, hstart, hreaches⟩
    obtain ⟨gs, hlast⟩ := h.live_of_fetches ⟨hrefusal, _, hstart, hreaches⟩
    obtain ⟨f, fs, rfl, htransition⟩ := hlast.exists_transition hstep
    cases htransition with
    | noRegisters => exact hobserved.peakRegisters_le
    | @noFrames target frameSize destination _ _ _ _ hroom =>
      have hle := (growthRule_eq_ok hlast.fits.increment_pos hroom).1
      exact peakRegisters_le_extend (m := counted _ (.call target frameSize destination))
        hobserved.peakRegisters_le hle frameSize.toNat

/-- The statistics of an execution whose root frame runs. -/
theorem Resting.accounts_of_trace (h : m.Resting) (hrefusal : m.refusal? rootSize = none)
    (hstart : m.fresh.start entry rootSize = (.ok (), s)) (htrace : Trace s ms e)
    (hfault : ∀ fault, (settle e).1 ≠ .error (.fault fault)) :
    m.Accounts entry rootSize ms (settle e) := by
  have hroot := (refusal?_eq_none_iff.1 hrefusal).2.1
  obtain ⟨hlive, -, -⟩ := h.fresh.live_of_start hroot hstart
  obtain ⟨hfresh, hgrowths, hdepth, hpeak⟩ := h.stats_of_start hroot hstart
  have hrun := htrace.run_eq
  have houtcome : (settle e).1 = e.1 := hrun ▸ hlive.settle_run_fst
  have hfault' : ∀ fault, e.1 ≠ .error (.fault fault) := houtcome ▸ hfault
  have htotals := htrace.totals hlive hfault'
  have hlower : m.frames.live < s.frames.live := by
    rw [h.frames.live, hlive.frames.live]
    exact Nat.one_pos
  have hdispatched (hfew : ms.length < 2 ^ 64) (op : Opcode) :
      ((settle e).2.stats.dispatched op).toNat = tally op ms := by
    have hlt : tally op ms < 2 ^ 64 := List.countP_le_length.trans_lt hfew
    rw [(settle_snd _).1, htotals.dispatched, hfresh, UInt64.zero_add]
    exact UInt64.toNat_ofNat_of_lt hlt
  obtain ⟨tail, rfl⟩ := htrace.exists_cons hfault'
  constructor
  case dispatched => exact hdispatched
  case total => exact Stats.total_eq _
  case growths =>
    rw [(settle_snd _).1, htotals.growths, hgrowths]
    simp only [List.map_append, List.map_cons, List.map_nil, List.cons_append, settle_capacity]
    exact (changes_cons_cons ..).symm
  case maxDepth =>
    rw [(settle_snd _).1, htotals.maxDepth, creations_cons_of_lt hlower, hdepth]
    rfl
  case peakRegisters =>
    rw [(settle_snd _).1, htotals.peakRegisters, creations_cons_of_lt hlower, hpeak]
    rfl
  case peakRegisters_le =>
    have hexecute : m.execute entry rootSize = settle e :=
      (execute_eq_settle hrefusal hstart .refl).trans (congrArg settle hrun)
    rw [← hexecute] at hfault ⊢
    exact h.peakRegisters_le hrefusal hfault
  case returned =>
    intro hfew v hv
    obtain ⟨outcome, n⟩ := e
    obtain rfl : outcome = .ok v := houtcome.symm.trans hv
    rw [hdispatched hfew, hdispatched hfew, htrace.returned hlive]
  case destroyed =>
    intro hfew stop s' hstart' hstop
    obtain rfl : s = s' := congrArg Prod.snd (hstart.symm.trans hstart')
    obtain ⟨outcome, n⟩ := e
    obtain rfl : outcome = .error stop := houtcome.symm.trans hstop
    cases stop with
    | fault fault => exact absurd rfl (hfault' fault)
    | exhausted cause =>
      obtain ⟨frames, hunwind, hpos, hsettle⟩ := hlive.unwind_of_exhausted hrun
      rw [hrun] at hsettle
      refine ⟨n, n.frames.live, hrun, ?_, hpos, ?_⟩
      · rw [hsettle]
        exact hunwind
      · rw [hdispatched hfew, hdispatched hfew, htrace.exhausted hlive]
  case refused =>
    intro stop s' hrefused
    rw [hstart] at hrefused
    cases hrefused

/-- The statistics of an execution whose root frame gets no room. -/
theorem Resting.accounts_of_refused (h : m.Resting) (hrefusal : m.refusal? rootSize = none)
    {stop : Stop} (hstart : m.fresh.start entry rootSize = (.error stop, s))
    (hfault : ∀ fault, (settle (.error stop, s)).1 ≠ .error (.fault fault)) :
    m.Accounts entry rootSize [] (settle (.error stop, s)) := by
  obtain ⟨hdispatched, hgrowths, hdepth, hpeak⟩ := h.stats_of_refused hstart
  have hexecute : m.execute entry rootSize = settle (.error stop, s) := by
    rw [execute_eq_settle_attempt hrefusal, attempt, hstart]
  have hstats := (settle_snd (.error stop, s)).1
  constructor
  case dispatched =>
    intro _ op
    rw [hstats, hdispatched]
    rfl
  case total => exact Stats.total_eq _
  case growths =>
    rw [hstats, hgrowths, List.map_append, List.map_singleton, List.map_singleton,
      settle_capacity]
    rfl
  case maxDepth =>
    rw [hstats, hdepth]
    rfl
  case peakRegisters =>
    rw [hstats, hpeak]
    rfl
  case peakRegisters_le =>
    rw [← hexecute] at hfault ⊢
    exact h.peakRegisters_le hrefusal hfault
  case returned =>
    intro _ v hv
    obtain ⟨stop', hstop⟩ := exists_settle_error stop s
    rw [hstop] at hv
    cases hv
  case destroyed =>
    intro _ stop' s' hstart'
    rw [hstart] at hstart'
    cases hstart'
  case refused =>
    intro stop' s' _
    rw [hstats]
    exact ⟨hdispatched, hdepth, hpeak⟩

/-- **The statistics tell the truth about the run,** whatever ran on the machine before.  They
are compared with the machines at which the execution dispatched: how often an opcode was
fetched, how often the capacity changed, and how deep the frames and how wide their windows
were when each of them was made. -/
theorem Reachable.exists_accounts (h : Reachable p c m) (hidle : m.Idle) (entry : Nat)
    (hroot : 0 < rootSize)
    (hfault : ∀ fault, (m.execute entry rootSize).1 ≠ .error (.fault fault)) :
    ∃ ms, m.Dispatches entry rootSize ms (m.execute entry rootSize) ∧
      m.Accounts entry rootSize ms (m.execute entry rootSize) := by
  have hrefusal := hidle.refusal? hroot
  have hresting := h.resting_of_refusal hrefusal
  obtain ⟨ms, hdispatches⟩ := exists_dispatches_of_refusal hrefusal entry
  refine ⟨ms, hdispatches, ?_⟩
  generalize m.execute entry rootSize = e at hdispatches hfault
  cases hdispatches with
  | refused hstart => exact hresting.accounts_of_refused hrefusal hstart hfault
  | ran hstart htrace => exact hresting.accounts_of_trace hrefusal hstart htrace hfault

/-- The hypotheses are satisfiable: a `call` for which the registers grow, and which makes no
frame. -/
theorem Reachable.exists_accounts_of_fullStack :
    ∃ m, Reachable ⟨#[.call 0 1 0, .ret], by decide⟩
        { initialRegisters := 1, growthIncrement := 1, maxFrames := some 1 } m ∧ m.Idle ∧
      (m.execute 0 1).1 = .error (.exhausted (.frames 1)) ∧
      ∃ ms, m.Dispatches 0 1 ms (m.execute 0 1) ∧ m.Accounts 0 1 ms (m.execute 0 1) := by
  obtain ⟨m, s, n, hm, hidle, hstart, hstep⟩ : ∃ m s n,
      ofConfig ⟨#[.call 0 1 0, .ret], by decide⟩
        { initialRegisters := 1, growthIncrement := 1, maxFrames := some 1 } = .ok m ∧
      m.Idle ∧ m.fresh.start 0 1 = (.ok (), s) ∧
      s.step = .stopped (.exhausted (.frames 1)) n :=
    ⟨_, _, _, by rfl, ⟨by rfl, by rfl⟩, by rfl, by rfl⟩
  have hreachable := Reachable.new hm
  have hrefusal := hidle.refusal? Nat.one_pos
  have hexecute : (m.execute 0 1).1 = .error (.exhausted (.frames 1)) := by
    rw [execute_eq_settle hrefusal hstart .refl,
      (hreachable.live_of_start hrefusal hstart).1.settle_run_fst, run_of_stopped hstep]
  refine ⟨m, hreachable, hidle, hexecute, ?_⟩
  refine hreachable.exists_accounts hidle 0 Nat.one_pos ?_
  rw [hexecute]
  simp

end Machine
end WindowVM
