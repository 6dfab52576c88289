/-
# How long an execution can take

`Machine.Dispatches` lists the machines at which the instructions of an execution are
dispatched, from the first to the last.  The list is finite because the counters of the
live frames advance (`Live.advance`), and `Reachable.exists_dispatches` bounds its length
by the number `n` of instructions and the greatest depth alone: an activation dispatches
each instruction once at the most, and no more than `n ^ (d - 1)` activations are at the
depth `d`.
-/

import WindowVM.Proofs.Counters
import WindowVM.Proofs.Lifecycle

namespace WindowVM

/-- Where the callers of these frames resume, the innermost first. -/
def resumptions (fs : List Frame) : List Nat := fs.filterMap fun f => f.link.map (·.resumePc)

/-- Every frame but the root has a caller to resume. -/
theorem Nested.length_resumptions {p : Program} {rootSize : Nat} {fs : List Frame}
    (h : Nested p rootSize fs) : (resumptions fs).length + 1 = fs.length := by
  induction h with
  | root => rfl
  | call _ _ _ _ ih =>
    simp only [resumptions, calleeFrame, List.filterMap_cons, Option.map_some,
      List.length_cons] at ih ⊢
    omega

namespace Machine

variable {p : Program} {c : Config} {m n : Machine} {rootSize : Nat} {f : Frame}
  {fs : List Frame} {ms : List Machine} {e : Except Stop Word × Machine}

/-- The counters of the live frames. -/
def counters (m : Machine) : List Nat := m.pc :: resumptions m.frames.chain

theorem Live.counters_eq (h : m.Live rootSize fs) : m.counters = m.pc :: resumptions fs := by
  rw [counters, h.frames.chain]

theorem Live.length_counters (h : m.Live rootSize fs) : m.counters.length = m.frames.live := by
  rw [h.counters_eq, List.length_cons, h.nested.length_resumptions, h.frames.live]

/-- **Each step advances the counters.** -/
theorem Live.advance (h : m.Live rootSize fs) (hstep : m.step = .running n) :
    Advance m.counters n.counters := by
  obtain ⟨f, fs, rfl, htransition⟩ := h.exists_transition hstep
  rw [h.counters_eq]
  cases htransition with
  | wrote =>
    rw [((h.counted _).writing ..).counters_eq]
    exact .next
  | entered hfetch hdestination hsize hroom hfree hframes hlimit =>
    rw [(h.entering hfetch hdestination hsize hroom hfree hframes hlimit _).counters_eq]
    exact .enter
  | @returned link _ _ hlink hframes hlimit =>
    have hne := (h.nested.destination_lt hlink).1
    rw [((h.leaving hne hframes hlimit _).writing ..).counters_eq]
    have hresumptions : resumptions (f :: fs) = link.resumePc :: resumptions fs := by
      rw [resumptions, List.filterMap_cons, hlink]
      rfl
    rw [hresumptions]
    exact .leave

/-! ### The depth that was observed -/

theorem maxDepth_extend (m : Machine) (capacity len : Nat) :
    (m.extend capacity len).stats.maxDepth = m.stats.maxDepth := by
  simp only [extend]
  split <;> rfl

/-- The greatest depth only grows in an execution. -/
theorem Transition.maxDepth_le {q : Progress} (h : m.Transition f fs q) :
    m.stats.maxDepth ≤ q.machine.stats.maxDepth := by
  cases h with
  | @noFrames target frameSize destination capacity =>
    exact Nat.le_of_eq (maxDepth_extend (m.counted _) capacity frameSize.toNat).symm
  | @entered target frameSize destination capacity =>
    have hkept := maxDepth_extend (m.counted (.call target frameSize destination)) capacity
      frameSize.toNat
    exact Nat.le_trans (Nat.le_of_eq hkept.symm) (Nat.le_max_left _ _)
  | _ => exact Nat.le_refl _

theorem Live.maxDepth_le {q : Progress} (h : m.Live rootSize fs) (hstep : m.step = q) :
    m.stats.maxDepth ≤ q.machine.stats.maxDepth := by
  obtain ⟨f, fs, rfl, htransition⟩ := h.exists_transition hstep
  exact htransition.maxDepth_le

/-- No frame is live that was not observed. -/
theorem Live.live_le_maxDepth (h : m.Live rootSize fs) (hstep : m.step = .running n)
    (hm : m.frames.live ≤ m.stats.maxDepth) : n.frames.live ≤ n.stats.maxDepth := by
  obtain ⟨f, fs, rfl, htransition⟩ := h.exists_transition hstep
  cases htransition with
  | wrote => exact hm
  | entered => exact Nat.le_max_right _ _
  | returned _ _ hframes =>
    rw [h.frames.live, List.length_cons] at hm
    refine Nat.le_trans (Nat.le_of_eq hframes.live) ?_
    exact Nat.le_trans (Nat.le_succ _) hm

/-! ### The dispatches of a run -/

/-- The machines at the dispatches of a run, and how it ends. -/
inductive Trace : Machine → List Machine → Except Stop Word × Machine → Prop
  | pastEnd {m e : Machine} {stop : Stop} (hfetch : m.program.get? m.pc = none)
      (hstep : m.step = .stopped stop e) : Trace m [] (.error stop, e)
  | finished {m e : Machine} {i : Instruction} {result : Word}
      (hfetch : m.program.get? m.pc = some i) (hstep : m.step = .finished result e) :
      Trace m [m] (.ok result, e)
  | stopped {m e : Machine} {i : Instruction} {stop : Stop}
      (hfetch : m.program.get? m.pc = some i) (hstep : m.step = .stopped stop e) :
      Trace m [m] (.error stop, e)
  | running {m n : Machine} {i : Instruction} {ms : List Machine}
      {e : Except Stop Word × Machine} (hfetch : m.program.get? m.pc = some i)
      (hstep : m.step = .running n) (h : Trace n ms e) : Trace m (m :: ms) e

/-- **Every run has a finite trace.** -/
theorem exists_trace (m : Machine) : ∃ ms, Trace m ms m.run := by
  fun_induction run m with
  | case1 m n hstep ih =>
    obtain ⟨ms, htrace⟩ := ih
    cases hfetch : m.program.get? m.pc with
    | none => simp [step_of_pastEnd hfetch] at hstep
    | some i => exact ⟨m :: ms, .running hfetch hstep htrace⟩
  | case2 m result n hstep =>
    cases hfetch : m.program.get? m.pc with
    | none => simp [step_of_pastEnd hfetch] at hstep
    | some i => exact ⟨[m], .finished hfetch hstep⟩
  | case3 m stop n hstep =>
    cases hfetch : m.program.get? m.pc with
    | none => exact ⟨[], .pastEnd hfetch hstep⟩
    | some i => exact ⟨[m], .stopped hfetch hstep⟩

namespace Trace

/-- A trace belongs to the run. -/
theorem run_eq (h : Trace m ms e) : m.run = e := by
  induction h with
  | pastEnd _ hstep => exact run_of_stopped hstep
  | finished _ hstep => exact run_of_finished hstep
  | stopped _ hstep => exact run_of_stopped hstep
  | running _ hstep _ ih => exact (run_of_running hstep).trans ih

theorem eq_of_mem_head? (h : Trace m ms e) : ∀ x ∈ ms.head?, x = m := by
  cases h <;> simp

theorem maxDepth_le (h : Trace m ms e) (hlive : m.Live rootSize fs) :
    m.stats.maxDepth ≤ e.2.stats.maxDepth := by
  induction h generalizing fs with
  | running _ hstep _ ih =>
    obtain ⟨gs, hnext⟩ := hlive.of_running hstep
    exact Nat.le_trans (hlive.maxDepth_le hstep) (ih hnext)
  | pastEnd _ hstep => exact hlive.maxDepth_le hstep
  | finished _ hstep => exact hlive.maxDepth_le hstep
  | stopped _ hstep => exact hlive.maxDepth_le hstep

/-- The counters advance from each dispatch to the next. -/
theorem isChain (h : Trace m ms e) (hlive : m.Live rootSize fs) :
    (ms.map counters).IsChain Advance := by
  induction h generalizing fs with
  | @running m n i ms e _ hstep htrace ih =>
    obtain ⟨gs, hnext⟩ := hlive.of_running hstep
    have hchain := ih hnext
    cases ms with
    | nil => exact List.isChain_singleton _
    | cons x xs =>
      obtain rfl := htrace.eq_of_mem_head? x rfl
      exact List.isChain_cons_cons.2 ⟨hlive.advance hstep, hchain⟩
  | pastEnd => exact List.isChain_nil
  | finished => exact List.isChain_singleton _
  | stopped => exact List.isChain_singleton _

/-- Each dispatch is of an instruction of the program, at a depth that was observed. -/
theorem forall_ready (h : Trace m ms e) (hlive : m.Live rootSize fs)
    (hm : m.frames.live ≤ m.stats.maxDepth) :
    ∀ x ∈ ms, Ready m.program.size x.counters ∧ x.counters.length = x.frames.live ∧
      x.frames.live ≤ e.2.stats.maxDepth := by
  have hfirst {m : Machine} {i : Instruction} {fs : List Frame} {e : Except Stop Word × Machine}
      {ms : List Machine} (hfetch : m.program.get? m.pc = some i) (hlive : m.Live rootSize fs)
      (hm : m.frames.live ≤ m.stats.maxDepth) (h : Trace m ms e) :
      Ready m.program.size m.counters ∧ m.counters.length = m.frames.live ∧
        m.frames.live ≤ e.2.stats.maxDepth :=
    ⟨⟨_, _, rfl, Program.lt_size_of_get?_eq_some hfetch⟩, hlive.length_counters,
      Nat.le_trans hm (h.maxDepth_le hlive)⟩
  induction h generalizing fs with
  | pastEnd => simp
  | finished hfetch hstep =>
    intro x hx
    obtain rfl := List.mem_singleton.1 hx
    exact hfirst hfetch hlive hm (.finished hfetch hstep)
  | stopped hfetch hstep =>
    intro x hx
    obtain rfl := List.mem_singleton.1 hx
    exact hfirst hfetch hlive hm (.stopped hfetch hstep)
  | @running m n _ _ _ hfetch hstep htrace ih =>
    intro x hx
    rcases List.mem_cons.1 hx with rfl | hx
    · exact hfirst hfetch hlive hm (.running hfetch hstep htrace)
    · obtain ⟨gs, hnext⟩ := hlive.of_running hstep
      have hprogram : n.program = m.program :=
        congrArg Environment.program (hlive.environment_eq hstep).1
      have hx := ih hnext (hlive.live_le_maxDepth hstep hm) x hx
      rwa [hprogram] at hx

/-- The number of dispatches of a run from a single frame. -/
theorem length_le (h : Trace m ms e) (hlive : m.Live rootSize [f])
    (hm : m.frames.live ≤ m.stats.maxDepth) :
    ms.length ≤ ∑ i ∈ Finset.range e.2.stats.maxDepth, m.program.size ^ (i + 1) := by
  have hready := h.forall_ready hlive hm
  cases ms with
  | nil => exact Nat.zero_le _
  | cons x xs =>
    obtain rfl := h.eq_of_mem_head? x rfl
    have hcounters : x.counters = [x.pc] := by
      have hlength := hlive.length_counters
      rw [hlive.frames.live] at hlength
      exact congrArg (x.pc :: ·) (List.eq_nil_of_length_eq_zero (Nat.succ.inj hlength))
    calc (x :: xs).length = ((x :: xs).map counters).length := List.length_map .. |>.symm
      _ ≤ workload x.program.size e.2.stats.maxDepth x.counters := by
        refine length_le_workload (h.isChain hlive) ?_ ?_
        · refine (List.forall_mem_map (l := x :: xs)).2 ?_
          intro y hy
          exact (hready y hy).1
        · refine (List.forall_mem_map (l := x :: xs)).2 ?_
          intro y hy
          exact (hready y hy).2.1.trans_le (hready y hy).2.2
      _ ≤ _ := by
        rw [hcounters]
        exact workload_singleton_le ..

/-- A frame that is current again, and was live in between, has moved on. -/
theorem pc_lt (h : Trace m ms e) (hlive : m.Live rootSize fs)
    (hm : m.frames.live ≤ m.stats.maxDepth) {before between after : List Machine} {a b : Machine}
    (hms : ms = before ++ a :: between ++ b :: after) (hdepth : b.frames.live = a.frames.live)
    (hbetween : ∀ x ∈ between, a.frames.live ≤ x.frames.live) : a.pc < b.pc := by
  have hlength : ∀ x ∈ ms, x.counters.length = x.frames.live :=
    fun x hx => (h.forall_ready hlive hm x hx).2.1
  have hparts : ms = before ++ ((a :: between ++ [b]) ++ after) := by
    rw [hms]
    simp only [List.append_assoc, List.cons_append, List.nil_append]
  have hmem : ∀ x ∈ a :: between ++ [b], x ∈ ms := by
    intro x hx
    rw [hparts]
    exact List.mem_append_right _ (List.mem_append_left _ hx)
  have ha := hlength a (hmem a (by simp))
  have hb := hlength b (hmem b (by simp))
  simp only [counters, List.length_cons] at ha hb
  have hchain : ((a :: between).map counters ++ [b.counters]).IsChain Advance := by
    have hchain := h.isChain hlive
    rw [hparts, List.map_append, List.map_append] at hchain
    have hchain := hchain.right_of_append.left_of_append
    rwa [List.map_append] at hchain
  have hfirst : ((a :: between).map counters ++ [b.counters]).head? =
      some ([] ++ a.pc :: resumptions a.frames.chain) := rfl
  refine (le_of_isChain hchain hfirst (by omega) ?_).2 rfl (List.cons_ne_nil _ _)
  refine List.forall_mem_map.2 ?_
  intro x hx
  have hdeep := hlength x (hmem x (List.mem_append_left _ hx))
  rcases List.mem_cons.1 hx with rfl | hx
  · omega
  · have hle := hbetween x hx
    omega

end Trace

/-! ### The dispatches of an execution -/

/-- The machines at the dispatches of an execution, and how it ends. -/
inductive Dispatches (m : Machine) (entry rootSize : Nat) :
    List Machine → Except Stop Word × Machine → Prop
  /-- There is no room for the root frame, and nothing is dispatched. -/
  | refused {s : Machine} {stop : Stop}
      (hstart : m.fresh.start entry rootSize = (.error stop, s)) :
      Dispatches m entry rootSize [] (settle (.error stop, s))
  /-- The root frame runs. -/
  | ran {s : Machine} {ms : List Machine} {e : Except Stop Word × Machine}
      (hstart : m.fresh.start entry rootSize = (.ok (), s)) (htrace : Trace s ms e) :
      Dispatches m entry rootSize ms (settle e)

/-- An execution that is not refused dispatches at finitely many machines. -/
theorem exists_dispatches_of_refusal (hrefusal : m.refusal? rootSize = none) (entry : Nat) :
    ∃ ms, m.Dispatches entry rootSize ms (m.execute entry rootSize) := by
  rw [execute_eq_settle_attempt hrefusal, attempt]
  cases hstart : m.fresh.start entry rootSize with
  | mk outcome s =>
    cases outcome with
    | error stop => exact ⟨[], .refused hstart⟩
    | ok =>
      obtain ⟨ms, htrace⟩ := exists_trace s
      exact ⟨ms, .ran hstart htrace⟩

/-- Abandoning a machine leaves its counters and its words. -/
theorem abandon_snd (m : Machine) :
    m.abandon.2.stats = m.stats ∧ m.abandon.2.registers.words = m.registers.words := by
  unfold abandon
  split <;> exact ⟨rfl, rfl⟩

/-- So does the end of an execution. -/
theorem settle_snd (e : Except Stop Word × Machine) :
    (settle e).2.stats = e.2.stats ∧ (settle e).2.registers.words = e.2.registers.words := by
  fun_cases settle with
  | case1 cause m n habandon =>
    obtain rfl : m.abandon.2 = n := congrArg Prod.snd habandon
    exact abandon_snd m
  | case2 cause m fault n habandon =>
    obtain rfl : m.abandon.2 = n := congrArg Prod.snd habandon
    exact abandon_snd m
  | case3 => exact ⟨rfl, rfl⟩

/-- **Every execution ends after finitely many dispatches,** also those of programs that
call themselves without end.  A program of `n` instructions that gets `d` frames deep makes
at most `n + n ^ 2 + ⋯ + n ^ d` of them.  Within one activation of a frame the program
counter moves up: two dispatches at one depth belong to one activation when no dispatch
between them is less deep. -/
theorem Reachable.exists_dispatches (h : Reachable p c m) (hidle : m.Idle) (entry : Nat)
    (hroot : 0 < rootSize) :
    ∃ ms, m.Dispatches entry rootSize ms (m.execute entry rootSize) ∧
      ms.length ≤
        ∑ i ∈ Finset.range (m.execute entry rootSize).2.stats.maxDepth, p.size ^ (i + 1) ∧
      ∀ before a between b after, ms = before ++ a :: between ++ b :: after →
        b.frames.live = a.frames.live → (∀ x ∈ between, a.frames.live ≤ x.frames.live) →
        a.pc < b.pc := by
  have hrefusal := hidle.refusal? hroot
  have hresting := (h.resting_of_refusal hrefusal).fresh
  have hopening := hresting.opening entry rootSize
  rw [execute_eq_settle_attempt hrefusal, (settle_snd _).1, attempt]
  cases hstart : m.fresh.start entry rootSize with
  | mk outcome s =>
    cases outcome with
    | error stop =>
      refine ⟨[], .refused hstart, Nat.zero_le _, ?_⟩
      intro before a between b after hms
      simp at hms
    | ok =>
      obtain ⟨ms, htrace⟩ := exists_trace s
      obtain ⟨hlive, henvironment⟩ := h.live_of_start hrefusal hstart
      have hprogram : s.program = p := congrArg Environment.program henvironment
      have hdepth : s.frames.live ≤ s.stats.maxDepth := by
        rw [hstart] at hopening
        cases hopening with
        | opened => exact Nat.le_max_right _ _
      refine ⟨ms, .ran hstart htrace, ?_, ?_⟩
      · rw [← hprogram]
        exact htrace.length_le hlive hdepth
      · intro before a between b after hms hsame hbetween
        exact htrace.pc_lt hlive hdepth hms hsame hbetween

/-- The hypotheses are satisfiable: a callee that returns at once. -/
theorem Reachable.exists_dispatches_of_callee :
    ∃ m ms, Reachable ⟨#[.call 1 1 0, .ret], by decide⟩
        { initialRegisters := 1, growthIncrement := 1 } m ∧ m.Idle ∧
      m.Dispatches 0 1 ms (m.execute 0 1) ∧
        ms.length ≤ ∑ i ∈ Finset.range (m.execute 0 1).2.stats.maxDepth, 2 ^ (i + 1) := by
  have hreachable : Reachable ⟨#[.call 1 1 0, .ret], by decide⟩
    { initialRegisters := 1, growthIncrement := 1 } _ := .new rfl
  obtain ⟨ms, hdispatches, hlength, -⟩ :=
    hreachable.exists_dispatches ⟨rfl, rfl⟩ 0 Nat.one_pos
  exact ⟨_, ms, hreachable, ⟨rfl, rfl⟩, hdispatches, hlength⟩

end Machine
end WindowVM
