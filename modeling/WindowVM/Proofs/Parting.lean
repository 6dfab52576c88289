/-
# Where executions part

Two machines over one program that are alike go on alike until one of them stops short.
`Paired` are the fetches that they get to together.  `Parting` lists what stops the second
where the first goes on: it gets no registers or no frame for a callee, or an operand names a
register that exists in the first machine only.

`Resting.returns_or_parts` says that there is nothing else: when the first execution returns,
the second returns the same word, with the same words in its registers, or it parts.
-/

import WindowVM.Proofs.Lockstep
import WindowVM.Proofs.Records
import WindowVM.Proofs.Relocation

namespace WindowVM
namespace Machine

variable {m n a b x y z : Machine} {entry rootSize : Nat} {f : Frame} {fs : List Frame} {v : Word}

theorem Alike.symm (h : m.Alike n) : n.Alike m :=
  ⟨h.program.symm, h.pc.symm, fun index => (h.word index).symm,
    ⟨h.stats.counts.symm, h.stats.maxDepth.symm, h.stats.peakRegisters.symm⟩⟩

/-- How many registers the file has to hold for the callee that the next step calls. -/
def demand? (m : Machine) : Option Nat :=
  match m.program.get? m.pc, m.frames.currentFrame? with
  | some (.call _ frameSize destination), some f =>
    if destination.toNat < f.window.len then some (m.registers.inUse + frameSize.toNat) else none
  | _, _ => none

theorem Live.demand_of_call (h : m.Live rootSize (f :: fs)) {target frameSize destination : Word}
    (hfetch : m.program.get? m.pc = some (.call target frameSize destination))
    (hdestination : destination.toNat < f.window.len) :
    m.demand? = some (m.registers.inUse + frameSize.toNat) := by
  rw [demand?, hfetch, h.currentFrame?]
  exact if_pos hdestination

/-- A callee has room if its call does not stop short. -/
theorem Live.room_of_demand (h : m.Live rootSize fs) {required : Nat}
    (hdemand : m.demand? = some required) (hrunning : ∀ stop e, m.step ≠ .stopped stop e) :
    ∃ capacity, m.registers.room required = .ok capacity := by
  obtain ⟨f, fs, rfl⟩ := List.exists_cons_of_ne_nil h.nested.ne_nil
  unfold demand? at hdemand
  split at hdemand
  · rename_i target frameSize destination g hfetch _
    obtain ⟨capacity, frames, -, -, hroom, -⟩ := h.transition.of_call hfetch hrunning
    split at hdemand
    · obtain rfl := Option.some.inj hdemand
      exact ⟨capacity, hroom⟩
    · cases hdemand
  · cases hdemand

/-- A step after which more registers are in use than there were is that of a callee. -/
theorem Live.demand_of_running (h : m.Live rootSize fs) (hstep : m.step = .running n)
    (hlt : m.registers.capacity < n.registers.inUse) : m.demand? = some n.registers.inUse := by
  have hinUse := h.inUse
  have hle := h.fits.inUse_le
  obtain ⟨f, fs, rfl, htransition⟩ := h.exists_transition hstep
  cases htransition with
  | wrote => exact absurd hle (Nat.not_le.2 hlt)
  | entered hfetch hdestination => exact h.demand_of_call hfetch hdestination
  | returned =>
    have hbase : f.window.base ≤ m.registers.inUse := hinUse ▸ Nat.le_add_right ..
    exact absurd (Nat.le_trans hbase hle) (Nat.not_le.2 hlt)

/-! ### Pairs of fetches -/

/-- The fetches that executions of two machines get to together. -/
inductive Paired (m n : Machine) (entry rootSize : Nat) : Machine → Machine → Prop
  | start {x y : Machine} (hm : m.refusal? rootSize = none) (hn : n.refusal? rootSize = none)
      (hx : m.fresh.start entry rootSize = (.ok (), x))
      (hy : n.fresh.start entry rootSize = (.ok (), y)) : Paired m n entry rootSize x y
  | step {x y x' y' : Machine} (h : Paired m n entry rootSize x y) (hx : x.step = .running x')
      (hy : y.step = .running y') : Paired m n entry rootSize x' y'

namespace Paired

theorem symm (h : Paired m n entry rootSize x y) : Paired n m entry rootSize y x := by
  induction h with
  | start hm hn hx hy => exact .start hn hm hy hx
  | step _ hx hy ih => exact ih.step hy hx

/-- Each of a pair is a fetch. -/
theorem fetches (h : Paired m n entry rootSize x y) : m.Fetches entry rootSize x := by
  induction h with
  | start hm _ hx _ => exact ⟨hm, _, hx, .refl⟩
  | step _ hx _ ih => exact ih.tail hx

/-- **At a pair of fetches the same frames are live,** and the machines are alike. -/
theorem live (h : Paired m n entry rootSize x y) (hm : m.Resting) (hn : n.Resting)
    (halike : m.fresh.Alike n.fresh) :
    ∃ fs, x.Live rootSize fs ∧ y.Live rootSize fs ∧ x.Alike y := by
  induction h with
  | start hroot _ hx hy =>
    have hpos := (refusal?_eq_none_iff.1 hroot).2.1
    exact ⟨_, (hm.fresh.live_of_start hpos hx).1, (hn.fresh.live_of_start hpos hy).1,
      hm.alike_of_start hn halike hx hy⟩
  | step _ hx hy ih =>
    obtain ⟨fs, hlive, hlive', halike'⟩ := ih
    have habreast := hlive.abreast hlive' halike' (by simp [hx]) (by simp [hy])
    rw [hx, hy] at habreast
    cases habreast with
    | running hnext hnext' halike'' => exact ⟨_, hnext, hnext', halike''⟩

/-- Both steps from a pair to the next are recorded, and use the same number of registers. -/
theorem recorded (h : Paired m n entry rootSize x y) (hm : m.Resting) (hn : n.Resting)
    (halike : m.fresh.Alike n.fresh) (hx : x.step = .running a) (hy : y.step = .running b) :
    x.Recorded a ∧ y.Recorded b ∧ a.registers.inUse = b.registers.inUse := by
  obtain ⟨fs, hlive, hlive', -⟩ := (h.step hx hy).live hm hn halike
  exact ⟨hm.recorded_of_running h.fetches hx, hn.recorded_of_running h.symm.fetches hy,
    hlive.inUse.trans hlive'.inUse.symm⟩

end Paired

/-! ### What stops one of two machines -/

/-- What a machine at `y` lacks for the frame that another made on its way to `z`. -/
inductive Shortage (y z : Machine) : Exhaustion → Prop
  | registers {cause : Exhaustion}
      (hroom : y.registers.room z.registers.inUse = .error cause) : Shortage y z cause
  | frames (hfull : y.frames.limit.any (· ≤ y.frames.live) = true)
      (hlive : z.frames.live = y.frames.live + 1) : Shortage y z (.frames y.frames.live)

/-- Where the number of frames is allowed, it is registers that lack. -/
theorem Shortage.room_eq_error {cause : Exhaustion} (h : Shortage y z cause)
    (hlimit : y.frames.limit = z.frames.limit) (hle : ∀ l ∈ z.frames.limit, z.frames.live ≤ l) :
    y.registers.room z.registers.inUse = .error cause := by
  cases h with
  | registers hroom => exact hroom
  | frames hfull hlive =>
    obtain ⟨l, hl, hfull⟩ := (Option.any_eq_true ..).1 hfull
    have hreached : l ≤ y.frames.live := of_decide_eq_true hfull
    have hallowed := hle l (hlimit ▸ hl)
    omega

/-- What stops an execution of `n` where one of `m` goes on. -/
inductive Parting (m n : Machine) (entry rootSize : Nat) : Stop → Prop
  /-- There is no room for the root frame. -/
  | root {z : Machine} {cause : Exhaustion} (hz : m.Fetches entry rootSize z)
      (hstart : m.fresh.start entry rootSize = (.ok (), z)) (h : Shortage n.fresh z cause) :
      Parting m n entry rootSize (.exhausted cause)
  /-- There is no room for a callee. -/
  | callee {x y z : Machine} {cause : Exhaustion} (hpaired : Paired m n entry rootSize x y)
      (hz : x.step = .running z) (hdemand : y.demand? = some z.registers.inUse)
      (h : Shortage y z cause) : Parting m n entry rootSize (.exhausted cause)
  /-- An operand names a register that exists in one file only. -/
  | operand {x y : Machine} {i : Instruction} {index : Word}
      (hpaired : Paired m n entry rootSize x y) (hfetch : y.program.get? y.pc = some i)
      (hindex : index ∈ i.absoluteOperands) (hlt : index.toNat < x.registers.capacity)
      (hle : y.registers.capacity ≤ index.toNat)
      (hstop : y.step =
        .stopped (.fault (.outsideFile index.toNat y.registers.capacity)) (y.counted i)) :
      Parting m n entry rootSize (.fault (.outsideFile index.toNat y.registers.capacity))

namespace Paired

variable (h : Paired m n entry rootSize x y) (hm : m.Resting) (hn : n.Resting)
  (halike : m.fresh.Alike n.fresh)

include h hm hn halike

/-- What the first machine has after a call. -/
theorem called {target frameSize destination : Word}
    (hfetch : y.program.get? y.pc = some (.call target frameSize destination))
    (hz : x.step = .running z) :
    z.registers.inUse = y.registers.inUse + frameSize.toNat ∧
      z.frames.live = y.frames.live + 1 := by
  obtain ⟨fs, hx, hy, hxy⟩ := h.live hm hn halike
  obtain ⟨f, fs, rfl⟩ := List.exists_cons_of_ne_nil hx.nested.ne_nil
  have hcallee := hx.of_call (hxy.symm.fetch_eq hfetch) hz
  constructor
  · rw [hcallee.inUse, hy.inUse]
    rfl
  · rw [hcallee.frames.live, hy.frames.live]
    rfl

/-- A step that stops short where the other machine goes on parts them. -/
theorem parting {stop : Stop} {e : Machine} (hz : x.step = .running z)
    (hstop : y.step = .stopped stop e) : Parting m n entry rootSize stop := by
  obtain ⟨fs, hx, hy, hxy⟩ := h.live hm hn halike
  obtain ⟨f, fs, rfl, htransition⟩ := hy.exists_transition hstop
  have hgoes : ∀ stop e, x.step ≠ .stopped stop e := by simp [hz]
  -- What does not depend on a limit or on the size of a file would stop `x` too.
  cases htransition with
  | pastEnd hfetch =>
    rw [← hxy.program, ← hxy.pc] at hfetch
    exact absurd (step_of_pastEnd hfetch) (hgoes _ _)
  | @misfit i _ hfetch hmisfit =>
    have hfetch' := hxy.symm.fetch_eq hfetch
    have hfit : i.misfit? f.window.len x.registers.capacity = none := by
      rw [Option.eq_none_iff_forall_ne_some]
      exact fun fault hfault => hgoes _ _ (hx.step_of_misfit hfetch' hfault)
    obtain ⟨hrelative, habsolute⟩ := Instruction.misfit?_eq_none_iff.1 hfit
    rcases Instruction.misfit?_eq_some hmisfit with ⟨index, hmem, hle, -⟩ | ⟨index, hmem, hle, rfl⟩
    · exact absurd (hrelative index hmem) (Nat.not_lt.2 hle)
    · exact .operand h hfetch hmem (habsolute index hmem) hle hstop
  | emptyFrame hfetch _ hsize =>
    obtain ⟨-, -, -, hpos, -⟩ := hx.transition.of_call (hxy.symm.fetch_eq hfetch) hgoes
    rw [hsize] at hpos
    exact absurd hpos (Nat.lt_irrefl 0)
  | noRegisters hfetch hdestination hsize hroom =>
    have hdemand := hy.demand_of_call hfetch hdestination
    rw [← (h.called hm hn halike hfetch hz).1] at hdemand hroom
    exact .callee h hz hdemand (.registers hroom)
  | noFrames hfetch hdestination hsize hroom hfull =>
    have hdemand := hy.demand_of_call hfetch hdestination
    obtain ⟨hinUse, hlive⟩ := h.called hm hn halike hfetch hz
    have hdepth : y.frames.live = fs.length + 1 := hy.frames.live
    rw [← hinUse] at hdemand
    rw [← hdepth] at hfull ⊢
    exact .callee h hz hdemand (.frames hfull hlive)

/-- A machine at the return of the root does not stop short. -/
theorem exists_finished (hx : x.step = .finished v a) :
    ∃ b, y.step = .finished v b ∧ a.Alike b := by
  obtain ⟨fs, hlive, hlive', hxy⟩ := h.live hm hn halike
  obtain ⟨f, fs, rfl, htransition⟩ := hlive.exists_transition hx
  have hfetch : y.program.get? y.pc = some .ret := by
    cases htransition with
    | finished hfetch => exact hxy.fetch_eq hfetch
  have habreast := hlive.abreast hlive' hxy (by simp [hx]) (hlive'.ne_stopped_of_ret hfetch)
  rw [hx] at habreast
  generalize y.step = q at habreast
  cases habreast with
  | finished halike' => exact ⟨_, rfl, halike'⟩

/-- **A run that returns is followed to its end, or parted from.** -/
theorem run_or_parts (hv : x.run = (.ok v, a)) :
    (∃ x' y' b, Paired m n entry rootSize x' y' ∧ x'.step = .finished v a ∧
        y'.step = .finished v b ∧ a.Alike b ∧ y.run = (.ok v, b)) ∨
      ∃ stop e, Parting m n entry rootSize stop ∧ y.run = (.error stop, e) := by
  fun_induction run x generalizing y with
  | case1 x x' hx ih =>
    cases hy : y.step with
    | running y' =>
      rw [run_of_running hy]
      exact ih (h.step hx hy) hv
    | stopped stop e => exact Or.inr ⟨stop, e, h.parting hm hn halike hx hy, run_of_stopped hy⟩
    | finished w b =>
      obtain ⟨b', hx', -⟩ := h.symm.exists_finished hn hm halike.symm hy
      simp [hx] at hx'
  | case2 x w a' hx =>
    obtain ⟨rfl, rfl⟩ : w = v ∧ a' = a := by simpa using hv
    obtain ⟨b, hy, halike'⟩ := h.exists_finished hm hn halike hx
    exact Or.inl ⟨x, y, b, h, hx, hy, halike', run_of_finished hy⟩
  | case3 x stop a' hx => simp at hv

end Paired

/-- A root frame that is refused where another machine of the same kind gets one. -/
theorem Resting.parting_of_start (hm : m.Resting) (hn : n.Resting)
    (hrefusal : m.refusal? rootSize = none)
    (hz : m.fresh.start entry rootSize = (.ok (), z)) {stop : Stop}
    (hstop : n.fresh.start entry rootSize = (.error stop, a)) :
    Parting m n entry rootSize stop ∧ (settle (.error stop, a)).1 = .error stop := by
  have hopening := hn.fresh.opening entry rootSize
  have hlive := (hm.fresh.live_of_start (refusal?_eq_none_iff.1 hrefusal).2.1 hz).1
  have hinUse := hm.inUse_of_start hrefusal hz
  have hdepth : n.fresh.frames.live = 0 := hn.fresh.frames.live
  rw [hstop] at hopening
  cases hopening with
  | noRegisters hroom =>
    rw [← hinUse] at hroom
    obtain ⟨frames, -, -, hsettle⟩ := settle_exhausted hn.fresh.frames _
    exact ⟨.root ⟨hrefusal, z, hz, .refl⟩ hz (.registers hroom), hsettle ▸ rfl⟩
  | @noFrames capacity hroom hfull =>
    have hframes : (n.fresh.extend capacity rootSize).frames.Holds [] := hn.fresh.frames
    obtain ⟨frames, -, -, hsettle⟩ := settle_exhausted hframes (.frames 0)
    rw [← hdepth] at hfull
    have hshort := Shortage.frames hfull (hlive.frames.live.trans (by rw [hdepth]; rfl))
    rw [hdepth] at hshort
    exact ⟨.root ⟨hrefusal, z, hz, .refl⟩ hz hshort, hsettle ▸ rfl⟩

/-- **An execution that returns is followed to its end, or parted from.** -/
theorem Resting.returns_or_parts (hm : m.Resting) (hn : n.Resting)
    (halike : m.fresh.Alike n.fresh) (hrefusal : n.refusal? rootSize = none)
    (hv : m.execute entry rootSize = (.ok v, a)) :
    (∃ x y b, Paired m n entry rootSize x y ∧ x.step = .finished v a ∧ y.step = .finished v b ∧
        a.Alike b ∧ n.execute entry rootSize = (.ok v, b)) ∨
      ∃ stop, Parting m n entry rootSize stop ∧ (n.execute entry rootSize).1 = .error stop := by
  obtain ⟨hrefusal', s, hs, hrun⟩ := hm.run_of_execute hv
  rw [execute_eq_settle_attempt hrefusal, attempt]
  cases hstart : n.fresh.start entry rootSize with
  | mk outcome t =>
    cases outcome with
    | error stop =>
      obtain ⟨hparting, hsettle⟩ := hm.parting_of_start hn hrefusal' hs hstart
      exact Or.inr ⟨stop, hparting, hsettle⟩
    | ok =>
      have hpaired : Paired m n entry rootSize s t := .start hrefusal' hrefusal hs hstart
      obtain ⟨fs, -, hlive, -⟩ := hpaired.live hm hn halike
      rcases hpaired.run_or_parts hm hn halike hrun with
        ⟨x, y, b, hxy, hx, hy, halike', hrun'⟩ | ⟨stop, e, hparting, hrun'⟩
      · exact Or.inl ⟨x, y, b, hxy, hx, hy, halike', by simp only [hrun']; rfl⟩
      · refine Or.inr ⟨stop, hparting, ?_⟩
        calc (settle t.run).1 = t.run.1 := hlive.settle_run_fst
          _ = .error stop := by rw [hrun']

end Machine
end WindowVM
