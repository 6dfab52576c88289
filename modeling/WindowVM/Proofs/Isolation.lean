/-
# A callee spares the registers below it

Every instruction but `mov` and `movi` reaches registers through the window of its frame
(`Instruction.IsWindowed`).  Windows lie one above the other, so what such instructions
write in a callee, or in a frame that the callee called, lies at or above the callee's base.
The results of nested calls do too: they go to the windows of their callers.  Only the
callee's own result goes below, to the one register that its `call` named.

`Live.word_eq_of_step` is this for one step, and `Reachable.get_eq_below_callee` for whole
segments between a call and the matching return.
-/

import WindowVM.Proofs.FrameChain
import WindowVM.Proofs.Lockstep
import WindowVM.Proofs.Segments

namespace WindowVM

/-- A register keeps its word when another one is written. -/
theorem RegisterFile.word_write_of_ne (r : RegisterFile) {index other : Nat} (word : Word)
    (h : other ≠ index) : (r.write index word).word other = r.word other := by
  rw [RegisterFile.word, write, Array.getElem?_setIfInBounds_ne (Ne.symm h), RegisterFile.word]

namespace Instruction

/-- The instruction names no register of the whole file. -/
def IsWindowed (i : Instruction) : Prop := i.opcode ≠ .move ∧ i.opcode ≠ .moveImmediate

instance (i : Instruction) : Decidable i.IsWindowed :=
  inferInstanceAs (Decidable (_ ∧ _))

/-- What a windowed instruction writes lies in the window or above it. -/
theorem IsWindowed.base_le_of_work {i : Instruction} (h : i.IsWindowed) {r : RegisterFile}
    {w : Window} {index : Nat} {word : Word} (hwork : i.work r w = .write index word) :
    w.base ≤ index := by
  cases i with
  | ret => simp [work] at hwork
  | call => simp [work] at hwork
  | move => exact absurd rfl h.1
  | moveImmediate => exact absurd rfl h.2
  | _ =>
    obtain ⟨rfl, -⟩ := Effect.write.inj hwork
    exact Nat.le_add_right _ _

end Instruction

/-- No window of nested frames starts above the current one. -/
theorem Nested.base_le_of_mem {p : Program} {rootSize : Nat} {f g : Frame} {fs : List Frame}
    (h : Nested p rootSize (f :: fs)) (hg : g ∈ f :: fs) : g.window.base ≤ f.window.base := by
  induction fs generalizing f with
  | nil =>
    obtain rfl := List.mem_singleton.1 hg
    exact Nat.le_refl _
  | cons caller fs ih =>
    rcases List.mem_cons.1 hg with rfl | hg
    · exact Nat.le_refl _
    · have hbelow := ih (h.tail (List.cons_ne_nil _ _)) hg
      have hbase : f.window.base = caller.window.base + caller.window.len := h.base_eq
      omega

/-- A result goes to the window of the caller, or above it. -/
theorem Nested.base_le_destination {p : Program} {rootSize : Nat} {f caller : Frame}
    {fs : List Frame} (h : Nested p rootSize (f :: caller :: fs)) {link : Link}
    (hlink : f.link = some link) : caller.window.base ≤ link.destination := by
  cases h with
  | call =>
    obtain rfl := Option.some.inj hlink
    exact Nat.le_add_right _ _

namespace Machine

/-- The instruction to dispatch next names no register of the whole file. -/
def DispatchesWindowed (m : Machine) : Prop := ∀ i ∈ m.program.get? m.pc, i.IsWindowed

instance (m : Machine) : Decidable m.DispatchesWindowed :=
  inferInstanceAs (Decidable (∀ i ∈ m.program.get? m.pc, i.IsWindowed))

variable {p : Program} {c : Config} {m n s t u : Machine} {rootSize k : Nat}
  {callee : Frame} {fs below : List Frame}

/-- **A windowed step in a callee spares the registers below the callee,** the return of the
callee also if they are not where its result goes. -/
theorem Live.word_eq_of_step (h : m.Live rootSize fs) (hsuffix : callee :: below <:+ fs)
    (hwindowed : m.DispatchesWindowed) (hstep : m.step = .running n) {index : Nat}
    (hindex : index < callee.window.base)
    (hresult : n.frames.live = below.length → ∀ link ∈ callee.link, index ≠ link.destination) :
    n.registers.word index = m.registers.word index := by
  obtain ⟨f, fs, rfl, htransition⟩ := h.exists_transition hstep
  have hbase := h.nested.base_le_of_mem (hsuffix.subset List.mem_cons_self)
  cases htransition with
  | wrote hfetch _ hwork =>
    have hle := (hwindowed _ hfetch).base_le_of_work hwork
    exact RegisterFile.word_write_of_ne _ _ (by omega)
  | entered => exact RegisterFile.word_extend ..
  | @returned link _ _ hlink hframes =>
    refine RegisterFile.word_write_of_ne _ _ ?_
    rcases List.suffix_cons_iff.1 hsuffix with heq | hsuffix
    · obtain ⟨rfl, rfl⟩ := List.cons.inj heq
      exact hresult hframes.live link hlink
    · obtain ⟨caller, gs, rfl⟩ := List.exists_cons_of_ne_nil (h.nested.destination_lt hlink).1
      have hcaller := (h.nested.tail (List.cons_ne_nil _ _)).base_le_of_mem
        (hsuffix.subset List.mem_cons_self)
      have hdestination := h.nested.base_le_destination hlink
      omega

/-- **A windowed walk above the frames `below` a callee spares the registers below it,** and
to its return all but the one that the result goes to. -/
theorem Live.word_eq_of_walk (h : m.Live rootSize (callee :: below))
    (hwalk : Walk (fun a => a.frames.live ≠ below.length ∧ a.DispatchesWindowed) k m n)
    {index : Nat} (hindex : index < callee.window.base)
    (hresult : n.frames.live = below.length → ∀ link ∈ callee.link, index ≠ link.destination) :
    n.registers.word index = m.registers.word index := by
  induction hwalk with
  | refl => rfl
  | @tail j m a n hwalk ha hstep ih =>
    rw [← ih h fun hlive => absurd hlive ha.1]
    -- As more frames than `below` are live at `a`, the callee is one of them.
    rcases h.of_walk (fun _ hP => hP.1) hwalk with ⟨gs, hlive, hsuffix⟩ |
      ⟨-, -, -, -, -, -, -, -, hback⟩
    · exact hlive.word_eq_of_step hsuffix ha.2 hstep hindex hresult
    · exact absurd hback.frames.live ha.1

/-- A `call` changes no register. -/
theorem Live.word_eq_of_call (h : m.Live rootSize fs) {target frameSize destination : Word}
    (hfetch : m.program.get? m.pc = some (.call target frameSize destination))
    (hstep : m.step = .running n) (index : Nat) :
    n.registers.word index = m.registers.word index := by
  obtain ⟨f, fs, rfl, htransition⟩ := h.exists_transition hstep
  cases htransition with
  | wrote hfetch' _ hwork =>
    obtain rfl := Option.some.inj (hfetch'.symm.trans hfetch)
    simp [Instruction.work] at hwork
  | entered => exact RegisterFile.word_extend ..
  | returned hfetch' => simp [hfetch] at hfetch'

/-- **A callee spares the registers below it.**  Take a fetch of any execution at which a
`call` creates the frame `callee` over the frame `caller`, and go on from there for as long
as the depth of the call is not reached again and no `mov` and no `movi` is dispatched.
Before the matching return, every register below the callee's base reads as before the
call, however many frames were entered and left in between; and after it, every one does
but the destination of the `call`. -/
theorem Reachable.get_eq_below_callee (h : Reachable p c m) {entry : Nat}
    (hs : m.Fetches entry rootSize s) {target frameSize destination : Word}
    (hfetch : s.program.get? s.pc = some (.call target frameSize destination))
    (hstep : s.step = .running t) {caller callee : Frame}
    (hcaller : s.frames.currentFrame? = some caller)
    (hcallee : t.frames.currentFrame? = some callee)
    (hwalk : Walk (fun a => a.frames.live ≠ s.frames.live ∧ a.DispatchesWindowed) k t u) :
    callee.window.base ≤ s.registers.capacity ∧
      (u.frames.live ≠ s.frames.live → ∀ index, index < callee.window.base →
        u.registers.get index = s.registers.get index) ∧
      (u.frames.live = s.frames.live → ∀ index, index < callee.window.base →
        index ≠ caller.window.base + destination.toNat →
        u.registers.get index = s.registers.get index) := by
  obtain ⟨-, fs, hlive⟩ := h.live_of_fetches hs
  obtain ⟨f, fs, rfl⟩ := List.exists_cons_of_ne_nil hlive.nested.ne_nil
  obtain rfl := Option.some.inj (hlive.currentFrame?.symm.trans hcaller)
  have hcalled := hlive.of_call hfetch hstep
  obtain rfl := Option.some.inj (hcalled.currentFrame?.symm.trans hcallee)
  have hbase : f.window.base + f.window.len ≤ s.registers.capacity := hlive.window_le
  have hcapacity : s.registers.capacity ≤ u.registers.capacity :=
    Nat.le_trans (hlive.capacity_le hstep) (hcalled.capacity_le_of_reaches hwalk.reaches)
  rw [hlive.frames.live] at hwalk ⊢
  have hget {index : Nat} (hindex : index < f.window.base + f.window.len)
      (hword : u.registers.word index = t.registers.word index) :
      u.registers.get index = s.registers.get index := by
    rw [RegisterFile.get_eq, RegisterFile.get_eq, if_pos (by omega), if_pos (by omega), hword,
      hlive.word_eq_of_call hfetch hstep]
  refine ⟨hbase, ?_, ?_⟩
  · intro hdeep index hindex
    refine hget hindex (hcalled.word_eq_of_walk hwalk hindex ?_)
    exact fun hdepth => absurd hdepth hdeep
  · intro _ index hindex hdestination
    refine hget hindex (hcalled.word_eq_of_walk hwalk hindex ?_)
    rintro - link hlink
    obtain rfl := Option.some.inj hlink
    exact hdestination

/-- The hypotheses are satisfiable: a callee calls a frame of its own, which counts up and
returns, and register 0 of the root still holds its parameter. -/
theorem Reachable.get_eq_below_callee_of_nested :
    ∃ m s u : Machine, Reachable ⟨#[.moveImmediate 0 7, .call 3 1 1, .ret, .call 5 1 0, .ret,
        .increment 0, .ret], by decide⟩ { initialRegisters := 4, growthIncrement := 1 } m ∧
      m.Fetches 0 2 s ∧ u.frames.live = s.frames.live ∧ s.registers.get 0 = .ok 7 ∧
        u.registers.get 0 = .ok 7 ∧ u.registers.get 1 = .ok 1 := by
  obtain ⟨m, s, t, u, hm, hs, hfetch, hstep, hcaller, hcallee, hwalk, hdepth, hparameter,
      hresult⟩ : ∃ m s t u : Machine, ofConfig ⟨#[.moveImmediate 0 7, .call 3 1 1, .ret,
        .call 5 1 0, .ret, .increment 0, .ret], by decide⟩
          { initialRegisters := 4, growthIncrement := 1 } = .ok m ∧
      m.Fetches 0 2 s ∧ s.program.get? s.pc = some (.call 3 1 1) ∧ s.step = .running t ∧
      s.frames.currentFrame? = some ⟨⟨0, 2⟩, none⟩ ∧
      t.frames.currentFrame? = some ⟨⟨2, 1⟩, some ⟨0, 2, 1⟩⟩ ∧
      Walk (fun a => a.frames.live ≠ s.frames.live ∧ a.DispatchesWindowed) 4 t u ∧
      u.frames.live = s.frames.live ∧ s.registers.get 0 = .ok 7 ∧ u.registers.get 1 = .ok 1 :=
    ⟨_, _, _, _, rfl, ⟨rfl, _, rfl, .single rfl⟩, rfl, rfl, rfl, rfl,
      ((((Walk.refl _).tail (by decide) rfl).tail (by decide) rfl).tail (by decide) rfl).tail
        (by decide) rfl, by rfl, by rfl, by rfl⟩
  have hspared := (Reachable.new hm).get_eq_below_callee hs hfetch hstep hcaller hcallee hwalk
  refine ⟨m, s, u, .new hm, hs, hdepth, hparameter, ?_, hresult⟩
  exact (hspared.2.2 hdepth 0 (by decide) (by decide)).trans hparameter

end Machine
end WindowVM
