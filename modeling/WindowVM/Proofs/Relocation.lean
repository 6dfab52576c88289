/-
# Relocated machines

Without `mov` and `movi`, a frame reaches registers only through its own window and the
windows of the frames it calls, which lie above.  So two activations of the same function
can go the same way at different places of different register files.

A `Site` is where an activation runs.  `Relocated x y m n` says that two machines are at the
same point of the same activation at two sites: the frames that were called since it began
are `CalledAlike`, each as far above one site as above the other, and the machines `Agree`
on the words from the bases of the sites on, a register that does not exist counting as
zero.  `Relocated.together` is the step lemma: until the activation returns, both machines
step the same way, or one of them runs out of room.
-/

import WindowVM.Proofs.Isolation

namespace WindowVM

/-- A register that exists reads as the word written last. -/
theorem RegisterFile.get_write {r : RegisterFile} {index : Nat} (h : index < r.capacity)
    (word : Word) : (r.write index word).get index = .ok word := by
  rw [get_eq, capacity_write, if_pos h, word_write _ h, if_pos rfl]

/-- No instruction of the program names a register of the whole file. -/
def Program.IsWindowed (p : Program) : Prop := ∀ i ∈ p.code, i.IsWindowed

instance (p : Program) : Decidable p.IsWindowed :=
  inferInstanceAs (Decidable (∀ i ∈ p.code, i.IsWindowed))

theorem Program.IsWindowed.of_get? {p : Program} (h : p.IsWindowed) {pc : Nat} {i : Instruction}
    (hfetch : p.get? pc = some i) : i.IsWindowed :=
  h i (Array.mem_of_getElem? hfetch)

namespace Instruction

/-- The size of the file is no matter to a windowed instruction. -/
theorem IsWindowed.misfit?_congr {i : Instruction} (h : i.IsWindowed) (len capacity other : Nat) :
    i.misfit? len capacity = i.misfit? len other := by
  have habsolute : i.absoluteOperands = [] := by
    cases i with
    | move => exact absurd rfl h.1
    | moveImmediate => exact absurd rfl h.2
    | _ => rfl
  rw [misfit?, misfit?, habsolute, List.find?_nil, List.find?_nil]
  cases i.relativeOperands.find? fun index => len ≤ index.toNat <;> rfl

/-- A windowed instruction writes the same word at the same place of two windows that hold
the same words. -/
theorem IsWindowed.work_shift {i : Instruction} (h : i.IsWindowed) {r s : RegisterFile}
    {w v : Window} (hword : ∀ j, r.word (w.base + j) = s.word (v.base + j)) {index : Nat}
    {word : Word} (hwork : i.work r w = .write index word) :
    ∃ j, index = w.base + j ∧ i.work s v = .write (v.base + j) word := by
  cases i with
  | ret => simp [work] at hwork
  | call => simp [work] at hwork
  | move => exact absurd rfl h.1
  | moveImmediate => exact absurd rfl h.2
  | add destination source =>
    obtain ⟨rfl, rfl⟩ := Effect.write.inj hwork
    exact ⟨destination.toNat, rfl, by rw [work, hword, hword]⟩
  | addImmediate destination value =>
    obtain ⟨rfl, rfl⟩ := Effect.write.inj hwork
    exact ⟨destination.toNat, rfl, by rw [work, hword]⟩
  | increment register =>
    obtain ⟨rfl, rfl⟩ := Effect.write.inj hwork
    exact ⟨register.toNat, rfl, by rw [work, hword]⟩
  | decrement register =>
    obtain ⟨rfl, rfl⟩ := Effect.write.inj hwork
    exact ⟨register.toNat, rfl, by rw [work, hword]⟩

end Instruction

namespace Machine

variable {m n : Machine} {rootSize : Nat} {f : Frame} {fs : List Frame}

/-! ### What a step is, by the instruction -/

namespace Live

variable {i : Instruction} {target frameSize destination : Word}

/-- A fitting instruction that writes a register does so. -/
theorem step_of_write (h : m.Live rootSize (f :: fs)) (hfetch : m.program.get? m.pc = some i)
    (hmisfit : i.misfit? f.window.len m.registers.capacity = none) {index : Nat} {word : Word}
    (hwork : i.work m.registers f.window = .write index word) :
    m.step = .running ((m.counted i).writing index word (m.pc + 1)) := by
  rw [h.step_of_fit hfetch hmisfit, hwork, carryOut_write hfetch]

/-- A call of a frame without registers stops the machine. -/
theorem step_of_emptyFrame (h : m.Live rootSize (f :: fs))
    (hfetch : m.program.get? m.pc = some (.call target 0 destination))
    (hmisfit : (Instruction.call target 0 destination).misfit? f.window.len
      m.registers.capacity = none) :
    m.step = .stopped (.fault (.emptyFrame m.pc)) (m.counted (.call target 0 destination)) := by
  rw [h.step_of_fit hfetch hmisfit, Instruction.work, carryOut, enter, if_pos rfl]
  rfl

/-- A fitting call that finds room does not stop short. -/
theorem ne_stopped_of_call (h : m.Live rootSize (f :: fs))
    (hfetch : m.program.get? m.pc = some (.call target frameSize destination))
    (hmisfit : (Instruction.call target frameSize destination).misfit? f.window.len
      m.registers.capacity = none) (hsize : frameSize ≠ 0)
    (hroom : ∀ cause e, m.step ≠ .stopped (.exhausted cause) e) (stop : Stop) (e : Machine) :
    m.step ≠ .stopped stop e := by
  intro hstep
  have htransition := h.transition
  rw [hstep] at htransition
  cases htransition with
  | pastEnd hnone => simp [hnone] at hfetch
  | misfit hfetch' hmisfit' =>
    obtain rfl := Option.some.inj (hfetch'.symm.trans hfetch)
    simp [hmisfit] at hmisfit'
  | emptyFrame hfetch' _ hsize' =>
    obtain ⟨-, rfl, -⟩ := Instruction.call.inj (Option.some.inj (hfetch'.symm.trans hfetch))
    exact hsize hsize'
  | noRegisters => exact hroom _ _ hstep
  | noFrames => exact hroom _ _ hstep

end Live

/-- The current frame `f` hands its `result` back: to its caller, or as that of the
execution. -/
def HandsBack (f : Frame) (result : Word) (m n : Machine) : Prop :=
  match f.link with
  | none => m.step = .finished result n
  | some link => m.step = .running n ∧ n.registers.get link.destination = .ok result

/-- A frame at a `ret` hands back the word of its register 0. -/
theorem Live.exists_handsBack (h : m.Live rootSize (f :: fs))
    (hfetch : m.program.get? m.pc = some .ret) :
    ∃ n, HandsBack f (m.registers.word f.window.base) m n := by
  obtain ⟨frames, -, -, hstep⟩ := h.transition.of_ret hfetch
  simp only [HandsBack]
  cases hlink : f.link with
  | none =>
    rw [hlink] at hstep
    exact ⟨_, hstep⟩
  | some link =>
    rw [hlink] at hstep
    refine ⟨_, hstep, ?_⟩
    exact RegisterFile.get_write (h.destination_lt_capacity hlink) _

/-- A `ret` does not stop short. -/
theorem Live.ne_stopped_of_ret (h : m.Live rootSize fs)
    (hfetch : m.program.get? m.pc = some .ret) (stop : Stop) (e : Machine) :
    m.step ≠ .stopped stop e := by
  obtain ⟨f, fs, rfl, htransition⟩ := h.exists_transition rfl
  obtain ⟨frames, -, -, hstep⟩ := htransition.of_ret hfetch
  rw [hstep]
  cases f.link <;> simp

/-- A return leaves the words from the base of the frame on as they are. -/
theorem Live.word_of_handsBack (h : m.Live rootSize (f :: fs))
    (hfetch : m.program.get? m.pc = some .ret) {result : Word} (hback : HandsBack f result m n)
    (j : Nat) :
    n.registers.word (f.window.base + j) = m.registers.word (f.window.base + j) := by
  obtain ⟨frames, -, -, hstep⟩ := h.transition.of_ret hfetch
  cases hlink : f.link with
  | none =>
    simp only [HandsBack, hlink] at hback
    rw [hlink, hback] at hstep
    obtain ⟨-, rfl⟩ := Progress.finished.inj hstep
    rfl
  | some link =>
    simp only [HandsBack, hlink] at hback
    rw [hlink, hback.1] at hstep
    obtain rfl := Progress.running.inj hstep
    have hlt := (h.nested.destination_lt hlink).2
    exact RegisterFile.word_write_of_ne _ _ (by omega)

/-! ### Two sites -/

/-- Where an activation runs. -/
structure Site where
  /-- The size of the root frame of the execution. -/
  rootSize : Nat
  frame : Frame
  /-- The live frames below the one of the activation. -/
  below : List Frame

/-- The first register of the activation. -/
def Site.base (x : Site) : Nat := x.frame.window.base

/-- The frames `u` over `us` and `v` over `vs` were called alike since an activation began
at the sites `x` and `y`. -/
inductive CalledAlike (x y : Site) : Frame → List Frame → Frame → List Frame → Prop
  /-- Nothing was called yet. -/
  | start (hlen : x.frame.window.len = y.frame.window.len) :
      CalledAlike x y x.frame x.below y.frame y.below
  /-- The same `call` was made at both. -/
  | call {u v : Frame} {us vs : List Frame} (h : CalledAlike x y u us v vs) (pc : Nat)
      (frameSize destination : Word) :
      CalledAlike x y (calleeFrame u us pc frameSize destination) (u :: us)
        (calleeFrame v vs pc frameSize destination) (v :: vs)

namespace CalledAlike

variable {x y : Site} {u v : Frame} {us vs : List Frame}

/-- Frames that were called alike start as far above one site as above the other, and are
equally long. -/
theorem exists_offset (h : CalledAlike x y u us v vs) :
    ∃ offset, u.window.base = x.base + offset ∧ v.window.base = y.base + offset ∧
      u.window.len = v.window.len := by
  induction h with
  | start hlen => exact ⟨0, rfl, rfl, hlen⟩
  | @call u v us vs h pc frameSize destination ih =>
    obtain ⟨offset, hu, hv, hlen⟩ := ih
    refine ⟨offset + u.window.len, ?_, ?_, rfl⟩
    · simp only [calleeFrame]
      omega
    · simp only [calleeFrame]
      omega

/-- As many frames were called at one site as at the other. -/
theorem exists_depth (h : CalledAlike x y u us v vs) :
    ∃ depth, us.length = x.below.length + depth ∧ vs.length = y.below.length + depth := by
  induction h with
  | start => exact ⟨0, rfl, rfl⟩
  | call h pc frameSize destination ih =>
    obtain ⟨depth, hus, hvs⟩ := ih
    exact ⟨depth + 1, congrArg (· + 1) hus, congrArg (· + 1) hvs⟩

/-- At the depth of the sites nothing is called. -/
theorem eq_of_length (h : CalledAlike x y u us v vs) (hlength : us.length = x.below.length) :
    u = x.frame ∧ us = x.below ∧ v = y.frame ∧ vs = y.below := by
  cases h with
  | start => exact ⟨rfl, rfl, rfl, rfl⟩
  | call h =>
    obtain ⟨depth, hus, -⟩ := h.exists_depth
    rw [List.length_cons] at hlength
    omega

end CalledAlike

/-- Machines at the same instruction of the same program, whose registers agree from `base`
and from `other` on, where a register that does not exist counts as zero. -/
structure Agree (base other : Nat) (m n : Machine) : Prop where
  program : m.program = n.program
  pc : m.pc = n.pc
  word : ∀ j, m.registers.word (base + j) = n.registers.word (other + j)

namespace Agree

variable {base other : Nat}

theorem symm (h : Agree base other m n) : Agree other base n m :=
  ⟨h.program.symm, h.pc.symm, fun j => (h.word j).symm⟩

/-- Machines that agree fetch the same instruction. -/
theorem fetch_eq (h : Agree base other m n) : m.program.get? m.pc = n.program.get? n.pc := by
  rw [h.program, h.pc]

/-- Words that agree from the bases on agree from any place above them on. -/
theorem word_of_offset (h : Agree base other m n) {i j offset : Nat} (hi : i = base + offset)
    (hj : j = other + offset) (k : Nat) : m.registers.word (i + k) = n.registers.word (j + k) := by
  rw [hi, hj, Nat.add_assoc, Nat.add_assoc, h.word]

theorem counted (h : Agree base other m n) (i : Instruction) :
    Agree base other (m.counted i) (n.counted i) :=
  ⟨h.program, h.pc, h.word⟩

theorem entering (h : Agree base other m n) (frames frames' : CallStack) (target : Nat) :
    Agree base other (m.entering frames target) (n.entering frames' target) :=
  ⟨h.program, rfl, h.word⟩

theorem leaving (h : Agree base other m n) (frames frames' : CallStack) (i j : Nat) :
    Agree base other (m.leaving frames i) (n.leaving frames' j) :=
  ⟨h.program, h.pc, h.word⟩

/-- Machines still agree when a register is written that is as far above one base as above
the other. -/
theorem writing (h : Agree base other m n) {i j offset : Nat} (hi : i = base + offset)
    (hj : j = other + offset) (hm : i < m.registers.capacity) (hn : j < n.registers.capacity)
    (word : Word) (pc : Nat) :
    Agree base other (m.writing i word pc) (n.writing j word pc) := by
  refine ⟨h.program, rfl, ?_⟩
  intro k
  simp only [Machine.writing]
  rw [RegisterFile.word_write _ hm, RegisterFile.word_write _ hn, h.word, hi, hj]
  simp only [Nat.add_left_cancel_iff]

/-- Machines still agree when registers are handed out, also if only one of them grows. -/
theorem extend (h : Agree base other m n) (capacity capacity' len : Nat) :
    Agree base other (m.extend capacity len) (n.extend capacity' len) := by
  refine ⟨h.program, h.pc, ?_⟩
  intro k
  simp only [Machine.extend]
  rw [RegisterFile.word_extend, RegisterFile.word_extend, h.word]

end Agree

/-- Machines at the same point of the same activation at two sites, where the frames `u` over
`us` and `v` over `vs` are live. -/
structure Aligned (x y : Site) (u : Frame) (us : List Frame) (v : Frame) (vs : List Frame)
    (m n : Machine) : Prop where
  calledAlike : CalledAlike x y u us v vs
  left : m.Live x.rootSize (u :: us)
  right : n.Live y.rootSize (v :: vs)
  agree : Agree x.base y.base m n

/-- Machines at the same point of the same activation at two sites. -/
def Relocated (x y : Site) (m n : Machine) : Prop := ∃ u us v vs, Aligned x y u us v vs m n

/-- The current frame is as deep as `depth`, and about to return. -/
def ReturnsFrom (depth : Nat) (m : Machine) : Prop :=
  m.frames.live = depth ∧ m.program.get? m.pc = some .ret

instance (depth : Nat) (m : Machine) : Decidable (m.ReturnsFrom depth) :=
  inferInstanceAs (Decidable (_ ∧ _))

/-- Steps at two sites that go the same way. -/
inductive Together (x y : Site) : Progress → Progress → Prop
  | running {m n : Machine} (h : Relocated x y m n) : Together x y (.running m) (.running n)
  /-- Both break the same rule of use. -/
  | stopped {m n : Machine} (fault : Fault) :
      Together x y (.stopped (.fault fault) m) (.stopped (.fault fault) n)

namespace Aligned

variable {x y : Site} {u v : Frame} {us vs : List Frame} {i : Instruction}

/-- The same instruction is fetched at both sites. -/
theorem fetch_right (h : Aligned x y u us v vs m n) (hfetch : m.program.get? m.pc = some i) :
    n.program.get? n.pc = some i :=
  h.agree.fetch_eq.symm.trans hfetch

/-- An instruction that fits at one site fits at the other, and so does one that does not. -/
theorem misfit?_right (h : Aligned x y u us v vs m n) (hi : i.IsWindowed) :
    i.misfit? v.window.len n.registers.capacity = i.misfit? u.window.len m.registers.capacity := by
  obtain ⟨-, -, -, hlen⟩ := h.calledAlike.exists_offset
  rw [← hlen]
  exact hi.misfit?_congr ..

/-- An activation is about to return at both sites or at none. -/
theorem returnsFrom_iff (h : Aligned x y u us v vs m n) :
    m.ReturnsFrom (x.below.length + 1) ↔ n.ReturnsFrom (y.below.length + 1) := by
  obtain ⟨depth, hus, hvs⟩ := h.calledAlike.exists_depth
  rw [ReturnsFrom, ReturnsFrom, h.agree.fetch_eq, h.left.frames.live, h.right.frames.live,
    List.length_cons, List.length_cons]
  refine and_congr_left fun _ => ?_
  omega

/-- A register is written at the same place of both activations. -/
theorem write (h : Aligned x y u us v vs m n) (hfetch : m.program.get? m.pc = some i)
    (hi : i.IsWindowed) (hmisfit : i.misfit? u.window.len m.registers.capacity = none)
    {index : Nat} {word : Word} (hwork : i.work m.registers u.window = .write index word) :
    Together x y m.step n.step := by
  obtain ⟨offset, hu, hv, -⟩ := h.calledAlike.exists_offset
  have hfetch' := h.fetch_right hfetch
  have hmisfit' := (h.misfit?_right hi).trans hmisfit
  obtain ⟨j, rfl, hwork'⟩ := hi.work_shift (h.agree.word_of_offset hu hv) hwork
  have hexists := Instruction.lt_capacity_of_work h.left.window_le hmisfit hwork
  have hexists' := Instruction.lt_capacity_of_work h.right.window_le hmisfit' hwork'
  rw [h.left.step_of_write hfetch hmisfit hwork, h.right.step_of_write hfetch' hmisfit' hwork',
    h.agree.pc]
  refine .running ⟨u, us, v, vs, h.calledAlike, (h.left.counted i).writing ..,
    (h.right.counted i).writing .., ?_⟩
  have hplace : u.window.base + j = x.base + (offset + j) := by rw [hu, Nat.add_assoc]
  have hplace' : v.window.base + j = y.base + (offset + j) := by rw [hv, Nat.add_assoc]
  exact (h.agree.counted i).writing hplace hplace' hexists hexists' word _

/-- A frame is entered at the same place of both activations. -/
theorem call (h : Aligned x y u us v vs m n) {target frameSize destination : Word}
    (hfetch : m.program.get? m.pc = some (.call target frameSize destination))
    (hi : (Instruction.call target frameSize destination).IsWindowed)
    (hmisfit : (Instruction.call target frameSize destination).misfit? u.window.len
      m.registers.capacity = none)
    (hm : ∀ cause e, m.step ≠ .stopped (.exhausted cause) e)
    (hn : ∀ cause e, n.step ≠ .stopped (.exhausted cause) e) :
    Together x y m.step n.step := by
  have hfetch' := h.fetch_right hfetch
  have hmisfit' := (h.misfit?_right hi).trans hmisfit
  by_cases hsize : frameSize = 0
  · obtain rfl := hsize
    rw [h.left.step_of_emptyFrame hfetch hmisfit, h.right.step_of_emptyFrame hfetch' hmisfit',
      h.agree.pc]
    exact .stopped _
  have hrunning := h.left.ne_stopped_of_call hfetch hmisfit hsize hm
  have hrunning' := h.right.ne_stopped_of_call hfetch' hmisfit' hsize hn
  obtain ⟨capacity, frames, hdestination, hpos, hroom, hfree, hframes, hlimit, hstep⟩ :=
    h.left.transition.of_call hfetch hrunning
  obtain ⟨capacity', frames', hdestination', -, hroom', hfree', hframes', hlimit', hstep'⟩ :=
    h.right.transition.of_call hfetch' hrunning'
  have hlive := h.left.entering hfetch hdestination hpos hroom hfree hframes hlimit
    (.call target frameSize destination)
  have hlive' := h.right.entering hfetch' hdestination' hpos hroom' hfree' hframes' hlimit'
    (.call target frameSize destination)
  rw [← h.agree.pc] at hlive'
  rw [hstep, hstep']
  exact .running ⟨_, _, _, _, h.calledAlike.call m.pc frameSize destination, hlive, hlive',
    ((h.agree.counted _).extend ..).entering ..⟩

/-- A frame that was called since the activations began returns to the same place of both. -/
theorem ret (h : Aligned x y u us v vs m n) (hfetch : m.program.get? m.pc = some .ret)
    (hreturn : ¬ m.ReturnsFrom (x.below.length + 1)) : Together x y m.step n.step := by
  obtain ⟨frames, hframes, hlimit, hstep⟩ := h.left.transition.of_ret hfetch
  obtain ⟨frames', hframes', hlimit', hstep'⟩ := h.right.transition.of_ret (h.fetch_right hfetch)
  obtain ⟨offset, hu, hv, -⟩ := h.calledAlike.exists_offset
  have hresult := h.agree.word_of_offset hu hv 0
  have hleft := h.left
  have hright := h.right
  cases h.calledAlike with
  | start => exact absurd ⟨h.left.frames.live, hfetch⟩ hreturn
  | @call u v us vs hcalled pc frameSize destination =>
    obtain ⟨offset, hu, hv, -⟩ := hcalled.exists_offset
    rw [Nat.add_zero, Nat.add_zero] at hresult
    rw [hstep, hstep', hresult]
    refine .running ⟨u, us, v, vs, hcalled,
      (hleft.leaving (List.cons_ne_nil _ _) hframes hlimit .ret).writing ..,
      (hright.leaving (List.cons_ne_nil _ _) hframes' hlimit' .ret).writing .., ?_⟩
    have hplace : u.window.base + destination.toNat = x.base + (offset + destination.toNat) := by
      rw [hu, Nat.add_assoc]
    have hplace' : v.window.base + destination.toNat = y.base + (offset + destination.toNat) := by
      rw [hv, Nat.add_assoc]
    refine ((h.agree.counted .ret).leaving ..).writing hplace hplace' ?_ ?_ ..
    · exact hleft.destination_lt_capacity rfl
    · exact hright.destination_lt_capacity rfl

end Aligned

namespace Relocated

variable {x y : Site}

theorem returnsFrom_iff (h : Relocated x y m n) :
    m.ReturnsFrom (x.below.length + 1) ↔ n.ReturnsFrom (y.below.length + 1) := by
  obtain ⟨u, us, v, vs, h⟩ := h
  exact h.returnsFrom_iff

/-- **An activation steps the same way at two sites,** until it returns or runs out of
room. -/
theorem together (h : Relocated x y m n) (hwindowed : m.program.IsWindowed)
    (hreturn : ¬ m.ReturnsFrom (x.below.length + 1))
    (hm : ∀ cause e, m.step ≠ .stopped (.exhausted cause) e)
    (hn : ∀ cause e, n.step ≠ .stopped (.exhausted cause) e) :
    Together x y m.step n.step := by
  obtain ⟨u, us, v, vs, h⟩ := h
  cases hfetch : m.program.get? m.pc with
  | none =>
    have hfetch' := h.agree.fetch_eq.symm.trans hfetch
    rw [step_of_pastEnd hfetch, step_of_pastEnd hfetch', h.agree.program, h.agree.pc]
    exact .stopped _
  | some i =>
    have hi := hwindowed.of_get? hfetch
    cases hmisfit : i.misfit? u.window.len m.registers.capacity with
    | some fault =>
      have hmisfit' := (h.misfit?_right hi).trans hmisfit
      rw [h.left.step_of_misfit hfetch hmisfit,
        h.right.step_of_misfit (h.fetch_right hfetch) hmisfit']
      exact .stopped fault
    | none =>
      cases i with
      | ret => exact h.ret hfetch hreturn
      | call target frameSize destination => exact h.call hfetch hi hmisfit hm hn
      | _ => exact h.write hfetch hi hmisfit rfl

/-- Activations that are about to return are back in the frames they began in. -/
theorem of_returnsFrom (h : Relocated x y m n) (hreturn : m.ReturnsFrom (x.below.length + 1)) :
    m.Live x.rootSize (x.frame :: x.below) ∧ n.Live y.rootSize (y.frame :: y.below) ∧
      Agree x.base y.base m n := by
  obtain ⟨u, us, v, vs, hcalled, hlive, hlive', hagree⟩ := h
  have hdepth : us.length + 1 = x.below.length + 1 := hlive.frames.live.symm.trans hreturn.1
  obtain ⟨rfl, rfl, rfl, rfl⟩ := hcalled.eq_of_length (Nat.succ.inj hdepth)
  exact ⟨hlive, hlive', hagree⟩

end Relocated
end Machine
end WindowVM
