/-
# An activation does not depend on where it runs

An activation of a frame lasts from any of its fetches until the frame returns, with
everything the frame calls in between.  `Active`, `Returns` and `Faults` say how far it gets
and how it ends.  In a program without `mov` and `movi`, what it does depends on its code
and on the words from its base on; it does not depend on the base itself, on the frames
below, on the size of the register file or on when the file grows.

`Parallel.exists_active` carries `Relocated` through whole activations, and
`Reachable.relocatable` is the result for any two fetches of any two machines.
-/

import WindowVM.Proofs.Relocation

namespace WindowVM
namespace Machine

variable {p : Program} {c d : Config} {m n s t : Machine} {rootSize k : Nat} {x y : Site}

/-- The activation that is current at `m` is still live at `n`, after `k` steps. -/
def Active (m : Machine) (k : Nat) (n : Machine) : Prop :=
  Walk (fun a => ¬ a.ReturnsFrom m.frames.live) k m n

/-- The activation that is current at `m` returns `result` to the machine `n`, by the step
after the next `k`. -/
def Returns (m : Machine) (k : Nat) (result : Word) (n : Machine) : Prop :=
  ∃ last f, m.Active k last ∧ last.ReturnsFrom m.frames.live ∧
    last.frames.currentFrame? = some f ∧ last.registers.get f.window.base = .ok result ∧
    HandsBack f result last n

/-- The activation that is current at `m` breaks a rule of use, by the step after the next
`k`. -/
def Faults (m : Machine) (k : Nat) (fault : Fault) : Prop :=
  ∃ last n, m.Active k last ∧ last.step = .stopped (.fault fault) n

/-- The activation that is current at `m` never runs out of registers or frames. -/
def HasRoom (m : Machine) : Prop :=
  ∀ k last, m.Active k last → ∀ cause n, last.step ≠ .stopped (.exhausted cause) n

/-- The activation that is current at `t`, with registers from `other` on, does all that the
one at `s`, with registers from `base` on, does. -/
structure Follows (s t : Machine) (base other : Nat) : Prop where
  /-- It executes the same instructions at the same depth, on the same words. -/
  active : ∀ k a, s.Active k a → ∃ b, t.Active k b ∧ a.pc = b.pc ∧
    a.frames.live + t.frames.live = b.frames.live + s.frames.live ∧
    ∀ j, a.registers.word (base + j) = b.registers.word (other + j)
  /-- It returns the same word, and leaves the same words. -/
  returns : ∀ k result a, s.Returns k result a → ∃ b, t.Returns k result b ∧
    ∀ j, a.registers.word (base + j) = b.registers.word (other + j)
  /-- It breaks the same rule. -/
  faults : ∀ k fault, s.Faults k fault → t.Faults k fault

/-- One activation at two sites, from the machines `s` and `t` on. -/
structure Parallel (x y : Site) (s t : Machine) : Prop where
  left : s.Live x.rootSize (x.frame :: x.below)
  right : t.Live y.rootSize (y.frame :: y.below)
  len : x.frame.window.len = y.frame.window.len
  agree : Agree x.base y.base s t
  windowed : s.program.IsWindowed
  room : s.HasRoom
  room' : t.HasRoom

namespace Parallel

theorem symm (h : Parallel x y s t) : Parallel y x t s :=
  ⟨h.right, h.left, h.len.symm, h.agree.symm, h.agree.program ▸ h.windowed, h.room', h.room⟩

/-- The activation is left by the return of the frame at the site. -/
theorem active_iff (h : Parallel x y s t) {a : Machine} :
    s.Active k a ↔ Walk (fun a => ¬ a.ReturnsFrom (x.below.length + 1)) k s a := by
  rw [Active, h.left.frames.live, List.length_cons]

/-- Until an activation returns, its steps at two sites go together. -/
theorem together (h : Parallel x y s t) {a b : Machine} (ha : s.Active k a) (hb : t.Active k b)
    (hrelocated : Relocated x y a b) (hreturn : ¬ a.ReturnsFrom (x.below.length + 1)) :
    Together x y a.step b.step := by
  have hprogram : a.program = s.program := h.left.program_of_walk ha
  exact hrelocated.together (hprogram ▸ h.windowed) hreturn (h.room _ _ ha) (h.room' _ _ hb)

/-- **An activation walks the same way at two sites.** -/
theorem exists_active (h : Parallel x y s t) {a : Machine} (ha : s.Active k a) :
    ∃ b, t.Active k b ∧ Relocated x y a b := by
  have hwalk := h.active_iff.1 ha
  clear ha
  induction hwalk with
  | refl => exact ⟨t, .refl t, _, _, _, _, .start h.len, h.left, h.right, h.agree⟩
  | @tail k s a a' hwalk hreturn hstep ih =>
    obtain ⟨b, hb, hrelocated⟩ := ih h
    have htogether := h.together (h.active_iff.2 hwalk) hb hrelocated hreturn
    rw [hstep] at htogether
    generalize hother : b.step = q at htogether
    cases htogether with
    | running hnext =>
      have hreturn' := mt hrelocated.returnsFrom_iff.2 hreturn
      exact ⟨_, h.symm.active_iff.2 ((h.symm.active_iff.1 hb).tail hreturn' hother), hnext⟩

/-- An activation at its `ret` returns the word of its register 0, and leaves the words from
its base on. -/
theorem returns_of_returnsFrom (h : Parallel x y s t) {a : Machine} (ha : s.Active k a)
    (hreturn : a.ReturnsFrom (x.below.length + 1)) :
    ∃ n, s.Returns k (a.registers.word x.base) n ∧
      ∀ j, n.registers.word (x.base + j) = a.registers.word (x.base + j) := by
  obtain ⟨b, -, hrelocated⟩ := h.exists_active ha
  obtain ⟨hlive, -, -⟩ := hrelocated.of_returnsFrom hreturn
  obtain ⟨n, hback⟩ := hlive.exists_handsBack hreturn.2
  refine ⟨n, ⟨a, x.frame, ha, ?_, hlive.currentFrame?, hlive.get_base, hback⟩, ?_⟩
  · rwa [h.left.frames.live]
  · exact hlive.word_of_handsBack hreturn.2 hback

/-- What an activation returns is the word of its register 0 at its `ret`. -/
theorem of_returns (h : Parallel x y s t) {result : Word} {n : Machine}
    (hn : s.Returns k result n) :
    ∃ a, s.Active k a ∧ a.ReturnsFrom (x.below.length + 1) ∧ a.registers.word x.base = result ∧
      ∀ j, n.registers.word (x.base + j) = a.registers.word (x.base + j) := by
  obtain ⟨a, f, hactive, hreturn, hcurrent, hresult, hback⟩ := hn
  rw [h.left.frames.live, List.length_cons] at hreturn
  obtain ⟨b, -, hrelocated⟩ := h.exists_active hactive
  obtain ⟨hlive, -, -⟩ := hrelocated.of_returnsFrom hreturn
  obtain rfl := Option.some.inj (hlive.currentFrame?.symm.trans hcurrent)
  refine ⟨a, hactive, hreturn, Except.ok.inj (hlive.get_base.symm.trans hresult), ?_⟩
  exact hlive.word_of_handsBack hreturn.2 hback

/-- Where one activation returns, the other does. -/
theorem exists_returns (h : Parallel x y s t) {result : Word} {n : Machine}
    (hn : s.Returns k result n) : ∃ o, t.Returns k result o ∧
      ∀ j, n.registers.word (x.base + j) = o.registers.word (y.base + j) := by
  obtain ⟨a, ha, hreturn, hresult, hword⟩ := h.of_returns hn
  obtain ⟨b, hb, hrelocated⟩ := h.exists_active ha
  have hagree := (hrelocated.of_returnsFrom hreturn).2.2
  have hresult' : b.registers.word y.base = result := (hagree.word 0).symm.trans hresult
  obtain ⟨o, ho, hword'⟩ :=
    h.symm.returns_of_returnsFrom hb (hrelocated.returnsFrom_iff.1 hreturn)
  rw [hresult'] at ho
  refine ⟨o, ho, ?_⟩
  intro j
  rw [hword, hword', hagree.word]

/-- Where one activation breaks a rule of use, the other does. -/
theorem faults (h : Parallel x y s t) {fault : Fault} (hs : s.Faults k fault) :
    t.Faults k fault := by
  obtain ⟨last, e, hactive, hstep⟩ := hs
  obtain ⟨last', hactive', hrelocated⟩ := h.exists_active hactive
  have hreturn : ¬ last.ReturnsFrom (x.below.length + 1) := by
    rintro ⟨-, hfetch⟩
    obtain ⟨u, us, v, vs, haligned⟩ := hrelocated
    exact haligned.left.ne_stopped_of_ret hfetch _ _ hstep
  have htogether := h.together hactive hactive' hrelocated hreturn
  rw [hstep] at htogether
  generalize hother : last'.step = q at htogether
  cases htogether with
  | stopped => exact ⟨last', _, hactive', hother⟩

/-- An activation returns or breaks a rule of use. -/
theorem ends (h : Parallel x y s t) {a : Machine} (ha : s.Active k a) :
    ∃ j, (∃ result n, s.Returns j result n) ∨ ∃ fault, s.Faults j fault := by
  have hreturns {k : Nat} {a : Machine} (ha : s.Active k a)
      (hreturn : a.ReturnsFrom (x.below.length + 1)) : ∃ result n, s.Returns k result n := by
    obtain ⟨n, hn, -⟩ := h.returns_of_returnsFrom ha hreturn
    exact ⟨_, n, hn⟩
  fun_induction run a generalizing k with
  | case1 a n hstep ih =>
    by_cases hreturn : a.ReturnsFrom (x.below.length + 1)
    · exact ⟨k, Or.inl (hreturns ha hreturn)⟩
    · exact ih (h.active_iff.2 ((h.active_iff.1 ha).tail hreturn hstep))
  | case2 a result n hstep =>
    by_cases hreturn : a.ReturnsFrom (x.below.length + 1)
    · exact ⟨k, Or.inl (hreturns ha hreturn)⟩
    · obtain ⟨b, hb, hrelocated⟩ := h.exists_active ha
      have htogether := h.together ha hb hrelocated hreturn
      rw [hstep] at htogether
      cases htogether
  | case3 a stop n hstep =>
    cases stop with
    | fault fault => exact ⟨k, Or.inr ⟨fault, a, n, ha, hstep⟩⟩
    | exhausted cause => exact absurd hstep (h.room _ _ ha _ _)

/-- What one activation does, the other does. -/
theorem follows (h : Parallel x y s t) : Follows s t x.base y.base := by
  refine ⟨?_, fun _ _ _ => h.exists_returns, fun _ _ => h.faults⟩
  intro k a ha
  obtain ⟨b, hb, u, us, v, vs, hcalled, hlive, hlive', hagree⟩ := h.exists_active ha
  obtain ⟨depth, hus, hvs⟩ := hcalled.exists_depth
  refine ⟨b, hb, hagree.pc, ?_, hagree.word⟩
  rw [hlive.frames.live, hlive'.frames.live, h.left.frames.live, h.right.frames.live]
  simp only [List.length_cons]
  omega

end Parallel

/-- A run that returns has room. -/
theorem hasRoom_of_run {v : Word} (h : m.run.1 = .ok v) : m.HasRoom := by
  intro k last hactive cause n
  have hrun : last.run = (.ok v, last.run.2) := by
    rw [← run_eq_of_reaches hactive.reaches, ← h]
  exact step_ne_stopped hrun _ n

/-- **An activation does not depend on where it runs.**  Take two fetches of executions of
a program without `mov` and `movi`, by any machines and at any depth, whose current frames
are at the same instruction, have equally many registers, and find the same words from their
bases on, where a register that does not exist counts as zero.  As long as neither runs out
of registers or frames, the two activations execute the same instructions on the same words
until they end: both return, with the same word and leaving the same words from their bases
on, or both break the same rule of use. -/
theorem Reachable.relocatable (hm : Reachable p c m) (hn : Reachable p d n)
    (hwindowed : p.IsWindowed) {entry entry' rootSize' : Nat} (hs : m.Fetches entry rootSize s)
    (ht : n.Fetches entry' rootSize' t) {f g : Frame} (hf : s.frames.currentFrame? = some f)
    (hg : t.frames.currentFrame? = some g) (hpc : s.pc = t.pc)
    (hlen : f.window.len = g.window.len)
    (hword : ∀ j, s.registers.word (f.window.base + j) = t.registers.word (g.window.base + j))
    (hroom : s.HasRoom) (hroom' : t.HasRoom) :
    Follows s t f.window.base g.window.base ∧ Follows t s g.window.base f.window.base ∧
      ∃ k, (∃ result a, s.Returns k result a) ∨ ∃ fault, s.Faults k fault := by
  obtain ⟨henvironment, fs, hlive⟩ := hm.live_of_fetches hs
  obtain ⟨henvironment', gs, hlive'⟩ := hn.live_of_fetches ht
  obtain ⟨f, fs, rfl⟩ := List.exists_cons_of_ne_nil hlive.nested.ne_nil
  obtain ⟨g, gs, rfl⟩ := List.exists_cons_of_ne_nil hlive'.nested.ne_nil
  obtain rfl := Option.some.inj (hlive.currentFrame?.symm.trans hf)
  obtain rfl := Option.some.inj (hlive'.currentFrame?.symm.trans hg)
  have hprogram : s.program = p := congrArg Environment.program henvironment
  have hprogram' : t.program = p := congrArg Environment.program henvironment'
  have hparallel : Parallel ⟨rootSize, f, fs⟩ ⟨rootSize', g, gs⟩ s t :=
    { left := hlive
      right := hlive'
      len := hlen
      agree := ⟨hprogram.trans hprogram'.symm, hpc, hword⟩
      windowed := hprogram.symm ▸ hwindowed
      room := hroom
      room' := hroom' }
  exact ⟨hparallel.follows, hparallel.symm.follows, hparallel.ends (.refl s)⟩

/-- The hypotheses are satisfiable: the function that a root of one machine calls is the root
of another machine, which has fewer registers. -/
theorem Reachable.relocatable_of_callee :
    ∃ m n s t a b : Machine,
      Reachable ⟨#[.call 2 1 0, .ret, .increment 0, .ret], by decide⟩
        { initialRegisters := 4, growthIncrement := 1 } m ∧
      Reachable ⟨#[.call 2 1 0, .ret, .increment 0, .ret], by decide⟩
        { initialRegisters := 1, growthIncrement := 1 } n ∧
      m.Fetches 0 1 s ∧ n.Fetches 2 1 t ∧ s.Returns 1 1 a ∧ t.Returns 1 1 b := by
  obtain ⟨m, n, s, t, a, hm, hn, hs, ht, hf, hg, hpc, hwords, hwords', hrun, hrun', hreturns⟩ :
      ∃ m n s t a : Machine,
        ofConfig ⟨#[.call 2 1 0, .ret, .increment 0, .ret], by decide⟩
          { initialRegisters := 4, growthIncrement := 1 } = .ok m ∧
        ofConfig ⟨#[.call 2 1 0, .ret, .increment 0, .ret], by decide⟩
          { initialRegisters := 1, growthIncrement := 1 } = .ok n ∧
        m.Fetches 0 1 s ∧ n.Fetches 2 1 t ∧
        s.frames.currentFrame? = some ⟨⟨1, 1⟩, some ⟨0, 1, 0⟩⟩ ∧
        t.frames.currentFrame? = some ⟨⟨0, 1⟩, none⟩ ∧ s.pc = t.pc ∧
        s.registers.words = Array.replicate 4 0 ∧ t.registers.words = Array.replicate 1 0 ∧
        s.run.1 = .ok 1 ∧ t.run.1 = .ok 1 ∧ s.Returns 1 1 a :=
    ⟨_, _, _, _, _, rfl, rfl, ⟨rfl, _, rfl, .single rfl⟩, ⟨rfl, _, rfl, .refl⟩, by rfl, by rfl,
      by rfl, by rfl, by rfl, run_of_runWithin (k := 3) (f := Prod.fst) (by decide +kernel),
      run_of_runWithin (k := 2) (f := Prod.fst) (by decide +kernel), ⟨_, ⟨⟨1, 1⟩, some ⟨0, 1, 0⟩⟩, (Walk.refl _).tail (by decide) rfl, by decide, by rfl,
        by decide, ⟨rfl, by decide⟩⟩⟩
  have hword {r : RegisterFile} {size : Nat} (h : r.words = Array.replicate size 0)
      (index : Nat) : r.word index = 0 := by
    rw [RegisterFile.word, h, Array.getElem?_replicate]
    split <;> rfl
  have hrelocatable := (Reachable.new hm).relocatable (.new hn) (by decide) hs ht hf hg hpc rfl
    (fun j => (hword hwords _).trans (hword hwords' _).symm) (hasRoom_of_run hrun)
    (hasRoom_of_run hrun')
  obtain ⟨b, hb, -⟩ := hrelocatable.1.returns _ _ _ hreturns
  exact ⟨m, n, s, t, a, b, .new hm, .new hn, hs, ht, hreturns, hb⟩

end Machine
end WindowVM
