/-
# Calls are well bracketed

A `call` that creates a frame is answered by the return of that frame.  However many frames
are called and left in between, and whatever `mov` and `movi` write meanwhile, the return
finds the caller as the `call` left it: the links, windows and slots of the live frames are
not registers, so no instruction reaches them (`CallStack.SameFrames`).

`Live.of_return` is what one return does, and `Reachable.resumes_after_call` puts it beside
the `call` that it answers.
-/

import WindowVM.Proofs.Relocation

namespace WindowVM

/-- The same frames are live in the same slots, each with its window and its link. -/
structure CallStack.SameFrames (c d : CallStack) : Prop where
  chain : c.chain = d.chain
  current : c.current = d.current
  get?_eq : ∀ slot, c.get? slot = d.get? slot

/-- The frames that a call stack holds determine in which slots they are. -/
theorem CallStack.Holds.sameFrames {c d : CallStack} {fs : List Frame} (hc : c.Holds fs)
    (hd : d.Holds fs) : c.SameFrames d := by
  constructor
  case chain => rw [hc.chain, hd.chain]
  case current => rw [hc.current, hd.current]
  case get?_eq =>
    intro slot
    rcases Nat.lt_or_ge slot fs.length with hslot | hslot
    · rw [hc.get? hslot, hd.get? hslot]
    · rw [hc.get?_of_le hslot, hd.get?_of_le hslot]

namespace Machine

variable {p : Program} {c : Config} {m n s t u : Machine} {rootSize k : Nat} {f : Frame}
  {fs : List Frame}

/-- A return goes on where the link says, with the word of register 0 where the link says. -/
theorem Live.of_return (h : m.Live rootSize (f :: fs)) {link : Link} (hlink : f.link = some link)
    (hfetch : m.program.get? m.pc = some .ret) (hstep : m.step = .running n) :
    n.pc = link.resumePc ∧
      n.registers.get link.destination = .ok (m.registers.word f.window.base) := by
  obtain ⟨frames, -, -, hn⟩ := h.transition.of_ret hfetch
  rw [hlink, hstep] at hn
  obtain rfl := Progress.running.inj hn
  exact ⟨rfl, RegisterFile.get_write (h.destination_lt_capacity hlink) _⟩

/-- **Calls are well bracketed.**  Take a fetch `s` of any execution at which a `call` creates
a frame, and go on from there to the first fetch `u` that is as deep as `s`, through any number
of calls, returns and growths.  There the machine is at the instruction after the `call`, with
the same frames in the same slots and the same registers in use.  It got there by the return
of the callee, and the destination of the `call` holds the word that the callee's register 0
had at this return. -/
theorem Reachable.resumes_after_call (h : Reachable p c m) {entry : Nat}
    (hs : m.Fetches entry rootSize s) {target frameSize destination : Word}
    (hfetch : s.program.get? s.pc = some (.call target frameSize destination))
    (hstep : s.step = .running t)
    (hwalk : Walk (fun a => a.frames.live ≠ s.frames.live) k t u)
    (hdepth : u.frames.live = s.frames.live) :
    u.pc = s.pc + 1 ∧ u.frames.SameFrames s.frames ∧
      u.registers.inUse = s.registers.inUse ∧
      s.registers.capacity ≤ u.registers.capacity ∧
      ∃ caller callee j last result, s.frames.currentFrame? = some caller ∧
        t.frames.currentFrame? = some callee ∧ k = j + 1 ∧
        Walk (fun a => a.frames.live ≠ s.frames.live) j t last ∧
        last.frames.SameFrames t.frames ∧ last.program.get? last.pc = some .ret ∧
        last.step = .running u ∧ last.registers.get callee.window.base = .ok result ∧
        u.registers.get (caller.window.base + destination.toNat) = .ok result := by
  obtain ⟨-, fs, hlive⟩ := h.live_of_fetches hs
  obtain ⟨caller, below, rfl⟩ := List.exists_cons_of_ne_nil hlive.nested.ne_nil
  have hcalled := hlive.of_call hfetch hstep
  have hcapacity : s.registers.capacity ≤ u.registers.capacity :=
    Nat.le_trans (hlive.capacity_le hstep) (hcalled.capacity_le_of_reaches hwalk.reaches)
  have hdeeper : ∀ a : Machine, a.frames.live ≠ s.frames.live →
      a.frames.live ≠ (caller :: below).length := by
    intro a ha
    rwa [← hlive.frames.live]
  rcases hcalled.of_walk hdeeper hwalk with ⟨gs, hkept, hsuffix⟩ |
    ⟨j, last, hk, hwalk', -, hlast, hret, hreturn, hback⟩
  · -- As long as the callee is live, the machine is deeper than at the call.
    have hlength := hsuffix.length_le
    have hu := hkept.frames.live
    have hs' := hlive.frames.live
    simp only [List.length_cons] at hlength hs'
    omega
  · obtain ⟨hpc, hresult⟩ := hlast.of_return rfl hret hreturn
    refine ⟨hpc, hback.frames.sameFrames hlive.frames, ?_, hcapacity, ?_⟩
    · rw [hback.inUse, hlive.inUse]
    · exact ⟨caller, _, j, last, _, hlive.currentFrame?, hcalled.currentFrame?, hk, hwalk',
        hlast.frames.sameFrames hcalled.frames, hret, hreturn, hlast.get_base, hresult⟩

/-- The hypotheses are satisfiable: the callee calls a frame of its own, which writes to the
callee's register 0 by its absolute index, and this is the word that the callee returns. -/
theorem Reachable.resumes_after_call_of_nested :
    ∃ m s u : Machine, Reachable ⟨#[.call 2 2 1, .ret, .call 4 1 1, .ret, .moveImmediate 2 7,
        .ret], by decide⟩ { initialRegisters := 5, growthIncrement := 1 } m ∧
      m.Fetches 0 2 s ∧ s.pc = 0 ∧ u.pc = 1 ∧ u.frames.SameFrames s.frames ∧
        u.registers.inUse = s.registers.inUse ∧ u.registers.get 1 = .ok 7 := by
  obtain ⟨m, s, t, u, hm, hs, hfetch, hstep, hwalk, hdepth, hpc, hresult⟩ :
      ∃ m s t u : Machine, ofConfig ⟨#[.call 2 2 1, .ret, .call 4 1 1, .ret, .moveImmediate 2 7,
        .ret], by decide⟩ { initialRegisters := 5, growthIncrement := 1 } = .ok m ∧
      m.Fetches 0 2 s ∧ s.program.get? s.pc = some (.call 2 2 1) ∧ s.step = .running t ∧
      Walk (fun a => a.frames.live ≠ s.frames.live) 4 t u ∧ u.frames.live = s.frames.live ∧
      s.pc = 0 ∧ u.registers.get 1 = .ok 7 :=
    ⟨_, _, _, _, rfl, ⟨rfl, _, rfl, .refl⟩, rfl, rfl,
      ((((Walk.refl _).tail (by decide) rfl).tail (by decide) rfl).tail (by decide) rfl).tail
        (by decide) rfl, by rfl, by rfl, by decide⟩
  obtain ⟨hnext, hframes, hinUse, -, -⟩ :=
    (Reachable.new hm).resumes_after_call hs hfetch hstep hwalk hdepth
  exact ⟨m, s, u, .new hm, hs, hpc, by rw [hnext, hpc], hframes, hinUse, hresult⟩

end Machine
end WindowVM
