/-
# The chain of live frames

`Machine.WellFramed` says of a machine, field by field and in terms of the arena alone,
how its live frames hang together with its register file and its program: where each
window lies, which frame and which `call` a link leads back to, and that nothing passes a
limit.  `Reachable.wellFramed_of_fetch_or_fault` is the result: it holds at every fetch of
every execution, and of what a fault leaves behind.

The proof reads it off `Nested`, which carries the same facts from frame to frame.
-/

import WindowVM.Proofs.Lifecycle

namespace WindowVM

/-- What ties a callee on the call stack `c` to the frame below it. -/
structure CalledFrom (p : Program) (c : CallStack) (callee caller : Frame) : Prop where
  /-- Each window starts where the one below ends. -/
  base_eq : callee.window.base = caller.window.base + caller.window.len
  /-- The link leads to the slot of the caller, to an instruction after a `call` of this
  program that made the window, and to a register of the caller. -/
  link : ∃ link target frameSize destination, callee.link = some link ∧
    c.get? link.caller = some caller ∧ 1 ≤ link.resumePc ∧ link.resumePc ≤ p.size ∧
    p.get? (link.resumePc - 1) = some (.call target frameSize destination) ∧
    frameSize.toNat = callee.window.len ∧
    link.destination = caller.window.base + destination.toNat ∧
    destination.toNat < caller.window.len

/-- How the live frames of an execution hang together. -/
structure Machine.WellFramed (m : Machine) (p : Program) (c : Config) (rootSize : Nat) :
    Prop where
  /-- The chain ends with the root. -/
  root : m.frames.chain.getLast? = some (Machine.rootFrame rootSize)
  /-- The chain starts with the current frame, whose window ends at the registers in use. -/
  current : ∃ f, m.frames.currentFrame? = some f ∧ m.frames.chain.head? = some f ∧
    f.window.base + f.window.len = m.registers.inUse
  called : ∀ i callee caller, m.frames.chain[i]? = some callee →
    m.frames.chain[i + 1]? = some caller → CalledFrom p m.frames callee caller
  len_pos : ∀ f ∈ m.frames.chain, 0 < f.window.len
  live_eq : m.frames.live = m.frames.chain.length
  inUse_le : m.registers.inUse ≤ m.registers.capacity
  capacity_le : ∀ l ∈ c.maxRegisters, m.registers.capacity ≤ l.toNat
  live_le : ∀ l ∈ c.maxFrames, m.frames.live ≤ l.toNat

namespace Nested

variable {p : Program} {rootSize : Nat} {fs : List Frame}

theorem getLast?_eq (h : Nested p rootSize fs) :
    fs.getLast? = some (Machine.rootFrame rootSize) := by
  induction h with
  | root => rfl
  | call _ _ _ _ ih => rw [List.getLast?_cons_cons, ih]

theorem forall_len_pos (h : Nested p rootSize fs) : ∀ f ∈ fs, 0 < f.window.len := by
  induction h with
  | root hsize =>
    intro f hf
    obtain rfl := List.mem_singleton.1 hf
    exact hsize
  | call _ _ hsize _ ih =>
    intro f hf
    rcases List.mem_cons.1 hf with rfl | hf
    · exact hsize
    · exact ih f hf

/-- The frames of a nested list are tied one to the next, if the call stack holds each in
the slot that counts the frames below it. -/
theorem calledFrom (h : Nested p rootSize fs) {c : CallStack}
    (hslots : ∀ slot, slot < fs.length → c.get? slot = fs.reverse[slot]?) :
    ∀ i callee caller, fs[i]? = some callee → fs[i + 1]? = some caller →
      CalledFrom p c callee caller := by
  induction h with
  | root =>
    intro i callee caller _ hcaller
    simp at hcaller
  | @call current fs pc target frameSize destination h hfetch hsize hdestination ih =>
    intro i callee caller hcallee hcaller
    cases i with
    | zero =>
      obtain rfl := Option.some.inj hcallee
      obtain rfl := Option.some.inj hcaller
      have hpc := Program.lt_size_of_get?_eq_some hfetch
      refine ⟨rfl, _, target, frameSize, destination, rfl, ?_, ?_, hpc, hfetch, rfl, rfl,
        hdestination⟩
      · have hslot : fs.length < (calleeFrame current fs pc frameSize destination ::
            current :: fs).length := by simp only [List.length_cons]; omega
        change c.get? fs.length = some current
        rw [hslots _ hslot]
        simp
      · exact Nat.succ_le_succ (Nat.zero_le pc)
    | succ i =>
      refine ih ?_ i callee caller hcallee hcaller
      intro slot hslot
      rw [hslots slot (Nat.lt_succ_of_lt hslot), List.reverse_cons,
        List.getElem?_append_left (by simpa using hslot)]

end Nested

namespace Machine

variable {p : Program} {c : Config} {m n : Machine} {rootSize : Nat} {fs : List Frame}

/-- **A machine at a fetch is well framed.** -/
theorem Live.wellFramed (h : m.Live rootSize fs) (henvironment : m.environment = .ofConfig p c) :
    m.WellFramed p c rootSize := by
  obtain ⟨f, fs, rfl⟩ := List.exists_cons_of_ne_nil h.nested.ne_nil
  have hchain := h.frames.chain
  have hlive := h.frames.live
  have hprogram : m.program = p := congrArg Environment.program henvironment
  have hregisters : m.registers.limit = c.maxRegisters.map (·.toNat) :=
    congrArg Environment.registerLimit henvironment
  have hframes : m.frames.limit = c.maxFrames.map (·.toNat) :=
    congrArg Environment.frameLimit henvironment
  have hnested : Nested p rootSize (f :: fs) := hprogram ▸ h.nested
  constructor
  case root => rw [hchain, hnested.getLast?_eq]
  case current => exact ⟨f, h.currentFrame?, by rw [hchain]; rfl, h.inUse.symm⟩
  case called =>
    rw [hchain]
    exact hnested.calledFrom fun slot hslot => h.frames.get? hslot
  case len_pos => rw [hchain]; exact hnested.forall_len_pos
  case live_eq => rw [hlive, hchain]
  case inUse_le => exact h.fits.inUse_le
  case capacity_le =>
    intro l hl
    refine h.fits.capacity_le _ ?_
    rw [hregisters, Option.mem_def.1 hl]
    rfl
  case live_le =>
    intro l hl
    rw [hlive]
    refine h.length_le _ ?_
    rw [hframes, Option.mem_def.1 hl]
    rfl

/-- The machine `n` is at a fetch of an execution of `m`. -/
def Fetches (m : Machine) (entry rootSize : Nat) (n : Machine) : Prop :=
  m.refusal? rootSize = none ∧
    ∃ s, m.fresh.start entry rootSize = (.ok (), s) ∧ Reaches s n

/-- A fault that arises in an execution of `m` leaves the machine `n`. -/
def FaultsTo (m : Machine) (entry rootSize : Nat) (n : Machine) : Prop :=
  m.refusal? rootSize = none ∧ ∃ fault, m.execute entry rootSize = (.error (.fault fault), n)

namespace Reachable

theorem live_of_fetches (h : Reachable p c m) {entry : Nat} (hn : m.Fetches entry rootSize n) :
    n.environment = .ofConfig p c ∧ ∃ fs, n.Live rootSize fs := by
  obtain ⟨hrefusal, s, hstart, hreaches⟩ := hn
  obtain ⟨hlive, henvironment⟩ := h.live_of_start hrefusal hstart
  exact ⟨(hlive.environment_of_reaches hreaches).1.trans henvironment, hlive.of_reaches hreaches⟩

theorem live_of_faultsTo (h : Reachable p c m) {entry : Nat} (hn : m.FaultsTo entry rootSize n) :
    n.environment = .ofConfig p c ∧ ∃ fs, n.Live rootSize fs := by
  obtain ⟨hrefusal, fault, hexecute⟩ := hn
  have hexecution := (h.resting_of_refusal hrefusal).execution hrefusal entry
  rw [hexecute] at hexecution
  cases hexecution with
  | faulted hstart hreaches hstep =>
    obtain ⟨henvironment, fs, hlive⟩ := h.live_of_fetches ⟨hrefusal, _, hstart, hreaches⟩
    have hkept := hlive.environment_eq hstep
    exact ⟨hkept.1.trans henvironment, fs, hlive.of_fault hstep⟩

/-- **The live frames form a well-formed chain** at every fetch of every execution of every
reachable machine, and in every machine that a fault inside an execution leaves behind. -/
theorem wellFramed_of_fetch_or_fault (h : Reachable p c m) (entry rootSize : Nat) (n : Machine)
    (hn : m.Fetches entry rootSize n ∨ m.FaultsTo entry rootSize n) :
    n.WellFramed p c rootSize := by
  rcases hn with hn | hn
  · obtain ⟨henvironment, fs, hlive⟩ := h.live_of_fetches hn
    exact hlive.wellFramed henvironment
  · obtain ⟨henvironment, fs, hlive⟩ := h.live_of_faultsTo hn
    exact hlive.wellFramed henvironment

/-- The hypotheses are satisfiable: a call that makes the register file grow, at the fetch
of its callee's first instruction. -/
theorem wellFramed_at_callee :
    ∃ m n, Reachable ⟨#[.call 2 3 0, .ret, .ret], by decide⟩
        { initialRegisters := 1, growthIncrement := 2 } m ∧
      m.Fetches 0 1 n ∧ n.frames.live = 2 ∧
        n.WellFramed ⟨#[.call 2 3 0, .ret, .ret], by decide⟩
          { initialRegisters := 1, growthIncrement := 2 } 1 :=
  ⟨_, _, .new rfl, ⟨rfl, _, rfl, .single rfl⟩, rfl,
    wellFramed_of_fetch_or_fault (.new rfl) 0 1 _ (Or.inl ⟨rfl, _, rfl, .single rfl⟩)⟩

end Reachable
end Machine
end WindowVM
