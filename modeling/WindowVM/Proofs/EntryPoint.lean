/-
# Where the run of an image begins

Whether an image can be entered is decided twice: when it is read from bytes
(`Image.entryFlaw?`), and when a machine executes it, which refuses a root frame without
registers and fetches no instruction past the end of the program.  The two agree.  An image
that was read from bytes runs out of room before anything is dispatched, or dispatches the
instruction at its entry first; one with a flaw dispatches nothing.

`Machine.Beginning` is what a machine at rest can begin with, and `Image.Course` is a run of an
image with the machines at its dispatches.
-/

import WindowVM.Proofs.ImageCodec
import WindowVM.Proofs.RunLength

namespace WindowVM
namespace Machine

variable {m : Machine} {entry rootSize : Nat} {ms : List Machine} {e : Except Stop Word × Machine}

/-- What an execution of a resting machine can begin with: the machines at its dispatches, and
its outcome. -/
inductive Beginning (m : Machine) (entry rootSize : Nat) :
    List Machine → Except Stop Word → Prop
  /-- There is no room for the root frame. -/
  | noRoom {cause : Exhaustion} {s : Machine}
      (hstart : m.fresh.start entry rootSize = (.error (.exhausted cause), s)) :
      Beginning m entry rootSize [] (.error (.exhausted cause))
  /-- There is no instruction at the entry. -/
  | pastEnd (hfetch : m.program.get? entry = none) :
      Beginning m entry rootSize [] (.error (.fault (.pastEnd entry m.program.size)))
  /-- The instruction at the entry is dispatched. -/
  | dispatched {s : Machine} {rest : List Machine} {first : Instruction}
      {outcome : Except Stop Word} (hprogram : s.program = m.program) (hpc : s.pc = entry)
      (hfetch : m.program.get? entry = some first) :
      Beginning m entry rootSize (s :: rest) outcome

/-- **An execution begins with the instruction at its entry,** if there is one, once the root
frame has its room. -/
theorem Resting.beginning (h : m.Resting) (hd : m.Dispatches entry rootSize ms e) :
    m.Beginning entry rootSize ms e.1 := by
  have hopening := h.fresh.opening entry rootSize
  cases hd with
  | @refused s stop hstart =>
    rw [hstart] at hopening
    cases hopening with
    | noRegisters =>
      obtain ⟨frames, -, -, hsettle⟩ := settle_exhausted h.fresh.frames _
      rw [hsettle]
      exact .noRoom hstart
    | @noFrames capacity =>
      have hframes : (m.fresh.extend capacity rootSize).frames.Holds [] := h.frames
      obtain ⟨frames, -, -, hsettle⟩ := settle_exhausted hframes _
      rw [hsettle]
      exact .noRoom hstart
  | @ran s ms e hstart htrace =>
    have hplace : s.program = m.program ∧ s.pc = entry := by
      rw [hstart] at hopening
      cases hopening with
      | opened => exact ⟨rfl, rfl⟩
    obtain ⟨hprogram, hpc⟩ := hplace
    cases htrace with
    | pastEnd hfetch hstep =>
      have hfault := (step_of_pastEnd hfetch).symm.trans hstep
      obtain ⟨rfl, rfl⟩ := Progress.stopped.inj hfault
      rw [hprogram, hpc] at hfetch ⊢
      exact .pastEnd hfetch
    | finished hfetch | stopped hfetch | running hfetch =>
      rw [hprogram, hpc] at hfetch
      exact .dispatched hprogram hpc hfetch

end Machine

namespace Image

variable {i : Image} {c : Config} {ms : List Machine} {outcome : Except Stop Word}

/-- Why an image has no first instruction to run, if it has none. -/
def entryFlaw? (i : Image) : Option ImageError :=
  if i.program.size = 0 then some .emptyProgram
  else if i.rootSize = 0 then some .emptyRootWindow
  else if i.program.size ≤ i.entry.toNat then
    some (.entryOutOfRange i.entry.toNat i.program.size)
  else none

/-- Apart from its version, the flaw of an image is that of its entry. -/
theorem flaw?_eq (i : Image) :
    i.flaw? = if i.version ≠ currentVersion then some (.unsupportedVersion i.version)
      else i.entryFlaw? :=
  rfl

/-- An image can be entered if its root owns a register and there is an instruction. -/
theorem entryFlaw?_eq_none_iff :
    i.entryFlaw? = none ↔ i.rootSize ≠ 0 ∧ i.entry.toNat < i.program.size := by
  rw [entryFlaw?]
  constructor
  · intro h
    split at h
    · simp at h
    split at h
    · simp at h
    split at h
    · simp at h
    · exact ⟨‹_›, Nat.not_le.1 ‹_›⟩
  · rintro ⟨hroot, hentry⟩
    rw [if_neg (Nat.ne_zero_of_lt hentry), if_neg hroot, if_neg (Nat.not_le.2 hentry)]

/-- Images that are read from bytes can be entered. -/
theorem entryFlaw?_of_ofBytes {bytes : Wire.Bytes} (h : ofBytes bytes = .ok i) :
    i.entryFlaw? = none := by
  have hcheck := check_of_ofBytes h
  rw [check_eq, flaw?_eq] at hcheck
  split at hcheck
  · rename_i hnone
    split at hnone
    · simp at hnone
    · exact hnone
  · simp at hcheck

/-- There is no room for the register file of a machine that runs the image, or none for its
root frame. -/
inductive NoRoom (i : Image) (c : Config) : Exhaustion → Prop
  | file {cause : Exhaustion} (hmachine : Machine.ofConfig i.program c = .error cause) :
      NoRoom i c cause
  | rootFrame {cause : Exhaustion} {m s : Machine}
      (hmachine : Machine.ofConfig i.program c = .ok m)
      (hstart : m.fresh.start i.entry.toNat i.rootSize.toNat = (.error (.exhausted cause), s)) :
      NoRoom i c cause

/-- The machines at which a run of the image dispatches, in order, and how the run ends. -/
inductive Course (i : Image) (c : Config) : List Machine → Except Stop Word → Prop
  /-- There is no machine. -/
  | noMachine {cause : Exhaustion} (hmachine : Machine.ofConfig i.program c = .error cause) :
      Course i c [] (.error (.exhausted cause))
  /-- The machine does not execute. -/
  | refused {m : Machine} {fault : Fault} (hmachine : Machine.ofConfig i.program c = .ok m)
      (hrefusal : m.refusal? i.rootSize.toNat = some fault) :
      Course i c [] (.error (.fault fault))
  /-- The machine executes. -/
  | executed {m : Machine} {ms : List Machine} {e : Except Stop Word × Machine}
      (hmachine : Machine.ofConfig i.program c = .ok m)
      (hrefusal : m.refusal? i.rootSize.toNat = none)
      (hdispatches : m.Dispatches i.entry.toNat i.rootSize.toNat ms e) :
      Course i c ms e.1

/-- Every run has its dispatches. -/
theorem exists_course (i : Image) (c : Config) : ∃ ms, i.Course c ms (i.run c) := by
  rw [run]
  cases hmachine : Machine.ofConfig i.program c with
  | error cause => exact ⟨[], .noMachine hmachine⟩
  | ok m =>
    cases hrefusal : m.refusal? i.rootSize.toNat with
    | some fault =>
      simp only [Machine.execute_of_refusal hrefusal]
      exact ⟨[], .refused hmachine hrefusal⟩
    | none =>
      obtain ⟨ms, hdispatches⟩ := Machine.exists_dispatches_of_refusal hrefusal i.entry.toNat
      exact ⟨ms, .executed hmachine hrefusal hdispatches⟩

/-- A new machine refuses only a root frame without registers. -/
theorem refusal?_of_ofConfig {p : Program} {m : Machine} (hmachine : Machine.ofConfig p c = .ok m)
    (size : Word) :
    m.refusal? size.toNat = if size = 0 then some .emptyRootWindow else none := by
  obtain ⟨-, hresting, hmark⟩ := Machine.resting_of_ofConfig hmachine
  by_cases hsize : size = 0
  · rw [if_pos hsize, hsize, Machine.refusal?, hmark]
    rfl
  · rw [if_neg hsize]
    refine Machine.refusal?_eq_none_iff.2 ⟨hmark, ?_, hresting.frames.live⟩
    exact Nat.pos_of_ne_zero fun h0 => hsize (UInt64.toNat_inj.1 h0)

/-- What a run of an image can begin with: the machines at its dispatches, and its outcome. -/
inductive Outset (i : Image) (c : Config) : List Machine → Except Stop Word → Prop
  /-- There is no room. -/
  | noRoom {cause : Exhaustion} (hroom : i.NoRoom c cause) :
      Outset i c [] (.error (.exhausted cause))
  /-- The root frame would own no register. -/
  | emptyRoot (hroot : i.rootSize = 0) : Outset i c [] (.error (.fault .emptyRootWindow))
  /-- There is no instruction at the entry. -/
  | pastEnd (hroot : i.rootSize ≠ 0) (hentry : i.program.size ≤ i.entry.toNat) :
      Outset i c [] (.error (.fault (.pastEnd i.entry.toNat i.program.size)))
  /-- The instruction at the entry is dispatched. -/
  | dispatched {s : Machine} {rest : List Machine} {first : Instruction}
      {outcome : Except Stop Word} (hroot : i.rootSize ≠ 0) (hprogram : s.program = i.program)
      (hpc : s.pc = i.entry.toNat) (hfetch : i.program.get? i.entry.toNat = some first) :
      Outset i c (s :: rest) outcome

/-- **A run begins in one of these ways.** -/
theorem Course.outset (h : i.Course c ms outcome) : i.Outset c ms outcome := by
  cases h with
  | noMachine hmachine => exact .noRoom (.file hmachine)
  | refused hmachine hrefusal =>
    rw [refusal?_of_ofConfig hmachine] at hrefusal
    split at hrefusal
    · rename_i hroot
      obtain rfl := Option.some.inj hrefusal
      exact .emptyRoot hroot
    · simp at hrefusal
  | @executed m ms e hmachine hrefusal hdispatches =>
    obtain ⟨henvironment, hresting, -⟩ := Machine.resting_of_ofConfig hmachine
    have hprogram : m.program = i.program := congrArg Environment.program henvironment
    have hroot : i.rootSize ≠ 0 := by
      intro h0
      rw [refusal?_of_ofConfig hmachine, if_pos h0] at hrefusal
      simp at hrefusal
    have hbeginning := hresting.beginning hdispatches
    generalize e.1 = outcome at hbeginning
    cases hbeginning with
    | noRoom hstart => exact .noRoom (.rootFrame hmachine hstart)
    | pastEnd hfetch =>
      rw [hprogram] at hfetch ⊢
      exact .pastEnd hroot (Array.getElem?_eq_none_iff.1 hfetch)
    | dispatched hsame hpc hfetch =>
      rw [hprogram] at hsame hfetch
      exact .dispatched hroot hsame hpc hfetch

/-- **The decoder checks what a machine needs to begin.**  A run of an image that was read from
bytes runs out of room before anything is dispatched, or it dispatches the instruction at the
entry first.  A run of an image whose entry has a flaw dispatches nothing: it runs out of room,
or it faults because the root frame would own no register or because the counter is past the
end. -/
theorem begins_at_entry (i : Image) (c : Config) :
    (∃ ms, i.Course c ms (i.run c)) ∧
      ∀ ms, i.Course c ms (i.run c) →
        (∀ bytes, ofBytes bytes = .ok i →
          (ms = [] ∧ ∃ cause, i.NoRoom c cause ∧ i.run c = .error (.exhausted cause)) ∨
            ∃ s rest first, ms = s :: rest ∧ s.program = i.program ∧ s.pc = i.entry.toNat ∧
              i.program.get? i.entry.toNat = some first) ∧
        ∀ flaw, i.entryFlaw? = some flaw →
          ms = [] ∧
            ((∃ cause, i.NoRoom c cause ∧ i.run c = .error (.exhausted cause)) ∨
              i.run c = .error (.fault .emptyRootWindow) ∨
              i.run c = .error (.fault (.pastEnd i.entry.toNat i.program.size))) := by
  refine ⟨exists_course i c, fun ms hcourse => ?_⟩
  have houtset := hcourse.outset
  generalize i.run c = outcome at houtset
  constructor
  · intro bytes hbytes
    obtain ⟨hroot, hentry⟩ := entryFlaw?_eq_none_iff.1 (entryFlaw?_of_ofBytes hbytes)
    cases houtset with
    | noRoom hroom => exact Or.inl ⟨rfl, _, hroom, rfl⟩
    | emptyRoot hempty => exact absurd hempty hroot
    | pastEnd _ hpast => exact absurd hentry (Nat.not_lt.2 hpast)
    | dispatched _ hprogram hpc hfetch => exact Or.inr ⟨_, _, _, rfl, hprogram, hpc, hfetch⟩
  · intro flaw hflaw
    cases houtset with
    | noRoom hroom => exact ⟨rfl, Or.inl ⟨_, hroom, rfl⟩⟩
    | emptyRoot => exact ⟨rfl, Or.inr (Or.inl rfl)⟩
    | pastEnd => exact ⟨rfl, Or.inr (Or.inr rfl)⟩
    | dispatched hroot _ _ hfetch =>
      have hnone := entryFlaw?_eq_none_iff.2 ⟨hroot, Program.lt_size_of_get?_eq_some hfetch⟩
      rw [hnone] at hflaw
      simp at hflaw

/-- The hypotheses are satisfiable: an image that is entered at its second instruction, for
which the registers grow first, and one with every flaw of the entry at once. -/
theorem begins_at_entry_of_growth :
    ∃ (i j : Image) (c : Config), ofBytes i.toBytes = .ok i ∧ j.entryFlaw? = some .emptyProgram ∧
      (∃ s rest, i.Course c (s :: rest) (i.run c) ∧ s.pc = 1) ∧ j.Course c [] (j.run c) := by
  let i : Image := ofProgram ⟨#[.increment 0, .ret], by decide⟩ 1 1
  let j : Image := ofProgram ⟨#[], by decide⟩ 0 0
  let c : Config := { initialRegisters := 0, growthIncrement := 1 }
  have hi : ofBytes i.toBytes = .ok i := by
    have hback := ofBytes_toBytes i []
    rwa [List.append_nil] at hback
  have hj : j.entryFlaw? = some .emptyProgram := rfl
  refine ⟨i, j, c, hi, hj, ?_, ?_⟩
  · obtain ⟨⟨ms, hcourse⟩, hbegins⟩ := begins_at_entry i c
    obtain ⟨m, hm, hv⟩ : ∃ m, Machine.ofConfig i.program c = .ok m ∧
        (m.execute i.entry.toNat i.rootSize.toNat).1 = .ok 0 :=
      ⟨_, rfl, Machine.execute_of_runWithin (k := 2) (f := Prod.fst) rfl (by decide +kernel)
        (by decide +kernel)⟩
    have hrun : i.run c = .ok 0 := by
      rw [run, hm]
      exact hv
    rcases (hbegins ms hcourse).1 _ hi with ⟨-, cause, -, hstop⟩ | ⟨s, rest, -, rfl, -, hpc, -⟩
    · rw [hrun] at hstop
      cases hstop
    · exact ⟨s, rest, hcourse, hpc⟩
  · obtain ⟨⟨ms, hcourse⟩, hbegins⟩ := begins_at_entry j c
    obtain ⟨rfl, -⟩ := (hbegins ms hcourse).2 _ hj
    exact hcourse

end Image
end WindowVM
