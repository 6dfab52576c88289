/-
# The register file as a memory

Windows are handed out and taken back, and the file grows, but none of this touches a word:
a register reads as the word that was written to it last, and as zero before the first.
`Outcome` lists everything an operation can do to a file; an operation that stops short does
nothing to it.

A `Journal` is what a client knows of the words from its own operations and their answers.
`Outcome.recalls` is the step and `performAll_recalls` the run: whatever was asked of a new
file, in whatever order, it agrees with the journal.
-/

import WindowVM.Proofs.Growth
import WindowVM.Proofs.Operands

namespace WindowVM
namespace RegisterFile

/-! ### Words -/

/-- A growth changes no word: what it adds is zero. -/
theorem word_extend (r : RegisterFile) (capacity len index : Nat) :
    (r.extend capacity len).word index = r.word index := by
  by_cases h : index < r.words.size
  · simp only [word, extend, Array.getElem?_append_left h]
  · have hsize : r.words.size ≤ index := Nat.not_lt.1 h
    simp only [word, extend, Array.getElem?_append_right hsize, Array.getElem?_eq_none hsize,
      Option.getD_none]
    rw [Array.getElem?_replicate]
    split <;> rfl

/-- A register that exists holds the word written last. -/
theorem word_write (r : RegisterFile) {index : Nat} (h : index < r.capacity) (word : Word)
    (other : Nat) :
    (r.write index word).word other = if index = other then word else r.word other := by
  simp only [RegisterFile.word, write, Array.getElem?_setIfInBounds]
  by_cases heq : index = other
  · have hindex : index < r.words.size := h
    rw [if_pos heq, if_pos heq, if_pos hindex, Option.getD_some]
  · rw [if_neg heq, if_neg heq]

/-- A register that does not exist counts as zero. -/
theorem word_of_capacity_le {r : RegisterFile} {index : Nat} (h : r.capacity ≤ index) :
    r.word index = 0 := by
  rw [word, Array.getElem?_eq_none h, Option.getD_none]

/-- The registers of a new machine hold zero. -/
theorem word_ofConfig {c : Config} {r : RegisterFile} (h : ofConfig c = .ok r) (index : Nat) :
    r.word index = 0 := by
  rw [ofConfig_eq] at h
  split at h
  · simp at h
  · obtain rfl := Except.ok.inj h
    simp only [word, Array.getElem?_replicate]
    split <;> rfl

/-! ### What an operation can do -/

/-- The register that an operation names. -/
def Op.register? : Op → Option Nat
  | .get index => some index
  | .set index _ => some index
  | .update index _ => some index
  | _ => none

/-- The ways in which an operation on a file can go. -/
inductive Outcome (r : RegisterFile) : Op → Except Stop Answer × RegisterFile → Prop
  /-- The registers right above those in use are handed out. -/
  | allocated {len capacity : Nat} (hroom : r.room (r.inUse + len) = .ok capacity) :
      Outcome r (.allocate len) (.ok (.window ⟨r.inUse, len⟩), r.extend capacity len)
  /-- There is no room for so many registers. -/
  | refused {len : Nat} {cause : Exhaustion} (hroom : r.room (r.inUse + len) = .error cause) :
      Outcome r (.allocate len) (.error (.exhausted cause), r)
  /-- A window that ends with the registers in use is taken back, whoever it was handed to. -/
  | released {w : Window} (hstop : w.base + w.len = r.inUse) :
      Outcome r (.release w) (.ok .done, { r with inUse := w.base })
  /-- A window that ends elsewhere is not. -/
  | misplaced {w : Window} {fault : Fault} : Outcome r (.release w) (.error (.fault fault), r)
  | releasedAll : Outcome r .releaseAll (.ok .done, r.releaseAll)
  | read {index : Nat} (h : index < r.capacity) :
      Outcome r (.get index) (.ok (.word (r.word index)), r)
  | written {index : Nat} {word : Word} (h : index < r.capacity) :
      Outcome r (.set index word) (.ok .done, r.write index word)
  | updated {index : Nat} {f : Word → Word} (h : index < r.capacity) :
      Outcome r (.update index f) (.ok .done, r.write index (f (r.word index)))
  /-- The operation names a register that does not exist. -/
  | outside {op : Op} {index : Nat} (hop : op.register? = some index) (h : r.capacity ≤ index) :
      Outcome r op (.error (.fault (.outsideFile index r.capacity)), r)

variable {r s : RegisterFile} {op : Op} {e : Except Stop Answer × RegisterFile}

theorem outcome_allocate (h : r.Fits) (len : Nat) :
    r.Outcome (.allocate len) (r.perform (.allocate len)) := by
  rw [perform, allocate_eq h.increment_pos]
  cases hroom : r.room (r.inUse + len) with
  | ok capacity => exact .allocated hroom
  | error cause => exact .refused hroom

theorem outcome_release (r : RegisterFile) (w : Window) :
    r.Outcome (.release w) (r.perform (.release w)) := by
  rw [perform, release]
  cases hstop : w.stop with
  | error fault => exact .misplaced
  | ok stop =>
    obtain ⟨hsum, -⟩ := boundedSum_eq_ok_iff.1 hstop
    by_cases hinUse : stop = r.inUse
    · simp only [hinUse, if_true]
      exact .released (hsum.trans hinUse)
    · simp only [hinUse, if_false]
      exact .misplaced

theorem outcome_register (r : RegisterFile) {index : Nat} (hop : op.register? = some index) :
    r.Outcome op (r.perform op) := by
  by_cases h : index < r.capacity
  · have hget : r.get index = .ok (r.word index) := by rw [get_eq, if_pos h]
    cases op with
    | get =>
      obtain rfl := Option.some.inj hop
      rw [perform, hget]
      exact .read h
    | set =>
      obtain rfl := Option.some.inj hop
      rw [perform, set, if_pos h]
      exact .written h
    | update =>
      obtain rfl := Option.some.inj hop
      rw [perform, update, hget]
      simp only [set, if_pos h]
      exact .updated h
    | _ => simp [Op.register?] at hop
  · have hget : r.get index = .error (.outsideFile index r.capacity) := by rw [get_eq, if_neg h]
    have hout : r.perform op = (.error (.fault (.outsideFile index r.capacity)), r) := by
      cases op with
      | get =>
        obtain rfl := Option.some.inj hop
        rw [perform, hget]
      | set =>
        obtain rfl := Option.some.inj hop
        rw [perform, set, if_neg h]
        rfl
      | update =>
        obtain rfl := Option.some.inj hop
        rw [perform, update, hget]
        rfl
      | _ => simp [Op.register?] at hop
    rw [hout]
    exact .outside hop (Nat.not_lt.1 h)

/-- **The outcomes are all there is:** what an operation does is one of them. -/
theorem outcome (h : r.Fits) (op : Op) : r.Outcome op (r.perform op) := by
  cases op with
  | allocate len => exact outcome_allocate h len
  | release w => exact outcome_release r w
  | releaseAll => exact .releasedAll
  | get => exact outcome_register r rfl
  | set => exact outcome_register r rfl
  | update => exact outcome_register r rfl

namespace Outcome

/-- Windows are stacked: the next one starts where the registers in use end. -/
theorem eq_window {len : Nat} {answer : Answer}
    (h : r.Outcome (.allocate len) (.ok answer, s)) :
    answer = .window ⟨r.inUse, len⟩ ∧ s.inUse = r.inUse + len := by
  cases h
  exact ⟨rfl, rfl⟩

/-- An operation that names a register stops short exactly when there is no such register. -/
theorem answer_of_register {index : Nat} (h : r.Outcome op e) (hop : op.register? = some index) :
    if r.capacity ≤ index then e.1 = .error (.fault (.outsideFile index r.capacity))
    else ∃ answer, e.1 = .ok answer := by
  cases h with
  | outside hop' hle =>
    obtain rfl := Option.some.inj (hop'.symm.trans hop)
    rw [if_pos hle]
  | read hlt =>
    obtain rfl := Option.some.inj hop
    rw [if_neg (Nat.not_le.2 hlt)]
    exact ⟨_, rfl⟩
  | written hlt =>
    obtain rfl := Option.some.inj hop
    rw [if_neg (Nat.not_le.2 hlt)]
    exact ⟨_, rfl⟩
  | updated hlt =>
    obtain rfl := Option.some.inj hop
    rw [if_neg (Nat.not_le.2 hlt)]
    exact ⟨_, rfl⟩
  | _ => simp [Op.register?] at hop

/-- No operation takes registers from the file. -/
theorem capacity_le (h : r.Outcome op e) (hr : r.Fits) : r.capacity ≤ e.2.capacity := by
  cases h with
  | allocated hroom =>
    have hle := (growthRule_eq_ok hr.increment_pos hroom).1
    rw [capacity_extend hle]
    exact hle
  | written => exact Nat.le_of_eq (capacity_write ..).symm
  | updated => exact Nat.le_of_eq (capacity_write ..).symm
  | _ => exact Nat.le_refl _

/-- Every operation keeps what a register file keeps, and the limit. -/
theorem fits (h : r.Outcome op e) (hr : r.Fits) : e.2.Fits ∧ e.2.limit = r.limit := by
  cases h with
  | allocated hroom => exact ⟨hr.extend hroom, rfl⟩
  | released hstop => exact ⟨hr.shrink (by omega), rfl⟩
  | releasedAll => exact ⟨hr.shrink (Nat.zero_le _), rfl⟩
  | written => exact ⟨hr.write _ _, rfl⟩
  | updated => exact ⟨hr.write _ _, rfl⟩
  | _ => exact ⟨hr, rfl⟩

end Outcome

/-! ### The words written last -/

/-- The writes that were made, each with its register and its word, the last one first. -/
abbrev Journal := List (Nat × Word)

/-- The word written last to a register, zero if none was. -/
def Journal.read (j : Journal) (index : Nat) : Word := (j.lookup index).getD 0

/-- The journal after an operation with its answer.  An update writes a function of the word
that was written before. -/
def Journal.note (j : Journal) : Op → Except Stop Answer → Journal
  | .set index word, .ok _ => (index, word) :: j
  | .update index f, .ok _ => (index, f (j.read index)) :: j
  | _, _ => j

/-- The journal after some operations with their answers. -/
def journal (ops : List Op) (answers : List (Except Stop Answer)) : Journal :=
  (ops.zip answers).foldl (fun j step => j.note step.1 step.2) []

@[simp] theorem Journal.read_cons (j : Journal) (index : Nat) (word : Word) (other : Nat) :
    Journal.read ((index, word) :: j) other = if index = other then word else j.read other := by
  rw [read, List.lookup_cons]
  by_cases h : index = other
  · rw [if_pos h, beq_iff_eq.2 h.symm]
    rfl
  · rw [if_neg h, beq_eq_false_iff_ne.2 (Ne.symm h)]
    rfl

/-- **An operation keeps a file and its journal together.** -/
theorem Outcome.recalls {j : Journal} (h : r.Outcome op e)
    (hj : ∀ index, r.word index = j.read index) (index : Nat) :
    e.2.word index = (j.note op e.1).read index := by
  cases h with
  | allocated => exact (word_extend ..).trans (hj index)
  | written hlt => rw [word_write _ hlt, hj, Journal.note, Journal.read_cons]
  | updated hlt => rw [word_write _ hlt, hj, hj, Journal.note, Journal.read_cons]
  | outside =>
    rw [hj]
    cases op <;> rfl
  | _ => exact hj index

/-- What a client can rely on, with the journal `j` of what it did. -/
structure Recalls (r : RegisterFile) (limit : Option Nat) (j : Journal) : Prop where
  fits : r.Fits
  limit_eq : r.limit = limit
  word : ∀ index, r.word index = j.read index

/-- Operations one after another keep a file and its journal together. -/
theorem Recalls.performAll {limit : Option Nat} {j : Journal} (h : r.Recalls limit j)
    (ops : List Op) :
    (r.performAll ops).2.Recalls limit
      ((ops.zip (r.performAll ops).1).foldl (fun j step => j.note step.1 step.2) j) := by
  induction ops generalizing r j with
  | nil => exact h
  | cons op ops ih =>
    have houtcome := outcome h.fits op
    obtain ⟨hfits, hlimit⟩ := houtcome.fits h.fits
    exact ih ⟨hfits, hlimit.trans h.limit_eq, houtcome.recalls h.word⟩

/-- **A register file is a memory that holds zeros at first.**  After any operations on a new
file, also ones that stopped short, a register that exists reads as the word written to it
last; an operation on a register stops short exactly when there is none; the registers in use
exist, and there are no more than the limit allows.  The next operation, whichever it is,
takes no register away.  It hands out the registers right above those in use, if it hands out
any, and it leaves the file as it was, if it stops short. -/
theorem performAll_recalls {c : Config} {answers : List (Except Stop Answer)}
    (hr : ofConfig c = .ok r) (ops : List Op) (hs : r.performAll ops = (answers, s)) :
    (∀ index, index < s.capacity → s.get index = .ok ((journal ops answers).read index)) ∧
      (∀ op index, op.register? = some index →
        if s.capacity ≤ index then
          (s.perform op).1 = .error (.fault (.outsideFile index s.capacity))
        else ∃ answer, (s.perform op).1 = .ok answer) ∧
      s.inUse ≤ s.capacity ∧ (∀ l ∈ c.maxRegisters, s.capacity ≤ l.toNat) ∧
      ∀ op answer t, s.perform op = (answer, t) →
        s.capacity ≤ t.capacity ∧
        (∀ len given, op = .allocate len → answer = .ok given →
          given = .window ⟨s.inUse, len⟩ ∧ t.inUse = s.inUse + len) ∧
        ∀ stop, answer = .error stop →
          t.words = s.words ∧ t.capacity = s.capacity ∧ t.inUse = s.inUse := by
  have hnew : r.Recalls (c.maxRegisters.map (·.toNat)) [] :=
    ⟨(fits_ofConfig hr).1, (limits_ofConfig hr).2, word_ofConfig hr⟩
  have hkept := hnew.performAll ops
  rw [hs] at hkept
  refine ⟨?_, ?_, hkept.fits.inUse_le, ?_, ?_⟩
  · intro index hindex
    rw [get_eq, if_pos hindex, hkept.word]
    rfl
  · intro op index hop
    exact (outcome hkept.fits op).answer_of_register hop
  · intro l hl
    refine hkept.fits.capacity_le _ ?_
    rw [hkept.limit_eq, Option.mem_def.1 hl]
    rfl
  · intro op answer t ht
    have houtcome := outcome hkept.fits op
    rw [ht] at houtcome
    refine ⟨houtcome.capacity_le hkept.fits, ?_, ?_⟩
    · rintro len given rfl rfl
      exact houtcome.eq_window
    · rintro stop rfl
      obtain rfl := eq_of_perform_error ht
      exact ⟨rfl, rfl, rfl⟩

/-- The hypotheses are satisfiable: the file grows between the writes, a window is taken back
that was never handed out, and a write to a register that does not exist is refused. -/
theorem performAll_recalls_of_growth :
    ∃ r answers s, ofConfig { initialRegisters := 1, growthIncrement := 2 } = .ok r ∧
      r.performAll [.set 0 5, .allocate 2, .set 2 7, .set 3 8, .release ⟨1, 1⟩,
        .update 0 (· + 1)] = (answers, s) ∧
      s.capacity = 3 ∧ s.get 0 = .ok 6 ∧ s.get 2 = .ok 7 ∧ s.get 1 = .ok 0 := by
  obtain ⟨r, hr⟩ : ∃ r, ofConfig { initialRegisters := 1, growthIncrement := 2 } = .ok r :=
    ⟨_, rfl⟩
  obtain ⟨hread, -⟩ := performAll_recalls hr [.set 0 5, .allocate 2, .set 2 7, .set 3 8,
    .release ⟨1, 1⟩, .update 0 (· + 1)] rfl
  obtain rfl := Except.ok.inj hr
  refine ⟨_, _, _, rfl, rfl, rfl, ?_, ?_, ?_⟩
  · exact hread 0 (by decide)
  · exact hread 2 (by decide)
  · exact hread 1 (by decide)

end RegisterFile
end WindowVM
