/-
# Listings are read back

A line of a listing is the mnemonic of an instruction and then its operands, each after a
mark of its own (`Opcode.marks`).  `Instruction.ofLine?` reads such a line.  The mnemonic ends
before the first space, so `mov` is not taken for a part of `movi`; a number ends where its
digits do, because no mark starts with a digit; and the marks say which kind of operand
follows.

A line is read as the instruction it was printed from (`ofLine?_render`).  So no two
instructions have the same line.
-/

import Mathlib.Algebra.Group.Nat.Defs
import WindowVM.Instruction
import WindowVM.Proofs.Printing

namespace WindowVM

/-- What stands before each operand. -/
def Opcode.marks : Opcode → List String
  | .ret => []
  | .call => [" @", " frame ", " -> r"]
  | .move => [" %", ", %"]
  | .moveImmediate => [" %", ", #"]
  | .add => [" r", ", r"]
  | .addImmediate => [" r", ", #"]
  | .increment | .decrement => [" r"]

/-- Operands in decimal, each after its mark. -/
def printOperands : List String → List Word → List Char
  | mark :: marks, w :: ws => mark.toList ++ Nat.toDigits 10 w.toNat ++ printOperands marks ws
  | _, _ => []

/-- The word that some digits denote, if there are any and it has 64 bits. -/
def word? (digits : List Char) : Option Word :=
  if digits = [] ∨ 2 ^ 64 ≤ numeral digits then none else some (UInt64.ofNat (numeral digits))

/-- The operands that stand after these marks, with nothing behind them. -/
def readOperands : List String → List Char → Option (List Word)
  | [], text => if text = [] then some [] else none
  | mark :: marks, text => do
    let text ← mark.toList.isPrefixOf? text
    let w ← word? (text.takeWhile Char.isDigit)
    let ws ← readOperands marks (text.dropWhile Char.isDigit)
    return w :: ws

/-- The instruction of a line. -/
def Instruction.ofLine? (line : String) : Option Instruction := do
  let op ← Opcode.ofMnemonic? (String.ofList (line.toList.takeWhile (· != ' ')))
  let ws ← readOperands op.marks (line.toList.dropWhile (· != ' '))
  ofOperands? op ws

/-! ### Operands -/

/-- A number does not go on into such a mark. -/
def EndsNumber (mark : String) : Prop := ∃ c cs, mark.toList = c :: cs ∧ c.isDigit = false

theorem Opcode.endsNumber_of_mem_marks {op : Opcode} : ∀ mark ∈ op.marks, EndsNumber mark := by
  cases op <;> simp [marks, EndsNumber]

theorem Opcode.length_marks (op : Opcode) : op.marks.length = op.operandNames.length := by
  cases op <;> rfl

theorem Opcode.ne_space_of_mem_mnemonic (op : Opcode) :
    ∀ c ∈ op.mnemonic.toList, (c != ' ') = true := by
  cases op <;> simp [mnemonic]

/-- The digits of a word are read as the word. -/
theorem word?_toDigits (w : Word) : word? (Nat.toDigits 10 w.toNat) = some w := by
  have hword : ¬(Nat.toDigits 10 w.toNat = [] ∨ 2 ^ 64 ≤ w.toNat) := by
    rintro (hempty | hrange)
    · exact Nat.toDigits_ne_nil hempty
    · exact Nat.not_le.2 w.toNat_lt hrange
  rw [word?, numeral_toDigits, if_neg hword, UInt64.ofNat_toNat]

/-- What is printed after a number starts with the next mark, if there is one. -/
theorem isDigit_eq_false_of_head? {marks : List String} (hmarks : ∀ mark ∈ marks, EndsNumber mark)
    (ws : List Word) : ∀ c, (printOperands marks ws).head? = some c → c.isDigit = false := by
  intro c hc
  unfold printOperands at hc
  split at hc
  · rename_i mark marks w ws
    obtain ⟨first, cs, hmark, hdigit⟩ := hmarks mark List.mem_cons_self
    rw [hmark] at hc
    obtain rfl := Option.some.inj hc
    exact hdigit
  · cases hc

/-- **Printed operands are read back.** -/
theorem readOperands_printOperands {marks : List String} {ws : List Word}
    (hmarks : ∀ mark ∈ marks, EndsNumber mark) (hlength : ws.length = marks.length) :
    readOperands marks (printOperands marks ws) = some ws := by
  induction marks generalizing ws with
  | nil =>
    obtain rfl := List.length_eq_zero_iff.1 hlength
    rfl
  | cons mark marks ih =>
    obtain ⟨w, ws, rfl⟩ := List.exists_cons_of_length_eq_add_one hlength
    obtain ⟨-, hmarks⟩ := List.forall_mem_cons.1 hmarks
    have hdigits : ∀ c ∈ Nat.toDigits 10 w.toNat, c.isDigit := fun c hc =>
      isDigit_iff.2 (digit_of_mem_toDigits hc)
    obtain ⟨htake, hdrop⟩ := span_append hdigits (isDigit_eq_false_of_head? hmarks ws)
    have hmark : mark.toList.isPrefixOf? (printOperands (mark :: marks) (w :: ws)) =
        some (Nat.toDigits 10 w.toNat ++ printOperands marks ws) :=
      List.isPrefixOf?_eq_some_iff_append_eq.2 (List.append_assoc ..).symm
    rw [readOperands, hmark, Option.bind_eq_bind, Option.bind_some, htake, hdrop, word?_toDigits,
      ih hmarks (Nat.succ.inj hlength)]
    rfl

/-- The first mark of every opcode starts with a space. -/
theorem Opcode.eq_space_of_head? {op : Opcode} {ws : List Word} {c : Char}
    (h : (printOperands op.marks ws).head? = some c) : c = ' ' := by
  unfold printOperands at h
  split at h
  · rename_i mark marks w ws hmarks
    cases op <;> cases hmarks <;> exact (Option.some.inj h).symm
  · cases h

/-! ### Lines -/

namespace Instruction

/-- A line is the mnemonic with the operands after it. -/
theorem toList_render (i : Instruction) :
    i.render.toList = i.opcode.mnemonic.toList ++ printOperands i.opcode.marks i.operands := by
  have htext (s : String) : toString s = s := rfl
  cases i <;>
    simp [render, opcode, operands, Opcode.mnemonic, Opcode.marks, printOperands, htext]

/-- A mnemonic has no space, and what is printed after it starts with one. -/
theorem span_render (i : Instruction) :
    i.render.toList.takeWhile (· != ' ') = i.opcode.mnemonic.toList ∧
      i.render.toList.dropWhile (· != ' ') = printOperands i.opcode.marks i.operands := by
  rw [toList_render]
  refine span_append (Opcode.ne_space_of_mem_mnemonic _) fun c hc => ?_
  rw [Opcode.eq_space_of_head? hc]
  rfl

/-- **A line is read as the instruction it was printed from.** -/
theorem ofLine?_render (i : Instruction) : ofLine? i.render = some i := by
  obtain ⟨hname, hoperands⟩ := span_render i
  have hlength : i.operands.length = i.opcode.marks.length := by
    rw [length_operands, Opcode.length_marks]
  rw [ofLine?, hname, hoperands, String.ofList_toList, Opcode.ofMnemonic?_mnemonic,
    Option.bind_eq_bind, Option.bind_some,
    readOperands_printOperands Opcode.endsNumber_of_mem_marks hlength]
  exact ofOperands?_eq_some_iff.2 ⟨rfl, rfl⟩

/-- A constant is no register. -/
example : ofLine? "mov %4, #2" = none := by decide +kernel

/-- **Listings are unambiguous.**  No two instructions have the same line, and the instruction
is read back from it. -/
theorem render_unambiguous :
    (∀ i j : Instruction, i.render = j.render → i = j) ∧
      ∀ i : Instruction, ofLine? i.render = some i := by
  refine ⟨fun i j h => ?_, ofLine?_render⟩
  have hline := ofLine?_render i
  rw [h, ofLine?_render j] at hline
  exact (Option.some.inj hline).symm

/-- The hypothesis is satisfiable: the line that adds the greatest word is the line of a single
instruction. -/
theorem render_unambiguous_of_greatest :
    ∃ i : Instruction, i.render = "addi r0, #18446744073709551615" ∧
      ofLine? "addi r0, #18446744073709551615" = some i ∧
      ∀ j : Instruction, j.render = "addi r0, #18446744073709551615" → j = i := by
  have hline : (addImmediate 0 18446744073709551615).render = "addi r0, #18446744073709551615" := by
    decide +kernel
  refine ⟨_, hline, ?_, fun j hj => render_unambiguous.1 _ _ (hj.trans hline.symm)⟩
  rw [← hline]
  exact render_unambiguous.2 _

end Instruction
end WindowVM
