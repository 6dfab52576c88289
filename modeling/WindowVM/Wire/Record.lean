/-
# Wire forms of instructions and configurations

A record is its fields in order.  A word is a varint of 64 bits; an instruction is the
index of its opcode, a varint of 32 bits, and its operands; an option is the byte 0, or
the byte 1 and the value; a list is its length and its elements.
-/

import WindowVM.Config
import WindowVM.Wire.Varint

namespace WindowVM
namespace Wire

def encodeWord (w : Word) : Bytes := Varint.encode w.toNat

def decodeWord : Decoder Word := do
  let n ← Varint.decode 64
  return UInt64.ofNat n

theorem decodeWord_encodeWord (w : Word) (rest : Bytes) :
    decodeWord (encodeWord w ++ rest) = .ok (w, rest) := by
  rw [decodeWord, encodeWord, bind_of_ok (Varint.decode_encode w.toNat_lt rest),
    UInt64.ofNat_toNat]
  rfl

theorem decodeWord_bind {β : Type} (f : Word → Decoder β) (w : Word) (rest : Bytes) :
    (decodeWord >>= f) (encodeWord w ++ rest) = f w rest :=
  bind_of_ok (decodeWord_encodeWord w rest)

def encodeOption : Option Word → Bytes
  | none => [0]
  | some w => 1 :: encodeWord w

def decodeOption : Decoder (Option Word)
  | [] => .error .unexpectedEnd
  | b :: rest =>
    if b = 0 then .ok (none, rest)
    else if b = 1 then (decodeWord rest).map fun (w, rest) => (some w, rest)
    else .error .badOption

theorem decodeOption_encodeOption (o : Option Word) (rest : Bytes) :
    decodeOption (encodeOption o ++ rest) = .ok (o, rest) := by
  cases o with
  | none => rfl
  | some w =>
    rw [encodeOption, List.cons_append, decodeOption, decodeWord_encodeWord]
    rfl

/-- The values of a list of given length. -/
def decodeMany {α : Type} (value : Decoder α) : (n : Nat) → Decoder { l : List α // l.length = n }
  | 0 => return ⟨[], rfl⟩
  | n + 1 => do
    let a ← value
    let ⟨l, h⟩ ← decodeMany value n
    return ⟨a :: l, by simp [h]⟩

/-- A list reads back if each of its elements does. -/
theorem decodeMany_flatMap {α : Type} {value : Decoder α} {encode : α → Bytes}
    (hvalue : ∀ a rest, value (encode a ++ rest) = .ok (a, rest)) {l : List α} {n : Nat}
    (h : l.length = n) (rest : Bytes) :
    decodeMany value n (l.flatMap encode ++ rest) = .ok (⟨l, h⟩, rest) := by
  induction l generalizing n with
  | nil =>
    subst h
    rfl
  | cons a l ih =>
    subst h
    rw [List.flatMap_cons, List.append_assoc]
    show decodeMany value (l.length + 1) _ = _
    rw [decodeMany, bind_of_ok (hvalue a _), bind_of_ok (ih rfl)]
    rfl

def encodeInstruction (i : Instruction) : Bytes :=
  Varint.encode i.opcode.index.val ++ i.operands.flatMap encodeWord

/-- The instruction with a given opcode whose operands come next. -/
def decodeOperands : Opcode → Decoder Instruction
  | .ret => return .ret
  | .call => return .call (← decodeWord) (← decodeWord) (← decodeWord)
  | .move => return .move (← decodeWord) (← decodeWord)
  | .moveImmediate => return .moveImmediate (← decodeWord) (← decodeWord)
  | .add => return .add (← decodeWord) (← decodeWord)
  | .addImmediate => return .addImmediate (← decodeWord) (← decodeWord)
  | .increment => return .increment (← decodeWord)
  | .decrement => return .decrement (← decodeWord)

def decodeInstruction : Decoder Instruction := do
  let index ← Varint.decode 32
  match Opcode.all[index]? with
  | some op => decodeOperands op
  | none => throw .unknownVariant

theorem decodeOperands_flatMap (i : Instruction) (rest : Bytes) :
    decodeOperands i.opcode (i.operands.flatMap encodeWord ++ rest) = .ok (i, rest) := by
  cases i <;>
    simp only [Instruction.opcode, Instruction.operands, decodeOperands, List.flatMap_cons,
      List.flatMap_nil, List.append_assoc, List.nil_append, decodeWord_bind] <;>
    rfl

theorem decodeInstruction_encodeInstruction (i : Instruction) (rest : Bytes) :
    decodeInstruction (encodeInstruction i ++ rest) = .ok (i, rest) := by
  have hindex : i.opcode.index.val < 1 <<< 32 := Nat.lt_trans i.opcode.index.isLt (by decide)
  have hopcode : Opcode.all[i.opcode.index.val]? = some i.opcode := by
    cases i.opcode <;> rfl
  rw [decodeInstruction, encodeInstruction, List.append_assoc,
    bind_of_ok (Varint.decode_encode hindex _), hopcode]
  exact decodeOperands_flatMap i rest

def encodeConfig (c : Config) : Bytes :=
  encodeWord c.initialRegisters ++ encodeWord c.growthIncrement ++
    encodeOption c.maxRegisters ++ encodeOption c.maxFrames

def decodeConfig : Decoder Config := do
  let initialRegisters ← decodeWord
  let growthIncrement ← decodeWord
  let maxRegisters ← decodeOption
  let maxFrames ← decodeOption
  return { initialRegisters, growthIncrement, maxRegisters, maxFrames }

theorem decodeConfig_encodeConfig (c : Config) (rest : Bytes) :
    decodeConfig (encodeConfig c ++ rest) = .ok (c, rest) := by
  simp only [decodeConfig, encodeConfig, List.append_assoc]
  rw [decodeWord_bind, decodeWord_bind,
    bind_of_ok (decodeOption_encodeOption _ _), bind_of_ok (decodeOption_encodeOption _ _)]
  rfl

def encodeProgram (p : Program) : Bytes :=
  Varint.encode p.size ++ p.code.toList.flatMap encodeInstruction

def decodeProgram : Decoder Program := do
  let size ← decodeWord
  let ⟨code, h⟩ ← decodeMany decodeInstruction size.toNat
  return ⟨code.toArray, by simpa [h] using size.toNat_lt⟩

theorem decodeProgram_encodeProgram (p : Program) (rest : Bytes) :
    decodeProgram (encodeProgram p ++ rest) = .ok (p, rest) := by
  have hsize : (UInt64.ofNat p.size).toNat = p.size := UInt64.toNat_ofNat_of_lt p.size_lt
  have hword : Varint.encode p.size = encodeWord (UInt64.ofNat p.size) := by
    rw [encodeWord, hsize]
  have hlen : p.code.toList.length = (UInt64.ofNat p.size).toNat := by
    rw [hsize, Array.length_toList, Program.size]
  rw [decodeProgram, encodeProgram, List.append_assoc, hword,
    decodeWord_bind,
    bind_of_ok (decodeMany_flatMap decodeInstruction_encodeInstruction hlen rest)]
  rfl

end Wire
end WindowVM
