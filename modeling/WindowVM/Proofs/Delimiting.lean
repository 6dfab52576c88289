/-
# Wire forms delimit themselves

Instructions and configurations can be written one after another with nothing between them.
A form is read to its end and no further, whatever follows it, and a front part of it is
never read: the bytes end too early.

A number can be written in several forms, because a byte that goes on may be followed by
nothing but zero digits.  The form that is written is the shortest of them.  `Economical`
carries this from one field to the next: it counts the bytes that were read before a decoder
and in it, and compares them with what the value costs.
-/

import WindowVM.Proofs.Decoding

namespace WindowVM
namespace Wire

variable {α β : Type}

/-- The forms of values can be told apart from what follows them. -/
structure SelfDelimiting (encode : α → Bytes) (decode : Decoder α) : Prop where
  /-- A form is read to its end and no further. -/
  decode_append : ∀ a rest, decode (encode a ++ rest) = .ok (a, rest)
  /-- A front part of it is not read. -/
  decode_front : ∀ a front, front <+: encode a → front ≠ encode a →
    decode front = .error .unexpectedEnd
  /-- What is read as a value is a front part of the bytes, and no shorter than its form. -/
  length_le : ∀ bytes a rest, decode bytes = .ok (a, rest) →
    ∃ used, bytes = used ++ rest ∧ (encode a).length ≤ used.length

/-- The form of a value is no longer than the bytes that the decoder reads, and `paid` others. -/
def Economical (paid : Nat) (encode : α → Bytes) (d : Decoder α) : Prop :=
  ∀ bytes a rest, d bytes = .ok (a, rest) →
    ∃ used, bytes = used ++ rest ∧ (encode a).length ≤ paid + used.length

namespace Economical

variable {paid : Nat} {encode : α → Bytes} {encodeAll : β → Bytes} {d : Decoder α}
  {f : α → Decoder β}

theorem pure {a : α} (h : (encode a).length ≤ paid) : Economical paid encode (Pure.pure a) := by
  intro bytes b rest hread
  obtain ⟨rfl, rfl⟩ := Prod.mk.inj (Except.ok.inj hread)
  exact ⟨[], rfl, h⟩

theorem throw (e : DecodeError) :
    Economical paid encode (MonadExcept.throw e : Decoder α) := by
  intro bytes a rest hread
  cases hread

/-- What the first of two decoders reads is paid for when the second one starts. -/
theorem bind (hd : Economical 0 encode d)
    (hf : ∀ a, Economical (paid + (encode a).length) encodeAll (f a)) :
    Economical paid encodeAll (d >>= f) := by
  intro bytes b rest hread
  cases hfirst : d bytes with
  | error e =>
    rw [bind_of_error hfirst] at hread
    cases hread
  | ok decoded =>
    obtain ⟨a, middle⟩ := decoded
    rw [bind_of_ok hfirst] at hread
    obtain ⟨used, rfl, hused⟩ := hd bytes a middle hfirst
    obtain ⟨more, rfl, hmore⟩ := hf a middle b rest hread
    refine ⟨used ++ more, (List.append_assoc ..).symm, ?_⟩
    rw [List.length_append]
    omega

end Economical

/-- A decoder that reads what was written delimits it, if it is steady and economical. -/
theorem SelfDelimiting.of_economical {encode : α → Bytes} {decode : Decoder α}
    (hread : ∀ a rest, decode (encode a ++ rest) = .ok (a, rest)) (hsteady : Steady decode)
    (heconomical : Economical 0 encode decode) : SelfDelimiting encode decode := by
  constructor
  · exact hread
  · rintro a front ⟨back, hback⟩ hne
    have hmore : back ≠ [] := by
      rintro rfl
      exact hne (by rw [← hback, List.append_nil])
    have hwhole := hread a []
    rw [List.append_nil, ← hback] at hwhole
    exact hsteady.error_of_append hmore hwhole
  · intro bytes a rest h
    obtain ⟨used, hused, hlength⟩ := heconomical bytes a rest h
    exact ⟨used, hused, by omega⟩

/-! ### Numbers and options -/

theorem Varint.encode_of_lt {n : Nat} (h : n < 128) : encode n = [UInt8.ofNat n] := by
  rw [encode, if_pos h]

/-- One more digit takes one more byte at the most. -/
theorem Varint.length_encode_le (n : Nat) : (encode n).length ≤ (encode (n / 128)).length + 1 := by
  rw [encode]
  split
  · exact Nat.le_add_left ..
  · exact Nat.le_refl _

/-- **No form of a number is shorter** than the one it is written in. -/
theorem economical_varint (bits : Nat) : Economical 0 Varint.encode (Varint.decode bits) := by
  intro bytes
  induction bytes generalizing bits with
  | nil =>
    intro n rest h
    cases h
  | cons b bytes ih =>
    intro n rest h
    have hlast : b.toNat < 128 → (Varint.encode b.toNat).length ≤ 0 + [b].length := fun hb => by
      rw [Varint.encode_of_lt hb]
      exact Nat.le_refl 1
    have hpow : bits ≤ 7 → 2 ^ bits ≤ 2 ^ 7 := Nat.pow_le_pow_right (by decide)
    rw [Varint.decode] at h
    split at h
    · split at h
      · obtain ⟨rfl, rfl⟩ := Prod.mk.inj (Except.ok.inj h)
        exact ⟨[b], rfl, hlast (by omega)⟩
      · cases h
    · split at h
      · obtain ⟨rfl, rfl⟩ := Prod.mk.inj (Except.ok.inj h)
        exact ⟨[b], rfl, hlast ‹_›⟩
      · split at h
        · rename_i high middle hrec
          -- The byte is the lowest digit, and the number above it was read from the others.
          obtain ⟨rfl, rfl⟩ := Prod.mk.inj (Except.ok.inj h)
          obtain ⟨used, rfl, hused⟩ := ih (bits - 7) high _ hrec
          have hdigit : (b.toNat - 128 + 128 * high) / 128 = high := by
            have := b.toNat_lt
            omega
          have hlength := Varint.length_encode_le (b.toNat - 128 + 128 * high)
          rw [hdigit] at hlength
          refine ⟨b :: used, rfl, ?_⟩
          rw [List.length_cons]
          omega
        · cases h

theorem economical_word : Economical 0 encodeWord decodeWord := by
  intro bytes w rest h
  cases hread : Varint.decode 64 bytes with
  | error e =>
    rw [decodeWord, bind_of_error hread] at h
    cases h
  | ok decoded =>
    obtain ⟨n, middle⟩ := decoded
    rw [decodeWord, bind_of_ok hread] at h
    obtain ⟨rfl, rfl⟩ := Prod.mk.inj (Except.ok.inj h)
    -- The number has 64 bits, so the word that is made of it is the number itself.
    have hvalue : (UInt64.ofNat n).toNat = n := UInt64.toNat_ofNat_of_lt (Varint.decode_lt hread)
    rw [encodeWord, hvalue]
    exact economical_varint 64 bytes n _ hread

theorem economical_option : Economical 0 encodeOption decodeOption := by
  intro bytes o rest h
  cases bytes with
  | nil => cases h
  | cons b bytes =>
    by_cases hnone : b = 0
    · subst hnone
      obtain ⟨rfl, rfl⟩ := Prod.mk.inj (Except.ok.inj h)
      exact ⟨[0], rfl, Nat.le_refl 1⟩
    by_cases hsome : b = 1
    · subst hsome
      rw [decodeOption_one] at h
      have hvalue : Economical 1 encodeOption (decodeWord >>= fun w => pure (some w)) :=
        economical_word.bind fun w => .pure (Nat.le_of_eq (Nat.add_comm ..))
      obtain ⟨used, rfl, hused⟩ := hvalue bytes o rest h
      refine ⟨1 :: used, rfl, ?_⟩
      rw [List.length_cons]
      omega
    · rw [decodeOption, if_neg hnone, if_neg hsome] at h
      cases h

/-! ### Instructions and configurations -/

/-- The opcode is paid for first, and then one operand after another. -/
theorem length_encodeInstruction (i : Instruction) :
    (encodeInstruction i).length =
      i.operands.foldl (fun paid w => paid + (encodeWord w).length)
        (Varint.encode i.opcode.index.val).length := by
  cases i <;>
    simp [encodeInstruction, Instruction.opcode, Instruction.operands, Nat.add_assoc]

theorem economical_operands (op : Opcode) :
    Economical (Varint.encode op.index.val).length encodeInstruction (decodeOperands op) := by
  cases op with
  | ret => exact .pure (Nat.le_of_eq (length_encodeInstruction .ret))
  | increment | decrement =>
    exact economical_word.bind fun _ => .pure (Nat.le_of_eq (length_encodeInstruction _))
  | move | moveImmediate | add | addImmediate =>
    exact economical_word.bind fun _ => economical_word.bind fun _ =>
      .pure (Nat.le_of_eq (length_encodeInstruction _))
  | call =>
    exact economical_word.bind fun _ => economical_word.bind fun _ =>
      economical_word.bind fun _ => .pure (Nat.le_of_eq (length_encodeInstruction _))

/-- The place of an opcode among all of them is its index. -/
theorem eq_index_of_all {index : Nat} {op : Opcode} (h : Opcode.all[index]? = some op) :
    index = op.index.val := by
  have hop : Opcode.all[op.index.val]? = some op := by
    cases op <;> rfl
  have hlt := (List.getElem?_eq_some_iff.1 h).1
  exact (List.getElem?_inj hlt (by decide)).1 (h.trans hop.symm)

theorem economical_instruction : Economical 0 encodeInstruction decodeInstruction := by
  refine (economical_varint 32).bind fun index => ?_
  cases hop : Opcode.all[index]? with
  | none => exact .throw _
  | some op =>
    rw [eq_index_of_all hop, Nat.zero_add]
    exact economical_operands op

theorem length_encodeConfig (c : Config) :
    (encodeConfig c).length = (encodeWord c.initialRegisters).length +
      (encodeWord c.growthIncrement).length + (encodeOption c.maxRegisters).length +
      (encodeOption c.maxFrames).length := by
  rw [encodeConfig, List.length_append, List.length_append, List.length_append]

theorem economical_config : Economical 0 encodeConfig decodeConfig :=
  economical_word.bind fun _ => economical_word.bind fun _ => economical_option.bind fun _ =>
    economical_option.bind fun _ => .pure <| by
      rw [Nat.zero_add]
      exact Nat.le_of_eq (length_encodeConfig _)

/-- **The forms of instructions and configurations delimit themselves.**  Followed by any bytes
they are read back and leave these bytes, cut short they end too early, and no form that is
read as the same value is shorter. -/
theorem selfDelimiting :
    SelfDelimiting encodeInstruction decodeInstruction ∧
      SelfDelimiting encodeConfig decodeConfig :=
  ⟨.of_economical decodeInstruction_encodeInstruction steady_instruction economical_instruction,
    .of_economical decodeConfig_encodeConfig steady_config economical_config⟩

/-- The hypotheses are satisfiable: a word in a form that is one byte longer than it had to be,
and a configuration whose last byte is missing. -/
theorem selfDelimiting_of_padded :
    decodeInstruction [7, 0x85, 0x00, 9] = .ok (.decrement 5, [9]) ∧
      (encodeInstruction (.decrement 5)).length ≤ [7, 0x85, 0x00].length ∧
      encodeConfig { growthIncrement := 300, maxFrames := some 1 } =
        [0x80, 2, 0xac, 2, 0, 1, 1] ∧
      decodeConfig [0x80, 2, 0xac, 2, 0, 1] = .error .unexpectedEnd := by
  have hread : decodeInstruction [7, 0x85, 0x00, 9] = .ok (.decrement 5, [9]) := rfl
  have hform : encodeConfig { growthIncrement := 300, maxFrames := some 1 } =
      [0x80, 2, 0xac, 2, 0, 1, 1] := by
    simp [encodeConfig, encodeWord, encodeOption, Varint.encode, defaultCapacity]
  obtain ⟨used, hused, hlength⟩ := selfDelimiting.1.length_le _ _ _ hread
  have hfront := selfDelimiting.2.decode_front _ [0x80, 2, 0xac, 2, 0, 1]
    (by rw [hform]; decide) (by rw [hform]; decide)
  obtain rfl : [7, 0x85, 0x00] = used := List.append_cancel_right hused
  exact ⟨hread, hlength, hform, hfront⟩

end Wire
end WindowVM
