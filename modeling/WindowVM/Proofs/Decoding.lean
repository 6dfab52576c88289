/-
# Decoders read from the front

A decoder takes its value from the front of the bytes and hands on the rest.  `Steady` says
that it looks no further than it has to: once it has its value, or has found that the bytes
are not the encoding of one, more bytes at the end are handed on and change nothing.  Only
when the bytes ran out can more of them lead to another answer.

Every decoder of the wire form is steady, because running one after another keeps the
property (`Steady.bind`).  So bytes that a decoder reads to their end are no longer read
once some are missing there (`Steady.error_of_append`).
-/

import WindowVM.Image

namespace WindowVM
namespace Wire

variable {α β : Type}

/-- Unless the bytes run out, more of them at the end are handed on. -/
def Steady (d : Decoder α) : Prop :=
  ∀ bytes, d bytes ≠ .error .unexpectedEnd → ∀ more,
    d (bytes ++ more) = (d bytes).map fun decoded => (decoded.1, decoded.2 ++ more)

namespace Steady

variable {d : Decoder α} {f : α → Decoder β}

/-- **Bytes cut short end too early:** a decoder that reads all of some bytes does not read
a front part of them. -/
theorem error_of_append (h : Steady d) {bytes more : Bytes} {a : α} (hmore : more ≠ [])
    (hread : d (bytes ++ more) = .ok (a, [])) : d bytes = .error .unexpectedEnd := by
  by_cases hend : d bytes = .error .unexpectedEnd
  · exact hend
  have hfront := h bytes hend more
  rw [hread] at hfront
  cases hd : d bytes with
  | ok decoded =>
    rw [hd] at hfront
    have hrest : [] = decoded.2 ++ more := congrArg Prod.snd (Except.ok.inj hfront)
    exact absurd (List.append_eq_nil_iff.1 hrest.symm).2 hmore
  | error e =>
    rw [hd] at hfront
    cases hfront

theorem pure (a : α) : Steady (Pure.pure a) :=
  fun _ _ _ => rfl

theorem throw (e : DecodeError) : Steady (MonadExcept.throw e : Decoder α) :=
  fun _ _ _ => rfl

/-- One decoder after another is steady if each of them is. -/
theorem bind (hd : Steady d) (hf : ∀ a, Steady (f a)) : Steady (d >>= f) := by
  intro bytes h more
  cases hfirst : d bytes with
  | error e =>
    rw [bind_of_error hfirst] at h ⊢
    have hne : e ≠ .unexpectedEnd := fun he => h (congrArg Except.error he)
    have hmore := hd bytes (by simpa [hfirst] using hne) more
    rw [hfirst] at hmore
    rw [bind_of_error hmore]
    rfl
  | ok decoded =>
    obtain ⟨a, middle⟩ := decoded
    rw [bind_of_ok hfirst] at h ⊢
    have hmore := hd bytes (by simp [hfirst]) more
    rw [hfirst] at hmore
    rw [bind_of_ok hmore]
    exact hf a middle h more

end Steady

/-! ### The decoders of the wire form -/

theorem steady_varint (bits : Nat) : Steady (Varint.decode bits) := by
  intro bytes
  induction bytes generalizing bits with
  | nil => exact fun h => absurd rfl h
  | cons b bytes ih =>
    intro h more
    rw [List.cons_append]
    rw [Varint.decode] at h ⊢
    rw [Varint.decode]
    by_cases hbits : bits ≤ 7
    · rw [if_pos hbits, if_pos hbits]
      split <;> rfl
    rw [if_neg hbits] at h ⊢
    rw [if_neg hbits]
    by_cases hlast : b.toNat < 128
    · rw [if_pos hlast, if_pos hlast]
      rfl
    rw [if_neg hlast] at h ⊢
    rw [if_neg hlast]
    -- The byte goes on, and so the number ends where the one after it does.
    cases hhigh : Varint.decode (bits - 7) bytes with
    | ok decoded =>
      rw [ih (bits - 7) (by simp [hhigh]) more, hhigh]
      rfl
    | error e =>
      rw [hhigh] at h
      rw [ih (bits - 7) (by rwa [hhigh]) more, hhigh]
      rfl

theorem steady_word : Steady decodeWord :=
  (steady_varint 64).bind fun _ => .pure _

/-- An option that is there is read as its value is, after one byte. -/
theorem decodeOption_one (bytes : Bytes) :
    decodeOption (1 :: bytes) = (decodeWord >>= fun w => pure (some w)) bytes := by
  have hpresent : decodeOption (1 :: bytes) =
      (decodeWord bytes).map fun decoded => (some decoded.1, decoded.2) := rfl
  cases hread : decodeWord bytes with
  | error e =>
    rw [hpresent, bind_of_error hread, hread]
    rfl
  | ok decoded =>
    rw [hpresent, bind_of_ok hread, hread]
    rfl

theorem steady_option : Steady decodeOption := by
  intro bytes h more
  cases bytes with
  | nil => exact absurd rfl h
  | cons b bytes =>
    by_cases hnone : b = 0
    · subst hnone
      rfl
    by_cases hsome : b = 1
    · subst hsome
      rw [decodeOption_one] at h
      rw [List.cons_append, decodeOption_one, decodeOption_one]
      exact (steady_word.bind fun w => .pure (some w)) bytes h more
    · rw [List.cons_append, decodeOption, decodeOption, if_neg hnone, if_neg hsome, if_neg hnone,
        if_neg hsome]
      rfl

theorem steady_config : Steady decodeConfig :=
  steady_word.bind fun _ => steady_word.bind fun _ => steady_option.bind fun _ =>
    steady_option.bind fun _ => .pure _

theorem steady_many {value : Decoder α} (hvalue : Steady value) (n : Nat) :
    Steady (decodeMany value n) := by
  induction n with
  | zero => exact .pure _
  | succ n ih => exact hvalue.bind fun _ => ih.bind fun _ => .pure _

theorem steady_operands (op : Opcode) : Steady (decodeOperands op) := by
  cases op with
  | ret => exact .pure _
  | increment | decrement => exact steady_word.bind fun _ => .pure _
  | move | moveImmediate | add | addImmediate =>
    exact steady_word.bind fun _ => steady_word.bind fun _ => .pure _
  | call =>
    exact steady_word.bind fun _ => steady_word.bind fun _ => steady_word.bind fun _ => .pure _

theorem steady_instruction : Steady decodeInstruction := by
  refine (steady_varint 32).bind fun index => ?_
  cases Opcode.all[index]? with
  | none => exact .throw _
  | some op => exact steady_operands op

theorem steady_program : Steady decodeProgram :=
  steady_word.bind fun size => (steady_many steady_instruction size.toNat).bind fun _ => .pure _

end Wire

/-- **The wire form of an image is read from the front.** -/
theorem Image.steady_decode : Wire.Steady Image.decode :=
  (Wire.steady_varint 16).bind fun _ => Wire.steady_word.bind fun _ =>
    Wire.steady_word.bind fun _ => Wire.steady_program.bind fun _ => .pure _

end WindowVM
