/-
# Variable length integers

A number is written in base 128, lowest digit first, one digit a byte; every byte but
the last has its high bit set.  `encode` writes no more bytes than needed.  `decode`
also takes longer forms, as long as the number could have `bits` bits:

| bits | bytes at most | last of them at most |
| ---: | ---: | ---: |
| 16 | 3 | 3 |
| 32 | 5 | 15 |
| 64 | 10 | 1 |

A decoder takes its value from the front of the bytes and hands on the rest.
-/


namespace WindowVM
namespace Wire

abbrev Bytes := List UInt8

/-- Why bytes are not the encoding of a value. -/
inductive DecodeError where
  /-- The bytes end inside the value. -/
  | unexpectedEnd
  /-- A number has too many bits. -/
  | badVarint
  /-- The byte of an option is neither 0 nor 1. -/
  | badOption
  /-- No instruction has this index. -/
  | unknownVariant
  deriving DecidableEq, Repr

/-- Takes a value from the front of the bytes. -/
abbrev Decoder := StateT Bytes (Except DecodeError)

theorem bind_of_ok {α β : Type} {d : Decoder α} {f : α → Decoder β} {bytes rest : Bytes} {a : α}
    (h : d bytes = .ok (a, rest)) : (d >>= f) bytes = f a rest := by
  simp [bind, StateT.bind, h, Except.bind]

theorem bind_of_error {α β : Type} {d : Decoder α} {f : α → Decoder β} {bytes : Bytes}
    {e : DecodeError} (h : d bytes = .error e) : (d >>= f) bytes = .error e := by
  simp [bind, StateT.bind, h, Except.bind]

namespace Varint

/-- The shortest form of a number. -/
def encode (n : Nat) : Bytes :=
  if n < 128 then [UInt8.ofNat n] else UInt8.ofNat (n % 128 + 128) :: encode (n / 128)
termination_by n
decreasing_by omega

/-- The number of at most `bits` bits at the front of the bytes, and the rest. -/
def decode (bits : Nat) : Bytes → Except DecodeError (Nat × Bytes)
  | [] => .error .unexpectedEnd
  | b :: rest =>
    if bits ≤ 7 then
      if b.toNat < 1 <<< bits then .ok (b.toNat, rest) else .error .badVarint
    else if b.toNat < 128 then .ok (b.toNat, rest)
    else
      match decode (bits - 7) rest with
      | .ok (high, rest) => .ok (b.toNat - 128 + 128 * high, rest)
      | .error e => .error e

theorem one_shiftLeft_eq {bits : Nat} (h : 7 < bits) : 1 <<< bits = 128 * 1 <<< (bits - 7) := by
  obtain ⟨k, rfl⟩ := Nat.exists_eq_add_of_lt h
  rw [show 7 + k + 1 - 7 = k + 1 by omega, show 7 + k + 1 = k + 1 + 7 by omega, Nat.shiftLeft_add,
    Nat.shiftLeft_eq _ 7, Nat.mul_comm]

theorem decode_lt {bits n : Nat} {bytes rest : Bytes} (h : decode bits bytes = .ok (n, rest)) :
    n < 1 <<< bits := by
  induction bytes generalizing bits n rest with
  | nil => simp [decode] at h
  | cons b bytes ih =>
    have hpow : 7 < bits → 1 <<< bits = 128 * 1 <<< (bits - 7) := one_shiftLeft_eq
    have hone : 0 < 1 <<< (bits - 7) := Nat.one_shiftLeft _ ▸ Nat.two_pow_pos _
    have hbyte := b.toNat_lt
    rw [decode] at h
    split at h
    · split at h
      · simp only [Except.ok.injEq, Prod.mk.injEq] at h
        omega
      · simp at h
    · have := hpow (by omega)
      split at h
      · simp only [Except.ok.injEq, Prod.mk.injEq] at h
        omega
      · split at h
        · rename_i high _ hrec
          have := ih hrec
          simp only [Except.ok.injEq, Prod.mk.injEq] at h
          omega
        · simp at h

/-- A number of at most `bits` bits reads back, whatever follows it. -/
theorem decode_encode {bits n : Nat} (h : n < 1 <<< bits) (rest : Bytes) :
    decode bits (encode n ++ rest) = .ok (n, rest) := by
  induction n using Nat.strongRecOn generalizing bits with
  | ind n ih =>
    rw [encode]
    split
    · rename_i hn
      have hbyte : (UInt8.ofNat n).toNat = n := by simp; omega
      simp only [List.cons_append, List.nil_append, decode, hbyte, h, hn, if_true, ite_self]
    · rename_i hn
      have hbits : ¬ bits ≤ 7 := fun hb => by
        have hle : 1 <<< bits ≤ 1 <<< 7 := by
          rw [Nat.one_shiftLeft, Nat.one_shiftLeft]
          exact Nat.pow_le_pow_right (by decide) hb
        omega
      have hpow : 1 <<< bits = 128 * 1 <<< (bits - 7) := one_shiftLeft_eq (by omega)
      have hbyte : (UInt8.ofNat (n % 128 + 128)).toNat = n % 128 + 128 := by simp; omega
      have hrec : decode (bits - 7) (encode (n / 128) ++ rest) = .ok (n / 128, rest) :=
        ih (n / 128) (by omega) (by omega)
      simp only [List.cons_append, decode, hbits, hbyte, hrec, if_false,
        show ¬ n % 128 + 128 < 128 by omega]
      simp only [Except.ok.injEq, Prod.mk.injEq, and_true]
      omega

end Varint
end Wire
end WindowVM
