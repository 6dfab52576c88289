/-
# Byte stuffing

Any bytes, written without a zero, so that a zero can end them in a stream.  The bytes
are cut into blocks; a block is a code byte `n` followed by `n - 1` bytes that are not
zero.  A zero follows each block, except the last and those whose code is 255: a block
is closed with that code as soon as it has 254 bytes.

`unstuff` reads a block at a time, and puts a zero before each further block.
-/

import WindowVM.Wire.Varint

namespace WindowVM
namespace Wire

/-- A block: its code and its bytes. -/
def block (bytes : Bytes) : Bytes := UInt8.ofNat (bytes.length + 1) :: bytes

/-- Stuffs `bytes` after `pending`, the bytes of a block not yet closed. -/
def stuffAfter (pending : Bytes) : Bytes → Bytes
  | [] => block pending
  | b :: rest =>
    if b = 0 then block pending ++ stuffAfter [] rest
    else if pending.length = 253 then block (pending ++ [b]) ++ stuffAfter [] rest
    else stuffAfter (pending ++ [b]) rest

/-- The bytes written without a zero. -/
def stuff (bytes : Bytes) : Bytes := stuffAfter [] bytes

/-- Reads on with `left` bytes of the present block to come.  After them a zero is due,
unless the block is `open`: it had the code 255, or there was none yet. -/
def unstuffBlock (isOpen : Bool) : (left : Nat) → Bytes → Option Bytes
  | 0, [] => some []
  | _ + 1, [] => none
  | left + 1, b :: rest => (unstuffBlock isOpen left rest).map (b :: ·)
  | 0, code :: rest =>
    (unstuffBlock (code == 255) (code.toNat - 1) rest).map fun bytes =>
      if isOpen then bytes else 0 :: bytes

/-- The bytes that were stuffed, unless the last block is cut short. -/
def unstuff (bytes : Bytes) : Option Bytes := unstuffBlock true 0 bytes

/-- A message for a stream: stuffed, and ended by a zero. -/
def frame (bytes : Bytes) : Bytes := stuff bytes ++ [0]

theorem toNat_code {bytes : Bytes} (h : bytes.length ≤ 254) :
    (UInt8.ofNat (bytes.length + 1)).toNat = bytes.length + 1 := by
  rw [UInt8.toNat_ofNat']
  exact Nat.mod_eq_of_lt (by omega)

/-- The bytes of a block are read as they are. -/
theorem unstuffBlock_append (isOpen : Bool) (bytes rest : Bytes) :
    unstuffBlock isOpen bytes.length (bytes ++ rest) =
      (unstuffBlock isOpen 0 rest).map (bytes ++ ·) := by
  induction bytes with
  | nil => simp
  | cons b bytes ih =>
    rw [List.length_cons, List.cons_append, unstuffBlock, ih, Option.map_map]
    rfl

/-- Reading a block leaves a full one open, and puts a zero before all but the first. -/
theorem unstuffBlock_block {bytes : Bytes} (h : bytes.length ≤ 254) (isOpen : Bool)
    (rest : Bytes) :
    unstuffBlock isOpen 0 (block bytes ++ rest) =
      (unstuffBlock (bytes.length == 254) 0 rest).map fun tail =>
        if isOpen then bytes ++ tail else 0 :: (bytes ++ tail) := by
  have hfull : (UInt8.ofNat (bytes.length + 1) == 255) = (bytes.length == 254) := by
    rw [Bool.eq_iff_iff, beq_iff_eq, beq_iff_eq, ← UInt8.toNat_inj, toNat_code h]
    exact Nat.add_right_cancel_iff
  rw [block, List.cons_append, unstuffBlock, hfull, toNat_code h, Nat.add_sub_cancel,
    unstuffBlock_append, Option.map_map]
  rfl

theorem unstuffBlock_stuffAfter {pending : Bytes} (h : pending.length ≤ 253) (isOpen : Bool)
    (bytes : Bytes) :
    unstuffBlock isOpen 0 (stuffAfter pending bytes) =
      some (if isOpen then pending ++ bytes else 0 :: (pending ++ bytes)) := by
  have hopen : (pending.length == 254) = false := beq_eq_false_iff_ne.2 (by omega)
  induction bytes generalizing pending isOpen with
  | nil =>
    have hblock := unstuffBlock_block (show pending.length ≤ 254 by omega) isOpen []
    rw [List.append_nil, hopen] at hblock
    rw [stuffAfter, hblock]
    rfl
  | cons b rest ih =>
    rw [stuffAfter]
    split
    · rename_i hzero
      rw [unstuffBlock_block (by omega), hopen, ih (Nat.zero_le _) _ rfl, hzero]
      rfl
    · split
      · rename_i hlen
        have hfull : (pending ++ [b]).length = 254 := by simp [hlen]
        rw [unstuffBlock_block (by omega), hfull, ih (Nat.zero_le _) _ rfl]
        simp
      · rename_i hlen
        have hshort : (pending ++ [b]).length ≤ 253 := by
          rw [List.length_append, List.length_singleton]
          omega
        rw [ih hshort _ (beq_eq_false_iff_ne.2 (by omega))]
        simp

/-- **Stuffing loses nothing.** -/
theorem unstuff_stuff (bytes : Bytes) : unstuff (stuff bytes) = some bytes :=
  unstuffBlock_stuffAfter (Nat.zero_le _) true bytes

theorem zero_notMem_block {bytes : Bytes} (h : bytes.length ≤ 254) (hzero : 0 ∉ bytes) :
    0 ∉ block bytes := by
  rw [block, List.mem_cons]
  rintro (hcode | hmem)
  · have := toNat_code h
    rw [← hcode] at this
    simp at this
  · exact hzero hmem

theorem zero_notMem_stuffAfter {pending : Bytes} (h : pending.length ≤ 253) (hzero : 0 ∉ pending)
    (bytes : Bytes) : 0 ∉ stuffAfter pending bytes := by
  induction bytes generalizing pending with
  | nil => exact zero_notMem_block (by omega) hzero
  | cons b rest ih =>
    have hnext : b ≠ 0 → 0 ∉ pending ++ [b] := fun hb hmem => by
      rcases List.mem_append.1 hmem with hmem | hmem
      · exact hzero hmem
      · exact hb (List.mem_singleton.1 hmem).symm
    have hempty : (0 : UInt8) ∉ ([] : Bytes) := List.not_mem_nil
    rw [stuffAfter]
    split
    · rw [List.mem_append]
      rintro (hmem | hmem)
      · exact zero_notMem_block (by omega) hzero hmem
      · exact ih (Nat.zero_le _) hempty hmem
    · rename_i hb
      split
      · rename_i hlen
        have hfull : (pending ++ [b]).length ≤ 254 := by simp [hlen]
        rw [List.mem_append]
        rintro (hmem | hmem)
        · exact zero_notMem_block hfull (hnext hb) hmem
        · exact ih (Nat.zero_le _) hempty hmem
      · have hshort : (pending ++ [b]).length ≤ 253 := by
          rw [List.length_append, List.length_singleton]
          omega
        exact ih hshort (hnext hb)

/-- **Stuffed bytes have no zero.** -/
theorem zero_notMem_stuff (bytes : Bytes) : 0 ∉ stuff bytes :=
  zero_notMem_stuffAfter (Nat.zero_le _) List.not_mem_nil bytes

/-- The first message of a stream.  It reaches to the first zero, or to the end when
there is none. -/
def unframe (bytes : Bytes) : Option Bytes := unstuff (bytes.takeWhile (· != 0))

/-- **A message is read back, whatever follows it in the stream.** -/
theorem unframe_frame (bytes rest : Bytes) : unframe (frame bytes ++ rest) = some bytes := by
  have hstuff : ∀ b ∈ stuff bytes, (b != 0) = true := fun b hb =>
    bne_iff_ne.2 fun hzero => zero_notMem_stuff bytes (hzero ▸ hb)
  rw [unframe, frame, List.append_assoc, List.takeWhile_append_of_pos hstuff]
  simp [unstuff_stuff]

end Wire
end WindowVM
