/-
# Images that are cut short

A front part of the bytes of an image is never read as another image.  Stuffed bytes that end
inside a block are no message at all; those that end with a block are the stuffed form of a
front part of the message (`Wire.prefix_of_unstuff`), and no front part of the wire form of an
image is read (`Steady.error_of_append`).

What can be lost without harm is the zero at the end, and before it the one byte of a block
without bytes that follows a full block: it has nothing to say.  So a loss of three bytes or
more is always found (`Image.ofBytes_take`).
-/

import WindowVM.Proofs.Decoding
import WindowVM.Proofs.ImageStream

namespace WindowVM
namespace Wire

variable {isOpen : Bool} {left : Nat} {front back bytes message : Bytes}

/-- Stuffed bytes that are read end with a block, and reading goes on at the next one. -/
theorem exists_unstuffBlock_append (h : unstuffBlock isOpen left front = some bytes) :
    ∃ full, ∀ back, unstuffBlock isOpen left (front ++ back) =
      (unstuffBlock full 0 back).map (bytes ++ ·) := by
  fun_induction unstuffBlock isOpen left front generalizing bytes with
  | case1 isOpen =>
    obtain rfl := Option.some.inj h
    exact ⟨isOpen, fun back => by simp⟩
  | case2 => simp at h
  | case3 isOpen left b rest ih =>
    obtain ⟨tail, htail, rfl⟩ := Option.map_eq_some_iff.1 h
    obtain ⟨full, hback⟩ := ih htail
    refine ⟨full, fun back => ?_⟩
    rw [List.cons_append, unstuffBlock, hback, Option.map_map]
    rfl
  | case4 isOpen code rest ih =>
    obtain ⟨tail, htail, rfl⟩ := Option.map_eq_some_iff.1 h
    obtain ⟨full, hback⟩ := ih htail
    refine ⟨full, fun back => ?_⟩
    rw [List.cons_append, unstuffBlock, hback, Option.map_map]
    cases isOpen <;> rfl

/-- Only a block without bytes stands for nothing, and only one of them does. -/
theorem length_le_one_of_unstuffBlock (h : unstuffBlock isOpen 0 bytes = some []) :
    bytes.length ≤ 1 := by
  cases bytes with
  | nil => exact Nat.zero_le 1
  | cons code rest =>
    rw [unstuffBlock] at h
    obtain ⟨tail, htail, hempty⟩ := Option.map_eq_some_iff.1 h
    obtain rfl : tail = [] := by
      cases isOpen with
      | true => exact hempty
      | false => cases hempty
    cases rest with
    | nil => exact Nat.le_refl 1
    | cons b rest =>
      -- The code announces a byte, or a zero stands before the next block.
      cases hleft : code.toNat - 1 with
      | succ left =>
        rw [hleft, unstuffBlock] at htail
        obtain ⟨_, _, hcons⟩ := Option.map_eq_some_iff.1 htail
        cases hcons
      | zero =>
        have hshort : (code == 255) = false := by
          rw [beq_eq_false_iff_ne]
          rintro rfl
          cases hleft
        rw [hleft, hshort, unstuffBlock] at htail
        obtain ⟨_, _, hcons⟩ := Option.map_eq_some_iff.1 htail
        cases hcons

/-- **A front part of stuffed bytes is read as a front part of the message,** if at all.  It
is read as the whole message only if one byte is missing at the most. -/
theorem prefix_of_unstuff (hstuff : stuff message = front ++ back)
    (h : unstuff front = some bytes) :
    bytes <+: message ∧ (bytes = message → back.length ≤ 1) := by
  obtain ⟨full, hback⟩ := exists_unstuffBlock_append h
  have hmessage := unstuff_stuff message
  rw [hstuff, unstuff, hback] at hmessage
  obtain ⟨tail, htail, rfl⟩ := Option.map_eq_some_iff.1 hmessage
  refine ⟨List.prefix_append bytes tail, fun hwhole => ?_⟩
  obtain rfl := List.self_eq_append_right.1 hwhole
  exact length_le_one_of_unstuffBlock htail

/-- One byte can be missing: the code of the block after a full one. -/
example : unstuff (stuff (List.replicate 254 7)).dropLast = some (List.replicate 254 7) := by
  decide +kernel

end Wire

namespace Image

/-- A front part of stuffed bytes is read as the image they come from, if at all. -/
theorem ofBytes_of_stuff {i : Image} {front back : Wire.Bytes}
    (h : Wire.stuff i.encode = front ++ back) :
    ofBytes front = .error .malformed ∨ back.length ≤ 1 ∧ ofBytes front = ofBytes i.toBytes := by
  have hzero : ∀ b ∈ front, (b != 0) = true := by
    intro b hb
    refine bne_iff_ne.2 fun h0 => Wire.zero_notMem_stuff i.encode ?_
    rw [h, ← h0]
    exact List.mem_append_left back hb
  have hframe : Wire.unframe front = Wire.unstuff front := by
    rw [Wire.unframe, List.takeWhile_eq_self_iff.2 hzero]
  cases hread : Wire.unstuff front with
  | none =>
    left
    rw [ofBytes, hframe, hread]
    rfl
  | some bytes =>
    obtain ⟨⟨more, hmore⟩, hback⟩ := Wire.prefix_of_unstuff h hread
    by_cases hwhole : more = []
    · right
      rw [hwhole, List.append_nil] at hmore
      refine ⟨hback hmore, ofBytes_congr ?_⟩
      rw [hframe, hread, hmore, unframe_toBytes]
    · left
      have hdecode := decode_encode i []
      rw [List.append_nil, ← hmore] at hdecode
      rw [ofBytes, hframe, hread, Option.map_some, steady_decode.error_of_append hwhole hdecode]

/-- **A truncated image is never taken for another one.**  What is left of its bytes is
malformed or is read as all of them are.  It is malformed if three bytes or more are missing,
and nothing is lost with the last byte alone. -/
theorem ofBytes_take (i : Image) {k : Nat} (hk : k < i.toBytes.length) :
    (ofBytes (i.toBytes.take k) = .error .malformed ∨
        ofBytes (i.toBytes.take k) = ofBytes i.toBytes) ∧
      (k + 3 ≤ i.toBytes.length → ofBytes (i.toBytes.take k) = .error .malformed) ∧
      (k + 1 = i.toBytes.length → ofBytes (i.toBytes.take k) = ofBytes i.toBytes) := by
  have hlength : i.toBytes.length = (Wire.stuff i.encode).length + 1 := by
    rw [toBytes, Wire.frame, List.length_append, List.length_singleton]
  have hle : k ≤ (Wire.stuff i.encode).length := by omega
  have htake : i.toBytes.take k = (Wire.stuff i.encode).take k := by
    rw [toBytes, Wire.frame, List.take_append_of_le_length hle]
  have hcut := ofBytes_of_stuff (List.take_append_drop k (Wire.stuff i.encode)).symm
  rw [← htake, List.length_drop] at hcut
  refine ⟨hcut.imp_right And.right, fun hthree => ?_, fun hlast => ?_⟩
  · refine hcut.resolve_right ?_
    rintro ⟨hone, -⟩
    omega
  · rw [htake, List.take_of_length_le (by omega)]
    exact ofBytes_congr ((Wire.unframe_stuff _).trans i.unframe_toBytes.symm)

/-- The hypotheses are satisfiable: without its last three bytes the image of a single return
is malformed, and without the last one it is read. -/
theorem ofBytes_take_of_ret :
    ∃ i : Image, i.toBytes = [2, 1, 3, 1, 1, 1, 0] ∧
      ofBytes [2, 1, 3, 1] = .error .malformed ∧ ofBytes [2, 1, 3, 1, 1, 1] = .ok i := by
  have hbytes : (ofProgram ⟨#[.ret], by decide⟩ 0 1).toBytes = [2, 1, 3, 1, 1, 1, 0] := by
    decide +kernel
  have hread : ofBytes [2, 1, 3, 1, 1, 1, 0] = .ok (ofProgram ⟨#[.ret], by decide⟩ 0 1) :=
    rfl
  have hfour := (ofBytes_take (ofProgram ⟨#[.ret], by decide⟩ 0 1) (k := 4)
    (by rw [hbytes]; decide)).2.1
  have hsix := (ofBytes_take (ofProgram ⟨#[.ret], by decide⟩ 0 1) (k := 6)
    (by rw [hbytes]; decide)).2.2
  rw [hbytes] at hfour hsix
  exact ⟨_, hbytes, hfour (by decide), (hsix rfl).trans hread⟩

end Image
end WindowVM
