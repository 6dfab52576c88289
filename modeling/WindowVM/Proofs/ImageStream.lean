/-
# Streams of images

The bytes of an image hold a single zero, and end with it.  So the images of a stream are
found without reading any of them: cut at its zeros, the stream falls apart into the images
it was made of, each without its last byte (`Wire.splitOn_flatMap_frame`).

A piece is read as the image it came from, with a zero after it or without one, and whatever
follows that zero.  Different images have different bytes, because the wire form reads back
also for an image that the decoder refuses (`Image.toBytes_injective`).
-/

import Mathlib.Data.List.TakeWhile
import WindowVM.Image

namespace WindowVM
namespace Wire

/-- A message holds a single zero. -/
theorem count_zero_frame (bytes : Bytes) : (frame bytes).count 0 = 1 := by
  rw [frame, List.count_append, List.count_eq_zero_of_not_mem (zero_notMem_stuff bytes)]
  rfl

/-- A message ends with its zero. -/
theorem getLast?_frame (bytes : Bytes) : (frame bytes).getLast? = some 0 := by
  rw [frame, List.getLast?_concat]

/-- Stuffed bytes that no zero ends are read as the message they are. -/
theorem unframe_stuff (bytes : Bytes) : unframe (stuff bytes) = some bytes := by
  have hstuff : ∀ b ∈ stuff bytes, (b != 0) = true := fun b hb =>
    bne_iff_ne.2 fun hzero => zero_notMem_stuff bytes (hzero ▸ hb)
  rw [unframe, List.takeWhile_eq_self_iff.2 hstuff, unstuff_stuff]

/-- Stuffed bytes that a zero ends are read as the message they are, whatever follows. -/
theorem unframe_stuff_append (bytes rest : Bytes) :
    unframe (stuff bytes ++ 0 :: rest) = some bytes := by
  have hread := unframe_frame bytes rest
  rwa [frame, List.append_assoc] at hread

/-- **A stream cut at its zeros** falls apart into its messages.  Nothing is left after the
last zero. -/
theorem splitOn_flatMap_frame (messages : List Bytes) :
    (messages.flatMap frame).splitOn 0 = messages.map stuff ++ [[]] := by
  induction messages with
  | nil => rfl
  | cons bytes messages ih =>
    have hstuff : ∀ b ∈ stuff bytes, (b == 0) = false := fun b hb =>
      beq_eq_false_iff_ne.2 fun hzero => zero_notMem_stuff bytes (hzero ▸ hb)
    have hfirst := List.splitOnP_append_cons_of_forall_mem hstuff 0 rfl (messages.flatMap frame)
    rw [List.flatMap_cons, frame, List.append_assoc]
    exact hfirst.trans (congrArg (stuff bytes :: ·) ih)

end Wire

namespace Image

/-- The wire form of an image, read from its bytes. -/
theorem unframe_toBytes (i : Image) : Wire.unframe i.toBytes = some i.encode := by
  have hread := Wire.unframe_frame i.encode []
  rwa [List.append_nil] at hread

/-- What is read from some bytes depends on the message in them alone. -/
theorem ofBytes_congr {bytes other : Wire.Bytes} (h : Wire.unframe bytes = Wire.unframe other) :
    ofBytes bytes = ofBytes other := by
  rw [ofBytes, ofBytes, h]

/-- **Different images have different bytes.** -/
theorem toBytes_injective {i j : Image} (h : i.toBytes = j.toBytes) : i = j := by
  have hencode : i.encode = j.encode := by
    have hread := i.unframe_toBytes
    rw [h, j.unframe_toBytes] at hread
    exact (Option.some.inj hread).symm
  have hi := decode_encode i []
  rw [hencode, decode_encode j []] at hi
  exact (congrArg Prod.fst (Except.ok.inj hi)).symm

/-- **A stream of images can be cut at its zeros.**  The bytes of an image hold one zero,
the last of them.  The bytes of some images one after another have as many pieces that a
zero ends as there are images, and each piece is read as its image is read from its own
bytes, with its zero or without, whatever follows the zero.  No two images have the same
bytes. -/
theorem splitOn_flatMap_toBytes (images : List Image) :
    (∀ i ∈ images, i.toBytes.count 0 = 1 ∧ i.toBytes.getLast? = some 0) ∧
      (∃ pieces : List Wire.Bytes,
        (images.flatMap toBytes).splitOn 0 = pieces ++ [[]] ∧ pieces.length = images.length ∧
          ∀ (k : Nat) (i : Image), images[k]? = some i → ∃ piece, pieces[k]? = some piece ∧
            piece ++ [0] = i.toBytes ∧ ofBytes piece = ofBytes i.toBytes ∧
            ∀ rest, ofBytes (piece ++ 0 :: rest) = ofBytes i.toBytes) ∧
      ∀ i j : Image, i ≠ j → i.toBytes ≠ j.toBytes := by
  refine ⟨?_, ⟨(images.map encode).map Wire.stuff, ?_, by simp, ?_⟩,
    fun i j => mt toBytes_injective⟩
  · intro i _
    exact ⟨Wire.count_zero_frame _, Wire.getLast?_frame _⟩
  · rw [← Wire.splitOn_flatMap_frame, List.flatMap_map]
    rfl
  · intro k i hi
    refine ⟨Wire.stuff i.encode, by simp [hi], rfl, ?_, ?_⟩
    · exact ofBytes_congr ((Wire.unframe_stuff _).trans i.unframe_toBytes.symm)
    · intro rest
      exact ofBytes_congr ((Wire.unframe_stuff_append _ rest).trans i.unframe_toBytes.symm)

/-- The hypotheses are satisfiable: two images full of zeros, one of them without a program,
which is refused from its piece as from its own bytes. -/
theorem splitOn_flatMap_toBytes_of_zeros :
    ∃ pieces : List Wire.Bytes,
      ([ofProgram ⟨#[.moveImmediate 0 0, .ret], by decide⟩ 0 1,
        ofProgram ⟨#[], by decide⟩ 0 0].flatMap toBytes).splitOn 0 = pieces ++ [[]] ∧
      pieces.length = 2 ∧
      ∃ piece, pieces[1]? = some piece ∧ ofBytes (piece ++ 0 :: [7]) = .error .emptyProgram := by
  obtain ⟨-, ⟨pieces, hcut, hlength, hread⟩, -⟩ := splitOn_flatMap_toBytes
    [ofProgram ⟨#[.moveImmediate 0 0, .ret], by decide⟩ 0 1, ofProgram ⟨#[], by decide⟩ 0 0]
  obtain ⟨piece, hpiece, -, -, hrest⟩ := hread 1 _ rfl
  have hrefused : ofBytes (toBytes (ofProgram ⟨#[], by decide⟩ 0 0)) = .error .emptyProgram := by
    decide +kernel
  exact ⟨pieces, hcut, hlength, piece, hpiece, (hrest [7]).trans hrefused⟩

end Image
end WindowVM
