/-
# Images read back

An image goes through three layers on its way to bytes: its fields become varints and
lists (`Image.encode`), those bytes are stuffed so that no zero is left, and a zero ends
them.  Each layer is undone whatever follows it, so what `Image.ofBytes` makes of an encoded
image depends on the image alone: it is the verdict `Image.check`
(`Image.ofBytes_toBytes_append`).

Reading back is not injective: a varint has longer forms than the one that is written, and
bytes may be left over within the frame.  All the same, an image that was read from any
bytes is one that the decoder accepts from its own encoding.
-/

import WindowVM.Image

namespace WindowVM
namespace Image

/-- The image itself if it can run, and else its first flaw in the order version, program,
root window, entry. -/
def check (i : Image) : Except ImageError Image :=
  if i.version ≠ 1 then .error (.unsupportedVersion i.version)
  else if i.program.size = 0 then .error .emptyProgram
  else if i.rootSize = 0 then .error .emptyRootWindow
  else if i.program.size ≤ i.entry.toNat then
    .error (.entryOutOfRange i.entry.toNat i.program.size)
  else .ok i

/-- The verdict is decided by the flaw. -/
theorem check_eq (i : Image) :
    i.check = match i.flaw? with
      | none => .ok i
      | some flaw => .error flaw := by
  rw [check, flaw?, currentVersion]
  by_cases hversion : i.version ≠ 1
  · rw [if_pos hversion, if_pos hversion]
  rw [if_neg hversion, if_neg hversion]
  by_cases hprogram : i.program.size = 0
  · rw [if_pos hprogram, if_pos hprogram]
  rw [if_neg hprogram, if_neg hprogram]
  by_cases hroot : i.rootSize = 0
  · rw [if_pos hroot, if_pos hroot]
  rw [if_neg hroot, if_neg hroot]
  by_cases hentry : i.program.size ≤ i.entry.toNat
  · rw [if_pos hentry, if_pos hentry]
  · rw [if_neg hentry, if_neg hentry]

/-- An image that passes is passed on unchanged. -/
theorem eq_of_check_eq_ok {i j : Image} (h : i.check = .ok j) : i = j := by
  rw [check_eq] at h
  split at h
  · exact Except.ok.inj h
  · simp at h

/-- Bytes whose frame holds the wire form of an image, and maybe more, are read as the
verdict on it. -/
theorem ofBytes_eq_check {bytes payload rest : Wire.Bytes} {i : Image}
    (hframe : Wire.unframe bytes = some payload) (hdecode : decode payload = .ok (i, rest)) :
    ofBytes bytes = i.check := by
  cases hflaw : i.flaw? with
  | none => simp only [ofBytes, hframe, Option.map_some, hdecode, check_eq, hflaw]
  | some flaw => simp only [ofBytes, hframe, Option.map_some, hdecode, check_eq, hflaw]

/-- An image that is read from bytes passes, whatever form it had in them. -/
theorem check_of_ofBytes {bytes : Wire.Bytes} {i : Image} (h : ofBytes bytes = .ok i) :
    i.check = .ok i := by
  cases hframe : Wire.unframe bytes with
  | none => simp [ofBytes, hframe] at h
  | some payload =>
    cases hdecode : decode payload with
    | error e => simp [ofBytes, hframe, hdecode] at h
    | ok decoded =>
      obtain ⟨j, rest⟩ := decoded
      rw [ofBytes_eq_check hframe hdecode] at h
      obtain rfl := eq_of_check_eq_ok h
      exact h

/-- The encoding of an image is read as the verdict on it, whatever follows. -/
theorem ofBytes_toBytes (i : Image) (rest : Wire.Bytes) :
    ofBytes (i.toBytes ++ rest) = i.check := by
  have hdecode : decode i.encode = .ok (i, []) := by
    have hwire := decode_encode i []
    rwa [List.append_nil] at hwire
  exact ofBytes_eq_check (Wire.unframe_frame i.encode rest) hdecode

/-- **Decoding undoes encoding.**  The encoding of an image, followed by anything, is read
as the verdict on the image.  An image that was read from some bytes, canonical or not,
passes, and so it is read from its own encoding too. -/
theorem ofBytes_toBytes_append :
    (∀ (i : Image) (rest : Wire.Bytes), ofBytes (i.toBytes ++ rest) = i.check) ∧
      ∀ (bytes : Wire.Bytes) (i : Image), ofBytes bytes = .ok i →
        i.check = .ok i ∧ ofBytes i.toBytes = .ok i := by
  refine ⟨ofBytes_toBytes, ?_⟩
  intro bytes i h
  have hcheck := check_of_ofBytes h
  have hback := ofBytes_toBytes i []
  rw [List.append_nil, hcheck] at hback
  exact ⟨hcheck, hback⟩

/-- The hypothesis is satisfiable by bytes that no image is written as: the version takes
two bytes, and one byte is left over in the frame. -/
theorem ofBytes_toBytes_of_padded :
    ∃ i, ofBytes [2, 0x81, 1, 3, 1, 1, 2, 7, 0] = .ok i ∧
      i.toBytes.length = 7 ∧ ofBytes i.toBytes = .ok i := by
  have hread : ofBytes [2, 0x81, 1, 3, 1, 1, 2, 7, 0] =
      .ok (ofProgram ⟨#[.ret], by decide⟩ 0 1) := rfl
  refine ⟨_, hread, by decide +kernel, ?_⟩
  exact (ofBytes_toBytes_append.2 _ _ hread).2

end Image
end WindowVM
