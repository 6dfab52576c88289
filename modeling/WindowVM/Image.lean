/-
# Program images

A program with its entry point and the size of its root window, as it is stored and
sent.  The bytes of an image are its version, entry, root size and program in wire
form, stuffed and ended by a zero, so that images can follow one another in a stream.

Only images that can run are read back: `Image.flaw?` names what is wrong with the
others, the first of several flaws in the order version, program, root window, entry.
-/

import WindowVM.Machine.Run
import WindowVM.Wire.Record
import WindowVM.Wire.Stuffing

namespace WindowVM

/-- A program ready to be stored. -/
structure Image where
  version : UInt16
  /-- The index of the first instruction. -/
  entry : Word
  /-- The registers of the root frame. -/
  rootSize : Word
  program : Program
  deriving DecidableEq

/-- Why there is no image. -/
inductive ImageError where
  /-- An image without an encoding.  There is none: `Image.toBytes` is total. -/
  | encode
  /-- The bytes are not the encoding of an image. -/
  | malformed
  | unsupportedVersion (version : UInt16)
  | emptyProgram
  | emptyRootWindow
  | entryOutOfRange (entry len : Nat)
  deriving DecidableEq, Repr

/-- The text an image error is reported with. -/
def ImageError.message : ImageError → String
  | .encode => "the program image could not be encoded"
  | .malformed => "the program image is malformed"
  | .unsupportedVersion version => s!"program image version {version.toNat} is not supported"
  | .emptyProgram => "the program image has no instructions"
  | .emptyRootWindow => "the program image has an empty root window"
  | .entryOutOfRange entry len =>
    s!"entry pc {entry} is past the end of a {len} instruction image"

namespace Image

/-- The version of the images that are written and read. -/
def currentVersion : UInt16 := 1

/-- The image of a program. -/
def ofProgram (p : Program) (entry rootSize : Word) : Image :=
  { version := currentVersion, entry, rootSize, program := p }

/-- Why an image cannot run, if it cannot. -/
def flaw? (i : Image) : Option ImageError :=
  if i.version ≠ currentVersion then some (.unsupportedVersion i.version)
  else if i.program.size = 0 then some .emptyProgram
  else if i.rootSize = 0 then some .emptyRootWindow
  else if i.program.size ≤ i.entry.toNat then
    some (.entryOutOfRange i.entry.toNat i.program.size)
  else none

/-- The wire form of an image, without the framing. -/
def encode (i : Image) : Wire.Bytes :=
  Wire.Varint.encode i.version.toNat ++ Wire.encodeWord i.entry ++ Wire.encodeWord i.rootSize ++
    Wire.encodeProgram i.program

/-- The image at the front of some bytes. -/
def decode : Wire.Decoder Image := do
  let version ← Wire.Varint.decode 16
  let entry ← Wire.decodeWord
  let rootSize ← Wire.decodeWord
  let program ← Wire.decodeProgram
  return { version := UInt16.ofNat version, entry, rootSize, program }

/-- The wire form of an image reads back, whatever follows it. -/
theorem decode_encode (i : Image) (rest : Wire.Bytes) :
    decode (encode i ++ rest) = .ok (i, rest) := by
  rw [decode, encode, List.append_assoc, List.append_assoc, List.append_assoc,
    Wire.bind_of_ok (Wire.Varint.decode_encode i.version.toNat_lt _), Wire.decodeWord_bind,
    Wire.decodeWord_bind, Wire.bind_of_ok (Wire.decodeProgram_encodeProgram _ _)]
  simp only [UInt16.ofNat_toNat]
  rfl

/-- The bytes of an image. -/
def toBytes (i : Image) : Wire.Bytes := Wire.frame i.encode

/-- The image that some bytes hold.  What follows its wire form within the frame, and
what follows the frame, is ignored. -/
def ofBytes (bytes : Wire.Bytes) : Except ImageError Image :=
  match (Wire.unframe bytes).map decode with
  | some (.ok (i, _)) =>
    match i.flaw? with
    | none => .ok i
    | some flaw => .error flaw
  | _ => .error .malformed

/-- Executes an image on a new machine. -/
def run (i : Image) (c : Config) : Except Stop Word :=
  match Machine.ofConfig i.program c with
  | .ok m => (m.execute i.entry.toNat i.rootSize.toNat).1
  | .error cause => .error (.exhausted cause)

end Image
end WindowVM
