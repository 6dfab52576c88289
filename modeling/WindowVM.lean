import WindowVM.Stop
import WindowVM.Instruction
import WindowVM.Config
import WindowVM.RegisterFile
import WindowVM.CallStack
import WindowVM.Stats
import WindowVM.Machine.Basic
import WindowVM.Machine.Run
import WindowVM.Wire.Varint
import WindowVM.Wire.Stuffing
import WindowVM.Wire.Record
import WindowVM.Image
import WindowVM.Document
import WindowVM.Text.Blank
import WindowVM.Text.Graphic
import WindowVM.Text.Quoted
import WindowVM.Number.Binary64
import WindowVM.Number.Shortest
import WindowVM.Token.Basic
import WindowVM.Token.Lexeme
import WindowVM.Token.Tokenizer
import WindowVM.Token.Cursor
import WindowVM.Proofs.Arena
import WindowVM.Proofs.Growth
import WindowVM.Proofs.Operands
import WindowVM.Proofs.Memory
import WindowVM.Proofs.Nesting
import WindowVM.Proofs.Transition
import WindowVM.Proofs.Lifecycle
import WindowVM.Proofs.FrameChain
import WindowVM.Proofs.Faults
import WindowVM.Proofs.Counters
import WindowVM.Proofs.RunLength
import WindowVM.Proofs.Evaluator
import WindowVM.Proofs.Refinement
import WindowVM.Proofs.Lockstep
import WindowVM.Proofs.Phases
import WindowVM.Proofs.ImageCodec
import WindowVM.Proofs.ImageStream
import WindowVM.Proofs.Decoding
import WindowVM.Proofs.Truncation
import WindowVM.Proofs.EntryPoint
import WindowVM.Proofs.Rounding
import WindowVM.Proofs.Spelling
import WindowVM.Proofs.Grammar
import WindowVM.Proofs.Misreading
import WindowVM.Proofs.Coverage
import WindowVM.Proofs.FrameList
import WindowVM.Proofs.Segments
import WindowVM.Proofs.Isolation
import WindowVM.Proofs.Relocation
import WindowVM.Proofs.Activations
import WindowVM.Proofs.History
import WindowVM.Proofs.Records
import WindowVM.Proofs.Parting
import WindowVM.Proofs.FrameLimit
import WindowVM.Proofs.RegisterLimit
import WindowVM.Proofs.Brackets
import WindowVM.Proofs.Capacity
import WindowVM.Proofs.Checked
import WindowVM.Proofs.Tally
import WindowVM.Proofs.Boundary
import WindowVM.Proofs.DecimalRange
import WindowVM.Proofs.Printing
import WindowVM.Proofs.Delimiting
import WindowVM.Proofs.Slots
import WindowVM.Proofs.Listing
import WindowVM.Proofs.Offsets
