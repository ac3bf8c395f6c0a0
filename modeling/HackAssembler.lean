import HackAssembler.Main
import HackAssembler.Program.Step
import HackAssembler.Session.Call
import HackAssembler.Proofs.Literal
import HackAssembler.Proofs.Location
import HackAssembler.Proofs.History
import HackAssembler.Proofs.Machine.Compute
import HackAssembler.Proofs.Canonical.Program
import HackAssembler.Proofs.Renaming.Program
import HackAssembler.Proofs.StrictLabels
import HackAssembler.Proofs.DataMemory
import HackAssembler.Proofs.Instruction.Grammar
import HackAssembler.Proofs.Files.Refusal
import HackAssembler.Proofs.CommandLine.Refusals
import HackAssembler.Proofs.Source.Recleaning
import HackAssembler.Proofs.Source.Layout
import HackAssembler.Proofs.Source.Origin
import HackAssembler.Proofs.CommandLine.Channels
import HackAssembler.Proofs.Symbol.Binding
import HackAssembler.Proofs.Encoding.State
import HackAssembler.Proofs.Encoding.Repetition
import HackAssembler.Proofs.Encoding.Shape
import HackAssembler.Proofs.Source.Numbering
import HackAssembler.Proofs.Encoding.Numbers
import HackAssembler.Proofs.Suffix
import HackAssembler.Proofs.Output.Symbols
