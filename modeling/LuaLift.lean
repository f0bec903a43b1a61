import LuaLift.Main
import LuaLift.Proofs.Chunk.Culprit
import LuaLift.Proofs.Chunk.RoundTrip
import LuaLift.Proofs.CommandLine
import LuaLift.Proofs.Forest.Height
import LuaLift.Proofs.Forest.Positions
import LuaLift.Proofs.Forest.References
import LuaLift.Proofs.Forest.Relocation
import LuaLift.Proofs.Forest.Simulation
import LuaLift.Proofs.Instruction.Assemble
import LuaLift.Proofs.Layout.Runs
import LuaLift.Proofs.Listing.Faithful
import LuaLift.Proofs.Number.General
import LuaLift.Proofs.Number.Widening
import LuaLift.Proofs.Preamble.Grammar
import LuaLift.Proofs.Source.Capture
import LuaLift.Proofs.Source.Comment
import LuaLift.Proofs.Source.Faults
import LuaLift.Proofs.Source.Grouping
import LuaLift.Proofs.Source.Indentation
import LuaLift.Proofs.Source.Lenient
import LuaLift.Proofs.Source.LiteralValue
import LuaLift.Proofs.Source.Order
import LuaLift.Proofs.Source.ReadBack
import LuaLift.Proofs.Source.References
import LuaLift.Proofs.Source.Supply
