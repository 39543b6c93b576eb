import JoinAssembly.JoinTree.StreamEntry
import JoinAssembly.JoinTree.Outline
import JoinAssembly.EventRef
import JoinAssembly.MatchSets.Fill
import JoinAssembly.Partitions
import JoinAssembly.Text.Quoted
import JoinAssembly.Main
import JoinAssembly.Proofs.JoinTree.Walks
import JoinAssembly.Proofs.JoinTree.Reached
import JoinAssembly.Proofs.JoinTree.Sound
import JoinAssembly.Proofs.JoinTree.Below
import JoinAssembly.Proofs.Assembler.Sweep
import JoinAssembly.Proofs.Assembler.Reachable
import JoinAssembly.Proofs.Assembler.Emitted
import JoinAssembly.Proofs.JoinNode.Combine
import JoinAssembly.Proofs.Join.Entries
import JoinAssembly.Proofs.Join.Nested
import JoinAssembly.Proofs.Join.Distinct
import JoinAssembly.Proofs.MatchSets.Filled
import JoinAssembly.Proofs.JoinNode.Passing
import JoinAssembly.Proofs.JoinNode.Gathering
import JoinAssembly.Proofs.Join.Faults
import JoinAssembly.Proofs.Join.Sends
import JoinAssembly.Proofs.Join.Emissions
import JoinAssembly.Proofs.Assembler.Answers
import JoinAssembly.Proofs.Assembler.Options
import JoinAssembly.Proofs.Assembler.History
import JoinAssembly.Proofs.Join.Lookups
import JoinAssembly.Proofs.Assembler.Lookups
import JoinAssembly.Proofs.Assembler.Relaxed
import JoinAssembly.Proofs.Partitions
import JoinAssembly.Proofs.Scenario.Resolved
import JoinAssembly.Proofs.Scenario.Runs
import JoinAssembly.Proofs.MatchSets.Renamed
import JoinAssembly.Proofs.Join.Renamed
import JoinAssembly.Proofs.Scenario.Named
import JoinAssembly.Proofs.Scenario.Lines
import JoinAssembly.Proofs.FirstFault
import JoinAssembly.Proofs.JoinTree.Calls
import JoinAssembly.Proofs.JoinTree.Placements
import JoinAssembly.Proofs.JoinTree.Rooted
import JoinAssembly.Proofs.JoinTree.ByName
import JoinAssembly.Proofs.JoinNode.Reordered
import JoinAssembly.Proofs.JoinTree.Renumbered
import JoinAssembly.Proofs.Join.Renumbered
import JoinAssembly.Proofs.Assembler.Renumbered
import JoinAssembly.Proofs.JoinNode.Renamed
import JoinAssembly.Proofs.Assembler.Renamed
import JoinAssembly.Proofs.Scenario.Events
import JoinAssembly.Proofs.JoinTree.Orders
import JoinAssembly.Proofs.Assembler.Trace
import JoinAssembly.Proofs.Assembler.Calls
import JoinAssembly.Proofs.Join.Shaped
import JoinAssembly.Proofs.Assembler.Shaped
import JoinAssembly.Proofs.MatchSets.Asked
import JoinAssembly.Proofs.JoinNode.Offered
import JoinAssembly.Proofs.JoinNode.Choices
import JoinAssembly.Proofs.Join.Offered
import JoinAssembly.Proofs.Scenario.AsWritten
import JoinAssembly.Proofs.Assembler.AnyOrder
import JoinAssembly.Proofs.JoinTree.Cycles
import JoinAssembly.Proofs.JoinTree.CallOrder
import JoinAssembly.Proofs.MatchSets.Added
import JoinAssembly.Proofs.MatchSets.InUse
import JoinAssembly.Proofs.Results
import JoinAssembly.Proofs.Document.Spelling
import JoinAssembly.Proofs.Document.Fields
import JoinAssembly.Proofs.Document.Codec
import JoinAssembly.Proofs.Document.Dialect
import JoinAssembly.Proofs.Scenario.Codec
import JoinAssembly.Proofs.RowWrites
import JoinAssembly.Proofs.Assembler.Outlined
import JoinAssembly.Proofs.JoinTree.WalkEnds
import JoinAssembly.Proofs.Assembler.Upward
