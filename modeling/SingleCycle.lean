import SingleCycle.Core.Watch
import SingleCycle.Main
import SingleCycle.Proofs.AbandonedAttempts
import SingleCycle.Proofs.AcceptedProgram
import SingleCycle.Proofs.Addresses
import SingleCycle.Proofs.AssembledWord
import SingleCycle.Proofs.Codec
import SingleCycle.Proofs.Cutting
import SingleCycle.Proofs.EncodedStatement
import SingleCycle.Proofs.Fetching
import SingleCycle.Proofs.History
import SingleCycle.Proofs.InstructionEffect
import SingleCycle.Proofs.Interleaving
import SingleCycle.Proofs.Interpreter
import SingleCycle.Proofs.Layout
import SingleCycle.Proofs.Loading
import SingleCycle.Proofs.Numerals
import SingleCycle.Proofs.Phases
import SingleCycle.Proofs.Printing
import SingleCycle.Proofs.Reassembly
import SingleCycle.Proofs.Replay
import SingleCycle.Proofs.Selection
import SingleCycle.Proofs.Statements
import SingleCycle.Proofs.Tokens
import SingleCycle.Proofs.UnnamedWords
import SingleCycle.Proofs.WatchedStep
import SingleCycle.Proofs.WholeStep
import SingleCycle.Proofs.HexText
import SingleCycle.Proofs.ProgramForms
import SingleCycle.Proofs.Tracing
import SingleCycle.Proofs.Iteration
import SingleCycle.Proofs.RunEnds
import SingleCycle.Proofs.Pacing
import SingleCycle.Proofs.Budget
import SingleCycle.Proofs.Refusals
import SingleCycle.Proofs.Complaints
import SingleCycle.Proofs.Placement
import SingleCycle.Proofs.Relocation
import SingleCycle.Proofs.ForwardRuns
import SingleCycle.Proofs.Reformatting
import SingleCycle.Proofs.Arithmetic
import SingleCycle.Proofs.MemoryPhase
import SingleCycle.Proofs.StepLog
import SingleCycle.Proofs.DataMemory
import SingleCycle.Proofs.WordReadings
import SingleCycle.Proofs.WordText
import SingleCycle.Proofs.TokenGrammar
import SingleCycle.Proofs.MemoryOperands
import SingleCycle.Proofs.MemoryView
