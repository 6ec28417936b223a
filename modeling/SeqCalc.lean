import SeqCalc.Main
import SeqCalc.Program.Draft
import SeqCalc.Proofs.Typing.Exactness
import SeqCalc.Proofs.Program.Trees
import SeqCalc.Proofs.Typing.Visits
import SeqCalc.Proofs.Code.Typing
import SeqCalc.Proofs.Code.Lowering
import SeqCalc.Proofs.Execution.Preparation
import SeqCalc.Proofs.Execution.Soundness
import SeqCalc.Proofs.Code.Simulation
import SeqCalc.Proofs.Code.Agreement
import SeqCalc.Proofs.Execution.Agreement
import SeqCalc.Proofs.Semantics.ByName
import SeqCalc.Proofs.Semantics.Correctness
import SeqCalc.Proofs.Value.Traversal
import SeqCalc.Proofs.Program.Validity
import SeqCalc.Proofs.Program.Unfolding
import SeqCalc.Proofs.Typing.Walk
import SeqCalc.Proofs.Code.Walk
import SeqCalc.Proofs.Execution.Acceptance
import SeqCalc.Proofs.Typing.Layout
import SeqCalc.Proofs.Execution.Layout
import SeqCalc.Proofs.Execution.Printing
import SeqCalc.Proofs.Json.Reading
import SeqCalc.Proofs.Program.Interchange
import SeqCalc.Proofs.Execution.Atomicity
import SeqCalc.Proofs.Execution.Isolation
import SeqCalc.Proofs.Execution.Stages
import SeqCalc.Proofs.Execution.Ledger
import SeqCalc.Proofs.Execution.Service
import SeqCalc.Proofs.Diagnostic.Frames
import SeqCalc.Proofs.Diagnostic.Transcript
import SeqCalc.Proofs.Diagnostic.Accounting
import SeqCalc.Proofs.Code.Outcomes
import SeqCalc.Proofs.Execution.Modes
import SeqCalc.Proofs.Program.Renaming
import SeqCalc.Proofs.Typing.Renaming
import SeqCalc.Proofs.Execution.Renaming
import SeqCalc.Proofs.Execution.Inlining
import SeqCalc.Proofs.Value.Power
import SeqCalc.Proofs.Value.Ranges
import SeqCalc.Proofs.Typing.Unknown
import SeqCalc.Proofs.Execution.Exchange
import SeqCalc.Proofs.Value.Text
import SeqCalc.Proofs.Program.Interning
import SeqCalc.Proofs.Program.Drafting
import SeqCalc.Proofs.Execution.Inputs
import SeqCalc.Proofs.Command.Options
import SeqCalc.Proofs.Typing.Footprint
