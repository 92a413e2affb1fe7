import FlowCheck.Analysis.Counting
import FlowCheck.Folder
import FlowCheck.Graph.Assembly
import FlowCheck.Proofs.Graphs
import FlowCheck.Proofs.Stores
import FlowCheck.Proofs.Order
import FlowCheck.Proofs.Sweeps
import FlowCheck.Proofs.Runs
import FlowCheck.Proofs.FixedPoint
import FlowCheck.Proofs.Contracts
import FlowCheck.Proofs.Liveness
import FlowCheck.Proofs.Effects
import FlowCheck.Proofs.Misuses
import FlowCheck.Proofs.Settling
import FlowCheck.Proofs.Convergence
import FlowCheck.Proofs.Verdicts
import FlowCheck.Proofs.Widening
import FlowCheck.Proofs.Paths
import FlowCheck.Proofs.OnePass
import FlowCheck.Proofs.Accounts
import FlowCheck.Proofs.Equality
import FlowCheck.Proofs.FieldValues
import FlowCheck.Proofs.Agreement
import FlowCheck.Proofs.WellFormed
import FlowCheck.Proofs.Interference
import FlowCheck.Proofs.Printing
import FlowCheck.Proofs.Forms
import FlowCheck.Proofs.Documents
import FlowCheck.Proofs.Truncation
import FlowCheck.Proofs.Delay
import FlowCheck.Proofs.Unreached
import FlowCheck.Proofs.DeclarationOrder
import FlowCheck.Proofs.DepthFirst
import FlowCheck.Proofs.Pointwise
import FlowCheck.Proofs.Lattices
import FlowCheck.Proofs.Heights
import FlowCheck.Proofs.Promises
import FlowCheck.Proofs.Assumptions
import FlowCheck.Proofs.Assemblies
import FlowCheck.Proofs.Consecutive
import FlowCheck.Proofs.Climbing
import FlowCheck.Proofs.Readers
