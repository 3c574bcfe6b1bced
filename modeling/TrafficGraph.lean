import TrafficGraph.Number.Binary64
import TrafficGraph.Main
import TrafficGraph.Proofs.Graph.Identity
import TrafficGraph.Proofs.Graph.Book
import TrafficGraph.Proofs.Graph.Offer
import TrafficGraph.Proofs.Graph.Deed
import TrafficGraph.Proofs.Graph.Contribution
import TrafficGraph.Proofs.Graph.Integrity
import TrafficGraph.Proofs.Graph.Separation
import TrafficGraph.Proofs.Graph.CrossPolicy
import TrafficGraph.Proofs.Graph.Completion
import TrafficGraph.Proofs.Value.Sameness
import TrafficGraph.Proofs.Graph.Breakdown
import TrafficGraph.Proofs.Graph.Hearing
import TrafficGraph.Proofs.Graph.Absorption
import TrafficGraph.Proofs.Graph.Merging
import TrafficGraph.Proofs.Graph.Calls
import TrafficGraph.Proofs.Graph.Coverage
import TrafficGraph.Proofs.Graph.Reordering
import TrafficGraph.Proofs.Graph.Isolation
import TrafficGraph.Proofs.Graph.Quotient
import TrafficGraph.Proofs.Graph.Mirror
import TrafficGraph.Proofs.Graph.Symmetry
import TrafficGraph.Proofs.Graph.FirstReference
import TrafficGraph.Proofs.Graph.Range
import TrafficGraph.Proofs.Policy.Loading
import TrafficGraph.Proofs.Policy.Widening
import TrafficGraph.Proofs.Policy.Refusal
import TrafficGraph.Proofs.Json.Spelling
import TrafficGraph.Proofs.Selector.Equivalence
import TrafficGraph.Proofs.Selector.Canonicity
import TrafficGraph.Proofs.Graph.SharedDescription
import TrafficGraph.Proofs.Graph.DetailedPorts
import TrafficGraph.Proofs.Policy.RoundTrip
import TrafficGraph.Proofs.Policy.Joining
import TrafficGraph.Proofs.Policy.LineEnds
import TrafficGraph.Proofs.Graph.Narrowing
import TrafficGraph.Proofs.Graph.Relinking
import TrafficGraph.Proofs.Graph.Batches
import TrafficGraph.Proofs.Policy.Trimming
import TrafficGraph.Proofs.Graph.LinkIdentity
import TrafficGraph.Proofs.Graph.EmptyEntries
import TrafficGraph.Proofs.Graph.NodeHistory
import TrafficGraph.Proofs.Graph.Copies
import TrafficGraph.Proofs.Selector.Preorder
