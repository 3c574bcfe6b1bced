import TrafficGraph.Policy.Manifest
import TrafficGraph.Proofs.Graph.Range

/-!
# Policies from manifests

Whatever a manifest holds, the policies that are read from it have rules for rules and
peers for peers.  All that can be amiss is a range of addresses: its addresses and exceptions
are taken as they are, but not all addresses can be written, and only exceptions that are texts
can be listed in a description.
-/

namespace TrafficGraph

namespace Manifest

theorem Loading.mem_append {first second : Loading} {p : Policy}
    (h : p ∈ (first.append second).policies) : p ∈ first.policies ∨ p ∈ second.policies := by
  unfold Loading.append at h
  split at h
  · exact Or.inl h
  · exact List.mem_append.mp h

end Manifest
end TrafficGraph
