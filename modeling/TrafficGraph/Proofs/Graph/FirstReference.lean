import TrafficGraph.Proofs.Graph.Coverage
import TrafficGraph.Proofs.Graph.CrossPolicy

/-!
# The first reference to an endpoint

A policy refers to its own pods, and then, for each direction and each rule, to the
endpoints of the rule.  Where policies share nodes and none is skipped, there is a node
for each reference, and it shows the first reference to its endpoint, whichever policy
that is from.
-/

namespace TrafficGraph

/-!
# References of policies
-/

namespace Policy

def entryEndpoints (policy : Policy) (d : Direction) : RuleEntry → List Reference
  | .rule rule => policy.endpoints d rule
  | .absent => []
  | .malformed => []

/-- What a policy refers to: its own pods, then ingress before egress, and rule by
rule. -/
def references (policy : Policy) : List Reference :=
  policy.podReference ::
    Direction.all.flatMap fun d => ((policy.rules d).getD []).flatMap (policy.entryEndpoints d)

theorem references_ruleSteps (policy : Policy) (d : Direction) (ruleIndex : Nat)
    (entry : RuleEntry) :
    (policy.ruleSteps d ruleIndex entry).filterMap Step.reference? =
      policy.entryEndpoints d entry := by
  cases entry with
  | absent => rfl
  | malformed => rfl
  | rule rule =>
      have hrefer : ∀ peers : List PeerEntry,
          (peers.map (policy.referStep d)).filterMap Step.reference? =
            peers.filterMap (PeerEntry.reference? policy.namespaceName) := by
        intro peers
        rw [List.filterMap_map]
        exact List.filterMap_congr fun peer _ => policy.reference?_referStep d peer
      have hconnect : ∀ peers : List PeerEntry,
          (peers.filterMap (policy.connectStep? d rule.ports.orAll ruleIndex)).filterMap
            Step.reference? = [] := by
        intro peers
        rw [List.filterMap_eq_nil_iff]
        intro s hs
        rcases List.mem_filterMap.mp hs with ⟨peer, _, hpeer⟩
        rcases Option.map_eq_some_iff.mp hpeer with ⟨r, _, rfl⟩
        rfl
      rw [ruleSteps, entryEndpoints, endpoints]
      split
      · rfl
      · rw [List.filterMap_append, hrefer, hconnect, List.append_nil]

theorem references_rulesSteps (policy : Policy) (d : Direction) (ruleIndex : Nat)
    (entries : List RuleEntry) :
    (policy.rulesSteps d ruleIndex entries).filterMap Step.reference? =
      entries.flatMap (policy.entryEndpoints d) := by
  induction entries generalizing ruleIndex with
  | nil => rfl
  | cons entry rest ih =>
      rw [rulesSteps, List.filterMap_append, references_ruleSteps, ih, List.flatMap_cons]

theorem references_steps (policy : Policy) :
    policy.steps.filterMap Step.reference? = policy.references := by
  have hown : Step.reference? (.refer policy.podReference none) = some policy.podReference := rfl
  rw [steps, List.filterMap_cons_some hown, references, List.filterMap_flatMap]
  congr 1
  apply List.flatMap_congr
  intro d _
  exact policy.references_rulesSteps d 0 _

theorem map_reference_mentions (policy : Policy) :
    policy.mentions.map Mention.reference = policy.references := by
  rw [← references_steps, mentions, Deed.mentions, List.map_filterMap]
  apply List.filterMap_congr
  intro s _
  cases s <;> rfl

theorem mem_references {policy : Policy} {r : Reference} :
    r ∈ policy.references ↔
      r = policy.podReference ∨
        ∃ d, ∃ rule, .rule rule ∈ (policy.rules d).getD [] ∧ r ∈ policy.endpoints d rule := by
  rw [references, List.mem_cons, List.mem_flatMap]
  simp only [Direction.mem_all, true_and, List.mem_flatMap]
  refine or_congr_right (exists_congr fun d => ?_)
  constructor
  · rintro ⟨entry, hentry, hr⟩
    cases entry with
    | rule rule => exact ⟨rule, hentry, hr⟩
    | absent => cases hr
    | malformed => cases hr
  · rintro ⟨rule, hrule, hr⟩
    exact ⟨.rule rule, hrule, hr⟩

theorem exists_peer_of_mem_endpoints {policy : Policy} {d : Direction} {rule : Rule}
    {r : Reference} (h : r ∈ policy.endpoints d rule) :
    r = .anywhere policy.namespaceName d ∨
      ∃ p, .peer p ∈ rule.peers ∧ p.reference? policy.namespaceName = some r ∧
        r.isWritable = true := by
  unfold endpoints at h
  split at h
  · exact Or.inl (List.mem_singleton.mp h)
  · rcases List.mem_filterMap.mp h with ⟨entry, hentry, hr⟩
    rcases PeerEntry.reference?_eq_some_iff.mp hr with ⟨p, rfl, hp, hwritable⟩
    exact Or.inr ⟨p, hentry, hp, hwritable⟩

theorem mem_endpoints_of_peer {policy : Policy} (d : Direction) {rule : Rule} {p : Peer}
    (hp : .peer p ∈ rule.peers) {r : Reference}
    (hr : p.reference? policy.namespaceName = some r) (hwritable : r.isWritable = true) :
    r ∈ policy.endpoints d rule := by
  have hne : rule.peers.isEmpty = false :=
    List.isEmpty_eq_false_iff.mpr (List.ne_nil_of_mem hp)
  unfold endpoints
  rw [hne]
  exact List.mem_filterMap.mpr
    ⟨.peer p, hp, PeerEntry.reference?_eq_some_iff.mpr ⟨p, rfl, hr, hwritable⟩⟩

end Policy

/-!
# Nodes and their first references
-/

namespace Build.SkipsNone

variable {policies : List Policy} (h : (ofPolicies true policies).SkipsNone)

include h

/-- The node of an endpoint shows the first reference to it. -/
theorem exists_first_reference {node : Node}
    (hnode : node ∈ (ofPolicies true policies).graph.nodes) :
    (policies.flatMap Policy.references).find? (fun r => r.sharedId == node.id) =
        some node.reference ∧
      node.reference.body = .ok node.body := by
  have hgathers := h.gathers
  have hmode : (ofPolicies true policies).nodes.deduplicate = true :=
    deduplicate_ofPolicies true policies
  rcases hgathers.gathered node hnode with ⟨first, rest, hfilter, hbody, hreference, _, _⟩
  have hreferences : policies.flatMap Policy.references =
      (policies.flatMap Policy.mentions).map Mention.reference := by
    rw [List.map_flatMap]
    simp only [Policy.map_reference_mentions]
  rw [hmode] at hfilter
  have hfirst : ((policies.flatMap Policy.mentions).find? fun m => m.id true == node.id) =
      some first := by
    rw [← List.head?_filter, hfilter, List.head?_cons]
  constructor
  · rw [hreferences, List.find?_map, hreference]
    simp only [Mention.id, Reference.id_shared] at hfirst
    simp only [Function.comp_def, hfirst, Option.map_some]
  · rw [hreference, hbody]

theorem exists_node_of_mem_references {p : Policy} (hp : p ∈ policies) {r : Reference}
    (hr : r ∈ p.references) : ∃ node ∈ (ofPolicies true policies).graph.nodes,
      node.id = r.sharedId := by
  have hmode : (ofPolicies true policies).nodes.deduplicate = true :=
    deduplicate_ofPolicies true policies
  rw [← p.map_reference_mentions] at hr
  rcases List.mem_map.mp hr with ⟨m, hm, rfl⟩
  have hid : m.reference.sharedId ∈ (ofPolicies true policies).nodes.ids := by
    rw [h.gathers.mem_ids]
    refine ⟨m, List.mem_flatMap.mpr ⟨p, hp, hm⟩, ?_⟩
    rw [hmode, Mention.id, Reference.id_shared]
  rcases List.mem_map.mp hid with ⟨node, hnode, heq⟩
  exact ⟨node, hnode, heq⟩

end Build.SkipsNone
end TrafficGraph
