import Mathlib.Data.List.Perm.Basic
import TrafficGraph.Proofs.Graph.Coverage
import TrafficGraph.Proofs.Graph.Hearing

/-!
# Policies in another order

The policy that comes first makes the node or the link, with its own text and its own
ports.  What does not depend on the order is which nodes there are, their kinds and
policies, which links there are, their policies and all the ports that are shown on
them, and the inferred links as they are.
-/

namespace TrafficGraph

/-- Whether two graphs tell the same apart from the order and from what is left to the
policy that comes first. -/
structure Graph.Agrees (graph other : Graph) : Prop where
  ids : (graph.nodes.map Node.id).Perm (other.nodes.map Node.id)
  nodes : ∀ node ∈ graph.nodes, ∀ twin ∈ other.nodes, node.id = twin.id ->
    node.kind = twin.kind ∧ ∀ name, name ∈ node.policies ↔ name ∈ twin.policies
  ends : (graph.direct.map Link.ends).Perm (other.direct.map Link.ends)
  links : ∀ link ∈ graph.direct, ∀ twin ∈ other.direct, link.ends = twin.ends ->
    link.Covers twin ∧ twin.Covers link ∧ link.detailed = twin.detailed ∧
      link.breakdown.isSome = twin.breakdown.isSome
  inferred : graph.inferred.Perm other.inferred

/-!
# The first pass

Passes over the same policies that skip none of them mention and offer the same, and
for nodes and links the order of it does not matter any more.
-/

namespace Build

variable {deduplicate : Bool} {policies others : List Policy}

theorem SkipsNone.passMentions_perm (h : (ofPolicies deduplicate policies).SkipsNone)
    (hothers : (ofPolicies deduplicate others).SkipsNone) (hperm : policies.Perm others) :
    (passMentions deduplicate policies).Perm (passMentions deduplicate others) := by
  rw [h.passMentions_eq, hothers.passMentions_eq]
  exact hperm.flatMap_right _

theorem SkipsNone.passOffers_perm (h : (ofPolicies deduplicate policies).SkipsNone)
    (hothers : (ofPolicies deduplicate others).SkipsNone) (hperm : policies.Perm others) :
    (passOffers deduplicate policies).Perm (passOffers deduplicate others) := by
  rw [h.passOffers_eq, hothers.passOffers_eq]
  exact hperm.flatMap_right _

theorem ids_perm (h : (passMentions deduplicate policies).Perm (passMentions deduplicate others)) :
    ((ofPolicies deduplicate policies).graph.nodes.map Node.id).Perm
      ((ofPolicies deduplicate others).graph.nodes.map Node.id) := by
  have hids := (gathers_ofPolicies deduplicate policies).ids
  have hothersIds := (gathers_ofPolicies deduplicate others).ids
  show (ofPolicies deduplicate policies).nodes.ids.Perm (ofPolicies deduplicate others).nodes.ids
  rw [hids, hothersIds, deduplicate_nodes_eq deduplicate policies others]
  apply eraseDups_perm
  intro id
  exact (h.map _).mem_iff

theorem node_agrees (h : (passMentions true policies).Perm (passMentions true others))
    {node twin : Node} (hnode : node ∈ (ofPolicies true policies).graph.nodes)
    (htwin : twin ∈ (ofPolicies true others).graph.nodes) (hid : node.id = twin.id) :
    node.kind = twin.kind ∧ ∀ name, name ∈ node.policies ↔ name ∈ twin.policies := by
  have hgathers := gathers_ofPolicies true policies
  have hothers := gathers_ofPolicies true others
  have hmode := deduplicate_nodes_eq true policies others
  constructor
  · exact hgathers.kind_eq hothers (deduplicate_ofPolicies true policies)
      (deduplicate_ofPolicies true others) hnode htwin hid
  · intro name
    constructor
    · intro hname
      exact hgathers.policies_subset hothers hmode h.subset hnode htwin hid hname
    · intro hname
      exact hothers.policies_subset hgathers hmode.symm h.symm.subset htwin hnode hid.symm hname

end Build

/-- Links that merge the same offers are marked both or neither, and have a breakdown both or
neither. -/
theorem MergedFrom.detailed_eq {offers more : List Offer} {link other : Link}
    (h : MergedFrom offers link) (hother : MergedFrom more other)
    (hports : ∀ o ∈ offers, o.ports.WellFormed) (hperm : offers.Perm more) :
    link.detailed = other.detailed ∧ link.breakdown.isSome = other.breakdown.isSome := by
  have hmorePorts : ∀ o ∈ more, o.ports.WellFormed :=
    fun o ho => hports o (hperm.mem_iff.mpr ho)
  have hdetailed : link.detailed = other.detailed := by
    rw [Bool.eq_iff_iff, h.detailed_iff hports, hother.detailed_iff hmorePorts]
    simp only [hperm.mem_iff]
  exact ⟨hdetailed, h.marksBreakdown.symm.trans (hdetailed.trans hother.marksBreakdown)⟩

namespace Build

section Shared

variable {policies others : List Policy}
  (hplain : ∀ p ∈ policies, ':' ∉ p.namespaceName.toList)
  (hothersPlain : ∀ p ∈ others, ':' ∉ p.namespaceName.toList)
  (h : (passOffers true policies).Perm (passOffers true others))

include hplain hothersPlain h

theorem ends_perm :
    ((ofPolicies true policies).graph.links.map Link.ends).Perm
      ((ofPolicies true others).graph.links.map Link.ends) := by
  rw [(links_eq_passOffers hplain).1, (links_eq_passOffers hothersPlain).1]
  apply eraseDups_perm
  intro ends
  exact (h.map _).mem_iff

/-- The links of the same ends have the same policies and show the same ports. -/
theorem link_agrees (hports : ∀ p ∈ policies, p.PortsWellFormed)
    (hothersPorts : ∀ p ∈ others, p.PortsWellFormed) {link twin : Link}
    (hlink : link ∈ (ofPolicies true policies).graph.links)
    (htwin : twin ∈ (ofPolicies true others).graph.links) (hends : link.ends = twin.ends) :
    link.Covers twin ∧ twin.Covers link ∧ link.detailed = twin.detailed ∧
      link.breakdown.isSome = twin.breakdown.isSome := by
  refine ⟨?_, ?_, ?_⟩
  · exact covers_of_passOffers_subset hothersPlain hplain hports h.symm.subset htwin hlink
      hends.symm
  · exact covers_of_passOffers_subset hplain hothersPlain hothersPorts h.subset hlink htwin hends
  · have hmerged := (links_eq_passOffers hplain).2 link hlink
    have htwinMerged := (links_eq_passOffers hothersPlain).2 twin htwin
    apply hmerged.detailed_eq htwinMerged
    · intro o ho
      exact wellFormed_of_mem_passOffers hports (List.mem_filter.mp ho).1
    · rw [hends]
      exact h.filter _

end Shared

end Build

/-!
# The second pass
-/

namespace Policy

theorem inferred?_heard (owner target : Policy) (policies : List Policy) (d : Direction)
    (peer : Rule × Peer) :
    owner.inferred? (target.heard policies) d peer = owner.inferred? target d peer := rfl

def heardAll (policies : List Policy) : List Policy := policies.map fun p => p.heard policies

theorem crossEntries_heardAll (owner : Policy) (policies : List Policy) :
    owner.crossEntries (heardAll policies) = owner.crossEntries policies := by
  unfold crossEntries heardAll
  simp only [List.filterMap_map, Function.comp_def, inferred?_heard]

theorem heardAll_perm {policies others : List Policy} (h : policies.Perm others) :
    (heardAll policies).Perm (heardAll others) := by
  have hheard : ∀ p : Policy, p.heard policies = p.heard others :=
    fun p => p.heard_congr fun _ => h.mem_iff
  unfold heardAll
  simp only [hheard]
  exact h.map _

end Policy

theorem heardEntries_eq (policies : List Policy) :
    heardEntries policies =
      (Policy.heardAll policies).flatMap fun owner =>
        owner.crossEntries (Policy.heardAll policies) := by
  simp only [Policy.crossEntries_heardAll]
  rw [Policy.heardAll, List.flatMap_map, heardEntries]

theorem Policy.dueEntries_perm {policies others : List Policy} (h : policies.Perm others) :
    (dueEntries policies).Perm (dueEntries others) := by
  unfold dueEntries
  apply h.flatMap
  intro owner _
  apply List.Perm.flatMap_left
  intro d _
  exact h.filterMap _

theorem registered_heardEntries_perm {policies : List Policy}
    (hdistinct : policies.Pairwise fun p q => p.sameAs q = false)
    (hplain : ∀ p ∈ policies, p.Plain) :
    ((heardEntries policies).foldl registerEntry []).Perm
      (Policy.dueEntries (Policy.heardAll policies)) := by
  rw [heardEntries_eq]
  apply Policy.registered_perm
  · exact List.pairwise_map.mpr hdistinct
  · intro p hp
    rcases List.mem_map.mp hp with ⟨q, hq, rfl⟩
    exact ⟨(hplain q hq).namespaceName, (hplain q hq).name⟩

/-!
# Both passes
-/

/-- Where no policy is skipped, the graphs of some policies and of the same ones in
another order agree. -/
theorem Graph.compile_agrees_of_perm (policies others : List Policy)
    (hperm : policies.Perm others)
    (hdistinct : policies.Pairwise fun p q => p.sameAs q = false)
    (hplain : ∀ p ∈ policies, p.Plain) (hports : ∀ p ∈ policies, p.PortsWellFormed)
    (hskip : (Build.ofPolicies true policies).SkipsNone)
    (hothersSkip : (Build.ofPolicies true others).SkipsNone) :
    (Graph.compile true policies).Agrees (Graph.compile true others) := by
  have hothersDistinct : others.Pairwise fun p q => p.sameAs q = false :=
    hdistinct.perm hperm fun {p q} hpq => (q.sameAs_comm p).trans hpq
  have hothersPlain : ∀ p ∈ others, p.Plain := fun p hp => hplain p (hperm.mem_iff.mpr hp)
  have hothersPorts : ∀ p ∈ others, p.PortsWellFormed :=
    fun p hp => hports p (hperm.mem_iff.mpr hp)
  have hspaces : ∀ p ∈ policies, ':' ∉ p.namespaceName.toList :=
    fun p hp => (hplain p hp).namespaceName
  have hothersSpaces : ∀ p ∈ others, ':' ∉ p.namespaceName.toList :=
    fun p hp => (hothersPlain p hp).namespaceName
  have hmentions := hskip.passMentions_perm hothersSkip hperm
  have hoffers := hskip.passOffers_perm hothersSkip hperm
  constructor
  · rw [Graph.compile_true_eq, Graph.compile_true_eq]
    exact Build.ids_perm hmentions
  · rw [Graph.compile_true_eq, Graph.compile_true_eq]
    intro node hnode twin htwin
    exact Build.node_agrees hmentions hnode htwin
  · rw [Graph.direct_compile hplain, Graph.direct_compile hothersPlain]
    exact Build.ends_perm hspaces hothersSpaces hoffers
  · rw [Graph.direct_compile hplain, Graph.direct_compile hothersPlain]
    intro link hlink twin htwin
    exact Build.link_agrees hspaces hothersSpaces hoffers hports hothersPorts hlink htwin
  · rw [Graph.inferred_compile hplain, Graph.inferred_compile hothersPlain]
    have hdue := Policy.dueEntries_perm (Policy.heardAll_perm hperm)
    have hregistered := registered_heardEntries_perm hdistinct hplain
    have hothersRegistered := registered_heardEntries_perm hothersDistinct hothersPlain
    exact ((hregistered.trans hdue).trans hothersRegistered.symm).map Prod.snd

theorem plain_shopPolicies : ∀ p ∈ shopPolicies, p.Plain := by
  have htexts : ∀ p ∈ shopPolicies,
      ':' ∉ p.namespaceName.toList ∧ ¬ ['-', '>'] <:+: p.name.toList := by
    decide +kernel
  exact fun p hp => ⟨(htexts p hp).1, (htexts p hp).2⟩

/-- Either policy may come first, and bring its own ports to the link from everybody. -/
theorem compile_agrees_shopPolicies :
    shopPolicies.Perm shopPolicies.reverse ∧
      (shopPolicies.Pairwise fun p q => p.sameAs q = false) ∧
      (∀ p ∈ shopPolicies, p.Plain) ∧ (∀ p ∈ shopPolicies, p.PortsWellFormed) ∧
      (Build.ofPolicies true shopPolicies).SkipsNone ∧
      (Build.ofPolicies true shopPolicies.reverse).SkipsNone ∧
      (Graph.compile true shopPolicies).Agrees (Graph.compile true shopPolicies.reverse) := by
  have hperm : shopPolicies.Perm shopPolicies.reverse := (List.reverse_perm shopPolicies).symm
  have hdistinct : shopPolicies.Pairwise fun p q => p.sameAs q = false := by decide
  have hskip := Build.skipsNone_of_wellFormed wellFormed_shopPolicies true
  have hbackSkip : (Build.ofPolicies true shopPolicies.reverse).SkipsNone := by
    apply Build.skipsNone_of_wellFormed
    intro p hp
    exact wellFormed_shopPolicies p (List.mem_reverse.mp hp)
  exact ⟨hperm, hdistinct, plain_shopPolicies, portsWellFormed_shopPolicies, hskip, hbackSkip,
    Graph.compile_agrees_of_perm shopPolicies shopPolicies.reverse hperm hdistinct
      plain_shopPolicies portsWellFormed_shopPolicies hskip hbackSkip⟩

end TrafficGraph
