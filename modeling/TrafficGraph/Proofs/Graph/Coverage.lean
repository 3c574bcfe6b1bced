import TrafficGraph.Proofs.Graph.Breakdown
import TrafficGraph.Proofs.Graph.Completion

/-!
# What nodes and links tell of a pass

The kind of a node is told by its identity, and its policies are those that mention
it.  A link has the names of all policies that offer traffic between its ends, and it
shows all of their ports.  Hence more mentions and offers lead to nodes and links
that tell at least as much, whatever the order in which they come up.
-/

namespace TrafficGraph

/-!
# Nodes
-/

namespace NodeStore.Gathers

variable {store : NodeStore} {mentions : List Mention}

theorem mem_ids (h : store.Gathers mentions) {id : String} :
    id ∈ store.ids ↔ ∃ m ∈ mentions, m.id store.deduplicate = id := by
  rw [h.ids, List.mem_eraseDups, List.mem_map]

theorem mem_policies (h : store.Gathers mentions) {node : Node} (hnode : node ∈ store.nodes)
    (name : String) :
    name ∈ node.policies ↔
      ∃ m ∈ mentions, m.id store.deduplicate = node.id ∧ m.policy = name := by
  rcases h.gathered node hnode with ⟨_, _, _, _, _, _, hpolicies⟩
  rw [hpolicies, List.mem_eraseDups, List.mem_map]
  simp only [List.mem_filter, beq_iff_eq, and_assoc]

theorem sharedId_reference (h : store.Gathers mentions) (hshared : store.deduplicate = true)
    {node : Node} (hnode : node ∈ store.nodes) : node.reference.sharedId = node.id := by
  rcases h.gathered node hnode with ⟨first, rest, hfilter, _, hreference, _, _⟩
  have hfirst : first ∈ mentions.filter fun m => m.id store.deduplicate == node.id := by
    rw [hfilter]
    exact List.mem_cons_self
  have hid : first.reference.id store.deduplicate first.policy = node.id :=
    eq_of_beq (List.mem_filter.mp hfirst).2
  rw [hshared, Reference.id_shared] at hid
  rw [hreference, hid]

end NodeStore.Gathers

theorem Reference.kind_eq_of_sharedId_eq {r s : Reference} (h : r.sharedId = s.sharedId) :
    r.kind = s.kind := by
  have happend : r.sharedId.toList ++ [] = s.sharedId.toList ++ [] := by rw [h]
  exact (kind_eq_of_append_eq happend).1

theorem NodeStore.Gathers.kind_eq {store other : NodeStore} {mentions more : List Mention}
    (h : store.Gathers mentions) (hother : other.Gathers more)
    (hshared : store.deduplicate = true) (hotherShared : other.deduplicate = true)
    {node twin : Node} (hnode : node ∈ store.nodes) (htwin : twin ∈ other.nodes)
    (hid : node.id = twin.id) : node.kind = twin.kind := by
  apply Reference.kind_eq_of_sharedId_eq
  rw [h.sharedId_reference hshared hnode, hother.sharedId_reference hotherShared htwin, hid]

theorem NodeStore.Gathers.policies_subset {store other : NodeStore}
    {mentions more : List Mention} (h : store.Gathers mentions) (hother : other.Gathers more)
    (hmode : store.deduplicate = other.deduplicate) (hsub : mentions ⊆ more)
    {node twin : Node} (hnode : node ∈ store.nodes) (htwin : twin ∈ other.nodes)
    (hid : node.id = twin.id) : node.policies ⊆ twin.policies := by
  intro name hname
  rcases (h.mem_policies hnode name).mp hname with ⟨m, hm, hmid, hpolicy⟩
  apply (hother.mem_policies htwin name).mpr
  exact ⟨m, hsub hm, by rw [← hmode, hmid, hid], hpolicy⟩

/-!
# Links
-/

/-- Whether a link has all policies that another one has, and shows all ports that
the other one shows. -/
structure Link.Covers (link other : Link) : Prop where
  policies : other.policies ⊆ link.policies
  ports : ∀ ports ∈ other.shownPorts, ∃ shown ∈ link.shownPorts, shown.same ports = true

theorem MergedFrom.covers {offers more : List Offer} {link other : Link}
    (h : MergedFrom offers link) (hother : MergedFrom more other)
    (hports : ∀ o ∈ more, o.ports.WellFormed) (hsub : offers ⊆ more) : other.Covers link := by
  constructor
  · intro name hname
    rcases (h.mem_policies name).mp hname with ⟨o, ho, hpolicy⟩
    exact (hother.mem_policies name).mpr ⟨o, hsub ho, hpolicy⟩
  · intro ports hshown
    rcases h.mem_shownPorts hshown with ⟨o, ho, rfl⟩
    exact hother.exists_shownPorts hports (hsub ho)

namespace Build

theorem wellFormed_of_mem_passOffers {policies : List Policy}
    (hports : ∀ p ∈ policies, p.PortsWellFormed) {deduplicate : Bool} {o : Offer}
    (ho : o ∈ passOffers deduplicate policies) : o.ports.WellFormed := by
  rcases List.mem_flatMap.mp ho with ⟨deed, hdeed, hmem⟩
  exact (hports deed.policy (exists_build_of_mem_deeds hdeed).1).of_mem_contributions
    (Deed.mem_contributions_of_mem_offers hdeed hmem)

section Shared

variable {policies : List Policy} (hplain : ∀ p ∈ policies, ':' ∉ p.namespaceName.toList)

include hplain

/-- The links of a pass that shares them: one for each two ends and each direction
between which something is offered, and in each all that is offered there. -/
theorem links_eq_passOffers :
    (ofPolicies true policies).graph.links.map Link.ends =
        ((passOffers true policies).map Offer.ends).eraseDups ∧
      ∀ link ∈ (ofPolicies true policies).graph.links,
        MergedFrom ((passOffers true policies).filter fun o => o.ends == link.ends) link := by
  have htells : TellsEnds (passOffers true policies) := by
    apply tellsEnds_of_plain
    intro o ho
    rcases List.mem_flatMap.mp ho with ⟨deed, hdeed, hmem⟩
    exact endsAtPods_of_mem_passDeeds hplain hdeed hmem
  rcases exists_collects_addOffers (passOffers true policies) with ⟨entries, hlists, hcollects⟩
  have hlinks : (ofPolicies true policies).graph.links = entries.map Prod.snd := by
    rw [← hlists.links_eq, passOffers, ← links_ofPolicies]
    rfl
  rw [hlinks]
  constructor
  · rw [List.map_map]
    exact hcollects.map_ends htells
  · intro link hlink
    rcases List.mem_map.mp hlink with ⟨entry, hentry, rfl⟩
    exact hcollects.mergedFrom_ends htells hentry

end Shared

theorem covers_of_passOffers_subset {policies more : List Policy}
    (hplain : ∀ p ∈ policies, ':' ∉ p.namespaceName.toList)
    (hmorePlain : ∀ p ∈ more, ':' ∉ p.namespaceName.toList)
    (hports : ∀ p ∈ more, p.PortsWellFormed)
    (hsub : passOffers true policies ⊆ passOffers true more) {link other : Link}
    (hlink : link ∈ (ofPolicies true policies).graph.links)
    (hother : other ∈ (ofPolicies true more).graph.links) (hends : link.ends = other.ends) :
    other.Covers link := by
  have hmerged := (links_eq_passOffers hplain).2 link hlink
  have hotherMerged := (links_eq_passOffers hmorePlain).2 other hother
  apply hmerged.covers hotherMerged
  · intro o ho
    exact wellFormed_of_mem_passOffers hports (List.mem_filter.mp ho).1
  · intro o ho
    rcases List.mem_filter.mp ho with ⟨hmem, heq⟩
    exact List.mem_filter.mpr ⟨hsub hmem, hends ▸ heq⟩

end Build
end TrafficGraph
