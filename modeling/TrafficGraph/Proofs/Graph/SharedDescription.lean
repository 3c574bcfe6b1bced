import TrafficGraph.Proofs.Graph.Range
import TrafficGraph.Proofs.Selector.Equivalence

/-!
# What shared nodes show

A shared node shows what was said about its endpoint first, and its identity is all that
later references are compared with.  The identity holds the selectors of a peer, up to
their order, so such a node shows what every rule says that uses it.  Of a range it holds
the addresses alone: the exceptions that are shown are those of the first range with the
same addresses.
-/

namespace TrafficGraph

/-!
# Peers and descriptions
-/

def Peer.Selects (peer : Peer) : Prop :=
  peer.podSelector.isSome ∨ peer.namespaceSelector.isSome ∨ peer.ipBlock.isSome

/-- Whether details tell what a peer of a rule in a namespace says: its selectors up to
order, or its addresses, with the exceptions of the first of some ranges with the same
addresses. -/
def Peer.ToldBy (peer : Peer) (ns : String) (ranges : List IPBlock) (details : Value) : Prop :=
  match peer.podSelector, peer.namespaceSelector, peer.ipBlock with
  | some pods, some spaces, _ =>
    ∃ s t : Selector, s.Equivalent spaces ∧ t.Equivalent pods ∧
      details = .record [("namespace", s.toValue), ("pod", t.toValue)]
  | none, some spaces, _ =>
    ∃ (ms : String) (s : Selector), s.Equivalent spaces ∧ details = withNamespace ms s.fields
  | some pods, none, _ =>
    ∃ t : Selector, t.Equivalent pods ∧
      details = withNamespace ns [("podSelector", t.toValue)]
  | none, none, some block =>
    ∃ (ms : String) (first : IPBlock),
      ranges.find? (fun b => cidrText (some b) == cidrText (some block)) = some first ∧
        details = withNamespace ms (IPBlock.fields ⟨block.cidr, first.exceptions⟩)
  | none, none, none => False

/-- Whether the addresses of all ranges that a policy refers to are texts, and not empty. -/
def Policy.Addressed (policy : Policy) : Prop :=
  ∀ block ∈ policy.ranges, ∃ s, s ≠ "" ∧ block.cidr = .text s

theorem Peer.exists_reference {peer : Peer} (h : peer.Selects) (ns : String) :
    ∃ r, peer.reference? ns = some r := by
  rcases peer with ⟨_ | pods, _ | spaces, _ | block⟩
  · simp [Peer.Selects] at h
  all_goals exact ⟨_, rfl⟩

theorem cidrText_of_text {block : IPBlock} {s : String} (hs : s ≠ "")
    (h : block.cidr = .text s) : cidrText (some block) = s := by
  simp [cidrText, h, Value.isFilled, hs]

theorem cidr_eq_of_cidrText_eq {b c : IPBlock} {s t : String} (hs : s ≠ "") (ht : t ≠ "")
    (hb : b.cidr = .text s) (hc : c.cidr = .text t)
    (h : cidrText (some b) = cidrText (some c)) : b.cidr = c.cidr := by
  rw [cidrText_of_text hs hb, cidrText_of_text ht hc] at h
  rw [hb, hc, h]

theorem Peer.toldBy_details {peer : Peer} {ns : String} {r first : Reference}
    {ranges : List IPBlock} (hr : peer.reference? ns = some r) (hsame : first.SameEndpoint r)
    (hrange : ∀ ms block, r = .ipBlock ms (some block) -> ∃ b, first.range? = some b ∧
      b.cidr = block.cidr ∧
      ranges.find? (fun c => cidrText (some c) == cidrText (some block)) = some b) :
    peer.ToldBy ns ranges first.details := by
  rcases peer with ⟨pods, spaces, block⟩
  cases pods with
  | some pods =>
      cases spaces with
      | some spaces =>
          cases hr
          cases first with
          | combined ms firstSpaces firstPods =>
              exact ⟨_, _, Selector.equivalent_of_canonical_eq hsame.2.1,
                Selector.equivalent_of_canonical_eq hsame.2.2, rfl⟩
          | _ => exact absurd hsame id
      | none =>
          cases hr
          cases first with
          | pod ms firstPods isTarget =>
              rcases hsame with ⟨rfl, hpods⟩
              exact ⟨_, Selector.equivalent_of_canonical_eq hpods, rfl⟩
          | _ => exact absurd hsame id
  | none =>
      cases spaces with
      | some spaces =>
          cases hr
          cases first with
          | namespaces ms firstSpaces =>
              exact ⟨ms, _, Selector.equivalent_of_canonical_eq hsame, rfl⟩
          | _ => exact absurd hsame id
      | none =>
          cases block with
          | none => cases hr
          | some block =>
              cases hr
              rcases hrange ns block rfl with ⟨b, hb, hcidr, hfind⟩
              cases first with
              | ipBlock ms firstBlock =>
                  cases hb
                  refine ⟨ms, b, hfind, ?_⟩
                  rw [← hcidr]
                  rfl
              | _ => cases hb

/-!
# Nodes and links of a first pass
-/

namespace Build.SkipsNone

variable {policies : List Policy} (h : (ofPolicies true policies).SkipsNone)

include h

theorem exists_first_range {node : Node} (hnode : node ∈ (ofPolicies true policies).graph.nodes)
    {ns : String} {block : IPBlock} (hid : node.id = (Reference.ipBlock ns (some block)).sharedId) :
    ∃ first, node.reference.range? = some first ∧
      (policies.flatMap Policy.ranges).find?
        (fun b => cidrText (some b) == cidrText (some block)) = some first := by
  have hfirst := (h.exists_first_reference hnode).1
  have hmem : ∀ r ∈ policies.flatMap Policy.references, ∃ p : Policy, r ∈ p.references := by
    intro r hr
    rcases List.mem_flatMap.mp hr with ⟨p, _, hp⟩
    exact ⟨p, hp⟩
  rw [hid, Policy.find?_sharedId_eq_range hmem] at hfirst
  have hany : (node.reference.range?.any fun b => cidrText (some b) == cidrText (some block)) =
      true := by
    simpa only using List.find?_some hfirst
  rcases (Option.any_eq_true _ _).mp hany with ⟨first, hrange, _⟩
  refine ⟨first, hrange, ?_⟩
  have hranges : policies.flatMap Policy.ranges =
      (policies.flatMap Policy.references).filterMap Reference.range? := by
    rw [List.filterMap_flatMap]
    rfl
  rw [hranges, List.find?_filterMap, hfirst, Option.bind_some, hrange]

theorem toldBy_node (haddressed : ∀ p ∈ policies, p.Addressed) {p : Policy} (hp : p ∈ policies)
    {peer : Peer} {r : Reference} (hr : peer.reference? p.namespaceName = some r)
    (hmem : r ∈ p.references) {node : Node}
    (hnode : node ∈ (ofPolicies true policies).graph.nodes) (hid : node.id = r.sharedId) :
    peer.ToldBy p.namespaceName (policies.flatMap Policy.ranges) node.details := by
  have hmode : (ofPolicies true policies).nodes.deduplicate = true :=
    deduplicate_ofPolicies true policies
  apply Peer.toldBy_details hr
  · rw [← Reference.sharedId_eq_iff, h.gathers.sharedId_reference hmode hnode, hid]
  · rintro ms block rfl
    rcases h.exists_first_range hnode hid with ⟨first, hrange, hfind⟩
    refine ⟨first, hrange, ?_, hfind⟩
    have htext : cidrText (some first) = cidrText (some block) := by
      simpa only [beq_iff_eq] using List.find?_some hfind
    rcases List.mem_flatMap.mp (List.mem_of_find?_eq_some hfind) with ⟨q, hq, hfirst⟩
    have hblock : block ∈ p.ranges := List.mem_filterMap.mpr ⟨_, hmem, rfl⟩
    rcases haddressed q hq first hfirst with ⟨s, hs, hcidr⟩
    rcases haddressed p hp block hblock with ⟨t, ht, hcidr'⟩
    exact cidr_eq_of_cidrText_eq hs ht hcidr hcidr' htext

theorem exists_link_of_mem_contributions
    (hplain : ∀ q ∈ policies, ':' ∉ q.namespaceName.toList) {p : Policy} (hp : p ∈ policies)
    {o : Offer} (ho : o ∈ p.contributions true) :
    ∃ link ∈ (ofPolicies true policies).graph.links,
      link.ends = o.ends ∧ o.policy ∈ link.policies := by
  have hoffers : o ∈ passOffers true policies := by
    rw [h.passOffers_eq]
    exact List.mem_flatMap.mpr ⟨p, hp, ho⟩
  have hends : o.ends ∈ (ofPolicies true policies).graph.links.map Link.ends := by
    rw [(links_eq_passOffers hplain).1, List.mem_eraseDups]
    exact List.mem_map_of_mem hoffers
  rcases List.mem_map.mp hends with ⟨link, hlink, heq⟩
  have hmerged := (links_eq_passOffers hplain).2 link hlink
  refine ⟨link, hlink, heq, (hmerged.mem_policies o.policy).mpr ⟨o, ?_, rfl⟩⟩
  exact List.mem_filter.mpr ⟨hoffers, by rw [heq, beq_self_eq_true]⟩

end Build.SkipsNone

/-!
# Graphs
-/

namespace Graph

theorem links_ofPolicies_subset_compile (policies : List Policy) :
    (Build.ofPolicies true policies).graph.links ⊆ (compile true policies).links := by
  intro link hlink
  rcases exists_collects_addOffers (Build.passOffers true policies) with ⟨entries, hlists, _⟩
  have hbook : (Build.ofPolicies true policies).links.Lists entries := by
    rw [Build.links_ofPolicies]
    exact hlists
  have hfirst : link ∈ entries.map Prod.snd := hbook.links_eq ▸ hlink
  rcases List.mem_map.mp hfirst with ⟨entry, hentry, rfl⟩
  rw [compile_true_eq, (hbook.registerAll _).links_eq]
  exact List.mem_map_of_mem (mem_foldl_registerEntry.mpr (Or.inl hentry))

/-- A peer of a rule that selects anything has a node, and the node tells what the peer
says.  Where namespaces hold no colons, the link of the peer attaches to it. -/
theorem compile_tells_peers (policies : List Policy) (hformed : ∀ p ∈ policies, p.WellFormed)
    (haddressed : ∀ p ∈ policies, p.Addressed) (p : Policy) (hp : p ∈ policies) (d : Direction)
    (i : Nat) (rule : Rule) (hrule : ((p.rules d).getD [])[i]? = some (.rule rule)) (peer : Peer)
    (hpeer : .peer peer ∈ rule.peers) (hselects : peer.Selects) :
    ∃ r, peer.reference? p.namespaceName = some r ∧
      r.sharedId ∈ (compile true policies).nodes.map Node.id ∧
      (∀ node ∈ (compile true policies).nodes, node.id = r.sharedId ->
        peer.ToldBy p.namespaceName (policies.flatMap Policy.ranges) node.details) ∧
      ((∀ q ∈ policies, ':' ∉ q.namespaceName.toList) ->
        ∃ link ∈ (compile true policies).links,
          link.ends = (p.offer true r d rule.ports.orAll i).ends ∧ p.name ∈ link.policies) := by
  have hskip := Build.skipsNone_of_wellFormed hformed true
  have hnodes : (compile true policies).nodes = (Build.ofPolicies true policies).graph.nodes := by
    rw [compile_true_eq]
    rfl
  rcases Peer.exists_reference hselects p.namespaceName with ⟨r, hr⟩
  have hentries : ∀ entry ∈ rule.peers, entry.WellFormed :=
    hformed p hp d (.rule rule) (List.mem_of_getElem? hrule)
  have hpeerFormed : peer.WellFormed := hentries (.peer peer) hpeer
  have hendpoint : r ∈ p.endpoints d rule :=
    Policy.mem_endpoints_of_peer d hpeer hr (hpeerFormed.isWritable hr)
  have hmem : r ∈ p.references :=
    Policy.mem_references.mpr (Or.inr ⟨d, rule, List.mem_of_getElem? hrule, hendpoint⟩)
  refine ⟨r, hr, ?_, ?_, ?_⟩
  · rcases hskip.exists_node_of_mem_references hp hmem with ⟨node, hnode, hid⟩
    rw [hnodes, ← hid]
    exact List.mem_map_of_mem hnode
  · intro node hnode hid
    exact hskip.toldBy_node haddressed hp hr hmem (hnodes ▸ hnode) hid
  · intro hplain
    have hcontribution : p.offer true r d rule.ports.orAll i ∈ p.contributions true :=
      p.offer_mem_contributions true hrule hendpoint
    rcases hskip.exists_link_of_mem_contributions hplain hp hcontribution with
      ⟨link, hlink, hends, hname⟩
    refine ⟨link, links_ofPolicies_subset_compile policies hlink, hends, ?_⟩
    cases d <;> exact hname

def rangePolicy (name ns cidr : String) (exceptions : List Value) : Policy :=
  ⟨name, ns, some .blank,
    some [.rule ⟨[.peer ⟨none, none, some ⟨.text cidr, exceptions⟩⟩], .unset⟩], none, []⟩

theorem wellFormed_rangePolicy (name ns cidr : String) {exceptions : List Value}
    (h : IPBlock.Readable ⟨.text cidr, exceptions⟩) :
    (rangePolicy name ns cidr exceptions).WellFormed := by
  intro d entry hentry
  cases d with
  | ingress =>
      cases List.mem_singleton.mp hentry
      intro peer hpeer
      cases List.mem_singleton.mp hpeer
      constructor
      · intro block hblock
        cases hblock
        rfl
      · intro block hblock
        cases hblock
        exact h
  | egress => cases hentry

/-- Two policies let a range in, the second one with an exception. -/
theorem compile_tells_rangePolicies :
    let block : IPBlock := ⟨.text "10.0.0.0/8", [.text "10.1.0.0/16"]⟩
    let policies := [rangePolicy "a" "n" "10.0.0.0/8" [],
      rangePolicy "b" "n" "10.0.0.0/8" [.text "10.1.0.0/16"]]
    (∀ p ∈ policies, p.WellFormed) ∧ (∀ p ∈ policies, p.Addressed) ∧
      (∀ q ∈ policies, ':' ∉ q.namespaceName.toList) ∧
      ∃ r, Peer.reference? ⟨none, none, some block⟩ "n" = some r ∧
        r.sharedId ∈ (compile true policies).nodes.map Node.id ∧
        (∀ node ∈ (compile true policies).nodes, node.id = r.sharedId ->
          Peer.ToldBy ⟨none, none, some block⟩ "n" (policies.flatMap Policy.ranges)
            node.details) ∧
        ∃ link ∈ (compile true policies).links,
          link.source = r.sharedId ∧ "b" ∈ link.policies := by
  intro block policies
  have hformed : ∀ p ∈ policies, p.WellFormed := by
    intro p hp
    simp only [policies, List.mem_cons, List.not_mem_nil, or_false] at hp
    rcases hp with rfl | rfl
    · exact wellFormed_rangePolicy _ _ _ (by simp [IPBlock.Readable])
    · exact wellFormed_rangePolicy _ _ _ (by simp [IPBlock.Readable])
  have haddressed : ∀ p ∈ policies, p.Addressed := by
    intro p hp b hb
    simp only [policies, List.mem_cons, List.not_mem_nil, or_false] at hp
    rcases hp with rfl | rfl <;>
      exact ⟨"10.0.0.0/8", by decide, by rw [List.mem_singleton.mp hb]⟩
  have hplain : ∀ q ∈ policies, ':' ∉ q.namespaceName.toList := by decide
  rcases compile_tells_peers policies hformed haddressed
    (rangePolicy "b" "n" "10.0.0.0/8" [.text "10.1.0.0/16"])
    (List.mem_cons_of_mem _ List.mem_cons_self) .ingress 0 _ rfl ⟨none, none, some block⟩
    List.mem_cons_self (Or.inr (Or.inr rfl)) with ⟨r, hr, hid, htold, hlinks⟩
  rcases hlinks hplain with ⟨link, hlink, hends, hname⟩
  refine ⟨hformed, haddressed, hplain, r, hr, hid, htold, link, hlink, ?_, hname⟩
  have hsource := congrArg Prod.fst hends
  rw [← Reference.id_shared r "b"]
  exact hsource

/-- Of two ranges with the same addresses, the exceptions of the second one are not shown.
Where namespaces hold colons, a link can attach to the node of other addresses. -/
theorem compile_rangePolicies :
    ((compile true [rangePolicy "a" "n" "10.0.0.0/8" [],
          rangePolicy "b" "n" "10.0.0.0/8" [.text "10.1.0.0/16"]]).nodes.filterMap fun node =>
        if node.kind = .ipBlock then
          some (node.id, node.policies, (node.details.field "except").isNull)
        else none) = [("ipBlock:10.0.0.0/8", ["a", "b"], true)] ∧
      (compile true [rangePolicy "a" "y:pod:z" "x" [], rangePolicy "b" "z" "x:pod:y" []]).links.map
        (fun link => (link.source, link.policies)) = [("ipBlock:x", ["a", "b"])] := by
  decide +kernel

end Graph
end TrafficGraph
