import TrafficGraph.Proofs.Graph.Deed
import TrafficGraph.Proofs.Graph.Proposal

/-!
# Links run between nodes

A policy links an endpoint only after it has referred to it, so a policy that
fails midway leaves no link without its ends.  The second pass proposes links
between nodes only, and narrowing a graph keeps the ends of the links it keeps.
Hence every graph is whole: its nodes differ in their identities, and both ends
of every link are among them.
-/

namespace TrafficGraph

/-- Whether the nodes of a graph differ in their identities and every link runs
between two of them. -/
structure Graph.Whole (graph : Graph) : Prop where
  nodup : (graph.nodes.map Node.id).Nodup
  source_mem : ∀ link ∈ graph.links, link.source ∈ graph.nodes.map Node.id
  target_mem : ∀ link ∈ graph.links, link.target ∈ graph.nodes.map Node.id

/-!
# Distinct nodes
-/

theorem nodup_addName {names : List String} (h : names.Nodup) (name : String) :
    (addName name names).Nodup := by
  unfold addName
  split
  · exact h
  · rename_i hnew
    rw [List.nodup_append]
    refine ⟨h, List.nodup_cons.mpr ⟨List.not_mem_nil, List.nodup_nil⟩, ?_⟩
    intro a ha b hb hab
    have hname : a = name := hab.trans (List.mem_singleton.mp hb)
    exact hnew (List.contains_iff_mem.mpr (hname ▸ ha))

theorem nodup_addNames {known : List String} (h : known.Nodup) (more : List String) :
    (addNames known more).Nodup := by
  unfold addNames
  induction more generalizing known with
  | nil => exact h
  | cons name rest ih => exact ih (nodup_addName h name)

theorem Build.nodup_ids (deduplicate : Bool) (policies : List Policy) :
    (ofPolicies deduplicate policies).nodes.ids.Nodup := by
  have hids := (foldl_addPolicy_eq_deeds (empty deduplicate) policies).2.1
  rw [ofPolicies, hids]
  exact nodup_addNames List.nodup_nil _

/-!
# Steps link what they referred to

The end of a link that a step adds was referred to by an earlier step.  This is
about every place in a list of steps, so it holds of the part of the list that
is carried out, too.
-/

/-- Whether every endpoint that is linked was referred to before. -/
def Grounded (steps : List Step) : Prop :=
  ∀ front peer d ports ruleIndex back,
    steps = front ++ .connect peer d ports ruleIndex :: back ->
    peer ∈ front.filterMap Step.reference?

namespace Grounded

theorem front {done all : List Step} (h : Grounded all) (hdone : done <+: all) :
    Grounded done := by
  rcases hdone with ⟨rest, rfl⟩
  intro front peer d ports ruleIndex back hsteps
  apply h front peer d ports ruleIndex (back ++ rest)
  rw [hsteps, List.append_assoc]
  rfl

theorem append {first rest : List Step} (hfirst : Grounded first) (hrest : Grounded rest) :
    Grounded (first ++ rest) := by
  intro front peer d ports ruleIndex back hsteps
  rcases List.append_eq_append_iff.mp hsteps with ⟨more, hfront, hrestEq⟩ | ⟨more, hfirstEq, hback⟩
  · rw [hfront, List.filterMap_append, List.mem_append]
    exact Or.inr (hrest more peer d ports ruleIndex back hrestEq)
  · cases more with
    | nil =>
        have hnone := hrest [] peer d ports ruleIndex back hback.symm
        cases hnone
    | cons s more =>
        injection hback with hs hback
        subst hs
        exact hfirst front peer d ports ruleIndex more hfirstEq

theorem of_connects (refers connects : List Step)
    (hrefers : ∀ peer d ports ruleIndex, .connect peer d ports ruleIndex ∉ refers)
    (hconnects : ∀ peer d ports ruleIndex, .connect peer d ports ruleIndex ∈ connects ->
      peer ∈ refers.filterMap Step.reference?) : Grounded (refers ++ connects) := by
  intro front peer d ports ruleIndex back hsteps
  rcases List.append_eq_append_iff.mp hsteps with ⟨more, hfront, hmore⟩ | ⟨more, hrefersEq, hback⟩
  · have hpeer : peer ∈ refers.filterMap Step.reference? :=
      hconnects peer d ports ruleIndex (hmore ▸ List.mem_append_right more List.mem_cons_self)
    rw [hfront, List.filterMap_append, List.mem_append]
    exact Or.inl hpeer
  · cases more with
    | nil =>
        rw [List.append_nil] at hrefersEq
        rw [← hrefersEq]
        apply hconnects peer d ports ruleIndex
        rw [← List.nil_append connects, ← hback]
        exact List.mem_cons_self
    | cons s more =>
        injection hback with hs _
        subst hs
        apply absurd _ (hrefers peer d ports ruleIndex)
        rw [hrefersEq]
        exact List.mem_append_right front List.mem_cons_self

theorem mem_references {steps : List Step} (h : Grounded steps) {peer : Reference}
    {d : Direction} {ports : Ports} {ruleIndex : Nat}
    (hconnect : .connect peer d ports ruleIndex ∈ steps) :
    peer ∈ steps.filterMap Step.reference? := by
  rcases List.append_of_mem hconnect with ⟨front, back, rfl⟩
  rw [List.filterMap_append, List.mem_append]
  exact Or.inl (h front peer d ports ruleIndex back rfl)

end Grounded

namespace Policy

theorem grounded_ruleSteps (policy : Policy) (d : Direction) (ruleIndex : Nat)
    (entry : RuleEntry) : Grounded (policy.ruleSteps d ruleIndex entry) := by
  cases entry with
  | absent => exact Grounded.of_connects [] [] (by simp) (by simp)
  | malformed =>
      exact Grounded.of_connects [.stumble] [] (by simp) (by simp)
  | rule rule =>
      rw [ruleSteps]
      split
      · apply Grounded.of_connects [_] [_]
        · simp
        · intro peer e ports i hpeer
          cases List.mem_singleton.mp hpeer
          exact List.mem_singleton_self _
      · apply Grounded.of_connects
        · intro peer e ports i hpeer
          rcases List.mem_map.mp hpeer with ⟨entry, _, hentry⟩
          rcases policy.referStep_cases d entry with ⟨r, _, hstep⟩ | ⟨_, hstep | hstep⟩ <;>
            cases hstep.symm.trans hentry
        · intro peer e ports i hpeer
          rcases List.mem_filterMap.mp hpeer with ⟨entry, hmem, hentry⟩
          rcases Option.map_eq_some_iff.mp hentry with ⟨r, hr, hstep⟩
          cases hstep
          exact List.mem_filterMap.mpr
            ⟨_, List.mem_map_of_mem hmem, (policy.reference?_referStep d entry).trans hr⟩

theorem grounded_rulesSteps (policy : Policy) (d : Direction) (ruleIndex : Nat)
    (entries : List RuleEntry) : Grounded (policy.rulesSteps d ruleIndex entries) := by
  induction entries generalizing ruleIndex with
  | nil => exact Grounded.of_connects [] [] (by simp) (by simp)
  | cons entry rest ih => exact (policy.grounded_ruleSteps d ruleIndex entry).append (ih _)

theorem grounded_steps (policy : Policy) : Grounded policy.steps := by
  have hown : Grounded [.refer policy.podReference none] :=
    Grounded.of_connects [_] [] (by simp) (by simp)
  have hingress := policy.grounded_rulesSteps .ingress 0 ((policy.rules .ingress).getD [])
  have hegress := policy.grounded_rulesSteps .egress 0 ((policy.rules .egress).getD [])
  have hall := hown.append (hingress.append hegress)
  simpa [steps, Direction.all] using hall

end Policy

theorem Deed.mem_references_of_connect {b : Build} {policies : List Policy} {deed : Deed}
    (hdeed : deed ∈ b.deeds policies) {peer : Reference} {d : Direction} {ports : Ports}
    {ruleIndex : Nat} (hconnect : .connect peer d ports ruleIndex ∈ deed.steps) :
    peer ∈ deed.references := by
  have hgrounded : Grounded deed.steps :=
    deed.policy.grounded_steps.front (Build.steps_prefix_of_mem_deeds hdeed)
  exact hgrounded.mem_references hconnect

/-- Both ends of what a policy offers are among the endpoints it has referred to,
even if it fails later. -/
theorem Deed.ends_mem_ids {b : Build} {policies : List Policy} {deed : Deed}
    (hdeed : deed ∈ b.deeds policies) {deduplicate : Bool} {o : Offer}
    (ho : o ∈ deed.offers deduplicate) :
    o.source ∈ deed.ids deduplicate ∧ o.target ∈ deed.ids deduplicate := by
  rcases Deed.exists_connect_of_mem_offers ho with ⟨peer, d, ports, ruleIndex, hconnect, rfl⟩
  have hpeer : peer.id deduplicate deed.policy.name ∈ deed.ids deduplicate :=
    List.mem_map_of_mem (Deed.mem_references_of_connect hdeed hconnect)
  have hown : deed.policy.podReference.id deduplicate deed.policy.name ∈ deed.ids deduplicate :=
    List.mem_map_of_mem (Build.podReference_mem_references hdeed)
  cases d with
  | ingress => exact ⟨hpeer, hown⟩
  | egress => exact ⟨hown, hpeer⟩

/-!
# Links and what was offered

Contributing a link changes neither the ends nor the ports of a link that is there, so those
of every link in a pool were offered.
-/

namespace LinkBook

theorem mem_pool_of_mem_links {book : LinkBook} {link : Link} (h : link ∈ book.links) :
    link ∈ book.pool := by
  rcases List.mem_filterMap.mp h with ⟨slot, _, hslot⟩
  exact List.mem_of_getElem? hslot

theorem ends_of_mem_pool_add {book : LinkBook} {link other : Link} {policy : String}
    (h : other ∈ (book.add link policy).2.pool) :
    other.ends = link.ends ∧ other.ports = link.ports ∨
      ∃ old ∈ book.pool, other.ends = old.ends ∧ other.ports = old.ports := by
  unfold add at h
  simp only at h
  split at h
  · rename_i slot _
    rcases List.mem_iff_getElem?.mp h with ⟨i, hi⟩
    rw [List.getElem?_modify] at hi
    rcases Option.map_eq_some_iff.mp hi with ⟨old, hold, hother⟩
    refine Or.inr ⟨old, List.mem_of_getElem? hold, ?_⟩
    rw [← hother]
    split
    · exact ⟨Link.ends_merge old policy link.ports, Link.ports_merge old policy link.ports⟩
    · exact ⟨rfl, rfl⟩
  · rcases List.mem_append.mp h with hold | hnew
    · exact Or.inr ⟨other, hold, rfl, rfl⟩
    · rw [List.mem_singleton.mp hnew]
      exact Or.inl ⟨rfl, rfl⟩

theorem ends_of_mem_pool_addOffers {book : LinkBook} {offers : List Offer} {link : Link}
    (h : link ∈ (book.addOffers offers).pool) :
    (∃ o ∈ offers, link.ends = o.ends ∧ link.ports = o.ports) ∨
      ∃ old ∈ book.pool, link.ends = old.ends ∧ link.ports = old.ports := by
  induction offers generalizing book with
  | nil => exact Or.inr ⟨link, h, rfl, rfl⟩
  | cons o rest ih =>
      rcases ih h with ⟨p, hp, hends⟩ | ⟨old, hold, hends, hports⟩
      · exact Or.inl ⟨p, List.mem_cons_of_mem o hp, hends⟩
      · rcases ends_of_mem_pool_add hold with ⟨hnew, hnewPorts⟩ | ⟨first, hfirst, hkept, hkeptPorts⟩
        · exact Or.inl ⟨o, List.mem_cons_self, hends.trans hnew, hports.trans hnewPorts⟩
        · exact Or.inr ⟨first, hfirst, hends.trans hkept, hports.trans hkeptPorts⟩

end LinkBook

namespace Build

theorem ends_of_mem_pool {deduplicate : Bool} {policies : List Policy} {link : Link}
    (h : link ∈ (ofPolicies deduplicate policies).links.pool) :
    link.source ∈ (ofPolicies deduplicate policies).nodes.ids ∧
      link.target ∈ (ofPolicies deduplicate policies).nodes.ids := by
  rw [links_ofPolicies] at h
  rcases LinkBook.ends_of_mem_pool_addOffers h with ⟨o, ho, hends, _⟩ | ⟨old, hold, _⟩
  · rcases List.mem_flatMap.mp ho with ⟨deed, hdeed, hmem⟩
    rcases Deed.ends_mem_ids hdeed hmem with ⟨hsource, htarget⟩
    injection hends with hsourceEq hrest
    injection hrest with htargetEq _
    rw [hsourceEq, htargetEq]
    exact ⟨mem_ids_ofPolicies.mpr ⟨deed, hdeed, hsource⟩,
      mem_ids_ofPolicies.mpr ⟨deed, hdeed, htarget⟩⟩
  · cases hold

/-!
# Both passes and what is shown of them
-/

theorem whole_graph (deduplicate : Bool) (policies : List Policy) :
    (ofPolicies deduplicate policies).graph.Whole :=
  { nodup := nodup_ids deduplicate policies
    source_mem := fun _ hlink =>
      (ends_of_mem_pool (LinkBook.mem_pool_of_mem_links hlink)).1
    target_mem := fun _ hlink =>
      (ends_of_mem_pool (LinkBook.mem_pool_of_mem_links hlink)).2 }

theorem ends_of_mem_inference {deduplicate : Bool} {policies others : List Policy} {link : Link}
    (h : link ∈ ((ofPolicies deduplicate policies).inference others).book.links) :
    link.source ∈ (ofPolicies deduplicate policies).nodes.ids ∧
      link.target ∈ (ofPolicies deduplicate policies).nodes.ids := by
  rcases Inference.mem_pool_foldl_addOwner (LinkBook.mem_pool_of_mem_links h) with
    hfirst | ⟨owner, _, id, hproposal⟩
  · exact ends_of_mem_pool hfirst
  · rcases hasNode_of_mem_proposals hproposal with ⟨hsource, htarget⟩
    rw [NodeStore.contains_eq, decide_eq_true_iff] at hsource htarget
    exact ⟨hsource, htarget⟩

theorem whole_linkedGraph (deduplicate : Bool) (policies others : List Policy) :
    ((ofPolicies deduplicate policies).linkedGraph others).Whole := by
  unfold linkedGraph linking
  split
  · exact
      { nodup := nodup_ids deduplicate policies
        source_mem := fun _ hlink => (ends_of_mem_inference hlink).1
        target_mem := fun _ hlink => (ends_of_mem_inference hlink).2 }
  · exact whole_graph deduplicate policies

end Build

namespace Graph.Whole

theorem narrow {graph : Graph} (h : graph.Whole) (d : Direction) : (graph.narrow d).Whole := by
  have hkept : ∀ link ∈ (graph.narrow d).links, ∀ id ∈ graph.nodes.map Node.id,
      link.source = id ∨ link.target = id -> id ∈ (graph.narrow d).nodes.map Node.id := by
    intro link hlink id hid hends
    rcases List.mem_map.mp hid with ⟨node, hnode, rfl⟩
    apply List.mem_map_of_mem
    apply List.mem_filter.mpr
    refine ⟨hnode, List.any_eq_true.mpr ⟨link, hlink, ?_⟩⟩
    simpa using hends
  constructor
  · exact h.nodup.sublist (List.filter_sublist.map Node.id)
  · intro link hlink
    have hlinks := (List.mem_filter.mp hlink).1
    exact hkept link hlink link.source (h.source_mem link hlinks) (Or.inl rfl)
  · intro link hlink
    have hlinks := (List.mem_filter.mp hlink).1
    exact hkept link hlink link.target (h.target_mem link hlinks) (Or.inr rfl)

theorem apply {graph : Graph} (h : graph.Whole) (f : DirectionFilter) : (f.apply graph).Whole := by
  cases f with
  | all => exact h
  | only d => exact h.narrow d

theorem foldl_apply {graph : Graph} (h : graph.Whole) (filters : List DirectionFilter) :
    (filters.foldl (fun shown f => f.apply shown) graph).Whole := by
  induction filters generalizing graph with
  | nil => exact h
  | cons f rest ih => exact ih (h.apply f)

end Graph.Whole

/-- Whatever policies a graph is built from, whether or not they share nodes, from
whatever policies links are inferred, and however often the graph is narrowed: its
nodes differ in their identities and every link runs between two of them. -/
theorem whole_filtered_linkedGraph (deduplicate : Bool) (policies others : List Policy)
    (filters : List DirectionFilter) :
    (filters.foldl (fun shown f => f.apply shown)
      ((Build.ofPolicies deduplicate policies).linkedGraph others)).Whole :=
  (Build.whole_linkedGraph deduplicate policies others).foldl_apply filters

end TrafficGraph
