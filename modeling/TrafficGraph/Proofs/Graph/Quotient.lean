import TrafficGraph.Proofs.Graph.Coverage

/-!
# Shared endpoints as a quotient

A pass whose policies share endpoints and one whose policies do not go through the same
mentions and offers.  The second one keeps those of different policies apart by the
names behind the identities.  Where names hold no colons, a name can be taken away from
an identity again, and what falls together then is what the first pass has made one.
-/

namespace TrafficGraph

/-- An identity without the mark and the name of a policy at its end. -/
def withoutPolicy (policy id : String) : String :=
  String.ofList (id.toList.take (id.length - (policyPart false policy).length))

def Node.sharedId (node : Node) : String := withoutPolicy (node.policies.headD "") node.id

/-- The ends and the direction that a link of one policy has where policies share
nodes. -/
def Link.sharedEnds (link : Link) : LinkEnds :=
  (withoutPolicy (link.policies.headD "") link.source,
    withoutPolicy (link.policies.headD "") link.target, link.direction)

/-- Whether a graph is what becomes of another one, in which every node and every link
belongs to one policy, if the names of the policies are taken away from its
identities. -/
structure Graph.QuotientOf (graph own : Graph) : Prop where
  ownNodes : ∀ node ∈ own.nodes, ∃ name, node.policies = [name] ∧
    node.id = node.sharedId ++ policyPart false name
  ids : graph.nodes.map Node.id = (own.nodes.map Node.sharedId).eraseDups
  nodes : ∀ node ∈ graph.nodes, ∃ first rest,
    (own.nodes.filter fun other => other.sharedId == node.id) = first :: rest ∧
      node = { first with id := node.id, policies := (first :: rest).flatMap Node.policies }
  ownLinks : ∀ link ∈ own.links, ∃ name, link.policies = [name] ∧
    link.source = link.sharedEnds.1 ++ policyPart false name ∧
    link.target = link.sharedEnds.2.1 ++ policyPart false name
  ends : graph.links.map Link.ends = (own.links.map Link.sharedEnds).eraseDups
  links : ∀ link ∈ graph.links, ∃ first rest,
    (own.links.filter fun other => other.sharedEnds == link.ends) = first :: rest ∧
      link.withoutBreakdown =
        { first with
          source := link.source
          target := link.target
          policies := ((first :: rest).flatMap Link.policies).eraseDups } ∧
      link.MarksBreakdown ∧ (link.detailed = true ↔
        ∃ a ∈ first :: rest, ∃ b ∈ first :: rest, a.ports.same b.ports = false)

/-!
# Taking a name away
-/

theorem withoutPolicy_append (policy id : String) :
    withoutPolicy policy (id ++ policyPart false policy) = id := by
  have hlength : (id ++ policyPart false policy).length - (policyPart false policy).length =
      id.toList.length := by
    rw [String.length_append, Nat.add_sub_cancel, String.length_toList]
  unfold withoutPolicy
  rw [hlength, String.toList_append, List.take_left, String.ofList_toList]

theorem Reference.withoutPolicy_id (r : Reference) (policy : String) :
    withoutPolicy policy (r.id false policy) = r.sharedId :=
  withoutPolicy_append policy r.sharedId

theorem append_policyPart_inj {a b p q : String} (hp : ':' ∉ p.toList) (hq : ':' ∉ q.toList)
    (h : a ++ policyPart false p = b ++ policyPart false q) : a = b ∧ p = q := by
  have hword : "policy:".toList = "policy".toList ++ [':'] := by decide
  have hchars := congrArg String.toList h
  rw [String.toList_append, String.toList_append, toList_policyPart_own, toList_policyPart_own,
    hword] at hchars
  have hsplit : (a.toList ++ ':' :: "policy".toList) ++ ':' :: p.toList =
      (b.toList ++ ':' :: "policy".toList) ++ ':' :: q.toList := by
    simpa only [List.append_assoc, List.cons_append, List.nil_append] using hchars
  rcases append_cons_inj_of_not_mem_right hp hq hsplit with ⟨hfront, hname⟩
  exact ⟨String.toList_inj.mp (List.append_cancel_right hfront), String.toList_inj.mp hname⟩

/-!
# Nodes

Both the mentions and the nodes of single policies have keys: an endpoint and the name
of a policy.
-/

abbrev OwnKey := String × String

def OwnKey.id (key : OwnKey) : String := key.1 ++ policyPart false key.2

def Mention.key (m : Mention) : OwnKey := (m.reference.sharedId, m.policy)

def Node.key (node : Node) : OwnKey := (node.sharedId, node.policies.headD "")

theorem Mention.id_own (m : Mention) : m.id false = m.key.id := rfl

theorem Mention.id_shared (m : Mention) : m.id true = m.key.1 := m.reference.id_shared m.policy

/-- Whether a node belongs to one policy and is made by the first mention of its key. -/
structure Node.OwnedFrom (mentions : List Mention) (node : Node) : Prop where
  policies : node.policies = [node.key.2]
  id : node.id = node.key.id
  made : ∃ first rest, (mentions.filter fun m => m.key == node.key) = first :: rest ∧
    first.reference.body = .ok node.body ∧ node.reference = first.reference ∧
    node.direction = first.direction

section OwnNodes

variable {store : NodeStore} {mentions : List Mention} (h : store.Gathers mentions)
  (hown : store.deduplicate = false) (hnames : ∀ m ∈ mentions, ':' ∉ m.policy.toList)

include hnames in
theorem Mention.key_inj {m : Mention} (hm : m ∈ mentions) {other : Mention}
    (hother : other ∈ mentions) (hid : m.key.id = other.key.id) : m.key = other.key := by
  rcases append_policyPart_inj (hnames m hm) (hnames other hother) hid with ⟨hshared, hname⟩
  exact Prod.ext hshared hname

include h hown hnames

theorem ownedFrom_mentions {node : Node} (hnode : node ∈ store.nodes) :
    node.OwnedFrom mentions := by
  rcases h.gathered node hnode with
    ⟨first, rest, hfilter, hbody, hreference, hdirection, hpolicies⟩
  rw [hown] at hfilter hpolicies
  have hall : ∀ m ∈ first :: rest, m ∈ mentions ∧ m.key.id = node.id := by
    intro m hm
    rw [← hfilter, List.mem_filter, beq_iff_eq, Mention.id_own] at hm
    exact hm
  rcases hall first List.mem_cons_self with ⟨hfirst, hid⟩
  have hkeys : ∀ m ∈ first :: rest, m.key = first.key := by
    intro m hm
    rcases hall m hm with ⟨hmem, hmid⟩
    exact Mention.key_inj hnames hmem hfirst (hmid.trans hid.symm)
  have hsingle : node.policies = [first.policy] := by
    rw [hpolicies, hfilter, List.map_cons]
    apply eraseDups_eq_singleton
    intro name hname
    rcases List.mem_map.mp hname with ⟨m, hm, rfl⟩
    exact congrArg Prod.snd (hkeys m (List.mem_cons_of_mem first hm))
  have hkey : node.key = first.key := by
    unfold Node.key Node.sharedId
    rw [hsingle, ← hid]
    exact Prod.ext (withoutPolicy_append first.policy first.reference.sharedId) rfl
  have hsameKey : (mentions.filter fun m => m.key == node.key) = first :: rest := by
    rw [← hfilter]
    apply List.filter_congr
    intro m hm
    rw [Bool.eq_iff_iff, beq_iff_eq, beq_iff_eq, hkey, ← hid, Mention.id_own]
    exact ⟨fun heq => by rw [heq], Mention.key_inj hnames hm hfirst⟩
  constructor
  · rw [hsingle, hkey]
    rfl
  · rw [hkey, hid]
  · exact ⟨first, rest, hsameKey, hbody, hreference, hdirection⟩

theorem map_key_nodes : store.nodes.map Node.key = (mentions.map Mention.key).eraseDups := by
  have hinj : ∀ key ∈ mentions.map Mention.key, ∀ other ∈ mentions.map Mention.key,
      OwnKey.id key = OwnKey.id other -> key = other := by
    intro key hkey other hother hid
    rcases List.mem_map.mp hkey with ⟨m, hm, rfl⟩
    rcases List.mem_map.mp hother with ⟨n, hn, rfl⟩
    exact Mention.key_inj hnames hm hn hid
  have hids : (store.nodes.map Node.key).map OwnKey.id =
      ((mentions.map Mention.key).eraseDups).map OwnKey.id := by
    have hnodes : (store.nodes.map Node.key).map OwnKey.id = store.ids := by
      rw [List.map_map]
      apply List.map_congr_left
      intro node hnode
      exact (ownedFrom_mentions h hown hnames hnode).id.symm
    rw [hnodes, h.ids, hown, ← eraseDups_map_of_inj OwnKey.id _ hinj, List.map_map]
    rfl
  apply eq_of_map_eq_map_of_inj OwnKey.id _ hids
  intro key hkey other hother
  apply hinj
  · rcases List.mem_map.mp hkey with ⟨node, hnode, rfl⟩
    rcases (ownedFrom_mentions h hown hnames hnode).made with ⟨first, rest, hfilter, _⟩
    have hfirst : first ∈ mentions.filter fun m => m.key == node.key := by
      rw [hfilter]
      exact List.mem_cons_self
    rcases List.mem_filter.mp hfirst with ⟨hmem, heq⟩
    rw [← eq_of_beq heq]
    exact List.mem_map_of_mem hmem
  · exact List.mem_eraseDups.mp hother

theorem map_sharedId_nodes :
    (store.nodes.map Node.sharedId).eraseDups =
      (mentions.map fun m => m.id true).eraseDups := by
  have hfirst : store.nodes.map Node.sharedId = (store.nodes.map Node.key).map Prod.fst := by
    rw [List.map_map]
    rfl
  rw [hfirst, map_key_nodes h hown hnames, eraseDups_map_eraseDups, List.map_map]
  simp only [Function.comp_def, Mention.id_shared]

theorem map_key_filter_nodes (id : String) :
    (store.nodes.filter fun node => node.sharedId == id).map Node.key =
      ((mentions.filter fun m => m.key.1 == id).map Mention.key).eraseDups := by
  have hnodes : (store.nodes.filter fun node => node.sharedId == id).map Node.key =
      (store.nodes.map Node.key).filter fun key => key.1 == id := by
    rw [List.filter_map]
    rfl
  rw [hnodes, map_key_nodes h hown hnames, filter_eraseDups, List.filter_map]
  rfl

theorem flatMap_policies_filter_nodes (id : String) :
    (store.nodes.filter fun node => node.sharedId == id).flatMap Node.policies =
      ((mentions.filter fun m => m.key.1 == id).map Mention.policy).eraseDups := by
  have hnodes : (store.nodes.filter fun node => node.sharedId == id).flatMap Node.policies =
      ((store.nodes.filter fun node => node.sharedId == id).map Node.key).map Prod.snd := by
    rw [List.map_map, List.map_eq_flatMap]
    apply List.flatMap_congr
    intro node hnode
    exact (ownedFrom_mentions h hown hnames (List.mem_filter.mp hnode).1).policies
  -- among the mentions of one endpoint the name is all that keys differ in
  have hinj : ∀ key ∈ (mentions.filter fun m => m.key.1 == id).map Mention.key,
      ∀ other ∈ (mentions.filter fun m => m.key.1 == id).map Mention.key,
        key.2 = other.2 -> key = other := by
    intro key hkey other hother hname
    rcases List.mem_map.mp hkey with ⟨m, hm, rfl⟩
    rcases List.mem_map.mp hother with ⟨n, hn, rfl⟩
    have hmid : m.key.1 = id := eq_of_beq (List.mem_filter.mp hm).2
    have hnid : n.key.1 = id := eq_of_beq (List.mem_filter.mp hn).2
    exact Prod.ext (hmid.trans hnid.symm) hname
  rw [hnodes, map_key_filter_nodes h hown hnames, ← eraseDups_map_of_inj Prod.snd _ hinj,
    List.map_map]
  rfl

theorem exists_first_node {id : String} {m : Mention} {more : List Mention}
    (hfilter : (mentions.filter fun n => n.key.1 == id) = m :: more) :
    ∃ first rest, (store.nodes.filter fun node => node.sharedId == id) = first :: rest ∧
      m.reference.body = .ok first.body ∧ first.reference = m.reference ∧
      first.direction = m.direction := by
  have hkeys := map_key_filter_nodes h hown hnames id
  rw [hfilter, List.map_cons, List.eraseDups_cons] at hkeys
  cases hfound : store.nodes.filter fun node => node.sharedId == id with
  | nil =>
      rw [hfound] at hkeys
      cases hkeys
  | cons first rest =>
      rw [hfound, List.map_cons] at hkeys
      have hkey : first.key = m.key := (List.cons.inj hkeys).1
      have hnode : first ∈ store.nodes := by
        have hmem : first ∈ store.nodes.filter fun node => node.sharedId == id := by
          rw [hfound]
          exact List.mem_cons_self
        exact (List.mem_filter.mp hmem).1
      have hmid : m.key.1 = id := by
        have hmem : m ∈ mentions.filter fun n => n.key.1 == id := by
          rw [hfilter]
          exact List.mem_cons_self
        exact eq_of_beq (List.mem_filter.mp hmem).2
      -- the mentions of the key are among those of the endpoint, and m is the first there
      have himp : ∀ n : Mention, (n.key == first.key) = true -> (n.key.1 == id) = true := by
        intro n hn
        rw [eq_of_beq hn, hkey, hmid]
        exact beq_self_eq_true _
      have hm : (m.key == first.key) = true := by
        rw [hkey]
        exact beq_self_eq_true _
      rcases (ownedFrom_mentions h hown hnames hnode).made with
        ⟨n, others, hn, hbody, hreference, hdirection⟩
      rw [← filter_filter_of_imp mentions himp, hfilter, List.filter_cons, if_pos hm] at hn
      cases (List.cons.inj hn).1
      exact ⟨first, rest, rfl, hbody, hreference, hdirection⟩

/-- A shared node has everything from the first of the nodes of single policies that
fall together to it, and the names of all of them. -/
theorem exists_own_nodes {shared : NodeStore} (hshared : shared.Gathers mentions)
    (hmode : shared.deduplicate = true) {node : Node} (hnode : node ∈ shared.nodes) :
    ∃ first rest, (store.nodes.filter fun other => other.sharedId == node.id) = first :: rest ∧
      node = { first with id := node.id, policies := (first :: rest).flatMap Node.policies } := by
  have hgathered := hshared.gathered node hnode
  rw [hmode] at hgathered
  simp only [Mention.id_shared] at hgathered
  have hpolicies := flatMap_policies_filter_nodes h hown hnames node.id
  rcases hgathered with ⟨m, more, hfilter, hbody, hreference, hdirection, hnames'⟩
  rcases exists_first_node h hown hnames hfilter with
    ⟨first, rest, hfirst, hfirstBody, hfirstReference, hfirstDirection⟩
  refine ⟨first, rest, hfirst, ?_⟩
  rw [hfirstBody] at hbody
  rw [hfirst, ← hnames'] at hpolicies
  rcases node with ⟨id, reference, body, direction, policies⟩
  rw [Node.mk.injEq]
  exact ⟨rfl, hreference.trans hfirstReference.symm, (Except.ok.inj hbody).symm,
    hdirection.trans hfirstDirection.symm, hpolicies.symm⟩

end OwnNodes

/-!
# Links

The offers of the two passes are the same ones, apart from the names behind the
identities of their ends.
-/

def Offer.shared (o : Offer) : Offer :=
  { o with source := withoutPolicy o.policy o.source, target := withoutPolicy o.policy o.target }

theorem Policy.shared_offer (policy : Policy) (peer : Reference) (d : Direction) (ports : Ports)
    (ruleIndex : Nat) :
    (policy.offer false peer d ports ruleIndex).shared =
      policy.offer true peer d ports ruleIndex := by
  cases d <;> simp [offer, Offer.shared, Reference.withoutPolicy_id]

theorem Policy.map_shared_contributions (policy : Policy) :
    (policy.contributions false).map Offer.shared = policy.contributions true := by
  unfold contributions
  simp only [List.map_flatMap]
  apply List.flatMap_congr
  intro d _
  apply List.flatMap_congr
  rintro ⟨entry, ruleIndex⟩ _
  cases entry with
  | absent => rfl
  | malformed => rfl
  | rule rule =>
      unfold ruleContributions
      rw [List.map_map]
      apply List.map_congr_left
      intro peer _
      exact policy.shared_offer peer d rule.ports.orAll ruleIndex

theorem Policy.ends_of_mem_contributions {policy : Policy} {o : Offer}
    (ho : o ∈ policy.contributions false) :
    o.source = o.shared.source ++ policyPart false o.policy ∧
      o.target = o.shared.target ++ policyPart false o.policy := by
  rw [← policy.offers_steps false] at ho
  rcases Deed.exists_connect_of_mem_offers ho with ⟨peer, d, ports, ruleIndex, _, rfl⟩
  rw [shared_offer]
  cases d with
  | ingress => simp [offer, Reference.id, policyPart]
  | egress => simp [offer, Reference.id, policyPart]

theorem flatMap_policies_link (offers : List Offer) :
    (offers.map Offer.link).flatMap Link.policies = offers.map Offer.policy := by
  rw [List.flatMap_map, List.map_eq_flatMap]
  rfl

theorem MergedFrom.of_shared {first : Offer} {rest : List Offer} {link : Link}
    (h : MergedFrom ((first :: rest).map Offer.shared) link)
    (hports : ∀ o ∈ (first :: rest).map Offer.shared, o.ports.WellFormed) :
    link.withoutBreakdown =
        { first.link with
          source := link.source
          target := link.target
          policies := (((first :: rest).map Offer.link).flatMap Link.policies).eraseDups } ∧
      link.MarksBreakdown ∧ (link.detailed = true ↔
        ∃ a ∈ (first :: rest).map Offer.link, ∃ b ∈ (first :: rest).map Offer.link,
          a.ports.same b.ports = false) := by
  refine ⟨?_, h.marksBreakdown, ?_⟩
  · have hkept := h.withoutBreakdown_eq
    have hsourceKept := congrArg Link.source hkept
    have hsource : link.source = first.shared.source := hsourceKept
    have htargetKept := congrArg Link.target hkept
    have htarget : link.target = first.shared.target := htargetKept
    have hnames : ((first :: rest).map Offer.shared).map Offer.policy =
        ((first :: rest).map Offer.link).flatMap Link.policies := by
      rw [flatMap_policies_link, List.map_map]
      rfl
    rw [hkept, hsource, htarget, ← hnames]
    rfl
  · rw [h.detailed_iff hports]
    simp only [List.mem_map, exists_exists_and_eq_and]
    rfl

/-- A shared link has everything from the first of the links of single policies that
fall together to it, and the names of all of them. -/
theorem exists_own_links {offers : List Offer} {link : Link}
    (h : MergedFrom ((offers.map Offer.shared).filter fun o => o.ends == link.ends) link)
    (hports : ∀ o ∈ offers.map Offer.shared, o.ports.WellFormed) :
    ∃ first rest,
      ((offers.map Offer.link).filter fun other => other.sharedEnds == link.ends) =
        first :: rest ∧
      link.withoutBreakdown =
        { first with
          source := link.source
          target := link.target
          policies := ((first :: rest).flatMap Link.policies).eraseDups } ∧
      link.MarksBreakdown ∧ (link.detailed = true ↔
        ∃ a ∈ first :: rest, ∃ b ∈ first :: rest, a.ports.same b.ports = false) := by
  have hown : ((offers.map Offer.link).filter fun other => other.sharedEnds == link.ends) =
      (offers.filter fun o => o.shared.ends == link.ends).map Offer.link := by
    rw [List.filter_map]
    rfl
  have hshared : ((offers.map Offer.shared).filter fun o => o.ends == link.ends) =
      (offers.filter fun o => o.shared.ends == link.ends).map Offer.shared := by
    rw [List.filter_map]
    rfl
  rw [hshared] at h
  rw [hown]
  have hfilterPorts : ∀ o ∈ (offers.filter fun o => o.shared.ends == link.ends).map Offer.shared,
      o.ports.WellFormed := by
    intro o ho
    exact hports o (List.map_subset Offer.shared (List.filter_subset_self _) ho)
  cases hfound : offers.filter fun o => o.shared.ends == link.ends with
  | nil =>
      rw [hfound] at h
      rcases h with ⟨_, _, hnil, _⟩
      cases hnil
  | cons first rest =>
      rw [hfound] at h hfilterPorts
      exact ⟨first.link, rest.map Offer.link, rfl, h.of_shared hfilterPorts⟩

/-!
# Both passes
-/

namespace Build.SkipsNone

variable {policies : List Policy}

theorem passOffers_eq_map_shared (h : (ofPolicies true policies).SkipsNone) :
    passOffers true policies =
      (policies.flatMap fun p => p.contributions false).map Offer.shared := by
  rw [h.passOffers_eq, List.map_flatMap]
  simp only [Policy.map_shared_contributions]

theorem links_own_eq (h : (ofPolicies false policies).SkipsNone) :
    (ofPolicies false policies).graph.links =
      (policies.flatMap fun p => p.contributions false).map Offer.link := by
  show (ofPolicies false policies).links.links = _
  rw [h.links_eq, LinkBook.links_addOffers_own]

end Build.SkipsNone

/-- Where no policy is skipped, the graph of a first pass whose policies share nodes is
the quotient of the graph of the same policies on their own. -/
theorem Graph.quotientOf_compile_own (policies : List Policy)
    (hnames : ∀ p ∈ policies, ':' ∉ p.name.toList)
    (hplain : ∀ p ∈ policies, ':' ∉ p.namespaceName.toList)
    (hports : ∀ p ∈ policies, p.PortsWellFormed)
    (hskip : (Build.ofPolicies true policies).SkipsNone)
    (hownSkip : (Build.ofPolicies false policies).SkipsNone) :
    (Build.ofPolicies true policies).graph.QuotientOf (Graph.compile false policies) := by
  have hmode := Build.deduplicate_ofPolicies true policies
  have hownMode := Build.deduplicate_ofPolicies false policies
  have hmentionNames : ∀ m ∈ policies.flatMap Policy.mentions, ':' ∉ m.policy.toList := by
    intro m hm
    rcases List.mem_flatMap.mp hm with ⟨p, hp, hmem⟩
    rw [Policy.policy_of_mem_mentions hmem]
    exact hnames p hp
  rcases Build.links_eq_passOffers hplain with ⟨hends, hmerged⟩
  rw [hskip.passOffers_eq_map_shared] at hends hmerged
  rw [Graph.compile_false_eq]
  constructor
  · intro node hnode
    have howned := ownedFrom_mentions hownSkip.gathers hownMode hmentionNames hnode
    exact ⟨node.key.2, howned.policies, howned.id⟩
  · show (Build.ofPolicies true policies).nodes.ids = _
    have hmodeNodes : (Build.ofPolicies true policies).nodes.deduplicate = true := hmode
    rw [hskip.gathers.ids, hmodeNodes]
    exact (map_sharedId_nodes hownSkip.gathers hownMode hmentionNames).symm
  · intro node hnode
    exact exists_own_nodes hownSkip.gathers hownMode hmentionNames hskip.gathers hmode hnode
  · intro link hlink
    rw [hownSkip.links_own_eq] at hlink
    rcases List.mem_map.mp hlink with ⟨o, ho, rfl⟩
    rcases List.mem_flatMap.mp ho with ⟨p, _, hmem⟩
    exact ⟨o.policy, rfl, Policy.ends_of_mem_contributions hmem⟩
  · rw [hends, hownSkip.links_own_eq, List.map_map, List.map_map]
    rfl
  · intro link hlink
    rw [hownSkip.links_own_eq]
    apply exists_own_links (hmerged link hlink)
    intro o ho
    rw [← hskip.passOffers_eq_map_shared] at ho
    exact Build.wellFormed_of_mem_passOffers hports ho

/-- The link from everybody is made of one link of each policy. -/
theorem quotientOf_shopPolicies :
    (∀ p ∈ shopPolicies, ':' ∉ p.name.toList) ∧
      (∀ p ∈ shopPolicies, ':' ∉ p.namespaceName.toList) ∧
      (∀ p ∈ shopPolicies, p.PortsWellFormed) ∧
      (Build.ofPolicies true shopPolicies).SkipsNone ∧
      (Build.ofPolicies false shopPolicies).SkipsNone ∧
      (Build.ofPolicies true shopPolicies).graph.QuotientOf (Graph.compile false shopPolicies) := by
  have hnames : ∀ p ∈ shopPolicies, ':' ∉ p.name.toList := by decide
  have hplain : ∀ p ∈ shopPolicies, ':' ∉ p.namespaceName.toList := by decide
  have hskip := Build.skipsNone_of_wellFormed wellFormed_shopPolicies true
  have hownSkip := Build.skipsNone_of_wellFormed wellFormed_shopPolicies false
  exact ⟨hnames, hplain, portsWellFormed_shopPolicies, hskip, hownSkip,
    Graph.quotientOf_compile_own shopPolicies hnames hplain portsWellFormed_shopPolicies hskip
      hownSkip⟩

end TrafficGraph
