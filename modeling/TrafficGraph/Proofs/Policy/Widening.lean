import TrafficGraph.Proofs.Graph.FirstReference
import TrafficGraph.Proofs.Policy.Loading

/-!
# What is left of a rule

Of a rule in a document those entries of its lists of peers and ports count that are
mappings.  A list of which nothing is left says the same as one that is not there: the
rule is about everybody, or it opens all ports.  A peer that is a mapping but selects
nothing still counts, so such a rule is about nobody.
-/

namespace TrafficGraph

/-!
# Steps of a rule
-/

namespace Policy

variable (policy : Policy) (d : Direction) (ruleIndex : Nat) (rule : Rule)

theorem refer_mem_ruleSteps {r : Reference} {side : Option Direction}
    (h : .refer r side ∈ policy.ruleSteps d ruleIndex (.rule rule)) :
    r ∈ policy.endpoints d rule := by
  have hmem := List.mem_filterMap.mpr
    ⟨_, h, show Step.reference? (.refer r side) = some r from rfl⟩
  rwa [references_ruleSteps] at hmem

/-- A rule links exactly its endpoints, on the ports it opens. -/
theorem connect_mem_ruleSteps_iff {peer : Reference} {side : Direction} {ports : Ports}
    {i : Nat} :
    .connect peer side ports i ∈ policy.ruleSteps d ruleIndex (.rule rule) ↔
      peer ∈ policy.endpoints d rule ∧ side = d ∧ ports = rule.ports.orAll ∧ i = ruleIndex := by
  rw [ruleSteps, endpoints]
  split
  · simp only [List.mem_cons, List.not_mem_nil, or_false, reduceCtorEq, false_or,
      Step.connect.injEq]
  · rw [List.mem_append, List.mem_map, List.mem_filterMap, List.mem_filterMap]
    constructor
    · rintro (⟨entry, _, hentry⟩ | ⟨entry, hentry, hconnect⟩)
      · rcases policy.referStep_cases d entry with ⟨r, _, hstep⟩ | ⟨_, hstep | hstep⟩ <;>
          cases hstep.symm.trans hentry
      · rcases Option.map_eq_some_iff.mp hconnect with ⟨r, hr, heq⟩
        injection heq with hpeer hside hports hi
        exact ⟨⟨entry, hentry, hpeer ▸ hr⟩, hside.symm, hports.symm, hi.symm⟩
    · rintro ⟨⟨entry, hentry, hr⟩, rfl, rfl, rfl⟩
      exact Or.inr ⟨entry, hentry, by rw [connectStep?, hr, Option.map_some]⟩

theorem anywhere_mem_endpoints_iff {ns : String} {e : Direction} :
    .anywhere ns e ∈ policy.endpoints d rule ↔
      rule.peers = [] ∧ ns = policy.namespaceName ∧ e = d := by
  rw [endpoints]
  cases hpeers : rule.peers with
  | nil => simp
  | cons first rest =>
      rw [← hpeers]
      have hne : rule.peers.isEmpty = false := by rw [hpeers]; rfl
      rw [hne]
      constructor
      · intro h
        rcases List.mem_filterMap.mp h with ⟨entry, _, hentry⟩
        rcases PeerEntry.reference?_eq_some_iff.mp hentry with ⟨p, _, hr, _⟩
        unfold Peer.reference? at hr
        split at hr <;> cases hr
      · rintro ⟨hnil, _⟩
        rw [hpeers] at hnil
        cases hnil

end Policy

/-!
# Rules of documents
-/

namespace Policy

theorem rules_ofValue (v : Value) (d : Direction) :
    (Policy.ofValue v).rules d =
      some (rulesOfValue d.peersField ((v.field "spec").field d.name)) := by
  cases d <;> rfl

theorem peers_ofValue_eq_nil_iff (peersField : String) (r : Value) :
    (Rule.ofValue peersField r).peers = [] ↔ (r.field peersField).maps = [] :=
  List.map_eq_nil_iff

end Policy

def rulePortsText (r : Value) : String :=
  if (r.field "ports").maps = [] then "All ports"
  else ", ".intercalate ((r.field "ports").maps.map fun port => (Port.ofValue port).text)

theorem text?_ports_ofValue (peersField : String) (r : Value) :
    (Rule.ofValue peersField r).ports.orAll.text? = some (rulePortsText r) := by
  have hunset : ∀ v : Value, v.items = [] -> v.maps = [] := by
    intro v hv
    rw [Value.maps, hv]
    rfl
  have hports : (Rule.ofValue peersField r).ports = Ports.ofValue (r.field "ports") := rfl
  rw [hports, rulePortsText]
  generalize r.field "ports" = ports
  cases ports with
  | list items =>
      rw [Ports.ofValue]
      cases (Value.list items).maps with
      | nil => rfl
      | cons first rest =>
          rw [if_neg (List.cons_ne_nil first rest)]
          show some (", ".intercalate (((first :: rest).map Port.ofValue).map Port.text)) = _
          rw [List.map_map]
          rfl
  | _ =>
      rw [hunset _ rfl]
      rfl

namespace Policy

/-- The steps of a rule of a document.  The rule refers to everybody, and links everybody,
exactly if no entry of its list of peers is a mapping, and the ports of its links are
shown as those entries of its list of ports that are mappings, or as all ports if none
is. -/
theorem ruleSteps_ofValue (v : Value) (d : Direction) (i : Nat) (r : Value)
    (hr : ((v.field "spec").field d.name).maps[i]? = some r) :
    let policy := Policy.ofValue v
    let steps := policy.ruleSteps d i (.rule (Rule.ofValue d.peersField r))
    steps <:+: policy.steps ∧
      ((∃ ns e side, .refer (.anywhere ns e) side ∈ steps) ↔
        (r.field d.peersField).maps = []) ∧
      ((∃ ns e side ports j, .connect (.anywhere ns e) side ports j ∈ steps) ↔
        (r.field d.peersField).maps = []) ∧
      ∀ peer side ports j, .connect peer side ports j ∈ steps ->
        ports.text? = some (rulePortsText r) := by
  intro policy steps
  have hentry : ((policy.rules d).getD [])[i]? =
      some (.rule (Rule.ofValue d.peersField r)) := by
    rw [rules_ofValue, Option.getD_some, rulesOfValue, List.getElem?_map, hr]
    rfl
  rw [← peers_ofValue_eq_nil_iff]
  refine ⟨ruleSteps_infix_steps hentry, ?_, ?_, ?_⟩
  · constructor
    · rintro ⟨ns, e, side, hs⟩
      exact ((policy.anywhere_mem_endpoints_iff d _).mp
        (policy.refer_mem_ruleSteps d i _ hs)).1
    · intro hnil
      refine ⟨policy.namespaceName, d, some d, ?_⟩
      show .refer _ _ ∈ policy.ruleSteps d i (.rule (Rule.ofValue d.peersField r))
      rw [ruleSteps, hnil]
      exact List.mem_cons_self
  · constructor
    · rintro ⟨ns, e, side, ports, j, hs⟩
      exact ((policy.anywhere_mem_endpoints_iff d _).mp
        ((policy.connect_mem_ruleSteps_iff d i _).mp hs).1).1
    · intro hnil
      refine ⟨policy.namespaceName, d, d, _, i, (policy.connect_mem_ruleSteps_iff d i _).mpr
        ⟨?_, rfl, rfl, rfl⟩⟩
      exact (policy.anywhere_mem_endpoints_iff d _).mpr ⟨hnil, rfl, rfl⟩
  · intro peer side ports j hs
    rw [((policy.connect_mem_ruleSteps_iff d i _).mp hs).2.2.1]
    exact text?_ports_ofValue d.peersField r

end Policy

/-!
# What is built from documents
-/

def Value.HasRule (item : Value) (d : Direction) (r : Value) : Prop :=
  r ∈ ((item.field "spec").field d.name).maps

namespace Policy

theorem exists_hasRule_of_mem_rules {item : Value} {d : Direction} {entry : RuleEntry}
    (h : entry ∈ ((Policy.ofValue item).rules d).getD []) :
    ∃ r, item.HasRule d r ∧ entry = .rule (Rule.ofValue d.peersField r) := by
  rw [rules_ofValue, Option.getD_some, rulesOfValue] at h
  rcases List.mem_map.mp h with ⟨r, hr, rfl⟩
  exact ⟨r, hr, rfl⟩

theorem anywhere_kind_of_mem_endpoints_ofValue {policy : Policy} {d : Direction} {r : Value}
    {peer : Reference} (h : peer ∈ policy.endpoints d (Rule.ofValue d.peersField r)) :
    peer.kind = .anywhere ↔ (r.field d.peersField).maps = [] := by
  rw [← peers_ofValue_eq_nil_iff]
  constructor
  · intro hkind
    cases peer with
    | anywhere ns e => exact ((policy.anywhere_mem_endpoints_iff d _).mp h).1
    | _ => cases hkind
  · intro hnil
    rw [endpoints, hnil] at h
    rw [List.mem_singleton.mp h]
    rfl

end Policy

namespace Build

variable {deduplicate : Bool} {items : List Value}

/-- The first pass over documents makes a node for everybody only for a rule none of whose peers
is a mapping. -/
theorem exists_hasRule_of_anywhere {node : Node}
    (hnode : node ∈ (ofPolicies deduplicate (items.map Policy.ofValue)).nodes.nodes)
    (hkind : node.kind = .anywhere) :
    ∃ item ∈ items, ∃ d r, item.HasRule d r ∧ (r.field d.peersField).maps = [] := by
  rcases (gathers_ofPolicies deduplicate _).gathered node hnode with
    ⟨first, rest, hfilter, _, hreference, _⟩
  have hfirst : first ∈ passMentions deduplicate (items.map Policy.ofValue) :=
    List.mem_of_mem_filter (hfilter ▸ List.mem_cons_self)
  rcases List.mem_flatMap.mp hfirst with ⟨deed, hdeed, hmention⟩
  rcases List.mem_filterMap.mp hmention with ⟨s, hs, hstep⟩
  rcases exists_build_of_mem_deeds hdeed with ⟨hpolicy, _⟩
  rcases List.mem_map.mp hpolicy with ⟨item, hitem, heq⟩
  have hsteps := (steps_prefix_of_mem_deeds hdeed).subset hs
  rw [← heq] at hsteps
  rw [Node.kind, hreference] at hkind
  rcases Policy.exists_rule_of_mem_steps hsteps with rfl | ⟨d, entry, hentry, j, hrule⟩
  · cases hstep
    cases hkind
  · cases s with
    | refer reference side =>
        cases hstep
        rcases Policy.exists_hasRule_of_mem_rules hentry with ⟨r, hr, rfl⟩
        have hendpoint := Policy.refer_mem_ruleSteps _ d j _ hrule
        exact ⟨item, hitem, d, r, hr,
          (Policy.anywhere_kind_of_mem_endpoints_ofValue hendpoint).mp hkind⟩
    | _ => cases hstep

/-- A link that the first pass over documents makes is one of a rule: it links an endpoint of
that rule with the pods of its policy, and its ports are shown as those of the rule. -/
theorem exists_hasRule_of_mem_links {link : Link}
    (hlink : link ∈ (ofPolicies deduplicate (items.map Policy.ofValue)).links.links) :
    ∃ item ∈ items, ∃ d r, item.HasRule d r ∧ link.ports.text? = some (rulePortsText r) ∧
      ∃ peer : Reference, (peer.kind = .anywhere ↔ (r.field d.peersField).maps = []) ∧
        link.ends =
          ((Policy.ofValue item).offer deduplicate peer d link.ports 0).ends := by
  have hpool := LinkBook.mem_pool_of_mem_links hlink
  rw [links_ofPolicies] at hpool
  rcases LinkBook.ends_of_mem_pool_addOffers hpool with ⟨o, ho, hends, hports⟩ | ⟨_, hold, _⟩
  · rcases List.mem_flatMap.mp ho with ⟨deed, hdeed, hmem⟩
    rcases exists_build_of_mem_deeds hdeed with ⟨hpolicy, _⟩
    rcases List.mem_map.mp hpolicy with ⟨item, hitem, heq⟩
    rcases Deed.exists_connect_of_mem_offers hmem with ⟨peer, side, ports, i, hconnect, rfl⟩
    have hstep := (steps_prefix_of_mem_deeds hdeed).subset hconnect
    rw [← heq] at hstep hends
    rcases Policy.exists_rule_of_mem_steps hstep with hown | ⟨d, entry, hentry, j, hrule⟩
    · cases hown
    · rcases Policy.exists_hasRule_of_mem_rules hentry with ⟨r, hr, rfl⟩
      rcases (Policy.connect_mem_ruleSteps_iff _ d j _).mp hrule with ⟨hpeer, rfl, rfl, rfl⟩
      refine ⟨item, hitem, side, r, hr, ?_, peer,
        Policy.anywhere_kind_of_mem_endpoints_ofValue hpeer, ?_⟩
      · rw [hports, ← heq, Policy.ports_offer]
        exact text?_ports_ofValue side.peersField r
      · rw [hends]
        cases side <;> rfl
  · cases hold

end Build

namespace Policy

def ruleItem (peers ports : List Value) : Value :=
  .record [("spec", .record [("ingress",
    .list [.record [("from", .list peers), ("ports", .list ports)]])])]

/-- A list of peers with a mapping in it leaves somebody, whatever else is in it. -/
theorem ruleSteps_ruleItem :
    let item := ruleItem [.null, .record [("podSelector", .record [])]] [.record [("port", .int 80)]]
    let rule := Value.record [("from", .list [.null, .record [("podSelector", .record [])]]),
      ("ports", .list [.record [("port", .int 80)]])]
    ((item.field "spec").field Direction.ingress.name).maps[0]? = some rule ∧
      (¬ ∃ ns e side, .refer (.anywhere ns e) side ∈
        (Policy.ofValue item).ruleSteps .ingress 0 (.rule (Rule.ofValue "from" rule))) ∧
      rulePortsText rule = "80" := by
  intro item rule
  have hrule : ((item.field "spec").field Direction.ingress.name).maps[0]? = some rule := rfl
  refine ⟨hrule, ?_, by decide +kernel⟩
  exact mt (ruleSteps_ofValue item .ingress 0 rule hrule).2.1.mp (List.cons_ne_nil _ _)

/-- A rule with an address for its only peer and a number for its only port lets everybody
in on all ports. -/
theorem compile_ruleItem :
    let links := (Graph.compile true
      [Policy.ofValue (ruleItem [.text "10.0.0.0/8"] [.int 80])]).links
    links.map (fun link => (link.source, link.target, link.ports.text?)) =
      [("anywhere:ingress", "pod:default:\x7b\x7d", some "All ports")] := by
  decide +kernel

end Policy
end TrafficGraph
