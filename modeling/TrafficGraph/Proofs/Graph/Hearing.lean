import Mathlib.Data.List.TakeWhile
import TrafficGraph.Proofs.Graph.CrossPolicy

/-!
# What the second pass hears of policies

An owner is heard until the first entry of its rules that is no rule, or the first
entry of their peers of which it cannot be told whom it picks.  What is heard of a policy is a
policy itself,
and the second pass registers exactly what the policies give rise to as far as they
are heard, whatever the entries behind are.
-/

namespace TrafficGraph

/-!
# Proposals in front of a stumble
-/

def Proposal.heeded : List Proposal → List (String × Link)
  | .link id proposed :: rest => (id, proposed) :: heeded rest
  | _ => []

namespace Proposal

theorem heeded_links_append (entries : List (String × Link)) (rest : List Proposal) :
    heeded (entries.map (fun entry => .link entry.1 entry.2) ++ rest) =
      entries ++ heeded rest := by
  induction entries with
  | nil => rfl
  | cons entry more ih => rw [List.map_cons, List.cons_append, heeded, ih, List.cons_append]

theorem heeded_stumbles_append {stumbles : List Proposal} (hne : stumbles ≠ [])
    (hall : ∀ proposal ∈ stumbles, proposal = .stumble) (rest : List Proposal) :
    heeded (stumbles ++ rest) = [] := by
  cases stumbles with
  | nil => exact absurd rfl hne
  | cons first more =>
      rw [hall first List.mem_cons_self]
      rfl

end Proposal

namespace Inference

theorem book_run (proposals : List Proposal) (s : Inference) :
    (run proposals s).1.book = s.book.registerAll (Proposal.heeded proposals) := by
  induction proposals generalizing s with
  | nil => rfl
  | cons proposal rest ih =>
      cases proposal with
      | stumble => rfl
      | link id link =>
          rw [run, Proposal.heeded, LinkBook.registerAll, List.foldl_cons]
          rcases hregister : s.book.register id link with ⟨fresh, book⟩
          cases fresh with
          | true => exact ih _
          | false => exact ih _

end Inference

/-!
# Policies as far as they are heard
-/

theorem PeerEntry.trips_of_seenPeer? {entry : PeerEntry} {p : Peer}
    (h : entry.seenPeer? = some p) (owner target : Policy) : entry.trips owner target = false := by
  cases entry with
  | peer q => rfl
  | oddNamespaces pods => rfl
  | _ => cases h

namespace Policy

/-- Whether an owner gets past an entry of a list of peers: it can be told of each of the other
policies whether the entry picks it. -/
def hears (owner : Policy) (policies : List Policy) (entry : PeerEntry) : Bool :=
  policies.all fun target => owner.sameAs target || !entry.trips owner target

theorem hears_of_seenPeer? {entry : PeerEntry} {p : Peer} (h : entry.seenPeer? = some p)
    (owner : Policy) (policies : List Policy) : owner.hears policies entry = true := by
  rw [hears, List.all_eq_true]
  intro target _
  rw [PeerEntry.trips_of_seenPeer? h, Bool.not_false, Bool.or_true]

section

variable (heeds : PeerEntry → Bool)

/-- The rules in front of the first entry that is no rule.  The peers of the last one are those
in front of the first entry that is not heeded. -/
def heardRules : List RuleEntry → List RuleEntry
  | .rule rule :: rest =>
    .rule { rule with peers := rule.peers.takeWhile heeds } ::
      if rule.peers.all heeds then heardRules rest else []
  | _ => []

def heardOut : List RuleEntry → Bool
  | [] => true
  | .rule rule :: rest => rule.peers.all heeds && heardOut rest
  | _ => false

end

/-- A policy as far as it is heard when the links between some policies are inferred. -/
def heard (owner : Policy) (policies : List Policy) : Policy :=
  { owner with
    ingress := some (heardRules (owner.hears policies) (owner.ingress.getD []))
    egress :=
      if heardOut (owner.hears policies) (owner.ingress.getD []) then
        some (heardRules (owner.hears policies) (owner.egress.getD []))
      else none }

/-- How far a policy is heard depends on which policies there are and not on their order. -/
theorem heard_congr (owner : Policy) {policies others : List Policy}
    (h : ∀ p, p ∈ policies ↔ p ∈ others) : owner.heard policies = owner.heard others := by
  have hears_eq : owner.hears policies = owner.hears others := by
    funext entry
    rw [Bool.eq_iff_iff, hears, hears, List.all_eq_true, List.all_eq_true]
    exact forall_congr' fun p => imp_congr_left (h p)
  rw [heard, heard, hears_eq]

theorem heardOut_iff {heeds : PeerEntry → Bool} {rules : List RuleEntry} :
    heardOut heeds rules = true ↔ ∀ entry ∈ rules, ∃ rule, entry = .rule rule ∧
      ∀ peer ∈ rule.peers, heeds peer = true := by
  induction rules with
  | nil => simp [heardOut]
  | cons entry rest ih =>
      cases entry with
      | rule rule => simp [heardOut, ih]
      | absent => simp [heardOut]
      | malformed => simp [heardOut]

theorem Typed.heardOut {owner : Policy} (h : owner.Typed) (policies : List Policy)
    (d : Direction) : heardOut (owner.hears policies) ((owner.rules d).getD []) = true := by
  rw [heardOut_iff]
  intro entry hentry
  rcases h d entry hentry with ⟨rule, rfl, hpeers⟩
  refine ⟨rule, rfl, ?_⟩
  intro peer hpeer
  rcases hpeers peer hpeer with ⟨p, rfl⟩
  exact hears_of_seenPeer? rfl owner policies

def rulesEntries (owner : Policy) (policies : List Policy) (d : Direction)
    (rules : List RuleEntry) : List (String × Link) :=
  (rules.flatMap entryPeers).flatMap fun peer =>
    policies.filterMap fun target => owner.inferred? target d peer

theorem crossEntries_eq (owner : Policy) (policies : List Policy) :
    owner.crossEntries policies =
      owner.rulesEntries policies .ingress ((owner.rules .ingress).getD []) ++
        owner.rulesEntries policies .egress ((owner.rules .egress).getD []) := by
  rw [← List.append_nil (owner.rulesEntries policies .egress _)]
  rfl

theorem rules_egress_heard (owner : Policy) (policies : List Policy) :
    ((owner.heard policies).rules .egress).getD [] =
      if heardOut (owner.hears policies) (owner.ingress.getD []) then
        heardRules (owner.hears policies) (owner.egress.getD [])
      else [] := by
  show (if heardOut (owner.hears policies) (owner.ingress.getD []) then
    some (heardRules (owner.hears policies) (owner.egress.getD [])) else none).getD [] = _
  split <;> rfl

theorem crossEntries_heard (owner : Policy) (policies : List Policy) :
    (owner.heard policies).crossEntries policies =
      owner.rulesEntries policies .ingress
          (heardRules (owner.hears policies) (owner.ingress.getD [])) ++
        if heardOut (owner.hears policies) (owner.ingress.getD []) then
          owner.rulesEntries policies .egress
            (heardRules (owner.hears policies) (owner.egress.getD []))
        else [] := by
  rw [crossEntries_eq, rules_egress_heard]
  split <;> rfl

theorem heardRules_of_heardOut {heeds : PeerEntry → Bool} {rules : List RuleEntry}
    (h : heardOut heeds rules = true) : heardRules heeds rules = rules := by
  induction rules with
  | nil => rfl
  | cons entry rest ih =>
      cases entry with
      | rule rule =>
          rw [Policy.heardOut, Bool.and_eq_true] at h
          have hkept : rule.peers.takeWhile heeds = rule.peers :=
            List.takeWhile_eq_self_iff.mpr (List.all_eq_true.mp h.1)
          rw [heardRules, hkept, if_pos h.1, ih h.2]
      | absent => cases h
      | malformed => cases h

theorem Typed.rules_heard {owner : Policy} (h : owner.Typed) (policies : List Policy)
    (d : Direction) :
    ((owner.heard policies).rules d).getD [] = (owner.rules d).getD [] := by
  cases d with
  | ingress => exact heardRules_of_heardOut (h.heardOut policies .ingress)
  | egress =>
      have hingress : Policy.heardOut (owner.hears policies) (owner.ingress.getD []) = true :=
        h.heardOut policies .ingress
      rw [rules_egress_heard, hingress]
      exact heardRules_of_heardOut (h.heardOut policies .egress)

/-!
# Proposals of an owner
-/

section Owner

variable {owner : Policy} {policies : List Policy} {hasNode : String → Bool}

/-- An owner stumbles over an entry that it does not get past. -/
theorem heeded_unheard {entry : PeerEntry} (h : owner.hears policies entry = false)
    (d : Direction) (ports : Ports) (rest : List Proposal) :
    Proposal.heeded (policies.filterMap (owner.propose? hasNode d ports entry) ++ rest) = [] := by
  rw [hears, List.all_eq_false] at h
  rcases h with ⟨other, hother, htrips⟩
  rw [Bool.or_eq_true, not_or, Bool.not_eq_true, Bool.not_eq_true, Bool.not_eq_false'] at htrips
  have hunseen : entry.seenPeer? = none := by
    cases hseen : entry.seenPeer? with
    | none => rfl
    | some p => exact absurd htrips.2 (by rw [PeerEntry.trips_of_seenPeer? hseen]; simp)
  apply Proposal.heeded_stumbles_append
  · have hstumble : owner.propose? hasNode d ports entry other = some .stumble := by
      rw [propose?, if_neg (by simp [htrips.1]), hunseen]
      exact if_pos htrips.2
    exact List.ne_nil_of_mem (List.mem_filterMap.mpr ⟨other, hother, hstumble⟩)
  · intro proposal hproposal
    rcases List.mem_filterMap.mp hproposal with ⟨target, _, hsome⟩
    rw [propose?, hunseen] at hsome
    split at hsome
    · cases hsome
    · simp only at hsome
      split at hsome <;> cases hsome
      rfl

theorem proposals_unseen {entry : PeerEntry} (h : owner.hears policies entry = true)
    (hunseen : entry.seenPeer? = none) (d : Direction) (ports : Ports) :
    policies.filterMap (owner.propose? hasNode d ports entry) = [] := by
  rw [List.filterMap_eq_nil_iff]
  intro target htarget
  have hheard := List.all_eq_true.mp h target htarget
  rw [propose?, hunseen]
  by_cases hsame : owner.sameAs target = true
  · rw [if_pos hsame]
  · rw [Bool.or_eq_true, Bool.not_eq_true'] at hheard
    rw [if_neg hsame]
    exact if_neg (by simp [hheard.resolve_left hsame])

section Targets

variable (hnodes : ∀ target ∈ policies, hasNode target.podId = true)

include hnodes

theorem heeded_peers_append (d : Direction) (rule : Rule) (peers : List PeerEntry)
    (rest : List Proposal) :
    Proposal.heeded ((peers.flatMap fun entry =>
        policies.filterMap (owner.propose? hasNode d rule.ports.orAll entry)) ++ rest) =
      (((peers.takeWhile (owner.hears policies)).filterMap (ruledPeer? rule)).flatMap fun peer =>
        policies.filterMap fun target => owner.inferred? target d peer) ++
      if peers.all (owner.hears policies) then Proposal.heeded rest else [] := by
  induction peers with
  | nil => rfl
  | cons entry more ih =>
      rw [List.flatMap_cons, List.append_assoc, List.takeWhile_cons, List.all_cons]
      cases hheard : owner.hears policies entry with
      | false => exact heeded_unheard hheard d rule.ports.orAll _
      | true =>
          rw [if_pos rfl, Bool.true_and, List.filterMap_cons]
          cases hseen : entry.seenPeer? with
          | none =>
              rw [proposals_unseen hheard hseen, List.nil_append, ih, ruledPeer?, hseen]
              rfl
          | some p =>
              rw [proposals_seen hnodes d rule hseen, Proposal.heeded_links_append, ih,
                ruledPeer?, hseen, Option.map_some, List.flatMap_cons, List.append_assoc]

theorem heeded_rules_append (d : Direction) (rules : List RuleEntry) (rest : List Proposal) :
    Proposal.heeded (rules.flatMap (owner.ruleProposals policies hasNode d) ++ rest) =
      owner.rulesEntries policies d (heardRules (owner.hears policies) rules) ++
        if heardOut (owner.hears policies) rules then Proposal.heeded rest else [] := by
  induction rules with
  | nil => rfl
  | cons entry more ih =>
      rw [List.flatMap_cons, List.append_assoc]
      cases entry with
      | absent => rfl
      | malformed => rfl
      | rule rule =>
          have hpeers := @heeded_peers_append owner policies hasNode hnodes d
            { rule with peers := rule.peers.takeWhile (owner.hears policies) } rule.peers
            (more.flatMap (owner.ruleProposals policies hasNode d) ++ rest)
          rw [ih] at hpeers
          have hcons : ∀ entries, owner.rulesEntries policies d
              (.rule { rule with peers := rule.peers.takeWhile (owner.hears policies) } :: entries) =
              ((rule.peers.takeWhile (owner.hears policies)).filterMap (ruledPeer? { rule with
                peers := rule.peers.takeWhile (owner.hears policies) })).flatMap (fun peer =>
                  policies.filterMap fun target => owner.inferred? target d peer) ++
                owner.rulesEntries policies d entries := by
            intro entries
            unfold rulesEntries
            rw [List.flatMap_cons, List.flatMap_append]
            rfl
          refine hpeers.trans ?_
          rw [heardRules, Policy.heardOut, hcons, List.append_assoc]
          congr 1
          cases rule.peers.all (owner.hears policies) <;> rfl

end Targets

/-- The links that an owner proposes before it stumbles are what it gives rise to as
far as it is heard. -/
theorem heeded_proposals (howner : hasNode owner.podId = true)
    (hnodes : ∀ target ∈ policies, hasNode target.podId = true) :
    Proposal.heeded (owner.proposals policies hasNode) =
      (owner.heard policies).crossEntries policies := by
  have hsplit : owner.proposals policies hasNode =
      (owner.ingress.getD []).flatMap (owner.ruleProposals policies hasNode .ingress) ++
        ((owner.egress.getD []).flatMap (owner.ruleProposals policies hasNode .egress) ++ []) := by
    rw [proposals, if_pos howner]
    rfl
  rw [crossEntries_heard, hsplit, heeded_rules_append hnodes, heeded_rules_append hnodes]
  simp [Proposal.heeded]

end Owner

end Policy

namespace Inference

theorem book_foldl_addOwner_heard {policies : List Policy} {hasNode : String → Bool}
    (hnodes : ∀ p ∈ policies, hasNode p.podId = true) {owners : List Policy}
    (hsub : owners ⊆ policies) (s : Inference) :
    (owners.foldl (addOwner policies hasNode) s).book =
      s.book.registerAll
        (owners.flatMap fun owner => (owner.heard policies).crossEntries policies) := by
  induction owners generalizing s with
  | nil => rfl
  | cons owner rest ih =>
      have howner : owner ∈ policies := hsub List.mem_cons_self
      have hrest : rest ⊆ policies := fun p hp => hsub (List.mem_cons_of_mem owner hp)
      rw [List.foldl_cons, ih hrest, book_addOwner, book_run,
        Policy.heeded_proposals (hnodes owner howner) hnodes, List.flatMap_cons,
        LinkBook.registerAll_append]

end Inference

/-- What the second pass over some policies registers one after another. -/
def heardEntries (policies : List Policy) : List (String × Link) :=
  policies.flatMap fun owner => (owner.heard policies).crossEntries policies

namespace Build

theorem book_inference (policies : List Policy) :
    ((ofPolicies true policies).inference policies).book =
      (ofPolicies true policies).links.registerAll (heardEntries policies) :=
  Inference.book_foldl_addOwner_heard (fun _ hp => contains_podId hp) (List.Subset.refl _) _

end Build

namespace Graph

theorem compile_true_eq (policies : List Policy) :
    compile true policies =
      ⟨(Build.ofPolicies true policies).nodes.nodes,
        ((Build.ofPolicies true policies).links.registerAll (heardEntries policies)).links⟩ := by
  rw [compile, Build.linkedGraph_of_deduplicate (Build.deduplicate_ofPolicies true policies),
    Build.book_inference]

end Graph

/-!
# Links of both passes

Where namespaces hold no colons and names no arrows, no link of the first pass has
the identity of an inferred one.  Then the graph lists the links of the first pass
and behind them the inferred ones, and the mark of the latter tells which is which.
-/

namespace Graph

def direct (graph : Graph) : List Link := graph.links.filter fun link => !link.crossPolicy

def inferred (graph : Graph) : List Link := graph.links.filter fun link => link.crossPolicy

end Graph

theorem exists_of_mem_heardEntries {policies : List Policy} {entry : String × Link}
    (h : entry ∈ heardEntries policies) :
    ∃ owner ∈ policies, ∃ target ∈ policies, ∃ d ports combined,
      (owner.heard policies).Infers target d ∧
        entry = (owner.crossId target d, crossLink owner target d ports combined) := by
  rcases List.mem_flatMap.mp h with ⟨owner, howner, hmem⟩
  rcases List.mem_flatMap.mp hmem with ⟨d, _, hd⟩
  rcases List.mem_flatMap.mp hd with ⟨peer, hpeer, htargets⟩
  rcases List.mem_filterMap.mp htargets with ⟨target, htarget, hsome⟩
  rcases Policy.inferred?_eq_some_iff.mp hsome with ⟨⟨hapart, hreaches⟩, rfl⟩
  exact ⟨owner, howner, target, htarget, d, peer.1.ports.orAll, peer.2.isCombined,
    ⟨hapart, peer, hpeer, hreaches⟩, rfl⟩

theorem mem_keys_heardEntries {policies : List Policy} {id : String} :
    id ∈ (heardEntries policies).map Prod.fst ↔
      ∃ owner ∈ policies, ∃ target ∈ policies, ∃ d,
        (owner.heard policies).Infers target d ∧ id = owner.crossId target d := by
  unfold heardEntries
  rw [List.map_flatMap, List.mem_flatMap]
  constructor
  · rintro ⟨owner, howner, hid⟩
    exact ⟨owner, howner, ((owner.heard policies).mem_keys_crossEntries policies id).mp hid⟩
  · rintro ⟨owner, howner, hcross⟩
    exact ⟨owner, howner, ((owner.heard policies).mem_keys_crossEntries policies id).mpr hcross⟩

theorem crossPolicy_crossLink (owner target : Policy) (d : Direction) (ports : Ports)
    (combined : Bool) : (crossLink owner target d ports combined).crossPolicy = true := by
  cases d <;> rfl

namespace Graph

section Plain

variable {policies : List Policy} (hplain : ∀ p ∈ policies, p.Plain)

include hplain

theorem links_compile :
    (∀ link ∈ (Build.ofPolicies true policies).graph.links, link.crossPolicy = false) ∧
      (compile true policies).links = (Build.ofPolicies true policies).graph.links ++
        ((heardEntries policies).foldl registerEntry []).map Prod.snd := by
  rcases Build.exists_lists_ofPolicies hplain with ⟨entries, hlists, hfirst, hfree⟩
  have hgraph : (Build.ofPolicies true policies).graph.links = entries.map Prod.snd :=
    hlists.links_eq
  have hnew : ∀ entry ∈ heardEntries policies, entry.1 ∉ entries.map Prod.fst := by
    intro entry hentry
    rcases exists_of_mem_heardEntries hentry with ⟨owner, howner, target, htarget, d, _, _, _, rfl⟩
    exact hfree owner howner target htarget d
  constructor
  · intro link hlink
    rw [hgraph] at hlink
    rcases List.mem_map.mp hlink with ⟨entry, hentry, rfl⟩
    exact hfirst entry hentry
  · have hregistered := foldl_registerEntry_append hnew []
    rw [List.append_nil] at hregistered
    rw [compile_true_eq, (hlists.registerAll _).links_eq, hregistered, List.map_append, hgraph]

theorem direct_compile :
    (compile true policies).direct = (Build.ofPolicies true policies).graph.links := by
  rcases links_compile hplain with ⟨hfirst, hlinks⟩
  have hkept : (Build.ofPolicies true policies).graph.links.filter
      (fun link => !link.crossPolicy) = (Build.ofPolicies true policies).graph.links := by
    rw [List.filter_eq_self]
    intro link hlink
    rw [hfirst link hlink]
    rfl
  have hnone : (((heardEntries policies).foldl registerEntry []).map Prod.snd).filter
      (fun link => !link.crossPolicy) = [] := by
    rw [List.filter_eq_nil_iff]
    intro link hlink
    rcases List.mem_map.mp hlink with ⟨entry, hentry, rfl⟩
    rcases exists_of_mem_heardEntries (mem_of_mem_foldl_registerEntry hentry) with
      ⟨owner, _, target, _, d, _, _, _, rfl⟩
    simp [crossPolicy_crossLink]
  rw [direct, hlinks, List.filter_append, hkept, hnone, List.append_nil]

theorem inferred_compile :
    (compile true policies).inferred =
      ((heardEntries policies).foldl registerEntry []).map Prod.snd := by
  rcases links_compile hplain with ⟨hfirst, hlinks⟩
  have hnone : (Build.ofPolicies true policies).graph.links.filter
      (fun link => link.crossPolicy) = [] := by
    rw [List.filter_eq_nil_iff]
    intro link hlink
    rw [hfirst link hlink]
    exact Bool.false_ne_true
  have hkept : (((heardEntries policies).foldl registerEntry []).map Prod.snd).filter
      (fun link => link.crossPolicy) =
        ((heardEntries policies).foldl registerEntry []).map Prod.snd := by
    rw [List.filter_eq_self]
    intro link hlink
    rcases List.mem_map.mp hlink with ⟨entry, hentry, rfl⟩
    rcases exists_of_mem_heardEntries (mem_of_mem_foldl_registerEntry hentry) with
      ⟨owner, _, target, _, d, _, _, _, rfl⟩
    exact crossPolicy_crossLink owner target d _ _
  rw [inferred, hlinks, List.filter_append, hnone, hkept, List.nil_append]

end Plain

end Graph
end TrafficGraph
