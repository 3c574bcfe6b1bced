import TrafficGraph.Graph.Basic
import TrafficGraph.Proofs.Graph.Offer

/-!
# What a first pass carries out

A policy is worked through until a step of it fails.  The steps before that one
are carried out, and they alone decide what becomes of the nodes and links: the
endpoints that are referred to are the ones that have nodes, and the links are
those that are offered, in the order of the steps.
-/

namespace TrafficGraph

def Step.reference? : Step → Option Reference
  | .refer r _ => some r
  | _ => none

/-- The offer of a peer of a rule: the traffic between the endpoint of the peer
and the pods of the policy. -/
def Policy.offer (policy : Policy) (deduplicate : Bool) (peer : Reference) (d : Direction)
    (ports : Ports) (ruleIndex : Nat) : Offer :=
  let own := policy.podReference.id deduplicate policy.name
  let other := peer.id deduplicate policy.name
  match d with
  | .ingress => ⟨other, own, d, ports, policy.name, ruleIndex⟩
  | .egress => ⟨own, other, d, ports, policy.name, ruleIndex⟩

theorem Policy.ports_offer (policy : Policy) (deduplicate : Bool) (peer : Reference)
    (d : Direction) (ports : Ports) (i : Nat) :
    (policy.offer deduplicate peer d ports i).ports = ports := by
  cases d <;> rfl

def Policy.stepOffer? (policy : Policy) (deduplicate : Bool) : Step → Option Offer
  | .connect peer d ports ruleIndex => some (policy.offer deduplicate peer d ports ruleIndex)
  | _ => none

/-- The steps of a policy that are carried out. -/
structure Deed where
  policy : Policy
  steps : List Step

namespace Deed

def references (deed : Deed) : List Reference := deed.steps.filterMap Step.reference?

def ids (deed : Deed) (deduplicate : Bool) : List String :=
  deed.references.map fun r => r.id deduplicate deed.policy.name

def offers (deed : Deed) (deduplicate : Bool) : List Offer :=
  deed.steps.filterMap (deed.policy.stepOffer? deduplicate)

end Deed

def NodeStore.ids (store : NodeStore) : List String := store.nodes.map Node.id

namespace Build

/-- The steps that are carried out before one fails. -/
def carriedOut (policy : Policy) : List Step → Build → List Step
  | [], _ => []
  | s :: rest, b =>
    match b.step policy s with
    | .ok next => s :: carriedOut policy rest next
    | .error _ => []

def deeds (b : Build) : List Policy → List Deed
  | [] => []
  | policy :: rest =>
    ⟨policy, carriedOut policy policy.steps b⟩ :: deeds (b.addPolicy policy) rest

end Build

/-!
# Nodes

Every reference that succeeds obtains an identity, and a store holds each
identity that was obtained once, in the order in which they came up.
-/

namespace NodeStore

theorem ids_update (store : NodeStore) (id policy : String) :
    (store.update id (Node.addPolicy policy)).ids = store.ids := by
  unfold ids update
  rw [List.map_map]
  apply List.map_congr_left
  intro node _
  rw [Function.comp_apply]
  split <;> rfl

theorem contains_eq (store : NodeStore) (id : String) :
    store.contains id = decide (id ∈ store.ids) := by
  unfold contains get?
  rw [Bool.eq_iff_iff, List.find?_isSome, decide_eq_true_iff]
  constructor
  · rintro ⟨node, hnode, hid⟩
    exact eq_of_beq hid ▸ List.mem_map_of_mem hnode
  · intro hid
    rcases List.mem_map.mp hid with ⟨node, hnode, rfl⟩
    exact ⟨node, hnode, beq_self_eq_true node.id⟩

theorem ensure_of_mem_ids {store : NodeStore} {r : Reference} {policy : String}
    (h : r.id store.deduplicate policy ∈ store.ids) (d : Option Direction) :
    store.ensure r policy d =
      .ok (store.update (r.id store.deduplicate policy) (Node.addPolicy policy)) := by
  have hcontains : store.contains (store.idOf r policy) = true := by
    rw [contains_eq, decide_eq_true_iff]
    exact h
  unfold ensure
  simp only [hcontains, if_true]
  rfl

theorem ids_ensure {store next : NodeStore} {r : Reference} {policy : String}
    {d : Option Direction} (h : store.ensure r policy d = .ok next) :
    next.ids = addName (r.id store.deduplicate policy) store.ids ∧
      next.deduplicate = store.deduplicate := by
  unfold ensure at h
  simp only [idOf, contains_eq, decide_eq_true_iff] at h
  unfold addName
  by_cases hmem : r.id store.deduplicate policy ∈ store.ids
  · rw [if_pos hmem] at h
    cases h
    rw [if_pos (List.contains_iff_mem.mpr hmem)]
    exact ⟨ids_update store _ policy, rfl⟩
  · rw [if_neg hmem] at h
    rw [if_neg (mt List.contains_iff_mem.mp hmem)]
    cases hbody : r.body with
    | error fault =>
        rw [hbody] at h
        cases h
    | ok body =>
        rw [hbody] at h
        cases h
        exact ⟨by simp [ids], rfl⟩

end NodeStore

/-!
# Steps and runs
-/

namespace Build

theorem linkOf_eq (b : Build) (policy : Policy) (peer : Reference) (d : Direction)
    (ports : Ports) (ruleIndex : Nat) :
    b.linkOf policy peer d ports ruleIndex =
      (policy.offer b.deduplicate peer d ports ruleIndex).link := by
  cases d <;> rfl

/-- What one step does: the endpoint it refers to has a node then, and the links
change by what it offers. -/
theorem step_ok {b next : Build} {policy : Policy} {s : Step} (h : b.step policy s = .ok next) :
    next.deduplicate = b.deduplicate ∧
      next.nodes.ids =
        addNames b.nodes.ids
          (s.reference?.toList.map fun r => r.id b.deduplicate policy.name) ∧
      next.links = b.links.addOffers (policy.stepOffer? b.deduplicate s).toList := by
  cases s with
  | refer r d =>
      rw [step] at h
      rcases hensure : b.nodes.ensure r policy.name d with fault | nodes
      · rw [hensure] at h
        cases h
      · rw [hensure] at h
        cases h
        rcases NodeStore.ids_ensure hensure with ⟨hids, hdeduplicate⟩
        exact ⟨hdeduplicate, hids, rfl⟩
  | passOver =>
      cases h
      exact ⟨rfl, rfl, rfl⟩
  | connect peer d ports ruleIndex =>
      rw [step, linkOf_eq] at h
      cases h
      refine ⟨rfl, rfl, ?_⟩
      cases d <;> rfl
  | stumble => cases h

theorem carriedOut_prefix (policy : Policy) (steps : List Step) (b : Build) :
    carriedOut policy steps b <+: steps := by
  induction steps generalizing b with
  | nil => exact List.nil_prefix
  | cons s rest ih =>
      rw [carriedOut]
      cases b.step policy s with
      | error fault => exact List.nil_prefix
      | ok next => exact List.cons_prefix_cons.mpr ⟨rfl, ih next⟩

theorem run_eq_carriedOut (policy : Policy) (steps : List Step) (b : Build) :
    (run policy steps b).1.deduplicate = b.deduplicate ∧
      (run policy steps b).1.nodes.ids =
        addNames b.nodes.ids (Deed.ids ⟨policy, carriedOut policy steps b⟩ b.deduplicate) ∧
      (run policy steps b).1.links =
        b.links.addOffers (Deed.offers ⟨policy, carriedOut policy steps b⟩ b.deduplicate) := by
  induction steps generalizing b with
  | nil => exact ⟨rfl, rfl, rfl⟩
  | cons s rest ih =>
      rw [run, carriedOut]
      cases hstep : b.step policy s with
      | error fault => exact ⟨rfl, rfl, rfl⟩
      | ok next =>
          rcases step_ok hstep with ⟨hdeduplicate, hids, hlinks⟩
          rcases ih next with ⟨hrunDeduplicate, hrunIds, hrunLinks⟩
          rw [hdeduplicate] at hrunDeduplicate hrunIds hrunLinks
          rw [hids, ← addNames_append] at hrunIds
          rw [hlinks, ← LinkBook.addOffers_append] at hrunLinks
          refine ⟨hrunDeduplicate, ?_, ?_⟩
          · rw [hrunIds]
            cases hr : s.reference? <;> simp [Deed.ids, Deed.references, hr]
          · rw [hrunLinks]
            cases ho : policy.stepOffer? b.deduplicate s <;> simp [Deed.offers, ho]

theorem addPolicy_eq_run (b : Build) (policy : Policy) :
    (b.addPolicy policy).nodes = (run policy policy.steps b).1.nodes ∧
      (b.addPolicy policy).links = (run policy policy.steps b).1.links := by
  unfold addPolicy
  rcases run policy policy.steps b with ⟨after, fault⟩
  cases fault with
  | none => exact ⟨rfl, rfl⟩
  | some fault => exact ⟨rfl, rfl⟩

/-!
# The whole pass
-/

theorem foldl_addPolicy_eq_deeds (b : Build) (policies : List Policy) :
    (policies.foldl addPolicy b).deduplicate = b.deduplicate ∧
      (policies.foldl addPolicy b).nodes.ids =
        addNames b.nodes.ids
          ((b.deeds policies).flatMap fun deed => deed.ids b.deduplicate) ∧
      (policies.foldl addPolicy b).links =
        b.links.addOffers
          ((b.deeds policies).flatMap fun deed => deed.offers b.deduplicate) := by
  induction policies generalizing b with
  | nil => exact ⟨rfl, rfl, rfl⟩
  | cons policy rest ih =>
      rcases run_eq_carriedOut policy policy.steps b with ⟨hdeduplicate, hids, hlinks⟩
      rcases addPolicy_eq_run b policy with ⟨hnodes, hbook⟩
      have hsame : (b.addPolicy policy).deduplicate = b.deduplicate := by
        unfold deduplicate at hdeduplicate ⊢
        rw [hnodes, hdeduplicate]
      rcases ih (b.addPolicy policy) with ⟨hrest, hrestIds, hrestLinks⟩
      rw [hsame] at hrest hrestIds hrestLinks
      rw [hnodes, hids, ← addNames_append] at hrestIds
      rw [hbook, hlinks, ← LinkBook.addOffers_append] at hrestLinks
      exact ⟨hrest, hrestIds, hrestLinks⟩

def passDeeds (deduplicate : Bool) (policies : List Policy) : List Deed :=
  (empty deduplicate).deeds policies

theorem deduplicate_ofPolicies (deduplicate : Bool) (policies : List Policy) :
    (ofPolicies deduplicate policies).deduplicate = deduplicate :=
  (foldl_addPolicy_eq_deeds (empty deduplicate) policies).1

theorem deduplicate_nodes_eq (deduplicate : Bool) (policies others : List Policy) :
    (ofPolicies deduplicate policies).nodes.deduplicate =
      (ofPolicies deduplicate others).nodes.deduplicate :=
  (deduplicate_ofPolicies deduplicate policies).trans
    (deduplicate_ofPolicies deduplicate others).symm

theorem ids_ofPolicies (deduplicate : Bool) (policies : List Policy) :
    (ofPolicies deduplicate policies).nodes.ids =
      ((passDeeds deduplicate policies).flatMap fun deed => deed.ids deduplicate).eraseDups := by
  have hids := (foldl_addPolicy_eq_deeds (empty deduplicate) policies).2.1
  have hstart : (empty deduplicate).nodes.ids = ([] : List String).eraseDups := rfl
  rw [hstart, addNames_eraseDups, List.nil_append] at hids
  exact hids

theorem mem_ids_ofPolicies {deduplicate : Bool} {policies : List Policy} {id : String} :
    id ∈ (ofPolicies deduplicate policies).nodes.ids ↔
      ∃ deed ∈ passDeeds deduplicate policies, id ∈ deed.ids deduplicate := by
  rw [ids_ofPolicies, List.mem_eraseDups, List.mem_flatMap]

theorem links_ofPolicies (deduplicate : Bool) (policies : List Policy) :
    (ofPolicies deduplicate policies).links =
      (LinkBook.empty deduplicate).addOffers
        ((passDeeds deduplicate policies).flatMap fun deed => deed.offers deduplicate) :=
  (foldl_addPolicy_eq_deeds (empty deduplicate) policies).2.2

/-!
# Which steps are carried out

Every policy comes up for its turn, and a policy's own pods are always referred
to, since there is nothing about them that cannot be described.
-/

theorem map_policy_deeds (b : Build) (policies : List Policy) :
    (b.deeds policies).map Deed.policy = policies := by
  induction policies generalizing b with
  | nil => rfl
  | cons policy rest ih => rw [deeds, List.map_cons, ih]

theorem exists_build_of_mem_deeds {b : Build} {policies : List Policy} {deed : Deed}
    (h : deed ∈ b.deeds policies) :
    deed.policy ∈ policies ∧
      ∃ before : Build, deed.steps = carriedOut deed.policy deed.policy.steps before := by
  induction policies generalizing b with
  | nil => cases h
  | cons policy rest ih =>
      rw [deeds, List.mem_cons] at h
      rcases h with rfl | h
      · exact ⟨List.mem_cons_self, b, rfl⟩
      · rcases ih h with ⟨hpolicy, hbefore⟩
        exact ⟨List.mem_cons_of_mem policy hpolicy, hbefore⟩

theorem steps_prefix_of_mem_deeds {b : Build} {policies : List Policy} {deed : Deed}
    (h : deed ∈ b.deeds policies) : deed.steps <+: deed.policy.steps := by
  rcases exists_build_of_mem_deeds h with ⟨_, before, hsteps⟩
  rw [hsteps]
  exact carriedOut_prefix deed.policy deed.policy.steps before

theorem step_refer_ok {r : Reference} {body : String} (h : r.body = .ok body) (b : Build)
    (policy : Policy) (d : Option Direction) : ∃ next, b.step policy (.refer r d) = .ok next := by
  rw [step]
  unfold NodeStore.ensure
  simp only [h]
  split
  · exact ⟨_, rfl⟩
  · exact ⟨_, rfl⟩

theorem podReference_mem_references {b : Build} {policies : List Policy} {deed : Deed}
    (h : deed ∈ b.deeds policies) : deed.policy.podReference ∈ deed.references := by
  rcases exists_build_of_mem_deeds h with ⟨_, before, hsteps⟩
  have hbody : deed.policy.podReference.body = .ok _ := rfl
  rcases step_refer_ok hbody before deed.policy none with ⟨next, hnext⟩
  unfold Deed.references
  rw [hsteps, Policy.steps, carriedOut, hnext]
  exact List.mem_cons_self

end Build

/-- Where policies are not to share nodes there is no second pass. -/
theorem Graph.compile_false_eq (policies : List Policy) :
    Graph.compile false policies = (Build.ofPolicies false policies).graph :=
  Build.linkedGraph_of_not_deduplicate (Build.deduplicate_ofPolicies false policies) policies

theorem Graph.nodes_compile (deduplicate : Bool) (policies : List Policy) :
    (compile deduplicate policies).nodes = (Build.ofPolicies deduplicate policies).nodes.nodes := by
  unfold compile Build.linkedGraph Build.linking
  split <;> rfl

theorem Peer.namespaceName_reference? (p : Peer) {ns : String} {r : Reference}
    (h : p.reference? ns = some r) : r.namespaceName = ns := by
  unfold Peer.reference? at h
  split at h <;> cases h <;> rfl

theorem PeerEntry.namespaceName_reference? {entry : PeerEntry} {ns : String} {r : Reference}
    (h : entry.reference? ns = some r) : r.namespaceName = ns := by
  rcases reference?_eq_some_iff.mp h with ⟨p, _, hp, _⟩
  exact p.namespaceName_reference? hp

namespace Policy

@[simp] theorem reference?_referStep (policy : Policy) (d : Direction) (entry : PeerEntry) :
    (policy.referStep d entry).reference? = entry.reference? policy.namespaceName := by
  rcases policy.referStep_cases d entry with ⟨r, hr, hstep⟩ | ⟨hr, hstep | hstep⟩ <;>
    rw [hstep, hr] <;> rfl

/-- Apart from the reference to the policy's own pods, a step belongs to one of its
rules. -/
theorem exists_rule_of_mem_steps {policy : Policy} {s : Step} (h : s ∈ policy.steps) :
    s = .refer policy.podReference none ∨
      ∃ d, ∃ entry ∈ (policy.rules d).getD [], ∃ i, s ∈ policy.ruleSteps d i entry := by
  have hrules : ∀ (d : Direction) (entries : List RuleEntry) (i : Nat),
      s ∈ policy.rulesSteps d i entries ->
      ∃ entry ∈ entries, ∃ j, s ∈ policy.ruleSteps d j entry := by
    intro d entries
    induction entries with
    | nil =>
        intro i hs
        cases hs
    | cons entry rest ih =>
        intro i hs
        rcases List.mem_append.mp hs with hentry | hrest
        · exact ⟨entry, List.mem_cons_self, i, hentry⟩
        · rcases ih (i + 1) hrest with ⟨other, hother, j, hj⟩
          exact ⟨other, List.mem_cons_of_mem entry hother, j, hj⟩
  rcases List.mem_cons.mp h with hown | hs
  · exact Or.inl hown
  · rcases List.mem_flatMap.mp hs with ⟨d, _, hd⟩
    exact Or.inr ⟨d, hrules d _ 0 hd⟩

theorem ruleSteps_infix_rulesSteps (policy : Policy) (d : Direction) {entries : List RuleEntry}
    {i : Nat} {entry : RuleEntry} (h : entries[i]? = some entry) (ruleIndex : Nat) :
    policy.ruleSteps d (ruleIndex + i) entry <:+: policy.rulesSteps d ruleIndex entries := by
  induction entries generalizing i ruleIndex with
  | nil => cases h
  | cons first rest ih =>
      cases i with
      | zero =>
          cases h
          exact (List.prefix_append _ _).isInfix
      | succ i =>
          have hrest := ih (by simpa using h) (ruleIndex + 1)
          rw [Nat.add_right_comm, Nat.add_assoc] at hrest
          exact hrest.trans (List.suffix_append _ _).isInfix

/-- The steps of a rule are some of the steps of its policy, one behind another. -/
theorem ruleSteps_infix_steps {policy : Policy} {d : Direction} {i : Nat} {entry : RuleEntry}
    (h : ((policy.rules d).getD [])[i]? = some entry) :
    policy.ruleSteps d i entry <:+: policy.steps := by
  have hrules := policy.ruleSteps_infix_rulesSteps d h 0
  rw [Nat.zero_add] at hrules
  refine hrules.trans (List.IsInfix.trans ?_ (List.suffix_cons _ _).isInfix)
  cases d with
  | ingress => exact (List.prefix_append _ _).isInfix
  | egress =>
      have hlast : policy.rulesSteps .egress 0 ((policy.rules .egress).getD []) ++ [] <:+:
          Direction.all.flatMap fun e => policy.rulesSteps e 0 ((policy.rules e).getD []) :=
        (List.suffix_append _ _).isInfix
      rwa [List.append_nil] at hlast

theorem namespaceName_of_mem_ruleSteps {policy : Policy} {d : Direction} {ruleIndex : Nat}
    {entry : RuleEntry} {s : Step} (hs : s ∈ policy.ruleSteps d ruleIndex entry) {r : Reference}
    (hr : s.reference? = some r) : r.namespaceName = policy.namespaceName := by
  cases entry with
  | absent => cases hs
  | malformed =>
      cases List.mem_singleton.mp hs
      cases hr
  | rule rule =>
      rw [ruleSteps] at hs
      split at hs
      · simp only [List.mem_cons, List.not_mem_nil, or_false] at hs
        rcases hs with rfl | rfl
        · cases hr
          rfl
        · cases hr
      · rcases List.mem_append.mp hs with hrefer | hconnect
        · rcases List.mem_map.mp hrefer with ⟨peer, _, rfl⟩
          rw [reference?_referStep] at hr
          exact PeerEntry.namespaceName_reference? hr
        · rcases List.mem_filterMap.mp hconnect with ⟨peer, _, hpeer⟩
          rcases Option.map_eq_some_iff.mp hpeer with ⟨q, _, rfl⟩
          cases hr

end Policy

theorem Deed.namespaceName_of_mem_references {b : Build} {policies : List Policy} {deed : Deed}
    (hdeed : deed ∈ b.deeds policies) {r : Reference} (hr : r ∈ deed.references) :
    r.namespaceName = deed.policy.namespaceName := by
  rcases List.mem_filterMap.mp hr with ⟨s, hs, href⟩
  have hsteps : s ∈ deed.policy.steps := (Build.steps_prefix_of_mem_deeds hdeed).subset hs
  rcases Policy.exists_rule_of_mem_steps hsteps with rfl | ⟨d, entry, _, i, hrule⟩
  · cases href
    rfl
  · exact Policy.namespaceName_of_mem_ruleSteps hrule href

theorem Deed.exists_connect_of_mem_offers {deed : Deed} {deduplicate : Bool} {o : Offer}
    (h : o ∈ deed.offers deduplicate) :
    ∃ peer d ports ruleIndex, .connect peer d ports ruleIndex ∈ deed.steps ∧
      o = deed.policy.offer deduplicate peer d ports ruleIndex := by
  rcases List.mem_filterMap.mp h with ⟨s, hs, ho⟩
  cases s with
  | connect peer d ports ruleIndex =>
      cases ho
      exact ⟨peer, d, ports, ruleIndex, hs, rfl⟩
  | _ => cases ho

end TrafficGraph
