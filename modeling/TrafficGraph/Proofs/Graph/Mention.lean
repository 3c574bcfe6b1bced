import TrafficGraph.Proofs.Graph.Deed

/-!
# The nodes of a first pass

Policies mention endpoints, and a store holds one node for each identity that was
mentioned, in the order in which the identities came up.  The first mention makes
the node, and the others leave nothing but the names of their policies.
-/

namespace TrafficGraph

/-- A reference of a policy to an endpoint, from a rule of a direction if one is
given. -/
structure Mention where
  reference : Reference
  policy : String
  direction : Option Direction

namespace Mention

def id (m : Mention) (deduplicate : Bool) : String := m.reference.id deduplicate m.policy

end Mention

def Step.mention? (policy : String) : Step → Option Mention
  | .refer r d => some ⟨r, policy, d⟩
  | _ => none

def Deed.mentions (deed : Deed) : List Mention :=
  deed.steps.filterMap (Step.mention? deed.policy.name)

/-- Whether a node is the one that the first of some mentions makes, with the names
of all of them. -/
def Node.GatheredFrom (mentions : List Mention) (node : Node) : Prop :=
  ∃ first rest, mentions = first :: rest ∧ first.reference.body = .ok node.body ∧
    node.reference = first.reference ∧ node.direction = first.direction ∧
    node.policies = (mentions.map Mention.policy).eraseDups

/-- Whether the nodes of a store are those of some mentions. -/
structure NodeStore.Gathers (store : NodeStore) (mentions : List Mention) : Prop where
  ids : store.ids = (mentions.map fun m => m.id store.deduplicate).eraseDups
  gathered : ∀ node ∈ store.nodes,
    node.GatheredFrom (mentions.filter fun m => m.id store.deduplicate == node.id)

namespace Node.GatheredFrom

theorem single {node : Node} {m : Mention} (hbody : m.reference.body = .ok node.body)
    (hreference : node.reference = m.reference) (hdirection : node.direction = m.direction)
    (hpolicies : node.policies = [m.policy]) : node.GatheredFrom [m] := by
  refine ⟨m, [], rfl, hbody, hreference, hdirection, ?_⟩
  simp [hpolicies, List.eraseDups_cons]

theorem concat {mentions : List Mention} {node : Node} (h : node.GatheredFrom mentions)
    (m : Mention) : (node.addPolicy m.policy).GatheredFrom (mentions ++ [m]) := by
  rcases h with ⟨first, rest, rfl, hbody, hreference, hdirection, hpolicies⟩
  refine ⟨first, rest ++ [m], rfl, hbody, hreference, hdirection, ?_⟩
  rw [List.map_append, List.map_singleton, eraseDups_concat, ← hpolicies]
  rfl

end Node.GatheredFrom

/-!
# Steps and runs
-/

namespace NodeStore

/-- The node of a mention is there, and its policy is noted, or it is made at the end. -/
theorem ensure_cases {store next : NodeStore} {m : Mention}
    (h : store.ensure m.reference m.policy m.direction = .ok next) :
    (m.id store.deduplicate ∈ store.ids ∧
      next = store.update (m.id store.deduplicate) (Node.addPolicy m.policy)) ∨
    (m.id store.deduplicate ∉ store.ids ∧ ∃ body, m.reference.body = .ok body ∧
      next = { store with
        nodes := store.nodes ++
          [⟨m.id store.deduplicate, m.reference, body, m.direction, [m.policy]⟩] }) := by
  unfold ensure at h
  simp only [idOf, contains_eq, decide_eq_true_iff] at h
  split at h
  · rename_i hmem
    cases h
    exact .inl ⟨hmem, rfl⟩
  · rename_i hmem
    cases hbody : m.reference.body with
    | error fault =>
        rw [hbody] at h
        cases h
    | ok body =>
        rw [hbody] at h
        cases h
        exact .inr ⟨hmem, body, rfl, rfl⟩

namespace Gathers

theorem empty (deduplicate : Bool) : (NodeStore.empty deduplicate).Gathers [] :=
  ⟨rfl, by simp [NodeStore.empty]⟩

theorem ensure {store next : NodeStore} {done : List Mention} (h : store.Gathers done)
    {m : Mention} (hok : store.ensure m.reference m.policy m.direction = .ok next) :
    next.Gathers (done ++ [m]) := by
  rcases NodeStore.ids_ensure hok with ⟨hids, hdeduplicate⟩
  have hothers : ∀ id, id ≠ m.id store.deduplicate ->
      ((done ++ [m]).filter fun other => other.id store.deduplicate == id) =
        done.filter fun other => other.id store.deduplicate == id := by
    intro id hid
    simp [List.filter_append, hid.symm]
  have hown : ((done ++ [m]).filter fun other =>
      other.id store.deduplicate == m.id store.deduplicate) =
        (done.filter fun other => other.id store.deduplicate == m.id store.deduplicate) ++
          [m] := by
    simp [List.filter_append]
  constructor
  · rw [hids, hdeduplicate, h.ids, List.map_append, List.map_singleton, eraseDups_concat]
    rfl
  · rw [hdeduplicate]
    intro node hnode
    rcases ensure_cases hok with ⟨_, rfl⟩ | ⟨hmem, body, hbody, rfl⟩
    · rcases List.mem_map.mp hnode with ⟨old, hold, rfl⟩
      by_cases hid : old.id = m.id store.deduplicate
      · rw [if_pos (beq_iff_eq.mpr hid)]
        show (old.addPolicy m.policy).GatheredFrom
          ((done ++ [m]).filter fun other => other.id store.deduplicate == old.id)
        rw [hid, hown, ← hid]
        exact (h.gathered old hold).concat m
      · rw [if_neg (mt beq_iff_eq.mp hid), hothers old.id hid]
        exact h.gathered old hold
    · rcases List.mem_append.mp hnode with hold | hnew
      · have hid : node.id ≠ m.id store.deduplicate := by
          intro heq
          rw [← heq] at hmem
          exact hmem (List.mem_map_of_mem hold)
        rw [hothers node.id hid]
        exact h.gathered node hold
      · cases List.mem_singleton.mp hnew
        have hnone : (done.filter fun other =>
            other.id store.deduplicate == m.id store.deduplicate) = [] := by
          rw [List.filter_eq_nil_iff]
          intro other hother heq
          rw [h.ids, List.mem_eraseDups, ← eq_of_beq heq] at hmem
          exact hmem (List.mem_map_of_mem hother)
        show Node.GatheredFrom ((done ++ [m]).filter fun other =>
          other.id store.deduplicate == m.id store.deduplicate) _
        rw [hown, hnone]
        exact .single hbody rfl rfl rfl

end Gathers
end NodeStore

namespace Build

theorem gathers_step {b next : Build} {policy : Policy} {s : Step} {done : List Mention}
    (h : b.nodes.Gathers done) (hok : b.step policy s = .ok next) :
    next.nodes.Gathers (done ++ (s.mention? policy.name).toList) := by
  cases s with
  | refer r d =>
      rw [step] at hok
      rcases hensure : b.nodes.ensure r policy.name d with fault | nodes
      · rw [hensure] at hok
        cases hok
      · rw [hensure] at hok
        cases hok
        exact h.ensure (m := ⟨r, policy.name, d⟩) hensure
  | passOver =>
      cases hok
      simpa [Step.mention?] using h
  | connect peer d ports ruleIndex =>
      rw [step] at hok
      cases hok
      simpa [Step.mention?] using h
  | stumble => cases hok

theorem gathers_run {policy : Policy} {steps : List Step} {b : Build} {done : List Mention}
    (h : b.nodes.Gathers done) :
    (run policy steps b).1.nodes.Gathers
      (done ++ Deed.mentions ⟨policy, carriedOut policy steps b⟩) := by
  induction steps generalizing b done with
  | nil => simpa [Deed.mentions, carriedOut] using h
  | cons s rest ih =>
      rw [run, carriedOut]
      cases hstep : b.step policy s with
      | error fault => simpa [Deed.mentions] using h
      | ok next =>
          have hrest := ih (gathers_step h hstep)
          rw [List.append_assoc] at hrest
          cases hm : s.mention? policy.name <;>
            simpa [Deed.mentions, hm] using hrest

theorem gathers_foldl_addPolicy {policies : List Policy} {b : Build} {done : List Mention}
    (h : b.nodes.Gathers done) :
    (policies.foldl addPolicy b).nodes.Gathers
      (done ++ (b.deeds policies).flatMap Deed.mentions) := by
  induction policies generalizing b done with
  | nil => simpa [deeds] using h
  | cons policy rest ih =>
      have hpolicy : (b.addPolicy policy).nodes.Gathers
          (done ++ Deed.mentions ⟨policy, carriedOut policy policy.steps b⟩) := by
        rw [(addPolicy_eq_run b policy).1]
        exact gathers_run h
      have hrest := ih hpolicy
      rw [List.append_assoc] at hrest
      exact hrest

def passMentions (deduplicate : Bool) (policies : List Policy) : List Mention :=
  (passDeeds deduplicate policies).flatMap Deed.mentions

theorem gathers_ofPolicies (deduplicate : Bool) (policies : List Policy) :
    (ofPolicies deduplicate policies).nodes.Gathers (passMentions deduplicate policies) := by
  have hempty : (empty deduplicate).nodes.Gathers [] := NodeStore.Gathers.empty deduplicate
  exact gathers_foldl_addPolicy hempty

end Build
end TrafficGraph
