import TrafficGraph.Proofs.Graph.Calls
import TrafficGraph.Proofs.Graph.Turn

/-!
# Linking across policies again and again

The second pass can follow one first pass any number of times, each time with other policies.
All of them put links into the pool of the first pass, and nothing but that: no link that is
there is merged with another one, and no registry but the copy of the second pass grows.  So
the first pass stays as it is, and every second pass finds what it would have found without
the others.
-/

namespace TrafficGraph

/-!
# Books with the same identities
-/

namespace Registry

theorem contains_list (r : Registry) (id : String) (slot : Nat) (other : String) :
    (r.list id slot).contains other = (decide (other = id) || r.contains other) := by
  rw [contains, slot?_list, contains]
  by_cases hother : other = id
  · simp [hother]
  · simp [hother]

end Registry

namespace LinkBook

/-- Whether the same identities are taken in two books. -/
def SameTaken (book other : LinkBook) : Prop :=
  ∀ id, book.registry.contains id = other.registry.contains id

namespace SameTaken

variable {book other : LinkBook} (h : book.SameTaken other)

include h

theorem append (id : String) (link : Link) :
    (book.append id link).SameTaken (other.append id link) := by
  intro one
  rw [LinkBook.append, LinkBook.append, Registry.contains_list, Registry.contains_list, h one]

theorem registerAll (entries : List (String × Link)) :
    (book.registerAll entries).SameTaken (other.registerAll entries) ∧
      book.fresh entries = other.fresh entries := by
  induction entries generalizing book other with
  | nil => exact ⟨h, rfl⟩
  | cons entry rest ih =>
      rcases entry with ⟨id, link⟩
      rw [LinkBook.registerAll, LinkBook.registerAll, List.foldl_cons, List.foldl_cons, fresh,
        fresh, ← h id]
      cases hcontains : book.registry.contains id with
      | true =>
          rw [register_of_contains hcontains, register_of_contains ((h id).symm.trans hcontains),
            if_pos rfl, if_pos rfl]
          exact ih h
      | false =>
          rw [register_of_not_contains hcontains,
            register_of_not_contains ((h id).symm.trans hcontains), if_neg Bool.false_ne_true,
            if_neg Bool.false_ne_true]
          rcases ih (h.append id link) with ⟨hsame, hfresh⟩
          exact ⟨hsame, congrArg (link :: ·) hfresh⟩

theorem turns_eq (policies : List Policy) (hasNode : String → Bool) (owners : List Policy) :
    book.turns policies hasNode owners = other.turns policies hasNode owners := by
  induction owners generalizing book other with
  | nil => rfl
  | cons owner rest ih =>
      rcases h.registerAll (owner.entriesHeeded policies hasNode) with ⟨hsame, hfresh⟩
      rw [turns, turns, ih hsame, Policy.turn, hfresh]
      rfl

end SameTaken

/-!
# Pools
-/

theorem pool_registerAll (book : LinkBook) (entries : List (String × Link)) :
    (book.registerAll entries).pool = book.pool ++ book.fresh entries := by
  induction entries generalizing book with
  | nil => exact (List.append_nil _).symm
  | cons entry rest ih =>
      rcases entry with ⟨id, link⟩
      rw [registerAll, List.foldl_cons, fresh]
      cases hcontains : book.registry.contains id with
      | true =>
          rw [register_of_contains hcontains, if_pos rfl]
          exact ih book
      | false =>
          rw [register_of_not_contains hcontains, if_neg Bool.false_ne_true]
          refine (ih _).trans ?_
          rw [append, List.append_assoc]
          rfl

theorem Backed.add {book : LinkBook} (h : book.Backed) (link : Link) (policy : String) :
    (book.add link policy).2.Backed := by
  unfold LinkBook.add
  simp only
  split
  · intro slot hslot
    rw [List.length_modify]
    exact h slot hslot
  · exact h.append _ link

theorem Backed.addOffers {book : LinkBook} (h : book.Backed) (offers : List Offer) :
    (book.addOffers offers).Backed := by
  induction offers generalizing book with
  | nil => exact h
  | cons o rest ih => exact ih (h.add o.link o.policy)

end LinkBook

theorem Inference.pool_foldl_addOwner {policies : List Policy} {hasNode : String → Bool}
    (owners : List Policy) (s : Inference) :
    (owners.foldl (addOwner policies hasNode) s).book.pool =
      s.book.pool ++ Turn.registeredBy (s.book.turns policies hasNode owners) := by
  induction owners generalizing s with
  | nil => exact (List.append_nil _).symm
  | cons owner rest ih =>
      rw [List.foldl_cons, ih, book_addOwner_eq, LinkBook.pool_registerAll, LinkBook.turns,
        Turn.registeredBy_cons, List.append_assoc]
      rfl

/-!
# Links that are registered
-/

theorem LinkBook.mem_of_mem_fresh {book : LinkBook} {entries : List (String × Link)} {link : Link}
    (h : link ∈ book.fresh entries) : ∃ id, (id, link) ∈ entries := by
  induction entries generalizing book with
  | nil => cases h
  | cons entry rest ih =>
      rcases entry with ⟨id, first⟩
      rw [fresh] at h
      split at h
      · rcases ih h with ⟨other, hother⟩
        exact ⟨other, List.mem_cons_of_mem _ hother⟩
      · rcases List.mem_cons.mp h with rfl | h
        · exact ⟨id, List.mem_cons_self⟩
        · rcases ih h with ⟨other, hother⟩
          exact ⟨other, List.mem_cons_of_mem _ hother⟩

theorem Proposal.mem_of_mem_heeded {proposals : List Proposal} {id : String} {link : Link}
    (h : (id, link) ∈ heeded proposals) : .link id link ∈ proposals := by
  induction proposals with
  | nil => cases h
  | cons proposal rest ih =>
      cases proposal with
      | stumble => cases h
      | link other first =>
          rcases List.mem_cons.mp h with heq | h
          · cases heq
            exact List.mem_cons_self
          · exact List.mem_cons_of_mem _ (ih h)

theorem crossPolicy_of_mem_turns {book : LinkBook} {policies owners : List Policy}
    {hasNode : String → Bool} {link : Link}
    (h : link ∈ Turn.registeredBy (book.turns policies hasNode owners)) :
    link.crossPolicy = true := by
  induction owners generalizing book with
  | nil => cases h
  | cons owner rest ih =>
      rw [LinkBook.turns, Turn.registeredBy_cons, List.mem_append] at h
      rcases h with h | h
      · rcases LinkBook.mem_of_mem_fresh h with ⟨id, hentry⟩
        rcases proposed_of_mem_proposals (Proposal.mem_of_mem_heeded hentry) with
          ⟨d, rule, p, target, _, hpair⟩
        injection hpair with _ hlink
        rw [hlink]
      · exact ih h

/-!
# Second passes
-/

namespace Build

def linkings : Build → List (List Policy) → List Graph
  | _, [] => []
  | b, policies :: rest => b.linkedGraph policies :: linkings (b.afterLinking policies) rest

/-- Whether a first pass is still there in another build: nothing but its pool of links may
differ, and that only in links that have come behind the others. -/
structure StaysIn (b after : Build) : Prop where
  nodes : after.nodes = b.nodes
  registry : after.links.registry = b.links.registry
  pool : b.links.pool <+: after.links.pool
  graph : after.graph = b.graph

/-- Whether a graph is that of a first pass with nothing but inferred links behind the others,
and without any where policies share no nodes. -/
structure AddsOnly (b : Build) (graph : Graph) : Prop where
  nodes : graph.nodes = b.graph.nodes
  links : ∃ inferred, graph.links = b.graph.links ++ inferred ∧
    (∀ link ∈ inferred, link.crossPolicy = true) ∧ (b.deduplicate = false -> inferred = [])

theorem backed_ofPolicies (deduplicate : Bool) (policies : List Policy) :
    (ofPolicies deduplicate policies).links.Backed := by
  rw [links_ofPolicies]
  exact (LinkBook.backed_empty deduplicate).addOffers _

section

variable {b after : Build} (hbacked : b.links.Backed)

include hbacked

theorem links_linkedGraph (hshares : b.deduplicate = true) (policies : List Policy) :
    (b.linkedGraph policies).links =
      b.links.links ++ Turn.registeredBy (b.links.turns policies b.nodes.contains policies) := by
  rw [linkedGraph_of_deduplicate hshares]
  exact Inference.links_foldl_addOwner policies (s := .start b.links) hbacked

theorem addsOnly_linkedGraph (policies : List Policy) :
    b.AddsOnly (b.linkedGraph policies) := by
  cases hshares : b.deduplicate with
  | true =>
      refine { nodes := by rw [linkedGraph_of_deduplicate hshares]; rfl, links := ?_ }
      refine ⟨_, links_linkedGraph hbacked hshares policies, ?_, ?_⟩
      · intro link hlink
        exact crossPolicy_of_mem_turns hlink
      · intro hapart
        cases hshares.symm.trans hapart
  | false =>
      rw [linkedGraph_of_not_deduplicate hshares]
      refine { nodes := rfl, links := ⟨[], (List.append_nil _).symm, ?_, fun _ => rfl⟩ }
      intro link hlink
      cases hlink

theorem StaysIn.afterLinking (h : b.StaysIn after) (policies : List Policy) :
    b.StaysIn (after.afterLinking policies) := by
  unfold Build.afterLinking linking
  split
  · have hpool : after.links.pool <+: (after.inference policies).book.pool := by
      rw [inference, Inference.ofPolicies, Inference.pool_foldl_addOwner]
      exact List.prefix_append _ _
    refine
      { nodes := h.nodes
        registry := h.registry
        pool := h.pool.trans hpool
        graph := ?_ }
    rcases h.pool.trans hpool with ⟨extra, hextra⟩
    show Graph.mk after.nodes.nodes
      (after.links.registry.links (after.inference policies).book.pool) = b.graph
    rw [h.nodes, h.registry, ← hextra, hbacked.links_append_pool]
    rfl
  · exact h

theorem StaysIn.backed (h : b.StaysIn after) : after.links.Backed := by
  intro slot hslot
  rw [h.registry] at hslot
  exact Nat.lt_of_lt_of_le (hbacked slot hslot) h.pool.length_le

/-- A second pass gives the same graph as if it were the first one of its kind. -/
theorem StaysIn.linkedGraph_eq (h : b.StaysIn after) (policies : List Policy) :
    after.linkedGraph policies = b.linkedGraph policies := by
  have hshares : after.deduplicate = b.deduplicate := congrArg NodeStore.deduplicate h.nodes
  cases hb : b.deduplicate with
  | false =>
      rw [linkedGraph_of_not_deduplicate hb, linkedGraph_of_not_deduplicate (hshares.trans hb)]
      exact h.graph
  | true =>
      have htaken : after.links.SameTaken b.links := fun id => by rw [h.registry]
      have hlinks : (after.linkedGraph policies).links = (b.linkedGraph policies).links := by
        rw [links_linkedGraph (h.backed hbacked) (hshares.trans hb), links_linkedGraph hbacked hb,
          h.nodes, htaken.turns_eq]
        exact congrArg (· ++ _) (congrArg Graph.links h.graph)
      have hnodes : (after.linkedGraph policies).nodes = (b.linkedGraph policies).nodes := by
        rw [linkedGraph_of_deduplicate hb, linkedGraph_of_deduplicate (hshares.trans hb), h.nodes]
      show Graph.mk (after.linkedGraph policies).nodes (after.linkedGraph policies).links =
        Graph.mk (b.linkedGraph policies).nodes (b.linkedGraph policies).links
      rw [hnodes, hlinks]

theorem StaysIn.linkings_eq (h : b.StaysIn after) (lists : List (List Policy)) :
    after.linkings lists = lists.map b.linkedGraph ∧
      b.StaysIn (lists.foldl Build.afterLinking after) := by
  induction lists generalizing after with
  | nil => exact ⟨rfl, h⟩
  | cons policies rest ih =>
      rcases ih (h.afterLinking hbacked policies) with ⟨hgraphs, hstays⟩
      rw [linkings, List.map_cons, h.linkedGraph_eq hbacked, hgraphs]
      exact ⟨rfl, hstays⟩

end

theorem StaysIn.refl (b : Build) : b.StaysIn b :=
  { nodes := rfl, registry := rfl, pool := List.prefix_refl _, graph := rfl }

/-- However many second passes follow a first one, each with policies of its own: the first
pass stays as it is, each of them adds nothing but inferred links to its own graph, and none
has to do with those before it. -/
theorem linkings_ofPolicies (deduplicate : Bool) (policies : List Policy)
    (lists : List (List Policy)) :
    let b := ofPolicies deduplicate policies
    b.StaysIn (lists.foldl afterLinking b) ∧ (∀ graph ∈ b.linkings lists, b.AddsOnly graph) ∧
      b.linkings lists = lists.map b.linkedGraph := by
  intro b
  have hbacked : b.links.Backed := backed_ofPolicies deduplicate policies
  rcases (StaysIn.refl b).linkings_eq hbacked lists with ⟨hgraphs, hstays⟩
  refine ⟨hstays, ?_, hgraphs⟩
  intro graph hgraph
  rw [hgraphs] at hgraph
  rcases List.mem_map.mp hgraph with ⟨others, _, rfl⟩
  exact addsOnly_linkedGraph hbacked others

end Build

end TrafficGraph
