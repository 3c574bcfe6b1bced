import TrafficGraph.Graph.Basic

/-!
# What policies propose

A policy proposes links to other policies only: between the pods of the two,
where both have a node and one of its peers picks the pods of the other one.
Whether an owner stumbles or not, the second pass puts nothing but proposed
links into a book, and it changes none of the links that are there.
-/

namespace TrafficGraph

/-!
# Proposals
-/

/-- What is behind a proposed link: a peer of a rule of the owner that picks the
pods of another policy, where both policies have a node. -/
structure Proposed (owner : Policy) (policies : List Policy) (hasNode : String → Bool)
    (d : Direction) (rule : Rule) (p : Peer) (target : Policy) : Prop where
  rule_mem : .rule rule ∈ (owner.rules d).getD []
  peer_mem : ∃ entry ∈ rule.peers, entry.seenPeer? = some p
  target_mem : target ∈ policies
  other : owner.sameAs target = false
  selects : p.selects owner target = true
  owner_hasNode : hasNode owner.podId = true
  target_hasNode : hasNode target.podId = true

theorem propose?_eq_link {owner target : Policy} {hasNode : String → Bool} {d : Direction}
    {ports : Ports} {entry : PeerEntry} {id : String} {link : Link}
    (h : owner.propose? hasNode d ports entry target = some (.link id link)) :
    ∃ p, entry.seenPeer? = some p ∧ owner.sameAs target = false ∧
      p.selects owner target = true ∧ hasNode target.podId = true ∧
        (id, link) = owner.pairLink target p d ports := by
  unfold Policy.propose? at h
  split at h
  · cases h
  · rename_i hother
    cases hseen : entry.seenPeer? with
    | none =>
        rw [hseen] at h
        simp at h
    | some p =>
        rw [hseen] at h
        simp only at h
        split at h
        · rename_i hselects
          injection h with h
          injection h with hid hlink
          rw [Bool.and_eq_true] at hselects
          refine ⟨p, rfl, by simpa using hother, hselects.1, hselects.2, ?_⟩
          rw [← hid, ← hlink]
        · cases h

theorem proposed_of_mem_proposals {owner : Policy} {policies : List Policy}
    {hasNode : String → Bool} {id : String} {link : Link}
    (h : .link id link ∈ owner.proposals policies hasNode) :
    ∃ d rule p target, Proposed owner policies hasNode d rule p target ∧
      (id, link) = owner.pairLink target p d rule.ports.orAll := by
  unfold Policy.proposals at h
  split at h
  · rename_i howner
    rcases List.mem_flatMap.mp h with ⟨d, _, hd⟩
    rcases List.mem_flatMap.mp hd with ⟨entry, hentry, hrule⟩
    cases entry with
    | absent => cases List.mem_singleton.mp hrule
    | malformed => cases List.mem_singleton.mp hrule
    | rule rule =>
        rcases List.mem_flatMap.mp hrule with ⟨peer, hpeer, htargets⟩
        rcases List.mem_filterMap.mp htargets with ⟨target, htarget, hproposal⟩
        rcases propose?_eq_link hproposal with ⟨p, hseen, hother, hselects, hnode, hpair⟩
        exact ⟨d, rule, p, target,
          { rule_mem := hentry
            peer_mem := ⟨peer, hpeer, hseen⟩
            target_mem := htarget
            other := hother
            selects := hselects
            owner_hasNode := howner
            target_hasNode := hnode }, hpair⟩
  · cases h

theorem hasNode_of_mem_proposals {owner : Policy} {policies : List Policy}
    {hasNode : String → Bool} {id : String} {link : Link}
    (h : .link id link ∈ owner.proposals policies hasNode) :
    hasNode link.source = true ∧ hasNode link.target = true := by
  rcases proposed_of_mem_proposals h with ⟨d, rule, p, target, hproposed, hpair⟩
  have howner := hproposed.owner_hasNode
  have htarget := hproposed.target_hasNode
  cases d with
  | ingress =>
      injection hpair with _ hlink
      rw [hlink]
      exact ⟨htarget, howner⟩
  | egress =>
      injection hpair with _ hlink
      rw [hlink]
      exact ⟨howner, htarget⟩

/-!
# The pool behind a second pass
-/

namespace Inference

theorem mem_pool_register {book : LinkBook} {id : String} {link other : Link}
    (h : other ∈ (book.register id link).2.pool) : other ∈ book.pool ∨ other = link := by
  unfold LinkBook.register at h
  split at h
  · exact Or.inl h
  · rcases List.mem_append.mp h with h | h
    · exact Or.inl h
    · exact Or.inr (List.mem_singleton.mp h)

theorem mem_pool_run {proposals : List Proposal} {s : Inference} {link : Link}
    (h : link ∈ (run proposals s).1.book.pool) :
    link ∈ s.book.pool ∨ ∃ id, .link id link ∈ proposals := by
  induction proposals generalizing s with
  | nil => exact Or.inl h
  | cons proposal rest ih =>
      cases proposal with
      | stumble => exact Or.inl h
      | link id first =>
          have hstep : ∀ next : Inference, next.book = (s.book.register id first).2 ->
              link ∈ (run rest next).1.book.pool ->
              link ∈ s.book.pool ∨ ∃ id', .link id' link ∈ Proposal.link id first :: rest := by
            intro next hbook hmem
            rcases ih hmem with hnext | ⟨id', hid'⟩
            · rw [hbook] at hnext
              rcases mem_pool_register hnext with hold | rfl
              · exact Or.inl hold
              · exact Or.inr ⟨id, List.mem_cons_self⟩
            · exact Or.inr ⟨id', List.mem_cons_of_mem _ hid'⟩
          rw [run] at h
          split at h
          · rename_i book hregister
            exact hstep _ (by rw [hregister]) h
          · rename_i book hregister
            exact hstep _ (by rw [hregister]) h

theorem book_addOwner (policies : List Policy) (hasNode : String → Bool) (s : Inference)
    (owner : Policy) :
    (addOwner policies hasNode s owner).book =
      (run (owner.proposals policies hasNode) s).1.book := by
  unfold addOwner
  rcases run (owner.proposals policies hasNode) s with ⟨after, stumbled⟩
  cases stumbled <;> rfl

/-- Every link in the pool behind a second pass was there before or is proposed by
one of the policies. -/
theorem mem_pool_foldl_addOwner {owners policies : List Policy} {hasNode : String → Bool}
    {s : Inference} {link : Link}
    (h : link ∈ (owners.foldl (addOwner policies hasNode) s).book.pool) :
    link ∈ s.book.pool ∨
      ∃ owner ∈ owners, ∃ id, .link id link ∈ owner.proposals policies hasNode := by
  induction owners generalizing s with
  | nil => exact Or.inl h
  | cons owner rest ih =>
      rcases ih h with hnext | ⟨other, hother, hproposal⟩
      · rw [book_addOwner] at hnext
        rcases mem_pool_run hnext with hold | hproposal
        · exact Or.inl hold
        · exact Or.inr ⟨owner, List.mem_cons_self, hproposal⟩
      · exact Or.inr ⟨other, List.mem_cons_of_mem owner hother, hproposal⟩

end Inference
end TrafficGraph
