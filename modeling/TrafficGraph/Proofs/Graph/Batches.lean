import TrafficGraph.Proofs.Graph.Relinking

/-!
# One batch of policies after another

The second pass can go over one book again and again, each time with another batch of
policies.  A link is registered under an identity that is free and stays there ever after, so
a book only grows at its end, and it never lists two links under one identity.  Where rules
are rules and peers are peers, all that a batch proposes is heeded.  Then a later batch of
some of the same policies, in whatever order, finds all of its identities taken.
-/

namespace TrafficGraph

/-!
# Identities that are taken
-/

namespace Registry

def ids (r : Registry) : List String := r.index.map Prod.fst

theorem contains_eq (r : Registry) (id : String) : r.contains id = decide (id ∈ r.ids) := by
  unfold contains slot? ids
  rw [Bool.eq_iff_iff, Option.isSome_map, List.find?_isSome, decide_eq_true_iff]
  constructor
  · rintro ⟨entry, hentry, hid⟩
    exact eq_of_beq hid ▸ List.mem_map_of_mem hentry
  · intro hid
    rcases List.mem_map.mp hid with ⟨entry, hentry, rfl⟩
    exact ⟨entry, hentry, beq_self_eq_true entry.1⟩

theorem index_list_of_free {r : Registry} {id : String} (h : r.contains id = false) (slot : Nat) :
    (r.list id slot).index = r.index ++ [(id, slot)] := by
  rw [contains_eq, decide_eq_false_iff_not] at h
  exact setSlot_of_not_mem h slot

end Registry

namespace LinkBook

/-- Whether a book that shares links lists one link for each identity, in the order in which
the identities came up. -/
structure Keyed (book : LinkBook) : Prop where
  shares : book.registry.deduplicate = true
  apart : book.registry.ids.Nodup
  order : book.registry.order = book.registry.index.map Prod.snd
  backed : book.Backed

/-- Whether a book still has everything that an earlier one had, where it was: links, identities
and the list of links have grown at their ends only. -/
structure Continues (later earlier : LinkBook) : Prop where
  pool : earlier.pool <+: later.pool
  index : earlier.registry.index <+: later.registry.index
  order : earlier.registry.order <+: later.registry.order

theorem keyed_empty : (LinkBook.empty true).Keyed :=
  { shares := rfl, apart := List.nodup_nil, order := rfl, backed := backed_empty true }

theorem Keyed.append {book : LinkBook} (h : book.Keyed) {id : String}
    (hfree : book.registry.contains id = false) (link : Link) : (book.append id link).Keyed := by
  have hindex := Registry.index_list_of_free hfree book.pool.length
  refine { shares := h.shares, apart := ?_, order := ?_, backed := h.backed.append id link }
  · have hnew : id ∉ book.registry.ids := by
      rw [Registry.contains_eq, decide_eq_false_iff_not] at hfree
      exact hfree
    show ((book.registry.list id book.pool.length).index.map Prod.fst).Nodup
    rw [hindex, List.map_append]
    exact List.Nodup.append h.apart (List.nodup_singleton id) (by simpa [Registry.ids] using hnew)
  · show book.registry.order ++ [book.pool.length] =
      (book.registry.list id book.pool.length).index.map Prod.snd
    rw [hindex, List.map_append, h.order]
    rfl

theorem Keyed.register {book : LinkBook} (h : book.Keyed) (id : String) (link : Link) :
    (book.register id link).2.Keyed := by
  cases hcontains : book.registry.contains id with
  | true =>
      rw [register_of_contains hcontains]
      exact h
  | false =>
      rw [register_of_not_contains hcontains]
      exact h.append hcontains link

/-- Contributing a link keeps a book keyed, too, so every book that calls lead to is. -/
theorem Keyed.add {book : LinkBook} (h : book.Keyed) (link : Link) (policy : String) :
    (book.add link policy).2.Keyed := by
  have hmerge : book.mergeSlot? = book.registry.slot? := by
    funext id
    rw [mergeSlot?, if_pos h.shares]
  have hbacked := h.backed.add link policy
  unfold LinkBook.add at hbacked ⊢
  simp only [hmerge] at hbacked ⊢
  cases hslot : book.registry.slot? (book.idOf link.source link.target link.direction policy) with
  | some slot =>
      rw [hslot] at hbacked
      exact { shares := h.shares, apart := h.apart, order := h.order, backed := hbacked }
  | none =>
      apply h.append
      rw [Registry.contains, hslot]
      rfl

theorem Keyed.registerAll {book : LinkBook} (h : book.Keyed) (entries : List (String × Link)) :
    (book.registerAll entries).Keyed := by
  induction entries generalizing book with
  | nil => exact h
  | cons entry rest ih => exact ih (h.register entry.1 entry.2)

namespace Continues

variable {earlier later : LinkBook}

theorem refl (book : LinkBook) : book.Continues book :=
  { pool := List.prefix_refl _, index := List.prefix_refl _, order := List.prefix_refl _ }

theorem trans {last : LinkBook} (h : last.Continues later) (h' : later.Continues earlier) :
    last.Continues earlier :=
  { pool := h'.pool.trans h.pool
    index := h'.index.trans h.index
    order := h'.order.trans h.order }

theorem append (book : LinkBook) {id : String} (hfree : book.registry.contains id = false)
    (link : Link) : (book.append id link).Continues book :=
  { pool := List.prefix_append _ _
    index := ⟨_, (Registry.index_list_of_free hfree book.pool.length).symm⟩
    order := List.prefix_append _ _ }

theorem register (book : LinkBook) (id : String) (link : Link) :
    (book.register id link).2.Continues book := by
  cases hcontains : book.registry.contains id with
  | true =>
      rw [register_of_contains hcontains]
      exact refl book
  | false =>
      rw [register_of_not_contains hcontains]
      exact append book hcontains link

theorem registerAll (book : LinkBook) (entries : List (String × Link)) :
    (book.registerAll entries).Continues book := by
  induction entries generalizing book with
  | nil => exact refl book
  | cons entry rest ih => exact (ih _).trans (register book entry.1 entry.2)

theorem links (h : later.Continues earlier) (hbacked : earlier.Backed) :
    earlier.links <+: later.links := by
  rcases h.pool with ⟨added, hpool⟩
  rcases h.order with ⟨slots, horder⟩
  have hkept := hbacked.links_append_pool added
  rw [hpool] at hkept
  refine ⟨slots.filterMap fun slot => later.pool[slot]?, ?_⟩
  rw [← hkept, LinkBook.links, Registry.links, Registry.links, ← horder, List.filterMap_append]

theorem holds (h : later.Continues earlier) {id : String} {link : Link}
    (hlink : earlier.Holds id link) : later.Holds id link := by
  rcases hlink with ⟨slot, hslot, horder, hpool⟩
  refine ⟨slot, ?_, h.order.subset horder, ?_⟩
  · rcases h.index with ⟨more, hindex⟩
    rcases Option.map_eq_some_iff.mp hslot with ⟨entry, hentry, rfl⟩
    rw [Registry.slot?, ← hindex, List.find?_append, hentry]
    rfl
  · rcases h.pool with ⟨added, hadded⟩
    rw [← hadded]
    exact (List.getElem?_append_left (List.getElem?_eq_some_iff.mp hpool).1).trans hpool

end Continues

theorem fst_register (book : LinkBook) (id : String) (link : Link) :
    (book.register id link).1 = !book.registry.contains id := by
  unfold register
  cases book.registry.contains id <;> rfl

theorem contains_registerAll (book : LinkBook) (entries : List (String × Link)) (id : String) :
    (book.registerAll entries).registry.contains id = true ↔
      id ∈ entries.map Prod.fst ∨ book.registry.contains id = true := by
  induction entries generalizing book with
  | nil => simp [registerAll]
  | cons entry rest ih =>
      rw [registerAll, List.foldl_cons, List.map_cons, List.mem_cons]
      cases hcontains : book.registry.contains entry.1 with
      | true =>
          rw [register_of_contains hcontains]
          refine (ih book).trans ?_
          by_cases hid : id = entry.1
          · simp [hid, hcontains]
          · simp [hid]
      | false =>
          rw [register_of_not_contains hcontains]
          refine (ih _).trans ?_
          rw [append, Registry.contains_list, Bool.or_eq_true, decide_eq_true_iff]
          exact or_left_comm.trans or_assoc.symm

theorem registerAll_of_contains {book : LinkBook} {entries : List (String × Link)}
    (h : ∀ entry ∈ entries, book.registry.contains entry.1 = true) :
    book.registerAll entries = book := by
  induction entries with
  | nil => rfl
  | cons entry rest ih =>
      rw [registerAll, List.foldl_cons, register_of_contains (h entry List.mem_cons_self)]
      exact ih fun other hother => h other (List.mem_cons_of_mem entry hother)

end LinkBook

/-!
# What a batch proposes
-/

/-- What is registered for a batch of policies, one entry after another, as far as identities
are free. -/
def NodeStore.batchEntries (nodes : NodeStore) (policies : List Policy) : List (String × Link) :=
  policies.flatMap fun owner => owner.entriesHeeded policies nodes.contains

namespace Inference

theorem book_foldl_addOwner_eq {policies : List Policy} {hasNode : String → Bool}
    (owners : List Policy) (s : Inference) :
    (owners.foldl (addOwner policies hasNode) s).book =
      s.book.registerAll (owners.flatMap fun owner => owner.entriesHeeded policies hasNode) := by
  induction owners generalizing s with
  | nil => rfl
  | cons owner rest ih =>
      rw [List.foldl_cons, ih, book_addOwner_eq, List.flatMap_cons,
        LinkBook.registerAll_append]

theorem book_ofPolicies (policies : List Policy) (nodes : NodeStore) (book : LinkBook) :
    (ofPolicies policies nodes book).book = book.registerAll (nodes.batchEntries policies) :=
  book_foldl_addOwner_eq policies (start book)

theorem created_eq_nil_of_book_eq {policies : List Policy} {nodes : NodeStore} {book : LinkBook}
    (h : (ofPolicies policies nodes book).book = book) :
    (ofPolicies policies nodes book).created = [] := by
  have hpool : book.pool ++ Turn.registeredBy (book.turns policies nodes.contains policies) =
      book.pool :=
    (pool_foldl_addOwner policies (start book)).symm.trans (congrArg LinkBook.pool h)
  have hnone := List.append_right_eq_self.mp hpool
  have hcount :=
    Turn.length_registeredBy_finished_le (book.turns policies nodes.contains policies)
  rw [hnone, List.length_nil, Nat.le_zero, List.length_eq_zero_iff] at hcount
  exact (created_foldl_addOwner policies (start book)).trans hcount

end Inference

theorem Proposal.mem_heeded {proposals : List Proposal} (hnone : .stumble ∉ proposals)
    {id : String} {link : Link} (h : .link id link ∈ proposals) :
    (id, link) ∈ heeded proposals := by
  induction proposals with
  | nil => cases h
  | cons proposal rest ih =>
      rw [List.mem_cons, not_or] at hnone
      cases proposal with
      | stumble => exact absurd rfl hnone.1
      | link other first =>
          rw [heeded]
          rcases List.mem_cons.mp h with heq | h
          · cases heq
            exact List.mem_cons_self
          · exact List.mem_cons_of_mem _ (ih hnone.2 h)

namespace Policy

variable {owner : Policy} {hasNode : String → Bool}

theorem proposals_subset (owner : Policy) (hasNode : String → Bool) {part all : List Policy}
    (h : part ⊆ all) : owner.proposals part hasNode ⊆ owner.proposals all hasNode := by
  intro proposal hproposal
  unfold proposals at hproposal ⊢
  split at hproposal
  · rcases List.mem_flatMap.mp hproposal with ⟨d, hd, hrules⟩
    rcases List.mem_flatMap.mp hrules with ⟨entry, hentry, hrule⟩
    rw [if_pos ‹_›]
    refine List.mem_flatMap.mpr ⟨d, hd, List.mem_flatMap.mpr ⟨entry, hentry, ?_⟩⟩
    cases entry with
    | absent => exact hrule
    | malformed => exact hrule
    | rule rule =>
        rcases List.mem_flatMap.mp hrule with ⟨peer, hpeer, htargets⟩
        rcases List.mem_filterMap.mp htargets with ⟨target, htarget, hsome⟩
        exact List.mem_flatMap.mpr ⟨peer, hpeer, List.mem_filterMap.mpr ⟨target, h htarget, hsome⟩⟩
  · cases hproposal

theorem Typed.stumble_not_mem_proposals (h : owner.Typed) (policies : List Policy) :
    .stumble ∉ owner.proposals policies hasNode := by
  intro hstumble
  unfold proposals at hstumble
  split at hstumble
  · rcases List.mem_flatMap.mp hstumble with ⟨d, _, hrules⟩
    rcases List.mem_flatMap.mp hrules with ⟨entry, hentry, hrule⟩
    rcases h d entry hentry with ⟨rule, rfl, hpeers⟩
    rcases List.mem_flatMap.mp hrule with ⟨peer, hpeer, htargets⟩
    rcases hpeers peer hpeer with ⟨p, rfl⟩
    rcases List.mem_filterMap.mp htargets with ⟨target, _, hsome⟩
    unfold propose? at hsome
    split at hsome
    · cases hsome
    · simp only [PeerEntry.seenPeer?] at hsome
      split at hsome <;> cases hsome
  · cases hstumble

/-- Of a batch that holds some of the targets, an owner that does not stumble has nothing
registered but what it has of all of them. -/
theorem Typed.entriesHeeded_subset (h : owner.Typed) {part all : List Policy}
    (hsub : part ⊆ all) : owner.entriesHeeded part hasNode ⊆ owner.entriesHeeded all hasNode := by
  rintro ⟨id, link⟩ hentry
  apply Proposal.mem_heeded (h.stumble_not_mem_proposals all)
  exact owner.proposals_subset hasNode hsub (Proposal.mem_of_mem_heeded hentry)

end Policy

theorem NodeStore.batchEntries_subset (nodes : NodeStore) {part all : List Policy}
    (htyped : ∀ p ∈ all, p.Typed) (h : part ⊆ all) :
    nodes.batchEntries part ⊆ nodes.batchEntries all := by
  intro entry hentry
  rcases List.mem_flatMap.mp hentry with ⟨owner, howner, hmem⟩
  exact List.mem_flatMap.mpr
    ⟨owner, h howner, (htyped owner (h howner)).entriesHeeded_subset h hmem⟩

/-!
# Several batches
-/

namespace LinkBook

def afterBatches (book : LinkBook) (nodes : NodeStore) (batches : List (List Policy)) : LinkBook :=
  batches.foldl (fun grown policies => (Inference.ofPolicies policies nodes grown).book) book

theorem afterBatches_eq (book : LinkBook) (nodes : NodeStore) (batches : List (List Policy)) :
    book.afterBatches nodes batches = book.registerAll (batches.flatMap nodes.batchEntries) := by
  unfold afterBatches
  induction batches generalizing book with
  | nil => rfl
  | cons policies rest ih =>
      rw [List.foldl_cons, ih, Inference.book_ofPolicies, List.flatMap_cons,
        registerAll_append]

theorem afterBatches_append (book : LinkBook) (nodes : NodeStore)
    (front back : List (List Policy)) :
    book.afterBatches nodes (front ++ back) =
      (book.afterBatches nodes front).afterBatches nodes back :=
  List.foldl_append

/-- Whatever is registered in a book beforehand and whichever batches follow: behind more
batches it lists the links of before, unaltered, in their places and under their identities,
and no identity twice.  And if rules are rules and peers are peers in one of the batches,
another one of some of the same policies, in any order, registers nothing and creates
nothing. -/
theorem afterBatches_settled (nodes : NodeStore) (book : LinkBook) (h : book.Keyed)
    (front back : List (List Policy)) :
    let earlier := book.afterBatches nodes front
    let later := book.afterBatches nodes (front ++ back)
    later.Keyed ∧ earlier.links <+: later.links ∧
      (∀ id link, earlier.Holds id link -> later.Holds id link) ∧
      ∀ policies ∈ front ++ back, (∀ p ∈ policies, p.Typed) -> ∀ again, again ⊆ policies ->
        (Inference.ofPolicies again nodes later).created = [] ∧
          (Inference.ofPolicies again nodes later).book = later := by
  intro earlier later
  have hearlier : earlier.Keyed := by
    have hkeyed := h.registerAll (front.flatMap nodes.batchEntries)
    rwa [← afterBatches_eq] at hkeyed
  have hlater : later.Keyed := by
    have hkeyed := h.registerAll ((front ++ back).flatMap nodes.batchEntries)
    rwa [← afterBatches_eq] at hkeyed
  have hcontinues : later.Continues earlier := by
    have hgrown := Continues.registerAll earlier (back.flatMap nodes.batchEntries)
    rwa [← afterBatches_eq, ← afterBatches_append] at hgrown
  refine ⟨hlater, hcontinues.links hearlier.backed, fun id link => hcontinues.holds, ?_⟩
  intro policies hpolicies htyped again hagain
  have htaken : ∀ entry ∈ nodes.batchEntries again, later.registry.contains entry.1 = true := by
    intro entry hentry
    show (book.afterBatches nodes (front ++ back)).registry.contains entry.1 = true
    have hproposed : entry ∈ (front ++ back).flatMap nodes.batchEntries :=
      List.mem_flatMap.mpr ⟨policies, hpolicies, nodes.batchEntries_subset htyped hagain hentry⟩
    rw [afterBatches_eq, contains_registerAll]
    exact Or.inl (List.mem_map_of_mem hproposed)
  have hbook : (Inference.ofPolicies again nodes later).book = later := by
    rw [Inference.book_ofPolicies]
    exact registerAll_of_contains htaken
  exact ⟨Inference.created_eq_nil_of_book_eq hbook, hbook⟩

/-- Where a stray link has the identity of the first link that a batch proposes, the second one
is registered all the same, and the batch the other way round brings nothing more. -/
theorem afterBatches_tillPolicies :
    let policies := tillPolicies [clerkRule]
    let nodes := (Build.ofPolicies true policies).nodes
    let stray := Link.ofRule "a" "b" .all .ingress "stray" none
    let entries := ((nodes.batchEntries policies).take 1).map fun entry => (entry.1, stray)
    let later := ((LinkBook.empty true).registerAll entries).afterBatches nodes [policies]
    ((LinkBook.empty true).registerAll entries).Keyed ∧ (∀ p ∈ policies, p.Typed) ∧
      later.links.map Link.policyText = ["stray", "clerk → till"] ∧
      policies.reverse ++ policies ⊆ policies ∧
      (Inference.ofPolicies (policies.reverse ++ policies) nodes later).created = [] ∧
      (Inference.ofPolicies (policies.reverse ++ policies) nodes later).book = later := by
  intro policies nodes stray entries later
  have hkeyed := keyed_empty.registerAll entries
  have htyped : ∀ p ∈ policies, p.Typed := by decide
  have hagain : policies.reverse ++ policies ⊆ policies :=
    List.append_subset.mpr ⟨List.reverse_subset.mpr (List.Subset.refl _), List.Subset.refl _⟩
  have hsettled := (afterBatches_settled nodes _ hkeyed [] [policies]).2.2.2 policies
    List.mem_cons_self htyped _ hagain
  exact ⟨hkeyed, htyped, by decide +kernel, hagain, hsettled⟩

end LinkBook

end TrafficGraph
