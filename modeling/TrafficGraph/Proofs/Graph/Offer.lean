import TrafficGraph.Graph.FirstPass
import TrafficGraph.Proofs.Distinct
import TrafficGraph.Proofs.Graph.Book

/-!
# Contributions of rules

Each peer of each rule offers one link between its endpoint and the pods of its
policy.  A book that shares links lists one link for each identity that was
offered, in the order in which the identities came up, and each link is the
first one of its identity with the others merged into it in order.
-/

namespace TrafficGraph

/-- What a peer of a rule contributes: traffic between two nodes, allowed by a
policy. -/
structure Offer where
  source : String
  target : String
  direction : Direction
  ports : Ports
  policy : String
  ruleIndex : Nat

/-- What tells links apart: their ends and their direction. -/
abbrev LinkEnds := String × String × Direction

def Link.ends (link : Link) : LinkEnds := (link.source, link.target, link.direction)

def Link.withoutBreakdown (link : Link) : Link := { link with breakdown := none, detailed := false }

namespace Offer

def link (o : Offer) : Link :=
  .ofRule o.source o.target o.ports o.direction o.policy (some o.ruleIndex)

def ends (o : Offer) : LinkEnds := (o.source, o.target, o.direction)

def sharedLinkId (o : Offer) : String := linkId o.source o.target o.direction true o.policy

end Offer

def Link.mergeOffers (link : Link) (offers : List Offer) : Link :=
  offers.foldl (fun merged o => merged.merge o.policy o.ports) link

def LinkBook.addOffers (book : LinkBook) (offers : List Offer) : LinkBook :=
  offers.foldl (fun grown o => (grown.add o.link o.policy).2) book

def addNames (known more : List String) : List String :=
  more.foldl (fun names name => addName name names) known

/-!
# Names without repetition
-/

theorem eraseDups_concat (names : List String) (name : String) :
    (names ++ [name]).eraseDups = addName name names.eraseDups := by
  rw [List.eraseDups_append]
  unfold addName
  by_cases hmem : name ∈ names
  · have hdups : name ∈ names.eraseDups := List.mem_eraseDups.mpr hmem
    rw [if_pos (List.contains_iff_mem.mpr hdups)]
    simp [List.removeAll, hmem]
  · have hdups : name ∉ names.eraseDups := mt List.mem_eraseDups.mp hmem
    rw [if_neg (mt List.contains_iff_mem.mp hdups)]
    simp [List.removeAll, hmem, List.eraseDups_cons]

theorem addNames_append (known more rest : List String) :
    addNames known (more ++ rest) = addNames (addNames known more) rest :=
  List.foldl_append

theorem addNames_eraseDups (names more : List String) :
    addNames names.eraseDups more = (names ++ more).eraseDups := by
  unfold addNames
  induction more generalizing names with
  | nil => simp
  | cons name rest ih =>
      rw [List.foldl_cons, ← eraseDups_concat, ih]
      simp

/-!
# Merging offers into a link
-/

namespace Link

theorem ends_merge (link : Link) (policy : String) (ports : Ports) :
    (link.merge policy ports).ends = link.ends := by
  simp [ends]

theorem withoutBreakdown_merge (link : Link) (policy : String) (ports : Ports) :
    (link.merge policy ports).withoutBreakdown =
      { link.withoutBreakdown with policies := addName policy link.policies } := by
  unfold merge withoutBreakdown
  split <;> rfl

theorem withoutBreakdown_mergeOffers (link : Link) (offers : List Offer) :
    (link.mergeOffers offers).withoutBreakdown =
      { link.withoutBreakdown with
        policies := addNames link.policies (offers.map Offer.policy) } := by
  unfold mergeOffers
  induction offers generalizing link with
  | nil => rfl
  | cons o rest ih =>
      rw [List.foldl_cons, ih, withoutBreakdown_merge, policies_merge]
      rfl

end Link

/-- Whether a link is the first one of some offers with the others merged into
it. -/
def MergedFrom (offers : List Offer) (link : Link) : Prop :=
  ∃ first rest, offers = first :: rest ∧ link = first.link.mergeOffers rest

namespace MergedFrom

theorem single (o : Offer) : MergedFrom [o] o.link := ⟨o, [], rfl, rfl⟩

theorem concat {offers : List Offer} {link : Link} (h : MergedFrom offers link) (o : Offer) :
    MergedFrom (offers ++ [o]) (link.merge o.policy o.ports) := by
  rcases h with ⟨first, rest, rfl, rfl⟩
  refine ⟨first, rest ++ [o], rfl, ?_⟩
  simp [Link.mergeOffers, List.foldl_append]

theorem withoutBreakdown_eq {first : Offer} {rest : List Offer} {link : Link}
    (h : MergedFrom (first :: rest) link) :
    link.withoutBreakdown =
      { first.link with policies := ((first :: rest).map Offer.policy).eraseDups } := by
  rcases h with ⟨first', rest', heq, rfl⟩
  injection heq with hfirst hrest
  subst hfirst hrest
  have hstart : first.link.policies = [first.policy].eraseDups := by
    simp [Offer.link, Link.ofRule, List.eraseDups_cons]
  rw [Link.withoutBreakdown_mergeOffers, hstart, addNames_eraseDups]
  rfl

theorem ends_eq {offers : List Offer} {link : Link} (h : MergedFrom offers link) :
    ∃ first ∈ offers, link.ends = first.ends := by
  rcases h with ⟨first, rest, rfl, rfl⟩
  refine ⟨first, List.mem_cons_self, ?_⟩
  have hkept := congrArg Link.ends (Link.withoutBreakdown_mergeOffers first.link rest)
  exact hkept

theorem crossPolicy_eq {offers : List Offer} {link : Link} (h : MergedFrom offers link) :
    link.crossPolicy = false := by
  rcases h with ⟨first, rest, rfl, rfl⟩
  have hkept := congrArg Link.crossPolicy (Link.withoutBreakdown_mergeOffers first.link rest)
  exact hkept

end MergedFrom

/-!
# A run of contributions

The entries of a shared book collect what was offered.  Each further offer keeps
this, and so does a run of offers.
-/

/-- Whether some entries collect offers: one entry for each identity, in the order
of the first offers, and in each the offers of that identity merged. -/
structure Collects (entries : List (String × Link)) (offers : List Offer) : Prop where
  keys : entries.map Prod.fst = (offers.map Offer.sharedLinkId).eraseDups
  merged : ∀ entry ∈ entries,
    MergedFrom (offers.filter fun o => o.sharedLinkId == entry.1) entry.2

namespace Collects

theorem nil : Collects [] [] := ⟨rfl, by simp⟩

theorem filter_concat_of_ne {offers : List Offer} {o : Offer} {id : String}
    (h : o.sharedLinkId ≠ id) :
    ((offers ++ [o]).filter fun other => other.sharedLinkId == id) =
      offers.filter fun other => other.sharedLinkId == id := by
  simp [List.filter_append, h]

theorem filter_concat_self (offers : List Offer) (o : Offer) :
    ((offers ++ [o]).filter fun other => other.sharedLinkId == o.sharedLinkId) =
      (offers.filter fun other => other.sharedLinkId == o.sharedLinkId) ++ [o] := by
  simp [List.filter_append]

theorem contribute {entries : List (String × Link)} {offers : List Offer}
    (h : Collects entries offers) (hnodup : (entries.map Prod.fst).Nodup) (o : Offer) :
    Collects (contributeEntry o.sharedLinkId o.link o.policy entries) (offers ++ [o]) := by
  constructor
  · rw [keys_contributeEntry, h.keys, List.map_append, List.map_singleton, eraseDups_concat]
  · intro entry hentry
    by_cases hmem : o.sharedLinkId ∈ entries.map Prod.fst
    · rcases exists_first_entry hmem with ⟨front, old, back, hentries, hfront⟩
      have hback : o.sharedLinkId ∉ back.map Prod.fst := by
        rw [hentries, List.map_append, List.map_cons] at hnodup
        have hsplit := List.nodup_append.mp hnodup
        exact (List.nodup_cons.mp hsplit.2.1).1
      have hothers : ∀ other ∈ entries, other.1 ≠ o.sharedLinkId ->
          MergedFrom ((offers ++ [o]).filter fun p => p.sharedLinkId == other.1) other.2 := by
        intro other hother hne
        rw [filter_concat_of_ne fun heq => hne heq.symm]
        exact h.merged other hother
      have hold : MergedFrom (offers.filter fun p => p.sharedLinkId == o.sharedLinkId) old :=
        h.merged (o.sharedLinkId, old) (by simp [hentries])
      rw [hentries, contributeEntry_append_of_mem hfront, List.mem_append, List.mem_cons] at hentry
      rcases hentry with hentry | rfl | hentry
      · apply hothers entry (by simp [hentries, hentry])
        intro heq
        exact hfront (heq ▸ List.mem_map_of_mem hentry)
      · rw [filter_concat_self]
        exact hold.concat o
      · apply hothers entry (by simp [hentries, hentry])
        intro heq
        exact hback (heq ▸ List.mem_map_of_mem hentry)
    · have hnone : (offers.filter fun p => p.sharedLinkId == o.sharedLinkId) = [] := by
        rw [List.filter_eq_nil_iff]
        intro p hp heq
        rw [h.keys, List.mem_eraseDups] at hmem
        exact hmem (eq_of_beq heq ▸ List.mem_map_of_mem hp)
      rw [contributeEntry_of_not_mem hmem, List.mem_append, List.mem_singleton] at hentry
      rcases hentry with hentry | rfl
      · have hne : o.sharedLinkId ≠ entry.1 := fun heq =>
          hmem (heq ▸ List.mem_map_of_mem hentry)
        rw [filter_concat_of_ne hne]
        exact h.merged entry hentry
      · rw [filter_concat_self, hnone]
        exact MergedFrom.single o

end Collects

theorem LinkBook.addOffers_append (book : LinkBook) (offers rest : List Offer) :
    book.addOffers (offers ++ rest) = (book.addOffers offers).addOffers rest :=
  List.foldl_append

theorem LinkBook.Lists.addOffers {book : LinkBook} {entries : List (String × Link)}
    {done : List Offer} (hlists : book.Lists entries) (hcollects : Collects entries done)
    (offers : List Offer) :
    ∃ grown, (book.addOffers offers).Lists grown ∧ Collects grown (done ++ offers) := by
  induction offers generalizing book entries done with
  | nil => exact ⟨entries, hlists, by simpa using hcollects⟩
  | cons o rest ih =>
      have hstep := hlists.add o.link o.policy
      have hcollected := hcollects.contribute hlists.nodup o
      rcases ih hstep hcollected with ⟨grown, hgrown, hall⟩
      refine ⟨grown, hgrown, ?_⟩
      simpa using hall

theorem exists_collects_addOffers (offers : List Offer) :
    ∃ entries, ((LinkBook.empty true).addOffers offers).Lists entries ∧
      Collects entries offers := by
  simpa using LinkBook.Lists.addOffers LinkBook.Lists.empty Collects.nil offers

/-!
# From identities to ends

Where the identities of the offered links tell their ends apart, a book lists one
link for each pair of ends and each direction.
-/

def LinkEnds.sharedLinkId (ends : LinkEnds) : String :=
  linkId ends.1 ends.2.1 ends.2.2 true ""

theorem Offer.sharedLinkId_eq (o : Offer) : o.sharedLinkId = LinkEnds.sharedLinkId o.ends := by
  simp [Offer.sharedLinkId, LinkEnds.sharedLinkId, Offer.ends, linkId, policyPart]

/-- Whether the identities of links tell the ends of some offers apart. -/
def TellsEnds (offers : List Offer) : Prop :=
  ∀ o ∈ offers, ∀ p ∈ offers, o.sharedLinkId = p.sharedLinkId -> o.ends = p.ends

namespace Collects

variable {entries : List (String × Link)} {offers : List Offer}

theorem exists_offer (h : Collects entries offers) {entry : String × Link}
    (hentry : entry ∈ entries) :
    ∃ o ∈ offers, o.sharedLinkId = entry.1 ∧ entry.2.ends = o.ends := by
  rcases (h.merged entry hentry).ends_eq with ⟨o, ho, hends⟩
  have hfiltered := List.mem_filter.mp ho
  exact ⟨o, hfiltered.1, eq_of_beq hfiltered.2, hends⟩

theorem map_ends (h : Collects entries offers) (htells : TellsEnds offers) :
    (entries.map fun entry => entry.2.ends) = (offers.map Offer.ends).eraseDups := by
  have hinj : ∀ e ∈ offers.map Offer.ends, ∀ e' ∈ offers.map Offer.ends,
      LinkEnds.sharedLinkId e = LinkEnds.sharedLinkId e' -> e = e' := by
    intro e he e' he' heq
    rcases List.mem_map.mp he with ⟨o, ho, rfl⟩
    rcases List.mem_map.mp he' with ⟨p, hp, rfl⟩
    rw [← Offer.sharedLinkId_eq, ← Offer.sharedLinkId_eq] at heq
    exact htells o ho p hp heq
  have hids : offers.map Offer.sharedLinkId =
      (offers.map Offer.ends).map LinkEnds.sharedLinkId := by
    simp [Offer.sharedLinkId_eq]
  have hkeys : (entries.map fun entry => entry.2.ends).map LinkEnds.sharedLinkId =
      entries.map Prod.fst := by
    rw [List.map_map]
    apply List.map_congr_left
    intro entry hentry
    rcases h.exists_offer hentry with ⟨o, _, hid, hends⟩
    rw [Function.comp_apply, hends, ← Offer.sharedLinkId_eq, hid]
  apply eq_of_map_eq_map_of_inj LinkEnds.sharedLinkId
  · intro e he e' he'
    rcases List.mem_map.mp he with ⟨entry, hentry, rfl⟩
    rcases h.exists_offer hentry with ⟨o, ho, _, hends⟩
    apply hinj
    · rw [hends]
      exact List.mem_map_of_mem ho
    · exact List.mem_eraseDups.mp he'
  · rw [hkeys, h.keys, hids, eraseDups_map_of_inj LinkEnds.sharedLinkId _ hinj]

/-- A link of a book merges exactly the offers with its ends and its direction. -/
theorem mergedFrom_ends (h : Collects entries offers) (htells : TellsEnds offers)
    {entry : String × Link} (hentry : entry ∈ entries) :
    MergedFrom (offers.filter fun o => o.ends == entry.2.ends) entry.2 := by
  rcases h.exists_offer hentry with ⟨o, ho, hid, hends⟩
  have hfilter : (offers.filter fun p => p.ends == entry.2.ends) =
      offers.filter fun p => p.sharedLinkId == entry.1 := by
    apply List.filter_congr
    intro p hp
    rw [Bool.eq_iff_iff, beq_iff_eq, beq_iff_eq, hends, ← hid]
    constructor
    · intro heq
      rw [Offer.sharedLinkId_eq, Offer.sharedLinkId_eq, heq]
    · exact htells p hp o ho
  rw [hfilter]
  exact h.merged entry hentry

end Collects

/-!
# Books that share no links

Such a book lists a link for every offer.
-/

/-- Whether a book that shares no links lists some of them, each in the next slot. -/
structure LinkBook.ListsAll (book : LinkBook) (links : List Link) : Prop where
  deduplicate : book.registry.deduplicate = false
  order : book.registry.order = List.range links.length
  pool : book.pool = links

namespace LinkBook

theorem ListsAll.add {book : LinkBook} {links : List Link} (h : book.ListsAll links)
    (link : Link) (policy : String) : (book.add link policy).2.ListsAll (links ++ [link]) := by
  have hslot : ∀ id, book.mergeSlot? id = none := by
    intro id
    unfold mergeSlot?
    rw [h.deduplicate]
    rfl
  unfold LinkBook.add
  simp only [hslot]
  constructor
  · exact h.deduplicate
  · show book.registry.order ++ [book.pool.length] = _
    rw [h.order, h.pool, List.length_append, List.length_singleton, List.range_succ]
  · show book.pool ++ [link] = _
    rw [h.pool]

theorem ListsAll.addOffers {book : LinkBook} {links : List Link} (h : book.ListsAll links)
    (offers : List Offer) : (book.addOffers offers).ListsAll (links ++ offers.map Offer.link) := by
  induction offers generalizing book links with
  | nil =>
      rw [List.map_nil, List.append_nil]
      exact h
  | cons o rest ih =>
      rw [List.map_cons, List.append_cons]
      exact ih (h.add o.link o.policy)

theorem links_addOffers_own (offers : List Offer) :
    ((LinkBook.empty false).addOffers offers).links = offers.map Offer.link := by
  have hempty : (LinkBook.empty false).ListsAll [] := ⟨rfl, rfl, rfl⟩
  have hall := hempty.addOffers offers
  rw [List.nil_append] at hall
  unfold LinkBook.links Registry.links
  rw [hall.order, hall.pool]
  exact filterMap_range_getElem? _

end LinkBook
end TrafficGraph
