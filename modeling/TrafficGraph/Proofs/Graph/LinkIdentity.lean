import TrafficGraph.Proofs.Graph.Batches
import TrafficGraph.Proofs.Graph.Completion

/-!
# Identities of the links of both passes

Both passes put their links into one registry.  Where namespaces hold no colons, a link of the
first pass is told by its ends and its direction, and an inferred one by these and by its scope,
the names of its two policies with an arrow between them.  The scope keeps the two kinds apart,
so an inferred link is refused for the sake of another inferred one only.
-/

namespace TrafficGraph

def Link.scope (link : Link) : String := "->".intercalate link.policies

theorem contains_addOffers (offers : List Offer) (id : String) :
    ((LinkBook.empty true).addOffers offers).registry.contains id = true ↔
      id ∈ offers.map Offer.sharedLinkId := by
  rcases exists_collects_addOffers offers with ⟨entries, hlists, hcollects⟩
  rw [hlists.contains_eq, decide_eq_true_iff, hcollects.keys, List.mem_eraseDups]

/-!
# What the second pass registers
-/

theorem exists_owner_of_mem_batchEntries {nodes : NodeStore} {policies : List Policy}
    {entry : String × Link} (h : entry ∈ nodes.batchEntries policies) :
    ∃ owner ∈ policies, ∃ target ∈ policies, ∃ p d ports,
      entry = owner.pairLink target p d ports := by
  rcases List.mem_flatMap.mp h with ⟨owner, howner, hmem⟩
  rcases proposed_of_mem_proposals (Proposal.mem_of_mem_heeded hmem) with
    ⟨d, rule, p, target, hproposed, hpair⟩
  exact ⟨owner, howner, target, hproposed.target_mem, p, d, rule.ports.orAll, hpair⟩

theorem exists_ends_of_mem_batchEntries {nodes : NodeStore} {policies : List Policy}
    {entry : String × Link} (h : entry ∈ nodes.batchEntries policies) :
    ∃ first ∈ policies, ∃ second ∈ policies, entry.2.source = first.podId ∧
      entry.2.target = second.podId ∧
      entry.1 = linkId first.podId second.podId entry.2.direction false entry.2.scope := by
  rcases exists_owner_of_mem_batchEntries h with ⟨owner, howner, target, htarget, p, d, ports, rfl⟩
  have hscope : ∀ first second : Policy,
      "->".intercalate [first.name, second.name] = first.name ++ "->" ++ second.name :=
    fun _ _ => rfl
  cases d with
  | ingress =>
      refine ⟨target, htarget, owner, howner, rfl, rfl, ?_⟩
      exact congrArg (linkId _ _ _ _) (hscope target owner).symm
  | egress =>
      refine ⟨owner, howner, target, htarget, rfl, rfl, ?_⟩
      exact congrArg (linkId _ _ _ _) (hscope owner target).symm

section

variable {policies : List Policy} (hplain : ∀ p ∈ policies, ':' ∉ p.namespaceName.toList)

include hplain

theorem fst_eq_iff_of_mem_batchEntries {nodes : NodeStore} {entry other : String × Link}
    (hentry : entry ∈ nodes.batchEntries policies) (hother : other ∈ nodes.batchEntries policies) :
    entry.1 = other.1 ↔ entry.2.ends = other.2.ends ∧ entry.2.scope = other.2.scope := by
  rcases exists_ends_of_mem_batchEntries hentry with ⟨p, hp, q, hq, hsource, htarget, hid⟩
  rcases exists_ends_of_mem_batchEntries hother with ⟨p', hp', q', hq', hsource', htarget', hid'⟩
  rw [hid, hid', Link.ends, Link.ends, hsource, htarget, hsource', htarget']
  constructor
  · intro h
    rcases linkId_scoped_inj (hplain p hp) (hplain q hq) (hplain p' hp') (hplain q' hq') h with
      ⟨hfirst, hsecond, hd, hscope⟩
    exact ⟨by rw [hfirst, hsecond, hd], hscope⟩
  · rintro ⟨hends, hscope⟩
    injection hends with hfirst hrest
    injection hrest with hsecond hd
    rw [hfirst, hsecond, hd, hscope]

theorem sharedLinkId_ne_of_mem_batchEntries {nodes : NodeStore} {o : Offer}
    (ho : o ∈ Build.passOffers true policies) {entry : String × Link}
    (hentry : entry ∈ nodes.batchEntries policies) : o.sharedLinkId ≠ entry.1 := by
  rcases List.mem_flatMap.mp ho with ⟨deed, hdeed, hmem⟩
  rcases Deed.exists_sharedLinkId hdeed hmem with ⟨r, s, hr, hs, hshared⟩
  rcases exists_ends_of_mem_batchEntries hentry with ⟨p, hp, q, hq, _, _, hid⟩
  have hspace := hplain deed.policy (Build.exists_build_of_mem_deeds hdeed).1
  rw [hshared, hid]
  exact linkId_shared_ne_scoped (hr ▸ hspace) (hs ▸ hspace) (hplain p hp) (hplain q hq)

theorem tellsEnds_passOffers : TellsEnds (Build.passOffers true policies) := by
  apply tellsEnds_of_plain
  intro o ho
  rcases List.mem_flatMap.mp ho with ⟨deed, hdeed, hmem⟩
  exact endsAtPods_of_mem_passDeeds hplain hdeed hmem

end

/-!
# Both passes
-/

/-- The identities that come up when policies in namespaces without colons are compiled, those
of the links that the first pass offers and those of the links that the second one registers.
Offers have one identity exactly if they have the same ends and the same direction; inferred
links, exactly if they also have the same scope; and an offer and an inferred link, never.  So
an inferred link is stored unless another one with its identity came before. -/
theorem linkIds_of_both_passes (policies : List Policy)
    (hplain : ∀ p ∈ policies, ':' ∉ p.namespaceName.toList) :
    let b := Build.ofPolicies true policies
    let offers := Build.passOffers true policies
    let entries := b.nodes.batchEntries policies
    b.links = (LinkBook.empty true).addOffers offers ∧
      (b.inference policies).book = b.links.registerAll entries ∧
      (∀ o ∈ offers, ∀ p ∈ offers, o.sharedLinkId = p.sharedLinkId ↔ o.ends = p.ends) ∧
      (∀ e ∈ entries, ∀ f ∈ entries,
        e.1 = f.1 ↔ e.2.ends = f.2.ends ∧ e.2.scope = f.2.scope) ∧
      (∀ o ∈ offers, ∀ e ∈ entries, o.sharedLinkId ≠ e.1) ∧
      ∀ front e back, entries = front ++ e :: back ->
        (((b.links.registerAll front).register e.1 e.2).1 = true ↔
          e.1 ∉ front.map Prod.fst) := by
  intro b offers entries
  have hlinks : b.links = (LinkBook.empty true).addOffers offers :=
    Build.links_ofPolicies true policies
  have hapart : ∀ o ∈ offers, ∀ e ∈ entries, o.sharedLinkId ≠ e.1 := fun o ho e he =>
    sharedLinkId_ne_of_mem_batchEntries hplain ho he
  refine ⟨hlinks, Inference.book_ofPolicies policies b.nodes b.links, ?_, ?_, hapart, ?_⟩
  · intro o ho p hp
    constructor
    · exact tellsEnds_passOffers hplain o ho p hp
    · intro hends
      rw [Offer.sharedLinkId_eq, Offer.sharedLinkId_eq, hends]
  · intro e he f hf
    exact fst_eq_iff_of_mem_batchEntries hplain he hf
  · intro front e back hsplit
    have he : e ∈ entries := hsplit ▸ List.mem_append_right front List.mem_cons_self
    have hfirst : b.links.registry.contains e.1 ≠ true := by
      rw [hlinks, Ne, contains_addOffers]
      intro hmem
      rcases List.mem_map.mp hmem with ⟨o, ho, hid⟩
      exact hapart o ho e he hid
    rw [LinkBook.fst_register, Bool.not_eq_true', ← Bool.not_eq_true,
      LinkBook.contains_registerAll, or_iff_left hfirst]

def arrowPolicies : List Policy :=
  let front := some ⟨some (Labels.ofList [("tier", "front")]), none⟩
  let back := some ⟨some (Labels.ofList [("tier", "back")]), none⟩
  let callsBack : RuleEntry := .rule ⟨[.peer ⟨back, none, none⟩], .unset⟩
  [⟨"a->b", "shop", front, none, some [callsBack], []⟩, ⟨"c", "shop", back, none, none, []⟩,
    ⟨"a", "shop", front, none, some [callsBack], []⟩, ⟨"b->c", "shop", back, none, none, []⟩]

/-- All inferred links have the same ends here, so their scopes tell them apart.  The scope of the
last one is that of the first one, though it is about other policies, and it is not stored.  The
offers have the same ends, too, but they stand in the way of none. -/
theorem linkIds_of_both_passes_arrowPolicies :
    let b := Build.ofPolicies true arrowPolicies
    let entries := b.nodes.batchEntries arrowPolicies
    (∀ p ∈ arrowPolicies, ':' ∉ p.namespaceName.toList) ∧
      entries.map (fun e => (e.2.policyText, e.2.scope)) =
        [("a->b → c", "a->b->c"), ("a->b → b->c", "a->b->b->c"), ("a → c", "a->c"),
          ("a → b->c", "a->b->c")] ∧
      (∀ e ∈ entries, ∀ f ∈ entries, e.1 = f.1 ↔ e.2.scope = f.2.scope) ∧
      (b.inference arrowPolicies).book.links.map Link.policyText =
        ["a->b, a", "a->b → c", "a->b → b->c", "a → c"] := by
  intro b entries
  have hplain : ∀ p ∈ arrowPolicies, ':' ∉ p.namespaceName.toList := by decide +kernel
  rcases linkIds_of_both_passes arrowPolicies hplain with ⟨_, _, _, hscoped, _⟩
  have hends : ∀ e ∈ entries.map (fun e => e.2.ends), ∀ f ∈ entries.map (fun f => f.2.ends),
      e = f := by
    decide +kernel
  refine ⟨hplain, by decide +kernel, ?_, by decide +kernel⟩
  intro e he f hf
  rw [hscoped e he f hf,
    and_iff_right (hends _ (List.mem_map_of_mem he) _ (List.mem_map_of_mem hf))]

end TrafficGraph
