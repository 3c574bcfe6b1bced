import TrafficGraph.Policy.Manifest
import TrafficGraph.Proofs.Graph.Breakdown
import TrafficGraph.Proofs.Graph.Completion
import TrafficGraph.Proofs.Graph.Hearing

/-!
# Links with detailed ports

A link gets detailed ports when a rule contributes to it that names other ports than the first
one did.  A rule without a list of ports and one with an empty list open the same ports, all of
them, and are shown alike, but they do not name the same ports.  So the detailed ports of a link
tell that two rules open different ports, unless all of them open all ports and some with a list
and some without one.
-/

namespace TrafficGraph

/-!
# Marked links

Nothing that a book is called for sets the mark of a link without its breakdown, so in every
graph the links that are marked are those that have one.
-/

namespace LinkBook

def Marked (book : LinkBook) : Prop := ∀ link ∈ book.pool, link.MarksBreakdown

namespace Marked

variable {book : LinkBook}

theorem append (h : book.Marked) (id : String) {link : Link} (hlink : link.MarksBreakdown) :
    (book.append id link).Marked := by
  intro other hother
  rcases List.mem_append.mp hother with hold | hnew
  · exact h other hold
  · rw [List.mem_singleton.mp hnew]
    exact hlink

theorem add (h : book.Marked) {link : Link} (hlink : link.MarksBreakdown) (policy : String) :
    (book.add link policy).2.Marked := by
  unfold LinkBook.add
  simp only
  split
  · intro other hother
    rcases List.mem_iff_getElem?.mp hother with ⟨i, hi⟩
    rw [List.getElem?_modify] at hi
    rcases Option.map_eq_some_iff.mp hi with ⟨old, hold, rfl⟩
    have hmarks := h old (List.mem_of_getElem? hold)
    split
    · exact hmarks.merge policy link.ports
    · exact hmarks
  · exact h.append _ hlink

theorem addOffers (h : book.Marked) (offers : List Offer) : (book.addOffers offers).Marked := by
  induction offers generalizing book with
  | nil => exact h
  | cons o rest ih =>
      have hmarks : o.link.MarksBreakdown := rfl
      exact ih (h.add hmarks o.policy)

theorem registerAll (h : book.Marked) {entries : List (String × Link)}
    (hentries : ∀ entry ∈ entries, entry.2.MarksBreakdown) : (book.registerAll entries).Marked := by
  induction entries generalizing book with
  | nil => exact h
  | cons entry rest ih =>
      have hregistered : (book.register entry.1 entry.2).2.Marked := by
        unfold register
        split
        · exact h
        · exact h.append entry.1 (hentries entry List.mem_cons_self)
      exact ih hregistered fun other hother => hentries other (List.mem_cons_of_mem entry hother)

end Marked
end LinkBook

theorem Build.marked_ofPolicies (deduplicate : Bool) (policies : List Policy) :
    (ofPolicies deduplicate policies).links.Marked := by
  have hempty : (LinkBook.empty deduplicate).Marked := nofun
  rw [links_ofPolicies]
  exact hempty.addOffers _

/-- The links of a compiled graph are marked for a breakdown exactly if they have one. -/
theorem Graph.marksBreakdown_of_mem_compile {deduplicate : Bool} {policies : List Policy}
    {link : Link} (h : link ∈ (compile deduplicate policies).links) : link.MarksBreakdown := by
  have hfirst := Build.marked_ofPolicies deduplicate policies
  cases deduplicate with
  | false =>
      rw [compile_false_eq] at h
      exact hfirst link (LinkBook.mem_pool_of_mem_links h)
  | true =>
      rw [compile_true_eq] at h
      apply hfirst.registerAll _ link (LinkBook.mem_pool_of_mem_links h)
      intro entry hentry
      rcases exists_of_mem_heardEntries hentry with ⟨owner, _, target, _, d, _, _, _, rfl⟩
      cases d <;> rfl

/-!
# Open ports
-/

namespace Ports

/-- The ports that are open, where a list without entries is as good as no list. -/
def opened : Ports → Ports
  | .unset => .all
  | .listed [] => .all
  | ports => ports

theorem text?_opened (ports : Ports) : ports.opened.text? = ports.text? := by
  unfold opened
  split <;> rfl

theorem same_all_iff {ports : Ports} : ports.same .all = true ↔ ports = .all := by
  cases ports <;> simp [same]

theorem all_same_iff {ports : Ports} : Ports.all.same ports = true ↔ ports = .all := by
  cases ports <;> simp [same]

theorem opened_cases (ports : Ports) :
    ports = .listed [] ∨ ports.opened = ports.orAll := by
  cases ports with
  | listed entries =>
      cases entries with
      | nil => exact Or.inl rfl
      | cons first rest => exact Or.inr rfl
  | _ => exact Or.inr rfl

theorem opened_eq_all_iff {ports : Ports} :
    ports.opened = .all ↔ ports.orAll = .all ∨ ports = .listed [] := by
  rcases ports.opened_cases with rfl | hkept
  · simp [opened]
  · rw [hkept]
    constructor
    · exact Or.inl
    · rintro (hall | rfl)
      · exact hall
      · exact hkept.symm

theorem all_of_opened_same {a b : Ports} (hnamed : a.orAll.same b.orAll = false)
    (hopened : a.opened.same b.opened = true) :
    (a.orAll = .all ∧ b = .listed []) ∨ (a = .listed [] ∧ b.orAll = .all) := by
  rcases a.opened_cases with rfl | ha
  · rcases b.opened_cases with rfl | hb
    · cases hnamed
    · rw [hb] at hopened
      exact Or.inr ⟨rfl, all_same_iff.mp hopened⟩
  · rcases b.opened_cases with rfl | hb
    · rw [ha] at hopened
      exact Or.inl ⟨same_all_iff.mp hopened, rfl⟩
    · rw [ha, hb, hnamed] at hopened
      cases hopened

end Ports

/-!
# Rules that contribute to a link
-/

/-- Whether a rule contributes to a link where policies share links: traffic that it allows is
offered in the first pass, under the identity of the link. -/
def Rule.ContributesTo (rule : Rule) (policies : List Policy) (link : Link) : Prop :=
  ∃ deed ∈ Build.passDeeds true policies, ∃ d i,
    ((deed.policy.rules d).getD [])[i]? = some (.rule rule) ∧
      ∃ peer ∈ deed.policy.endpoints d rule,
        let offer := deed.policy.offer true peer d rule.ports.orAll i
        offer ∈ deed.offers true ∧ offer.sharedLinkId = LinkEnds.sharedLinkId link.ends

theorem Policy.exists_rule_of_mem_contributions {policy : Policy} {deduplicate : Bool} {o : Offer}
    (h : o ∈ policy.contributions deduplicate) :
    ∃ d i rule, ((policy.rules d).getD [])[i]? = some (.rule rule) ∧
      ∃ peer ∈ policy.endpoints d rule, o = policy.offer deduplicate peer d rule.ports.orAll i := by
  rcases List.mem_flatMap.mp h with ⟨d, _, hd⟩
  rcases List.mem_flatMap.mp hd with ⟨⟨entry, i⟩, hentry, ho⟩
  cases entry with
  | absent => cases ho
  | malformed => cases ho
  | rule rule =>
      rcases List.mem_map.mp ho with ⟨peer, hpeer, rfl⟩
      exact ⟨d, i, rule, List.mem_zipIdx_iff_getElem?.mp hentry, peer, hpeer, rfl⟩

theorem Rule.contributesTo_of_wellFormed {policies : List Policy}
    (hformed : ∀ p ∈ policies, p.WellFormed) {policy : Policy} (hpolicy : policy ∈ policies)
    {rule : Rule} {d : Direction} {i : Nat}
    (hrule : ((policy.rules d).getD [])[i]? = some (.rule rule)) {peer : Reference}
    (hpeer : peer ∈ policy.endpoints d rule) {link : Link}
    (hid : (policy.offer true peer d rule.ports.orAll i).sharedLinkId =
      LinkEnds.sharedLinkId link.ends) : rule.ContributesTo policies link := by
  refine ⟨⟨policy, policy.steps⟩, ?_, d, i, hrule, peer, hpeer, ?_, hid⟩
  · rw [Build.passDeeds, Build.deeds_of_wellFormed hformed]
    exact List.mem_map_of_mem hpolicy
  · rw [Policy.offers_steps]
    exact policy.offer_mem_contributions true hrule hpeer

namespace Build

variable {policies : List Policy} {link : Link}

theorem exists_offer_iff {ports : Ports} :
    (∃ o ∈ passOffers true policies,
        o.sharedLinkId = LinkEnds.sharedLinkId link.ends ∧ o.ports = ports) ↔
      ∃ rule : Rule, rule.ContributesTo policies link ∧ rule.ports.orAll = ports := by
  constructor
  · rintro ⟨o, ho, hid, rfl⟩
    rcases List.mem_flatMap.mp ho with ⟨deed, hdeed, hmem⟩
    rcases Policy.exists_rule_of_mem_contributions
      (Deed.mem_contributions_of_mem_offers hdeed hmem) with ⟨d, i, rule, hrule, peer, hpeer, rfl⟩
    exact ⟨rule, ⟨deed, hdeed, d, i, hrule, peer, hpeer, hmem, hid⟩,
      (Policy.ports_offer ..).symm⟩
  · rintro ⟨rule, ⟨deed, hdeed, d, i, _, peer, _, hmem, hid⟩, rfl⟩
    exact ⟨_, List.mem_flatMap.mpr ⟨deed, hdeed, hmem⟩, hid, Policy.ports_offer ..⟩

theorem mergedFrom_of_mem_links (h : link ∈ (ofPolicies true policies).graph.links) :
    MergedFrom ((passOffers true policies).filter
      fun o => o.sharedLinkId == LinkEnds.sharedLinkId link.ends) link := by
  rcases exists_collects_addOffers (passOffers true policies) with ⟨entries, hlists, hcollects⟩
  have hlinks : (ofPolicies true policies).graph.links = entries.map Prod.snd := by
    rw [← hlists.links_eq, passOffers, ← links_ofPolicies]
    rfl
  rw [hlinks] at h
  rcases List.mem_map.mp h with ⟨entry, hentry, rfl⟩
  rcases hcollects.exists_offer hentry with ⟨o, _, hid, hends⟩
  rw [hends, ← Offer.sharedLinkId_eq, hid]
  exact hcollects.merged entry hentry

end Build

theorem Graph.mem_links_ofPolicies {policies : List Policy} {link : Link}
    (h : link ∈ (Graph.compile true policies).links) (hdirect : link.crossPolicy = false) :
    link ∈ (Build.ofPolicies true policies).graph.links := by
  rcases exists_collects_addOffers (Build.passOffers true policies) with ⟨entries, hlists, _⟩
  rw [Build.passOffers, ← Build.links_ofPolicies] at hlists
  rw [Graph.compile_true_eq, (hlists.registerAll _).links_eq] at h
  rcases List.mem_map.mp h with ⟨entry, hentry, rfl⟩
  rcases mem_foldl_registerEntry.mp hentry with hfirst | ⟨_, hfind⟩
  · have hlinks : (Build.ofPolicies true policies).graph.links = entries.map Prod.snd :=
      hlists.links_eq
    rw [hlinks]
    exact List.mem_map_of_mem hfirst
  · rcases exists_of_mem_heardEntries (List.mem_of_find?_eq_some hfind) with
      ⟨owner, _, target, _, d, ports, combined, _, rfl⟩
    rw [crossPolicy_crossLink] at hdirect
    cases hdirect

/-!
# Detailed ports
-/

namespace Link

/-- Whether two of the rules that contribute to a link open different ports. -/
def JoinsDifferentPorts (link : Link) (policies : List Policy) : Prop :=
  ∃ r s : Rule, r.ContributesTo policies link ∧ s.ContributesTo policies link ∧
    r.ports.opened.same s.ports.opened = false

/-- Whether the rules that contribute to a link all open all ports, some without a list of ports
and some with an empty one. -/
structure MixesAllPorts (link : Link) (policies : List Policy) : Prop where
  opened : ∀ rule : Rule, rule.ContributesTo policies link -> rule.ports.opened = .all
  unlisted : ∃ rule : Rule, rule.ContributesTo policies link ∧ rule.ports.orAll = .all
  emptyList : ∃ rule : Rule, rule.ContributesTo policies link ∧ rule.ports = .listed []

variable {link : Link} {policies : List Policy}

theorem not_joinsDifferentPorts_of_opened
    (h : ∀ rule : Rule, rule.ContributesTo policies link -> rule.ports.opened = .all) :
    ¬ link.JoinsDifferentPorts policies := by
  rintro ⟨r, s, hr, hs, hdiffer⟩
  rw [h r hr, h s hs] at hdiffer
  cases hdiffer

theorem opened_of_not_joinsDifferentPorts (hnone : ¬ link.JoinsDifferentPorts policies) {r : Rule}
    (hr : r.ContributesTo policies link) (hall : r.ports.orAll = .all) (rule : Rule)
    (hrule : rule.ContributesTo policies link) : rule.ports.opened = .all := by
  by_contra hother
  refine hnone ⟨rule, r, hrule, hr, ?_⟩
  rw [Ports.opened_eq_all_iff.mpr (Or.inl hall), Bool.eq_false_iff]
  exact mt Ports.same_all_iff.mp hother

end Link

namespace Build

variable {policies : List Policy} {link : Link}

/-- The detailed ports of a link tell of two rules that name different ports. -/
theorem exists_rules_of_isSome_breakdown (h : link ∈ (ofPolicies true policies).graph.links)
    (hdetailed : link.breakdown.isSome = true) :
    ∃ r s : Rule, r.ContributesTo policies link ∧ s.ContributesTo policies link ∧
      r.ports.orAll.same s.ports.orAll = false := by
  rcases (mergedFrom_of_mem_links h).exists_differing_of_isSome hdetailed with
    ⟨o, ho, p, hp, hdiffer⟩
  rcases List.mem_filter.mp ho with ⟨ho, hoId⟩
  rcases List.mem_filter.mp hp with ⟨hp, hpId⟩
  rcases exists_offer_iff.mp ⟨o, ho, eq_of_beq hoId, rfl⟩ with ⟨r, hr, hrPorts⟩
  rcases exists_offer_iff.mp ⟨p, hp, eq_of_beq hpId, rfl⟩ with ⟨s, hs, hsPorts⟩
  exact ⟨r, s, hr, hs, by rw [hrPorts, hsPorts, hdiffer]⟩

theorem isSome_breakdown_of_mixes (h : link ∈ (ofPolicies true policies).graph.links)
    (hmixes : link.MixesAllPorts policies) : link.breakdown.isSome = true := by
  rcases hmixes.unlisted with ⟨r, hr, hunlisted⟩
  rcases hmixes.emptyList with ⟨s, hs, hempty⟩
  rcases exists_offer_iff.mpr ⟨r, hr, rfl⟩ with ⟨o, ho, hoId, hoPorts⟩
  rcases exists_offer_iff.mpr ⟨s, hs, rfl⟩ with ⟨p, hp, hpId, hpPorts⟩
  have hformed : ∀ q ∈ (passOffers true policies).filter
      (fun o => o.sharedLinkId == LinkEnds.sharedLinkId link.ends), q.ports.WellFormed := by
    intro q hq
    rcases List.mem_filter.mp hq with ⟨hq, hqId⟩
    rcases exists_offer_iff.mp ⟨q, hq, eq_of_beq hqId, rfl⟩ with ⟨t, ht, htPorts⟩
    rw [← htPorts]
    -- nothing is listed by a rule that opens all ports
    rcases Ports.opened_eq_all_iff.mp (hmixes.opened t ht) with hall | hnil
    · rw [hall]
      trivial
    · rw [hnil]
      intro port hport
      cases hport
  rw [(mergedFrom_of_mem_links h).isSome_breakdown_iff hformed]
  refine ⟨o, List.mem_filter.mpr ⟨ho, beq_iff_eq.mpr hoId⟩, p,
    List.mem_filter.mpr ⟨hp, beq_iff_eq.mpr hpId⟩, ?_⟩
  rw [hoPorts, hpPorts, hunlisted, hempty]
  rfl

end Build

/-- A link that is not inferred is marked for detailed ports exactly if it has a breakdown.  It
is marked only if two rules that contribute to it open different ports, unless all of them open
all ports and some do so by an empty list. -/
theorem Graph.joinsDifferentPorts_iff_not_mixes (policies : List Policy) (link : Link)
    (hlink : link ∈ (Graph.compile true policies).links) (hdirect : link.crossPolicy = false) :
    link.MarksBreakdown ∧
      ((link.detailed = true -> link.JoinsDifferentPorts policies) ↔
        ¬ link.MixesAllPorts policies) := by
  have hfirst := Graph.mem_links_ofPolicies hlink hdirect
  have hmarks := Graph.marksBreakdown_of_mem_compile hlink
  refine ⟨hmarks, ?_⟩
  rw [hmarks]
  constructor
  · intro honly hmixes
    exact Link.not_joinsDifferentPorts_of_opened hmixes.opened
      (honly (Build.isSome_breakdown_of_mixes hfirst hmixes))
  · intro hmixes hdetailed
    rcases Build.exists_rules_of_isSome_breakdown hfirst hdetailed with ⟨r, s, hr, hs, hnamed⟩
    by_contra hnone
    have hsame : r.ports.opened.same s.ports.opened = true := by
      by_contra hdiffer
      exact hnone ⟨r, s, hr, hs, Bool.eq_false_iff.mpr hdiffer⟩
    -- two rules that only name their ports differently open all of them
    rcases Ports.all_of_opened_same hnamed hsame with ⟨hunlisted, hempty⟩ | ⟨hempty, hunlisted⟩
    · exact hmixes ⟨Link.opened_of_not_joinsDifferentPorts hnone hr hunlisted,
        ⟨r, hr, hunlisted⟩, ⟨s, hs, hempty⟩⟩
    · exact hmixes ⟨Link.opened_of_not_joinsDifferentPorts hnone hs hunlisted,
        ⟨s, hs, hunlisted⟩, ⟨r, hr, hempty⟩⟩

/-- The shop has a link from everybody, to which one rule without a list of ports contributes and
one that opens port 80. -/
theorem Graph.joinsDifferentPorts_shopPolicies :
    ∃ link ∈ (Graph.compile true shopPolicies).links, link.crossPolicy = false ∧
      link.detailed = true ∧ link.breakdown.isSome = true ∧
      link.JoinsDifferentPorts shopPolicies := by
  have hends : ((Graph.compile true shopPolicies).links[0]?).map
      (fun link => (link.ends, link.crossPolicy, link.detailed)) =
        some (("anywhere:ingress",
          "pod:shop:\x7b\"matchLabels\":\x7b\"app\":\"web\"\x7d\x7d", .ingress), false, true) := by
    decide +kernel
  rcases Option.map_eq_some_iff.mp hends with ⟨link, hget, hparts⟩
  simp only [Prod.mk.injEq] at hparts
  rcases hparts with ⟨hends, hdirect, hdetailed⟩
  have hlink : link ∈ (Graph.compile true shopPolicies).links := List.mem_of_getElem? hget
  rcases joinsDifferentPorts_iff_not_mixes shopPolicies link hlink hdirect with ⟨hmarks, hjoins⟩
  refine ⟨link, hlink, hdirect, hdetailed, hmarks ▸ hdetailed, ?_⟩
  refine hjoins.mpr ?_ hdetailed
  intro hmixes
  let back := shopPolicies.getLast (List.cons_ne_nil _ _)
  let rule : Rule := ⟨[], .listed [⟨.int 80, .null, .null⟩]⟩
  have hrule : ((back.rules .ingress).getD [])[0]? = some (.rule rule) := rfl
  have hpeer : .anywhere "shop" .ingress ∈ back.endpoints .ingress rule :=
    List.mem_singleton_self _
  have hid : (back.offer true (.anywhere "shop" .ingress) .ingress rule.ports.orAll
      0).sharedLinkId = LinkEnds.sharedLinkId link.ends := by
    rw [hends]
    decide +kernel
  cases hmixes.opened rule (Rule.contributesTo_of_wellFormed wellFormed_shopPolicies
    (List.getLast_mem _) hrule hpeer hid)

def RuleEntry.opensAll : RuleEntry → Bool
  | .rule r => r.ports.opened.same .all
  | .absent => true
  | .malformed => true

namespace Manifest

def everybodyText (ports : String) : String :=
  "metadata:\n  name: a\nspec:\n  ingress:\n  - from: []\n---\n" ++
    "metadata:\n  name: b\nspec:\n  ingress:\n  - ports: " ++ ports ++ "\n"

/-- An empty list of ports makes all ports differ from all ports. -/
theorem load_everybodyText_mixes :
    let text := everybodyText "[]"
    let policies := (load text).policies
    (load text).result = .ok policies ∧
      ∃ link ∈ (Graph.compile true policies).links, link.crossPolicy = false ∧
        link.detailed = true ∧ link.breakdown.isSome = true ∧
        link.breakdownText? = .ok (some "a: All ports\nb: All ports") ∧
        ¬ link.JoinsDifferentPorts policies := by
  intro text policies
  have hrun : (load text).fault = none ∧
      (policies.all fun p => Direction.all.all fun d =>
        ((p.rules d).getD []).all RuleEntry.opensAll) = true ∧
      ((Graph.compile true policies).links[0]?).map
        (fun link => (link.crossPolicy, link.detailed, link.breakdown.isSome,
          link.breakdownText?.toOption)) =
        some (false, true, true, some (some "a: All ports\nb: All ports")) := by
    decide +kernel
  rcases hrun with ⟨hfault, hopened, hparts⟩
  rcases Option.map_eq_some_iff.mp hparts with ⟨link, hget, hparts⟩
  simp only [Prod.mk.injEq] at hparts
  rcases hparts with ⟨hdirect, hdetailed, hsome, htext⟩
  refine ⟨by rw [Loading.result, hfault], link, List.mem_of_getElem? hget, hdirect, hdetailed,
    hsome, ?_, ?_⟩
  · cases hline : link.breakdownText? with
    | error fault =>
        rw [hline] at htext
        cases htext
    | ok line =>
        rw [hline] at htext
        rw [Option.some.inj htext]
  · apply Link.not_joinsDifferentPorts_of_opened
    rintro rule ⟨deed, hdeed, d, i, hrule, _⟩
    have hpolicy := (Build.exists_build_of_mem_deeds hdeed).1
    have hsame := List.all_eq_true.mp (List.all_eq_true.mp (List.all_eq_true.mp hopened
      deed.policy hpolicy) d d.mem_all) _ (List.mem_of_getElem? hrule)
    exact Ports.same_all_iff.mp hsame

end Manifest
end TrafficGraph
