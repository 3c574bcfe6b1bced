import TrafficGraph.Proofs.Graph.Deed
import TrafficGraph.Proofs.Graph.Identity

/-!
# The links of a first pass

Policies contribute what their rules say: for each direction, each rule and each
peer of the rule, in this order, the traffic between the peer and the pods of
the policy.  Where policies share links, a first pass over well-formed policies
lists exactly the distinct ends and directions of these contributions, in the
order in which they come up, and every link joins exactly the contributions
with its ends and its direction.
-/

namespace TrafficGraph

/-!
# Contributions
-/

namespace Policy

/-- The endpoints of a rule: everybody if it has no peers, and those of its peers
if it has some.  A peer that selects nothing has no endpoint. -/
def endpoints (policy : Policy) (d : Direction) (rule : Rule) : List Reference :=
  if rule.peers.isEmpty then [.anywhere policy.namespaceName d]
  else rule.peers.filterMap (PeerEntry.reference? policy.namespaceName)

def ruleContributions (policy : Policy) (deduplicate : Bool) (d : Direction) :
    RuleEntry × Nat → List Offer
  | (.rule rule, ruleIndex) =>
    (policy.endpoints d rule).map fun peer =>
      policy.offer deduplicate peer d rule.ports.orAll ruleIndex
  | (.absent, _) => []
  | (.malformed, _) => []

def contributions (policy : Policy) (deduplicate : Bool) : List Offer :=
  Direction.all.flatMap fun d =>
    (((policy.rules d).getD []).zipIdx).flatMap (policy.ruleContributions deduplicate d)

theorem offer_mem_contributions (policy : Policy) (deduplicate : Bool) {d : Direction} {i : Nat}
    {rule : Rule} (hrule : ((policy.rules d).getD [])[i]? = some (.rule rule)) {peer : Reference}
    (hpeer : peer ∈ policy.endpoints d rule) :
    policy.offer deduplicate peer d rule.ports.orAll i ∈ policy.contributions deduplicate := by
  refine List.mem_flatMap.mpr ⟨d, d.mem_all, List.mem_flatMap.mpr ⟨(.rule rule, i), ?_, ?_⟩⟩
  · exact List.mem_zipIdx_iff_getElem?.mpr hrule
  · exact List.mem_map_of_mem hpeer

theorem stepOffer?_referStep (policy : Policy) (deduplicate : Bool) (d : Direction)
    (entry : PeerEntry) : policy.stepOffer? deduplicate (policy.referStep d entry) = none := by
  rcases policy.referStep_cases d entry with ⟨r, _, hstep⟩ | ⟨_, hstep | hstep⟩ <;>
    rw [hstep] <;> rfl

theorem offers_ruleSteps (policy : Policy) (deduplicate : Bool) (d : Direction)
    (ruleIndex : Nat) (entry : RuleEntry) :
    (policy.ruleSteps d ruleIndex entry).filterMap (policy.stepOffer? deduplicate) =
      policy.ruleContributions deduplicate d (entry, ruleIndex) := by
  cases entry with
  | absent => rfl
  | malformed => rfl
  | rule rule =>
      have hrefer : ∀ peers : List PeerEntry,
          (peers.map (policy.referStep d)).filterMap (policy.stepOffer? deduplicate) = [] := by
        intro peers
        rw [List.filterMap_map, List.filterMap_eq_nil_iff]
        intro peer _
        exact policy.stepOffer?_referStep deduplicate d peer
      have hconnect : ∀ peers : List PeerEntry,
          (peers.filterMap (policy.connectStep? d rule.ports.orAll ruleIndex)).filterMap
              (policy.stepOffer? deduplicate) =
            (peers.filterMap (PeerEntry.reference? policy.namespaceName)).map fun peer =>
              policy.offer deduplicate peer d rule.ports.orAll ruleIndex := by
        intro peers
        rw [List.filterMap_filterMap, List.map_filterMap]
        congr 1
        funext peer
        rw [connectStep?]
        cases peer.reference? policy.namespaceName <;> rfl
      rw [ruleSteps, ruleContributions, endpoints]
      split
      · rfl
      · rw [List.filterMap_append, hrefer, List.nil_append, hconnect]

theorem offers_rulesSteps (policy : Policy) (deduplicate : Bool) (d : Direction)
    (ruleIndex : Nat) (entries : List RuleEntry) :
    (policy.rulesSteps d ruleIndex entries).filterMap (policy.stepOffer? deduplicate) =
      (entries.zipIdx ruleIndex).flatMap (policy.ruleContributions deduplicate d) := by
  induction entries generalizing ruleIndex with
  | nil => rfl
  | cons entry rest ih =>
      rw [rulesSteps, List.filterMap_append, offers_ruleSteps, ih, List.zipIdx_cons,
        List.flatMap_cons]

theorem offers_steps (policy : Policy) (deduplicate : Bool) :
    Deed.offers ⟨policy, policy.steps⟩ deduplicate = policy.contributions deduplicate := by
  have hown : policy.stepOffer? deduplicate (.refer policy.podReference none) = none := rfl
  rw [Deed.offers, steps, List.filterMap_cons_none hown, contributions, List.filterMap_flatMap]
  congr 1
  funext d
  exact offers_rulesSteps policy deduplicate d 0 _

end Policy

/-!
# Well-formed policies

A policy is carried out completely if its rules are rules, its peers are peers, the
addresses of their ranges can be written, as every text can, and the exceptions are texts.
-/

structure Peer.WellFormed (p : Peer) : Prop where
  writable : ∀ block ∈ p.ipBlock, block.isWritable = true
  exceptions : ∀ block ∈ p.ipBlock, ∀ v ∈ block.exceptions, ∃ s, v = .text s

def PeerEntry.WellFormed : PeerEntry → Prop
  | .peer p => p.WellFormed
  | _ => False

def RuleEntry.WellFormed : RuleEntry → Prop
  | .rule r => ∀ entry ∈ r.peers, entry.WellFormed
  | .absent => True
  | .malformed => False

def Policy.WellFormed (policy : Policy) : Prop :=
  ∀ d, ∀ entry ∈ (policy.rules d).getD [], entry.WellFormed

def Step.Sound : Step → Prop
  | .refer r _ => ∃ body, r.body = .ok body
  | .stumble => False
  | _ => True

theorem exceptionTexts_isSome {vs : List Value} (h : ∀ v ∈ vs, ∃ s, v = .text s) :
    ∃ texts, exceptionTexts vs = some texts := by
  induction vs with
  | nil => exact ⟨[], rfl⟩
  | cons v rest ih =>
      rcases h v List.mem_cons_self with ⟨s, rfl⟩
      rcases ih fun w hw => h w (List.mem_cons_of_mem _ hw) with ⟨texts, htexts⟩
      exact ⟨s :: texts, by rw [exceptionTexts, htexts]; rfl⟩

theorem Peer.body_ok {p : Peer}
    (h : ∀ block ∈ p.ipBlock, ∀ v ∈ block.exceptions, ∃ s, v = .text s) {ns : String}
    {r : Reference} (hr : p.reference? ns = some r) : ∃ body, r.body = .ok body := by
  unfold Peer.reference? at hr
  split at hr
  · cases hr
    exact ⟨_, rfl⟩
  · cases hr
    exact ⟨_, rfl⟩
  · cases hr
    exact ⟨_, rfl⟩
  · rename_i block _ _ hblock
    cases hr
    rcases exceptionTexts_isSome (h block hblock) with ⟨texts, htexts⟩
    rw [Reference.body, ipBlockBody, Option.map_some, Option.getD_some, htexts]
    cases texts with
    | nil => exact ⟨_, rfl⟩
    | cons first rest => exact ⟨_, rfl⟩
  · cases hr

theorem Peer.WellFormed.isWritable {p : Peer} (h : p.WellFormed) {ns : String} {r : Reference}
    (hr : p.reference? ns = some r) : r.isWritable = true := by
  unfold Peer.reference? at hr
  split at hr <;> cases hr
  -- only a range can fail to be written
  case h_4 block _ _ hblock => exact h.writable block hblock
  all_goals rfl

namespace PeerEntry.WellFormed

variable {entry : PeerEntry} (h : entry.WellFormed)

include h

theorem exists_peer : ∃ p, entry = .peer p ∧ p.WellFormed := by
  cases entry with
  | peer p => exact ⟨p, rfl, h⟩
  | _ => cases h

theorem sound_referStep (policy : Policy) (d : Direction) : (policy.referStep d entry).Sound := by
  rcases h.exists_peer with ⟨p, rfl, hp⟩
  rw [Policy.referStep, reference?_peer fun _ hr => hp.isWritable hr,
    selectsNothing_peer p policy.namespaceName]
  cases hr : p.reference? policy.namespaceName with
  | none => trivial
  | some r => exact Peer.body_ok hp.exceptions hr

end PeerEntry.WellFormed

namespace Policy

theorem sound_of_mem_ruleSteps {policy : Policy} {d : Direction} {ruleIndex : Nat}
    {entry : RuleEntry} (h : entry.WellFormed) {s : Step}
    (hs : s ∈ policy.ruleSteps d ruleIndex entry) : s.Sound := by
  cases entry with
  | absent => cases hs
  | malformed => cases h
  | rule rule =>
      rw [ruleSteps] at hs
      split at hs
      · simp only [List.mem_cons, List.not_mem_nil, or_false] at hs
        rcases hs with rfl | rfl
        · exact ⟨_, rfl⟩
        · trivial
      · rcases List.mem_append.mp hs with hrefer | hconnect
        · rcases List.mem_map.mp hrefer with ⟨peer, hpeer, rfl⟩
          exact (h peer hpeer).sound_referStep policy d
        · rcases List.mem_filterMap.mp hconnect with ⟨peer, _, hpeer⟩
          rcases Option.map_eq_some_iff.mp hpeer with ⟨r, _, rfl⟩
          trivial

theorem WellFormed.sound_of_mem_steps {policy : Policy} (h : policy.WellFormed) {s : Step}
    (hs : s ∈ policy.steps) : s.Sound := by
  rcases exists_rule_of_mem_steps hs with rfl | ⟨d, entry, hentry, i, hrule⟩
  · exact ⟨_, rfl⟩
  · exact sound_of_mem_ruleSteps (h d entry hentry) hrule

end Policy

namespace Build

theorem step_ok_of_sound {s : Step} (h : s.Sound) (b : Build) (policy : Policy) :
    ∃ next, b.step policy s = .ok next := by
  cases s with
  | refer r d =>
      rcases h with ⟨body, hbody⟩
      exact step_refer_ok hbody b policy d
  | passOver => exact ⟨_, rfl⟩
  | connect peer d ports ruleIndex => exact ⟨_, rfl⟩
  | stumble => cases h

theorem carriedOut_eq_of_sound {policy : Policy} {steps : List Step} (h : ∀ s ∈ steps, s.Sound)
    (b : Build) : carriedOut policy steps b = steps := by
  induction steps generalizing b with
  | nil => rfl
  | cons s rest ih =>
      rcases step_ok_of_sound (h s List.mem_cons_self) b policy with ⟨next, hnext⟩
      rw [carriedOut, hnext]
      show s :: carriedOut policy rest next = s :: rest
      rw [ih fun other hother => h other (List.mem_cons_of_mem s hother)]

theorem deeds_of_carriedOut {policies : List Policy}
    (h : ∀ p ∈ policies, ∀ b, carriedOut p p.steps b = p.steps) (b : Build) :
    b.deeds policies = policies.map fun p => ⟨p, p.steps⟩ := by
  induction policies generalizing b with
  | nil => rfl
  | cons policy rest ih =>
      rw [deeds, h policy List.mem_cons_self, ih fun p hp => h p (List.mem_cons_of_mem policy hp)]
      rfl

theorem deeds_of_wellFormed {policies : List Policy} (h : ∀ p ∈ policies, p.WellFormed)
    (b : Build) : b.deeds policies = policies.map fun p => ⟨p, p.steps⟩ := by
  apply deeds_of_carriedOut
  intro p hp before
  exact carriedOut_eq_of_sound (fun s hs => (h p hp).sound_of_mem_steps hs) before

end Build

/-!
# The links of the pass

One end of each offer is the pods of its policy, so where namespaces hold no
colons the identities of the links tell their ends apart.
-/

theorem Policy.endsAtPods_offer (policy : Policy) (hplain : ':' ∉ policy.namespaceName.toList)
    (peer : Reference) (d : Direction) (ports : Ports) (ruleIndex : Nat) :
    EndsAtPods (policy.offer true peer d ports ruleIndex).source
      (policy.offer true peer d ports ruleIndex).target
      (policy.offer true peer d ports ruleIndex).direction := by
  have hown : policy.podReference.id true policy.name = policy.podId := by
    rw [Reference.id_shared]
    rfl
  cases d with
  | ingress => exact ⟨policy, hplain, hown⟩
  | egress => exact ⟨policy, hplain, hown⟩

theorem tellsEnds_of_plain {offers : List Offer}
    (h : ∀ o ∈ offers, EndsAtPods o.source o.target o.direction) : TellsEnds offers := by
  intro o ho p hp hid
  rcases linkId_shared_inj (h o ho) (h p hp) hid with ⟨hsource, htarget, hdirection⟩
  unfold Offer.ends
  rw [hsource, htarget, hdirection]

theorem endsAtPods_of_mem_passDeeds {policies : List Policy}
    (hplain : ∀ p ∈ policies, ':' ∉ p.namespaceName.toList) {deed : Deed}
    (hdeed : deed ∈ Build.passDeeds true policies) {o : Offer} (ho : o ∈ deed.offers true) :
    EndsAtPods o.source o.target o.direction := by
  have hpolicy : deed.policy ∈ policies := (Build.exists_build_of_mem_deeds hdeed).1
  rcases Deed.exists_connect_of_mem_offers ho with ⟨peer, d, ports, ruleIndex, _, rfl⟩
  exact deed.policy.endsAtPods_offer (hplain deed.policy hpolicy) peer d ports ruleIndex

/-- The links of a first pass over well-formed policies that share links.  Their
ends and directions are the distinct ones of the contributions, in the order in
which they come up.  Each link has the ports and the place of the first
contribution with its ends and its direction, and the names of the policies of
all of them. -/
theorem sharedLinks_eq_contributions (policies : List Policy)
    (hformed : ∀ p ∈ policies, p.WellFormed)
    (hplain : ∀ p ∈ policies, ':' ∉ p.namespaceName.toList) :
    let offers := policies.flatMap fun p => p.contributions true
    let links := (Build.ofPolicies true policies).graph.links
    links.map Link.ends = (offers.map Offer.ends).eraseDups ∧
      ∀ link ∈ links, ∃ first rest,
        (offers.filter fun o => o.ends == link.ends) = first :: rest ∧
        link.withoutBreakdown =
          { first.link with policies := ((first :: rest).map Offer.policy).eraseDups } := by
  intro offers links
  have hoffers : ((Build.passDeeds true policies).flatMap fun deed => deed.offers true) =
      offers := by
    rw [Build.passDeeds, Build.deeds_of_wellFormed hformed, List.flatMap_map]
    simp only [Policy.offers_steps]
    rfl
  have htells : TellsEnds offers := by
    apply tellsEnds_of_plain
    intro o ho
    rw [← hoffers] at ho
    rcases List.mem_flatMap.mp ho with ⟨deed, hdeed, hmem⟩
    exact endsAtPods_of_mem_passDeeds hplain hdeed hmem
  rcases exists_collects_addOffers offers with ⟨entries, hlists, hcollects⟩
  have hlinks : links = entries.map Prod.snd := by
    rw [← hlists.links_eq, ← hoffers, ← Build.links_ofPolicies]
    rfl
  constructor
  · rw [hlinks, List.map_map]
    exact hcollects.map_ends htells
  · intro link hlink
    rw [hlinks] at hlink
    rcases List.mem_map.mp hlink with ⟨entry, hentry, rfl⟩
    have hmerged := hcollects.mergedFrom_ends htells hentry
    rcases hmerged with ⟨first, rest, hfilter, hjoined⟩
    refine ⟨first, rest, hfilter, ?_⟩
    exact MergedFrom.withoutBreakdown_eq ⟨first, rest, rfl, hjoined⟩

/-- Two policies for the same pods.  Both let everybody in, on different ports, and
the first one also lets in a range of addresses. -/
def shopPolicies : List Policy :=
  let pods := some ⟨some (Labels.ofList [("app", "web")]), none⟩
  let range : Peer := ⟨none, none, some ⟨.text "10.0.0.0/8", [.text "10.1.0.0/16"]⟩⟩
  [⟨"front", "shop", pods, some [.rule ⟨[], .unset⟩, .rule ⟨[.peer range], .listed []⟩], none, []⟩,
    ⟨"back", "shop", pods, some [.rule ⟨[], .listed [⟨.int 80, .null, .null⟩]⟩], none, []⟩]

theorem wellFormed_shopPolicies : ∀ p ∈ shopPolicies, p.WellFormed := by
  intro p hp d entry hentry
  simp only [shopPolicies, List.mem_cons, List.not_mem_nil, or_false] at hp
  rcases hp with rfl | rfl
  · cases d with
    | ingress =>
        simp only [Policy.rules, Option.getD_some, List.mem_cons, List.not_mem_nil,
          or_false] at hentry
        rcases hentry with rfl | rfl
        · simp [RuleEntry.WellFormed]
        · simp only [RuleEntry.WellFormed, List.forall_mem_singleton]
          exact ⟨by simp [IPBlock.isWritable], by simp⟩
    | egress => simp [Policy.rules] at hentry
  · cases d with
    | ingress =>
        simp only [Policy.rules, Option.getD_some, List.mem_cons, List.not_mem_nil,
          or_false] at hentry
        rcases hentry with rfl
        simp [RuleEntry.WellFormed]
    | egress => simp [Policy.rules] at hentry

/-- The two policies share the link from everybody, which comes up first. -/
theorem sharedLinks_shopPolicies :
    (∀ p ∈ shopPolicies, p.WellFormed) ∧ (∀ p ∈ shopPolicies, ':' ∉ p.namespaceName.toList) ∧
      (Build.ofPolicies true shopPolicies).graph.links.map Link.ends =
        [("anywhere:ingress", "pod:shop:\x7b\"matchLabels\":\x7b\"app\":\"web\"\x7d\x7d", .ingress),
          ("ipBlock:10.0.0.0/8", "pod:shop:\x7b\"matchLabels\":\x7b\"app\":\"web\"\x7d\x7d",
            .ingress)] := by
  have hplain : ∀ p ∈ shopPolicies, ':' ∉ p.namespaceName.toList := by decide
  have hlinks := sharedLinks_eq_contributions shopPolicies wellFormed_shopPolicies hplain
  refine ⟨wellFormed_shopPolicies, hplain, ?_⟩
  rw [hlinks.1]
  decide +kernel

end TrafficGraph
