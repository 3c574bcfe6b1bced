import Mathlib.Data.List.Perm.Basic
import TrafficGraph.Proofs.Graph.Hearing
import TrafficGraph.Proofs.Graph.Quotient

/-!
# Policies with their directions exchanged

If every policy has its two lists of rules exchanged, the traffic that policies allow on
their own runs the other way.  A first pass works through one direction before the
other, but whatever is offered between two ends in a direction comes from the rules of
that direction alone.  Hence its links are the mirror images of those of the original
policies, in another order.
-/

namespace TrafficGraph

/-!
# Mirror images
-/

def Direction.flip : Direction → Direction
  | .ingress => .egress
  | .egress => .ingress

@[simp] theorem Direction.flip_flip (d : Direction) : d.flip.flip = d := by cases d <;> rfl

/-- A policy with its rules for the two directions exchanged. -/
def Policy.mirror (policy : Policy) : Policy :=
  { policy with ingress := policy.egress, egress := policy.ingress }

def everybodyId (d : Direction) : String := "anywhere:" ++ d.name

/-- An identity with the two directions of everybody exchanged. -/
def mirrorId (id : String) : String :=
  match Direction.all.find? fun d => (everybodyId d).toList.isPrefixOf id.toList with
  | some d => everybodyId d.flip ++ String.ofList (id.toList.drop (everybodyId d).toList.length)
  | none => id

def LinkEnds.mirror (ends : LinkEnds) : LinkEnds :=
  (mirrorId ends.2.1, mirrorId ends.1, ends.2.2.flip)

/-- A link with its traffic running the other way.  The two policies of an inferred link
change places, and so do their names in its label. -/
def Link.mirror (link : Link) : Link :=
  if link.crossPolicy then
    { link with
      source := link.target
      target := link.source
      direction := link.direction.flip
      policies := link.policies.reverse
      label := link.label.map fun _ => " → ".intercalate link.policies.reverse }
  else
    { link with
      source := mirrorId link.target
      target := mirrorId link.source
      direction := link.direction.flip }

def Offer.mirror (o : Offer) : Offer :=
  { o with
    source := mirrorId o.target
    target := mirrorId o.source
    direction := o.direction.flip }

def Reference.mirror : Reference → Reference
  | .anywhere ns d => .anywhere ns d.flip
  | r => r

namespace Policy

@[simp] theorem mirror_mirror (policy : Policy) : policy.mirror.mirror = policy := rfl

@[simp] theorem name_mirror (policy : Policy) : policy.mirror.name = policy.name := rfl

@[simp] theorem podId_mirror (policy : Policy) : policy.mirror.podId = policy.podId := rfl

theorem rules_mirror (policy : Policy) (d : Direction) :
    policy.mirror.rules d.flip = policy.rules d := by
  cases d <;> rfl

theorem Plain.mirror {policy : Policy} (h : policy.Plain) : policy.mirror.Plain :=
  ⟨h.namespaceName, h.name⟩

theorem plain_map_mirror {policies : List Policy} (h : ∀ p ∈ policies, p.Plain) :
    ∀ p ∈ policies.map Policy.mirror, p.Plain := by
  intro p hp
  rcases List.mem_map.mp hp with ⟨q, hq, rfl⟩
  exact (h q hq).mirror

theorem map_mirror_map_mirror (policies : List Policy) :
    (policies.map Policy.mirror).map Policy.mirror = policies := by
  rw [List.map_map]
  exact List.map_id policies

end Policy

/-!
# Identities
-/

theorem not_everybodyId_prefix_flip (d : Direction) (rest : List Char) :
    ¬ (everybodyId d.flip).toList <+: (everybodyId d).toList ++ rest := by
  cases d with
  | ingress => simp [everybodyId, Direction.flip, Direction.name]
  | egress => simp [everybodyId, Direction.flip, Direction.name]

theorem mirrorId_everybodyId (d : Direction) (rest : String) :
    mirrorId (everybodyId d ++ rest) = everybodyId d.flip ++ rest := by
  have hfind : (Direction.all.find? fun e =>
      (everybodyId e).toList.isPrefixOf (everybodyId d ++ rest).toList) = some d := by
    have hother := not_everybodyId_prefix_flip d rest.toList
    rw [String.toList_append]
    cases d with
    | ingress => simp [Direction.all]
    | egress =>
        rw [Direction.all, List.find?_cons_of_neg (by simpa [Direction.flip] using hother)]
        simp
  unfold mirrorId
  rw [hfind]
  simp

theorem mirrorId_of_not_prefix {id : String}
    (h : ∀ d, ¬ (everybodyId d).toList <+: id.toList) : mirrorId id = id := by
  have hnone : (Direction.all.find? fun d => (everybodyId d).toList.isPrefixOf id.toList) =
      none := by
    rw [List.find?_eq_none]
    intro d _
    rw [List.isPrefixOf_iff_prefix]
    exact h d
  unfold mirrorId
  rw [hnone]

@[simp] theorem mirrorId_mirrorId (id : String) : mirrorId (mirrorId id) = id := by
  by_cases h : ∃ d, (everybodyId d).toList <+: id.toList
  · rcases h with ⟨d, rest, hrest⟩
    have hid : id = everybodyId d ++ String.ofList rest := by
      apply String.toList_inj.mp
      rw [String.toList_append, String.toList_ofList, hrest]
    rw [hid, mirrorId_everybodyId, mirrorId_everybodyId, Direction.flip_flip]
  · have hnone : mirrorId id = id := mirrorId_of_not_prefix fun d hd => h ⟨d, hd⟩
    rw [hnone, hnone]

theorem sharedId_anywhere (ns : String) (d : Direction) :
    (Reference.anywhere ns d).sharedId = everybodyId d := rfl

/-- Exchanging the directions of everybody in an identity is exchanging them in the
reference. -/
theorem mirrorId_id (r : Reference) (deduplicate : Bool) (policy : String) :
    mirrorId (r.id deduplicate policy) = r.mirror.id deduplicate policy := by
  have hother : r.kind ≠ .anywhere -> mirrorId (r.id deduplicate policy) =
      r.id deduplicate policy := by
    intro hkind
    apply mirrorId_of_not_prefix
    rintro d ⟨rest, hrest⟩
    rw [Reference.id, String.toList_append, ← sharedId_anywhere "" d] at hrest
    exact hkind (Reference.kind_eq_of_append_eq hrest).1.symm
  cases r with
  | anywhere ns d => exact mirrorId_everybodyId d _
  | pod ns selector isTarget => exact hother (by simp [Reference.kind])
  | namespaces ns selector => exact hother (by simp [Reference.kind])
  | ipBlock ns block => exact hother (by simp [Reference.kind])
  | combined ns spaces pods => exact hother (by simp [Reference.kind])

@[simp] theorem LinkEnds.mirror_mirror (ends : LinkEnds) : ends.mirror.mirror = ends := by
  simp [mirror]

/-!
# Offers
-/

namespace Offer

theorem ends_mirror (o : Offer) : o.mirror.ends = o.ends.mirror := rfl

theorem link_mirror (o : Offer) : o.mirror.link = o.link.mirror := rfl

end Offer

theorem Peer.mirror_reference? {p : Peer} {ns : String} {r : Reference}
    (h : p.reference? ns = some r) : r.mirror = r := by
  unfold reference? at h
  split at h <;> cases h <;> rfl

namespace Policy

def contributionsIn (policy : Policy) (deduplicate : Bool) (d : Direction) : List Offer :=
  (((policy.rules d).getD []).zipIdx).flatMap (policy.ruleContributions deduplicate d)

theorem contributions_eq (policy : Policy) (deduplicate : Bool) :
    policy.contributions deduplicate =
      policy.contributionsIn deduplicate .ingress ++ policy.contributionsIn deduplicate .egress := by
  rw [← List.append_nil (policy.contributionsIn deduplicate .egress)]
  rfl

theorem offer_mirror (policy : Policy) (deduplicate : Bool) (peer : Reference) (d : Direction)
    (ports : Ports) (ruleIndex : Nat) :
    policy.mirror.offer deduplicate peer.mirror d.flip ports ruleIndex =
      (policy.offer deduplicate peer d ports ruleIndex).mirror := by
  have hown : policy.mirror.podReference.id deduplicate policy.mirror.name =
      mirrorId (policy.podReference.id deduplicate policy.name) :=
    (mirrorId_id policy.podReference deduplicate policy.name).symm
  have hpeer : peer.mirror.id deduplicate policy.mirror.name =
      mirrorId (peer.id deduplicate policy.name) :=
    (mirrorId_id peer deduplicate policy.name).symm
  unfold offer Offer.mirror
  simp only [hown, hpeer]
  cases d <;> rfl

theorem endpoints_mirror (policy : Policy) (d : Direction) (rule : Rule) :
    policy.mirror.endpoints d.flip rule = (policy.endpoints d rule).map Reference.mirror := by
  unfold endpoints
  split
  · rfl
  · rw [List.map_filterMap]
    apply List.filterMap_congr
    intro entry _
    show entry.reference? policy.namespaceName = (entry.reference? policy.namespaceName).map _
    cases hr : entry.reference? policy.namespaceName with
    | none => rfl
    | some r =>
        rcases PeerEntry.reference?_eq_some_iff.mp hr with ⟨p, rfl, hp, _⟩
        rw [Option.map_some, Peer.mirror_reference? hp]

theorem ruleContributions_mirror (policy : Policy) (deduplicate : Bool) (d : Direction)
    (entry : RuleEntry × Nat) :
    policy.mirror.ruleContributions deduplicate d.flip entry =
      (policy.ruleContributions deduplicate d entry).map Offer.mirror := by
  rcases entry with ⟨entry, ruleIndex⟩
  cases entry with
  | absent => rfl
  | malformed => rfl
  | rule rule =>
      rw [ruleContributions, ruleContributions, endpoints_mirror, List.map_map, List.map_map]
      apply List.map_congr_left
      intro peer _
      exact policy.offer_mirror deduplicate peer d _ ruleIndex

theorem contributionsIn_mirror (policy : Policy) (deduplicate : Bool) (d : Direction) :
    policy.mirror.contributionsIn deduplicate d.flip =
      (policy.contributionsIn deduplicate d).map Offer.mirror := by
  unfold contributionsIn
  rw [rules_mirror, List.map_flatMap]
  apply List.flatMap_congr
  intro entry _
  exact policy.ruleContributions_mirror deduplicate d entry

theorem contributions_mirror_perm (policy : Policy) (deduplicate : Bool) :
    (policy.mirror.contributions deduplicate).Perm
      ((policy.contributions deduplicate).map Offer.mirror) := by
  have hingress : policy.mirror.contributionsIn deduplicate .ingress = _ :=
    policy.contributionsIn_mirror deduplicate .egress
  have hegress : policy.mirror.contributionsIn deduplicate .egress = _ :=
    policy.contributionsIn_mirror deduplicate .ingress
  rw [contributions_eq, contributions_eq, hingress, hegress, List.map_append]
  exact List.perm_append_comm

theorem direction_of_mem_contributionsIn {policy : Policy} {deduplicate : Bool} {d : Direction}
    {o : Offer} (h : o ∈ policy.contributionsIn deduplicate d) : o.direction = d := by
  rcases List.mem_flatMap.mp h with ⟨⟨entry, ruleIndex⟩, _, hentry⟩
  cases entry with
  | absent => cases hentry
  | malformed => cases hentry
  | rule rule =>
      rcases List.mem_map.mp hentry with ⟨peer, _, rfl⟩
      cases d <;> rfl

/-- What a policy contributes between two ends in a direction comes from its rules of
that direction. -/
theorem filter_ends_contributions (policy : Policy) (deduplicate : Bool) (ends : LinkEnds) :
    ((policy.contributions deduplicate).filter fun o => o.ends == ends) =
      (policy.contributionsIn deduplicate ends.2.2).filter fun o => o.ends == ends := by
  have hnone : ∀ d, d ≠ ends.2.2 ->
      ((policy.contributionsIn deduplicate d).filter fun o => o.ends == ends) = [] := by
    intro d hd
    rw [List.filter_eq_nil_iff]
    intro o ho heq
    apply hd
    rw [← eq_of_beq heq]
    exact (direction_of_mem_contributionsIn ho).symm
  rw [contributions_eq, List.filter_append]
  rcases ends with ⟨source, target, d⟩
  cases d with
  | ingress => rw [hnone .egress (by simp), List.append_nil]
  | egress => rw [hnone .ingress (by simp), List.nil_append]

theorem filter_ends_contributions_mirror (policy : Policy) (deduplicate : Bool)
    (ends : LinkEnds) :
    ((policy.mirror.contributions deduplicate).filter fun o => o.ends == ends.mirror) =
      ((policy.contributions deduplicate).filter fun o => o.ends == ends).map Offer.mirror := by
  have hdirection : ends.mirror.2.2 = ends.2.2.flip := rfl
  rw [filter_ends_contributions, filter_ends_contributions, hdirection, contributionsIn_mirror,
    List.filter_map]
  congr 1
  apply List.filter_congr
  intro o _
  rw [Function.comp_apply, Offer.ends_mirror, Bool.eq_iff_iff, beq_iff_eq, beq_iff_eq]
  constructor
  · intro heq
    rw [← ends.mirror_mirror, ← heq, LinkEnds.mirror_mirror]
  · intro heq
    rw [heq]

end Policy

/-!
# Links of the first pass
-/

namespace Link

theorem mirror_of_direct {link : Link} (h : link.crossPolicy = false) :
    link.mirror = { link with
      source := mirrorId link.target
      target := mirrorId link.source
      direction := link.direction.flip } := by
  unfold mirror
  rw [h]
  rfl

theorem crossPolicy_merge (link : Link) (policy : String) (ports : Ports) :
    (link.merge policy ports).crossPolicy = link.crossPolicy := by
  unfold merge
  split <;> rfl

theorem mirror_merge {link : Link} (h : link.crossPolicy = false) (policy : String)
    (ports : Ports) : (link.merge policy ports).mirror = link.mirror.merge policy ports := by
  rw [mirror_of_direct h, mirror_of_direct ((link.crossPolicy_merge policy ports).trans h)]
  unfold merge
  split <;> rfl

theorem mirror_mergeOffers {link : Link} (h : link.crossPolicy = false) (offers : List Offer) :
    (link.mergeOffers offers).mirror = link.mirror.mergeOffers (offers.map Offer.mirror) := by
  induction offers generalizing link with
  | nil => rfl
  | cons o rest ih =>
      have hmerged : (link.merge o.policy o.ports).crossPolicy = false :=
        (link.crossPolicy_merge o.policy o.ports).trans h
      have hrest := ih hmerged
      rw [mirror_merge h] at hrest
      exact hrest

theorem mirror_mirror_of_direct {link : Link} (h : link.crossPolicy = false) :
    link.mirror.mirror = link := by
  have hmirror : link.mirror.crossPolicy = false := by
    rw [mirror_of_direct h]
    exact h
  rw [mirror_of_direct hmirror, mirror_of_direct h]
  simp

end Link

theorem MergedFrom.mirror {offers : List Offer} {link : Link} (h : MergedFrom offers link) :
    MergedFrom (offers.map Offer.mirror) link.mirror := by
  rcases h with ⟨first, rest, rfl, rfl⟩
  exact ⟨first.mirror, rest.map Offer.mirror, rfl, Link.mirror_mergeOffers rfl rest⟩

theorem MergedFrom.unique {offers : List Offer} {link other : Link} (h : MergedFrom offers link)
    (hother : MergedFrom offers other) : link = other := by
  rcases h with ⟨first, rest, rfl, rfl⟩
  rcases hother with ⟨first', rest', heq, rfl⟩
  injection heq with hfirst hrest
  rw [hfirst, hrest]

namespace Build

section Plain

variable {policies : List Policy} (hplain : ∀ p ∈ policies, p.Plain)

include hplain

theorem nodup_links_shared : (ofPolicies true policies).graph.links.Nodup := by
  have hends := (links_eq_passOffers fun p hp => (hplain p hp).namespaceName).1
  apply List.Nodup.of_map Link.ends
  rw [hends]
  exact nodup_eraseDups _

theorem mirror_mem_links_shared (h : (ofPolicies true policies).SkipsNone)
    (hmirror : (ofPolicies true (policies.map Policy.mirror)).SkipsNone) {link : Link}
    (hlink : link ∈ (ofPolicies true policies).graph.links) :
    link.mirror ∈ (ofPolicies true (policies.map Policy.mirror)).graph.links := by
  have hplainMirror := Policy.plain_map_mirror hplain
  rcases links_eq_passOffers fun p hp => (hplainMirror p hp).namespaceName with
    ⟨hends, hmerged⟩
  have hoffers : ((passOffers true (policies.map Policy.mirror)).filter
      fun o => o.ends == link.ends.mirror) =
        ((passOffers true policies).filter fun o => o.ends == link.ends).map Offer.mirror := by
    rw [h.passOffers_eq, hmirror.passOffers_eq, List.flatMap_map, List.filter_flatMap,
      List.filter_flatMap, List.map_flatMap]
    simp only [Policy.filter_ends_contributions_mirror]
  have himage := ((links_eq_passOffers fun p hp => (hplain p hp).namespaceName).2 link
    hlink).mirror
  rw [← hoffers] at himage
  have hmem : link.ends.mirror ∈
      (ofPolicies true (policies.map Policy.mirror)).graph.links.map Link.ends := by
    rw [hends, List.mem_eraseDups]
    rcases himage with ⟨first, rest, hfilter, _⟩
    have hfirst : first ∈ (passOffers true (policies.map Policy.mirror)).filter
        fun o => o.ends == link.ends.mirror := by
      rw [hfilter]
      exact List.mem_cons_self
    rcases List.mem_filter.mp hfirst with ⟨hfirst, heq⟩
    exact List.mem_map.mpr ⟨first, hfirst, eq_of_beq heq⟩
  rcases List.mem_map.mp hmem with ⟨other, hother, heq⟩
  have hotherMerged := hmerged other hother
  rw [heq] at hotherMerged
  rw [← hotherMerged.unique himage]
  exact hother

theorem links_mirror_perm_shared (h : (ofPolicies true policies).SkipsNone)
    (hmirror : (ofPolicies true (policies.map Policy.mirror)).SkipsNone) :
    (ofPolicies true (policies.map Policy.mirror)).graph.links.Perm
      ((ofPolicies true policies).graph.links.map Link.mirror) := by
  have hplainMirror := Policy.plain_map_mirror hplain
  have hback := Policy.map_mirror_map_mirror policies
  apply perm_map_of_forall_mem (nodup_links_shared hplain) (nodup_links_shared hplainMirror)
  · intro link hlink
    exact Link.mirror_mirror_of_direct ((Graph.links_compile hplain).1 link hlink)
  · intro link hlink
    exact Link.mirror_mirror_of_direct ((Graph.links_compile hplainMirror).1 link hlink)
  · intro link hlink
    exact mirror_mem_links_shared hplain h hmirror hlink
  · intro link hlink
    have himage := mirror_mem_links_shared hplainMirror hmirror (hback.symm ▸ h) hlink
    rwa [hback] at himage

end Plain

/-- Where policies share no links there is one for each contribution. -/
theorem links_mirror_perm_own {policies : List Policy} (h : (ofPolicies false policies).SkipsNone)
    (hmirror : (ofPolicies false (policies.map Policy.mirror)).SkipsNone) :
    (ofPolicies false (policies.map Policy.mirror)).graph.links.Perm
      ((ofPolicies false policies).graph.links.map Link.mirror) := by
  have hoffers : ((policies.map Policy.mirror).flatMap fun p => p.contributions false).Perm
      ((policies.flatMap fun p => p.contributions false).map Offer.mirror) := by
    rw [List.flatMap_map, List.map_flatMap]
    exact List.Perm.flatMap_left policies fun p _ => p.contributions_mirror_perm false
  rw [h.links_own_eq, hmirror.links_own_eq]
  refine (hoffers.map Offer.link).trans (List.Perm.of_eq ?_)
  rw [List.map_map, List.map_map]
  exact List.map_congr_left fun o _ => o.link_mirror

end Build

end TrafficGraph
