import TrafficGraph.Proofs.Graph.Contribution
import TrafficGraph.Proofs.Value.Sameness

/-!
# The ports of merged offers

A link shows the ports that were offered first and, once other ones were offered,
the breakdown.  Whatever was offered is shown, up to the equality of ports, and
nothing else is.  A link that has taken in an offer is not changed by it any more,
whatever else it takes in meanwhile.
-/

namespace TrafficGraph

def Link.shownPorts (link : Link) : List Ports :=
  link.ports :: (link.breakdown.getD []).flatMap Contribution.ports

/-- Whether it changes nothing to note once more that a policy allows the traffic of a
link on some ports. -/
def Link.Absorbs (link : Link) (policy : String) (ports : Ports) : Prop :=
  link.merge policy ports = link

/-!
# Contributions
-/

theorem addContribution_self {ports : Ports} (h : ports.same ports = true) (policy : String)
    (contributions : List Contribution) :
    addContribution policy ports (addContribution policy ports contributions) =
      addContribution policy ports contributions := by
  induction contributions with
  | nil => simp [addContribution, h]
  | cons c rest ih =>
      by_cases hc : c.policy = policy
      · by_cases hany : c.ports.any (·.same ports) = true
        · simp [addContribution, hc, hany]
        · simp [addContribution, hc, hany, h]
      · simp only [addContribution, if_neg hc, ih]

theorem addContribution_of_absorbed {policy other : String} {ports more : Ports}
    {contributions : List Contribution}
    (h : addContribution policy ports contributions = contributions) :
    addContribution policy ports (addContribution other more contributions) =
      addContribution other more contributions := by
  induction contributions with
  | nil => cases h
  | cons c rest ih =>
      by_cases hc : c.policy = policy
      · -- otherwise the list of ports would be longer than it was
        have hany : c.ports.any (·.same ports) = true := by
          by_contra hnone
          rw [addContribution, if_pos hc, if_neg hnone] at h
          have hports : c.ports ++ [ports] = c.ports :=
            congrArg Contribution.ports (List.cons.inj h).1
          have hlength := congrArg List.length hports
          simp at hlength
        by_cases hother : c.policy = other
        · by_cases hmore : c.ports.any (·.same more) = true
          · simp only [addContribution, if_pos hother, if_pos hmore, if_pos hc, if_pos hany]
          · have hgrown : (c.ports ++ [more]).any (·.same ports) = true := by
              rw [List.any_append, hany, Bool.true_or]
            simp only [addContribution, if_pos hother, if_neg hmore, if_pos hc, if_pos hgrown]
        · simp only [addContribution, if_neg hother, if_pos hc, if_pos hany]
      · rw [addContribution, if_neg hc] at h
        have hrest := (List.cons.inj h).2
        by_cases hother : c.policy = other
        · simp only [addContribution, if_pos hother, if_neg hc, hrest]
        · simp only [addContribution, if_neg hother, if_neg hc, ih hrest]

theorem exists_same_addContribution {ports : Ports} (h : ports.same ports = true)
    (policy : String) (contributions : List Contribution) :
    ∃ shown ∈ (addContribution policy ports contributions).flatMap Contribution.ports,
      shown.same ports = true := by
  induction contributions with
  | nil => exact ⟨ports, by simp [addContribution], h⟩
  | cons c rest ih =>
      by_cases hc : c.policy = policy
      · rw [addContribution, if_pos hc, List.flatMap_cons]
        by_cases hany : c.ports.any (·.same ports) = true
        · rcases List.any_eq_true.mp hany with ⟨shown, hshown, hsame⟩
          rw [if_pos hany]
          exact ⟨shown, List.mem_append_left _ hshown, hsame⟩
        · rw [if_neg hany]
          exact ⟨ports, List.mem_append_left _ (List.mem_append_right _ List.mem_cons_self), h⟩
      · rcases ih with ⟨shown, hshown, hsame⟩
        rw [addContribution, if_neg hc, List.flatMap_cons]
        exact ⟨shown, List.mem_append_right _ hshown, hsame⟩

theorem mem_addContribution {policy : String} {ports shown : Ports}
    {contributions : List Contribution}
    (h : shown ∈ (addContribution policy ports contributions).flatMap Contribution.ports) :
    shown ∈ contributions.flatMap Contribution.ports ∨ shown = ports := by
  induction contributions with
  | nil =>
      right
      simpa [addContribution] using h
  | cons c rest ih =>
      by_cases hc : c.policy = policy
      · rw [addContribution, if_pos hc, List.flatMap_cons, List.mem_append] at h
        rw [List.flatMap_cons, List.mem_append]
        rcases h with h | h
        · split at h
          · exact Or.inl (Or.inl h)
          · rcases List.mem_append.mp h with h | h
            · exact Or.inl (Or.inl h)
            · exact Or.inr (List.mem_singleton.mp h)
        · exact Or.inl (Or.inr h)
      · rw [addContribution, if_neg hc, List.flatMap_cons, List.mem_append] at h
        rw [List.flatMap_cons, List.mem_append]
        rcases h with h | h
        · exact Or.inl (Or.inl h)
        · rcases ih h with h | h
          · exact Or.inl (Or.inr h)
          · exact Or.inr h

/-!
# Links
-/

theorem addName_eq_self_iff {name : String} {names : List String} :
    addName name names = names ↔ name ∈ names := by
  unfold addName
  by_cases hmem : name ∈ names
  · simp [hmem]
  · simp [hmem]

theorem mem_addName {name other : String} {names : List String} :
    other ∈ addName name names ↔ other ∈ names ∨ other = name := by
  unfold addName
  split
  · rename_i hmem
    constructor
    · exact Or.inl
    · rintro (h | rfl)
      · exact h
      · exact List.contains_iff_mem.mp hmem
  · simp

theorem mem_addNames {known more : List String} {name : String} :
    name ∈ addNames known more ↔ name ∈ known ∨ name ∈ more := by
  unfold addNames
  induction more generalizing known with
  | nil => simp
  | cons first rest ih => rw [List.foldl_cons, ih, mem_addName, List.mem_cons, or_assoc]

namespace Link

theorem breakdown_merge (link : Link) (policy : String) (ports : Ports) :
    (link.merge policy ports).breakdown =
      if link.ports.same ports then link.breakdown
      else some (addContribution policy ports
        { link with policies := addName policy link.policies }.breakdownOrFirst) := by
  unfold merge
  split <;> rfl

theorem absorbs_iff {link : Link} {policy : String} {ports : Ports} :
    link.Absorbs policy ports ↔
      policy ∈ link.policies ∧ (link.ports.same ports = true ∨
        link.detailed = true ∧ ∃ contributions, link.breakdown = some contributions ∧
          addContribution policy ports contributions = contributions) := by
  constructor
  · intro h
    have hpolicies := congrArg Link.policies h
    rw [policies_merge, addName_eq_self_iff] at hpolicies
    refine ⟨hpolicies, ?_⟩
    by_cases hsame : link.ports.same ports = true
    · exact Or.inl hsame
    · right
      have hdetailed := congrArg Link.detailed h
      rw [detailed_merge, eq_false_of_ne_true hsame, Bool.not_false, Bool.or_true] at hdetailed
      refine ⟨hdetailed.symm, ?_⟩
      have hbreakdown := congrArg Link.breakdown h
      rw [breakdown_merge, if_neg hsame] at hbreakdown
      cases hold : link.breakdown with
      | none =>
          rw [hold] at hbreakdown
          cases hbreakdown
      | some contributions =>
          have hfirst : { link with policies := addName policy link.policies }.breakdownOrFirst =
              contributions := by
            rw [breakdownOrFirst, hold, Option.getD_some]
          rw [hfirst, hold] at hbreakdown
          exact ⟨contributions, rfl, Option.some.inj hbreakdown⟩
  · rintro ⟨hpolicy, hports⟩
    have hnames : addName policy link.policies = link.policies := addName_eq_self_iff.mpr hpolicy
    unfold Absorbs merge
    rw [hnames]
    split
    · rfl
    · rename_i hsame
      rcases hports with hports | ⟨hdetailed, contributions, hbreakdown, hself⟩
      · exact absurd hports hsame
      · have hfirst : link.breakdownOrFirst = contributions := by
          rw [breakdownOrFirst, hbreakdown, Option.getD_some]
        show { link with
            breakdown := some (addContribution policy ports link.breakdownOrFirst)
            detailed := true } = link
        rw [hfirst, hself, ← hbreakdown, ← hdetailed]

theorem absorbs_merge {ports : Ports} (h : ports.same ports = true) (link : Link)
    (policy : String) : (link.merge policy ports).Absorbs policy ports := by
  rw [absorbs_iff, policies_merge, ports_merge, breakdown_merge]
  refine ⟨mem_addName.mpr (Or.inr rfl), ?_⟩
  by_cases hsame : link.ports.same ports = true
  · exact Or.inl hsame
  · right
    rw [if_neg hsame, detailed_merge, eq_false_of_ne_true hsame]
    exact ⟨Bool.or_true _, _, rfl, addContribution_self h policy _⟩

theorem Absorbs.merge {link : Link} {policy : String} {ports : Ports}
    (h : link.Absorbs policy ports) (other : String) (more : Ports) :
    (link.merge other more).Absorbs policy ports := by
  rcases absorbs_iff.mp h with ⟨hpolicy, hports⟩
  rw [absorbs_iff, policies_merge, ports_merge, breakdown_merge]
  refine ⟨mem_addName.mpr (Or.inl hpolicy), ?_⟩
  rcases hports with hsame | ⟨hdetailed, contributions, hbreakdown, hself⟩
  · exact Or.inl hsame
  · right
    rw [detailed_merge, hdetailed]
    refine ⟨Bool.true_or _, ?_⟩
    by_cases hmore : link.ports.same more = true
    · rw [if_pos hmore]
      exact ⟨contributions, hbreakdown, hself⟩
    · rw [if_neg hmore, breakdownOrFirst, hbreakdown, Option.getD_some]
      exact ⟨_, rfl, addContribution_of_absorbed hself⟩

theorem Absorbs.mergeOffers {link : Link} {policy : String} {ports : Ports}
    (h : link.Absorbs policy ports) (offers : List Offer) :
    (link.mergeOffers offers).Absorbs policy ports := by
  unfold Link.mergeOffers
  induction offers generalizing link with
  | nil => exact h
  | cons o rest ih => exact ih (h.merge o.policy o.ports)

theorem isSome_breakdown_mergeOffers (link : Link) (offers : List Offer) :
    (link.mergeOffers offers).breakdown.isSome =
      (link.breakdown.isSome || offers.any fun o => !link.ports.same o.ports) := by
  unfold mergeOffers
  induction offers generalizing link with
  | nil => simp
  | cons o rest ih =>
      rw [List.foldl_cons, ih, ports_merge, breakdown_merge, List.any_cons]
      by_cases hsame : link.ports.same o.ports = true
      · simp [hsame]
      · simp [hsame]

/-- The mark and the breakdown of a link are set together. -/
def MarksBreakdown (link : Link) : Prop := link.detailed = link.breakdown.isSome

theorem MarksBreakdown.merge {link : Link} (h : link.MarksBreakdown) (policy : String)
    (ports : Ports) : (link.merge policy ports).MarksBreakdown := by
  unfold MarksBreakdown at h ⊢
  rw [detailed_merge, breakdown_merge, h]
  cases link.ports.same ports <;> simp

theorem MarksBreakdown.mergeOffers {link : Link} (h : link.MarksBreakdown) (offers : List Offer) :
    (link.mergeOffers offers).MarksBreakdown := by
  unfold Link.mergeOffers
  induction offers generalizing link with
  | nil => exact h
  | cons o rest ih => exact ih (h.merge o.policy o.ports)

theorem mem_shownPorts_merge {link : Link} {policy : String} {ports shown : Ports}
    (h : shown ∈ (link.merge policy ports).shownPorts) :
    shown ∈ link.shownPorts ∨ shown = ports := by
  unfold shownPorts at h ⊢
  rw [ports_merge, breakdown_merge, List.mem_cons] at h
  rw [List.mem_cons]
  rcases h with h | h
  · exact Or.inl (Or.inl h)
  · split at h
    · exact Or.inl (Or.inr h)
    · rcases mem_addContribution h with hold | hnew
      · rw [breakdownOrFirst] at hold
        cases hbreakdown : link.breakdown with
        | none =>
            rw [hbreakdown] at hold
            exact Or.inl (Or.inl (by simpa using hold))
        | some contributions =>
            rw [hbreakdown] at hold
            exact Or.inl (Or.inr hold)
      · exact Or.inr hnew

theorem Absorbs.exists_shownPorts {link : Link} {policy : String} {ports : Ports}
    (h : link.Absorbs policy ports) (hrefl : ports.same ports = true) :
    ∃ shown ∈ link.shownPorts, shown.same ports = true := by
  rcases (absorbs_iff.mp h).2 with hsame | ⟨_, contributions, hbreakdown, hself⟩
  · exact ⟨link.ports, List.mem_cons_self, hsame⟩
  · rcases exists_same_addContribution hrefl policy contributions with ⟨shown, hshown, hsame⟩
    rw [hself] at hshown
    refine ⟨shown, List.mem_cons_of_mem _ ?_, hsame⟩
    rw [hbreakdown]
    exact hshown

end Link

/-!
# Merged offers
-/

namespace MergedFrom

variable {offers : List Offer} {link : Link}

theorem marksBreakdown (h : MergedFrom offers link) : link.MarksBreakdown := by
  rcases h with ⟨first, rest, rfl, rfl⟩
  have hfirst : first.link.MarksBreakdown := rfl
  exact hfirst.mergeOffers rest

theorem absorbs (h : MergedFrom offers link) (hports : ∀ o ∈ offers, o.ports.WellFormed)
    {o : Offer} (ho : o ∈ offers) : link.Absorbs o.policy o.ports := by
  rcases h with ⟨first, rest, rfl, rfl⟩
  have hrefl : o.ports.same o.ports = true := Ports.same_refl (hports o ho)
  rcases List.mem_cons.mp ho with rfl | ho
  · apply Link.Absorbs.mergeOffers
    rw [Link.absorbs_iff]
    exact ⟨List.mem_singleton_self _, Or.inl hrefl⟩
  · rcases List.append_of_mem ho with ⟨front, back, rfl⟩
    have hsplit : first.link.mergeOffers (front ++ o :: back) =
        (((first.link.mergeOffers front).merge o.policy o.ports).mergeOffers back) := by
      simp [Link.mergeOffers, List.foldl_append]
    rw [hsplit]
    exact (Link.absorbs_merge hrefl _ _).mergeOffers back

theorem exists_shownPorts (h : MergedFrom offers link)
    (hports : ∀ o ∈ offers, o.ports.WellFormed) {o : Offer} (ho : o ∈ offers) :
    ∃ shown ∈ link.shownPorts, shown.same o.ports = true :=
  (h.absorbs hports ho).exists_shownPorts (Ports.same_refl (hports o ho))

theorem mem_shownPorts (h : MergedFrom offers link) {shown : Ports}
    (hshown : shown ∈ link.shownPorts) : ∃ o ∈ offers, o.ports = shown := by
  rcases h with ⟨first, rest, rfl, rfl⟩
  have hrun : ∀ (merged : Link) (more : List Offer),
      shown ∈ (merged.mergeOffers more).shownPorts ->
      shown ∈ merged.shownPorts ∨ ∃ o ∈ more, o.ports = shown := by
    intro merged more
    unfold Link.mergeOffers
    induction more generalizing merged with
    | nil => exact Or.inl
    | cons o rest ih =>
        intro hmem
        rcases ih (merged.merge o.policy o.ports) hmem with hmerged | ⟨p, hp, hpPorts⟩
        · rcases Link.mem_shownPorts_merge hmerged with hold | hnew
          · exact Or.inl hold
          · exact Or.inr ⟨o, List.mem_cons_self, hnew.symm⟩
        · exact Or.inr ⟨p, List.mem_cons_of_mem o hp, hpPorts⟩
  rcases hrun first.link rest hshown with hfirst | ⟨o, ho, hoPorts⟩
  · refine ⟨first, List.mem_cons_self, ?_⟩
    have heq : shown = first.ports := by simpa [Link.shownPorts, Offer.link, Link.ofRule] using hfirst
    exact heq.symm
  · exact ⟨o, List.mem_cons_of_mem first ho, hoPorts⟩

theorem mem_policies (h : MergedFrom offers link) (name : String) :
    name ∈ link.policies ↔ ∃ o ∈ offers, o.policy = name := by
  rcases h with ⟨first, rest, rfl, rfl⟩
  have hmerged : MergedFrom (first :: rest) (first.link.mergeOffers rest) :=
    ⟨first, rest, rfl, rfl⟩
  have hpolicies := congrArg Link.policies hmerged.withoutBreakdown_eq
  have hnames : (first.link.mergeOffers rest).policies =
      ((first :: rest).map Offer.policy).eraseDups := hpolicies
  rw [hnames, List.mem_eraseDups, List.mem_map]

theorem exists_differing_of_isSome (h : MergedFrom offers link)
    (hsome : link.breakdown.isSome = true) :
    ∃ o ∈ offers, ∃ p ∈ offers, o.ports.same p.ports = false := by
  rcases h with ⟨first, rest, rfl, rfl⟩
  rw [Link.isSome_breakdown_mergeOffers] at hsome
  have hrest : (rest.any fun o => !first.ports.same o.ports) = true := hsome
  rcases List.any_eq_true.mp hrest with ⟨o, ho, hne⟩
  exact ⟨first, List.mem_cons_self, o, List.mem_cons_of_mem first ho, by simpa using hne⟩

/-- A link has a breakdown exactly if not all of the offers that it merges are of the
same ports. -/
theorem isSome_breakdown_iff (h : MergedFrom offers link)
    (hports : ∀ o ∈ offers, o.ports.WellFormed) :
    link.breakdown.isSome = true ↔ ∃ o ∈ offers, ∃ p ∈ offers, o.ports.same p.ports = false := by
  refine ⟨h.exists_differing_of_isSome, ?_⟩
  rcases h with ⟨first, rest, rfl, rfl⟩
  have hfirst : first.ports.WellFormed := hports first List.mem_cons_self
  rw [Link.isSome_breakdown_mergeOffers]
  rintro ⟨o, ho, p, hp, hne⟩
  -- of two offers that differ, one differs from the first one
  by_contra hnone
  have hsame : ∀ q ∈ first :: rest, first.ports.same q.ports = true := by
    intro q hq
    rcases List.mem_cons.mp hq with rfl | hq
    · exact Ports.same_refl hfirst
    · by_contra hdiffers
      apply hnone
      have hrest : (rest.any fun o => !first.ports.same o.ports) = true :=
        List.any_eq_true.mpr ⟨q, hq, by simpa using hdiffers⟩
      exact hrest
  have hback : o.ports.same first.ports = true :=
    Ports.same_symm hfirst (hports o ho) (hsame o ho)
  have hboth : o.ports.same p.ports = true :=
    Ports.same_trans (hports o ho) hfirst (hports p hp) hback (hsame p hp)
  rw [hne] at hboth
  cases hboth

theorem detailed_iff (h : MergedFrom offers link) (hports : ∀ o ∈ offers, o.ports.WellFormed) :
    link.detailed = true ↔ ∃ o ∈ offers, ∃ p ∈ offers, o.ports.same p.ports = false := by
  rw [h.marksBreakdown]
  exact h.isSome_breakdown_iff hports

end MergedFrom

/-!
# Ports of policies
-/

def Policy.PortsWellFormed (policy : Policy) : Prop :=
  ∀ d rule, .rule rule ∈ (policy.rules d).getD [] -> rule.ports.WellFormed

theorem Ports.WellFormed.orAll {ports : Ports} (h : ports.WellFormed) : ports.orAll.WellFormed := by
  cases ports with
  | unset => trivial
  | _ => exact h

theorem portsWellFormed_shopPolicies : ∀ p ∈ shopPolicies, p.PortsWellFormed := by
  have hport : Port.WellFormed ⟨.int 80, .null, .null⟩ := ⟨.scalar rfl, .scalar rfl, .scalar rfl⟩
  intro p hp d rule hrule
  simp only [shopPolicies, List.mem_cons, List.not_mem_nil, or_false] at hp
  rcases hp with rfl | rfl
  · cases d with
    | ingress =>
        simp only [Policy.rules, Option.getD_some, List.mem_cons, List.not_mem_nil, or_false,
          RuleEntry.rule.injEq] at hrule
        rcases hrule with rfl | rfl <;> simp [Ports.WellFormed]
    | egress => simp [Policy.rules] at hrule
  · cases d with
    | ingress =>
        simp only [Policy.rules, Option.getD_some, List.mem_cons, List.not_mem_nil, or_false,
          RuleEntry.rule.injEq] at hrule
        rcases hrule with rfl
        simpa [Ports.WellFormed] using hport
    | egress => simp [Policy.rules] at hrule

theorem Policy.PortsWellFormed.of_mem_contributions {policy : Policy} (h : policy.PortsWellFormed)
    {deduplicate : Bool} {o : Offer} (ho : o ∈ policy.contributions deduplicate) :
    o.ports.WellFormed := by
  rcases List.mem_flatMap.mp ho with ⟨d, _, hd⟩
  rcases List.mem_flatMap.mp hd with ⟨⟨entry, ruleIndex⟩, hentry, hrule⟩
  cases entry with
  | absent => cases hrule
  | malformed => cases hrule
  | rule rule =>
      rcases List.mem_map.mp hrule with ⟨peer, _, rfl⟩
      have hports : rule.ports.orAll.WellFormed :=
        (h d rule (List.fst_mem_of_mem_zipIdx hentry)).orAll
      cases d with
      | ingress => exact hports
      | egress => exact hports

/-- A policy offers nothing but what it contributes, even if it fails midway. -/
theorem Deed.mem_contributions_of_mem_offers {b : Build} {policies : List Policy} {deed : Deed}
    (hdeed : deed ∈ b.deeds policies) {deduplicate : Bool} {o : Offer}
    (ho : o ∈ deed.offers deduplicate) : o ∈ deed.policy.contributions deduplicate := by
  rw [← Policy.offers_steps]
  exact ((Build.steps_prefix_of_mem_deeds hdeed).sublist.filterMap _).subset ho

end TrafficGraph
