import TrafficGraph.Proofs.Graph.Coverage
import TrafficGraph.Proofs.Graph.Hearing

/-!
# Policies that come up again

A policy that has been worked through leaves nodes that know its name, and links that
have taken in what it contributes.  Working through it once more changes neither, and
whatever the second pass could infer from it has been registered when it comes up
again.  Hence a graph stays what it is if policies are repeated.
-/

namespace TrafficGraph

/-!
# Books
-/

theorem LinkBook.Lists.unique {book other : LinkBook} {entries : List (String × Link)}
    (h : book.Lists entries) (hother : other.Lists entries) : book = other := by
  rcases book with ⟨pool, deduplicate, index, order⟩
  rcases other with ⟨pool', deduplicate', index', order'⟩
  have hdeduplicate : deduplicate = deduplicate' := h.deduplicate.trans hother.deduplicate.symm
  have hindex : index = index' := h.index.trans hother.index.symm
  have horder : order = order' := h.order.trans hother.order.symm
  have hpool : pool = pool' := h.pool.trans hother.pool.symm
  rw [hdeduplicate, hindex, horder, hpool]

theorem contributeEntry_of_absorbs {id policy : String} {link : Link}
    {entries : List (String × Link)} (hid : id ∈ entries.map Prod.fst)
    (habsorbs : ∀ entry ∈ entries, entry.1 = id -> entry.2.Absorbs policy link.ports) :
    contributeEntry id link policy entries = entries := by
  rcases exists_first_entry hid with ⟨front, old, back, rfl, hfront⟩
  have hold : old.merge policy link.ports = old :=
    habsorbs (id, old) (List.mem_append_right front List.mem_cons_self) rfl
  rw [contributeEntry_append_of_mem hfront, hold]

theorem LinkBook.add_of_mem_offers {book : LinkBook} {entries : List (String × Link)}
    {offers : List Offer} (hlists : book.Lists entries) (hcollects : Collects entries offers)
    (hports : ∀ o ∈ offers, o.ports.WellFormed) {o : Offer} (ho : o ∈ offers) :
    (book.add o.link o.policy).2 = book := by
  have hadd := hlists.add o.link o.policy
  have hid : o.sharedLinkId ∈ entries.map Prod.fst := by
    rw [hcollects.keys, List.mem_eraseDups]
    exact List.mem_map_of_mem ho
  have hsame : contributeEntry o.sharedLinkId o.link o.policy entries = entries := by
    apply contributeEntry_of_absorbs hid
    intro entry hentry heq
    have hmerged := hcollects.merged entry hentry
    apply hmerged.absorbs
    · intro p hp
      exact hports p (List.mem_filter.mp hp).1
    · exact List.mem_filter.mpr ⟨ho, beq_iff_eq.mpr heq.symm⟩
  have hkept : (book.add o.link o.policy).2.Lists entries := hsame ▸ hadd
  exact hkept.unique hlists

/-!
# Stores
-/

theorem NodeStore.ensure_of_mem_mentions {store : NodeStore} {mentions : List Mention}
    (h : store.Gathers mentions) {m : Mention} (hm : m ∈ mentions) :
    store.ensure m.reference m.policy m.direction = .ok store := by
  have hid : m.id store.deduplicate ∈ store.ids := h.mem_ids.mpr ⟨m, hm, rfl⟩
  have hkept : store.update (m.id store.deduplicate) (Node.addPolicy m.policy) = store := by
    have hnodes : ∀ node ∈ store.nodes,
        (if node.id == m.id store.deduplicate then node.addPolicy m.policy else node) = node := by
      intro node hnode
      split
      · rename_i heq
        have hmem : m.policy ∈ node.policies :=
          (h.mem_policies hnode m.policy).mpr ⟨m, hm, (eq_of_beq heq).symm, rfl⟩
        have hnames : addName m.policy node.policies = node.policies :=
          addName_eq_self_iff.mpr hmem
        rw [Node.addPolicy, hnames]
      · rfl
    have hmap : store.nodes.map (fun node =>
        if node.id == m.id store.deduplicate then node.addPolicy m.policy else node) =
          store.nodes := by
      rw [List.map_congr_left hnodes, List.map_id']
    unfold NodeStore.update
    rw [hmap]
  rw [NodeStore.ensure_of_mem_ids hid]
  exact congrArg Except.ok hkept

/-!
# The first pass
-/

/-- Whether a build whose policies share links has taken in some mentions and some
offers. -/
structure Build.Holds (b : Build) (mentions : List Mention) (offers : List Offer) : Prop where
  deduplicate : b.deduplicate = true
  gathers : b.nodes.Gathers mentions
  collects : ∃ entries, b.links.Lists entries ∧ Collects entries offers
  ports : ∀ o ∈ offers, o.ports.WellFormed

/-- Whether all that the steps of a policy mention and offer is among some mentions
and offers. -/
structure Policy.Covered (policy : Policy) (steps : List Step) (mentions : List Mention)
    (offers : List Offer) : Prop where
  sound : .stumble ∉ steps
  mentions : steps.filterMap (Step.mention? policy.name) ⊆ mentions
  offers : steps.filterMap (policy.stepOffer? true) ⊆ offers

namespace Build

variable {mentions : List Mention} {offers : List Offer}

theorem Holds.congr {b next : Build} (h : b.Holds mentions offers) (hnodes : next.nodes = b.nodes)
    (hlinks : next.links = b.links) : next.Holds mentions offers := by
  constructor
  · unfold Build.deduplicate
    rw [hnodes]
    exact h.deduplicate
  · rw [hnodes]
    exact h.gathers
  · rw [hlinks]
    exact h.collects
  · exact h.ports

theorem Holds.step {b : Build} (h : b.Holds mentions offers) {policy : Policy} {s : Step}
    (hs : policy.Covered [s] mentions offers) :
    ∃ next, b.step policy s = .ok next ∧ next.nodes = b.nodes ∧ next.links = b.links := by
  cases s with
  | refer r d =>
      have hmem : ⟨r, policy.name, d⟩ ∈ mentions := hs.mentions (List.mem_singleton_self _)
      have hensure := NodeStore.ensure_of_mem_mentions h.gathers hmem
      refine ⟨{ b with
        nodes := b.nodes
        journal := b.journal ++ b.nodes.ensureEvents r policy.name }, ?_, rfl, rfl⟩
      rw [Build.step, hensure]
      rfl
  | passOver => exact ⟨_, rfl, rfl, rfl⟩
  | connect peer d ports ruleIndex =>
      rcases h.collects with ⟨entries, hlists, hcollects⟩
      have hmem : policy.offer true peer d ports ruleIndex ∈ offers :=
        hs.offers (List.mem_singleton_self _)
      have hadd := LinkBook.add_of_mem_offers hlists hcollects h.ports hmem
      have hpolicy : (policy.offer true peer d ports ruleIndex).policy = policy.name := by
        cases d <;> rfl
      refine ⟨_, rfl, rfl, ?_⟩
      rw [linkOf_eq, h.deduplicate, ← hpolicy]
      exact hadd
  | stumble => exact absurd (List.mem_singleton_self _) hs.sound

theorem Holds.run {policy : Policy} {steps : List Step} {b : Build} (h : b.Holds mentions offers)
    (hsteps : policy.Covered steps mentions offers) :
    (run policy steps b).1.nodes = b.nodes ∧ (run policy steps b).1.links = b.links := by
  -- what a build holds is told by its nodes and links, so it is kept although events come up
  induction steps generalizing b with
  | nil => exact ⟨rfl, rfl⟩
  | cons s rest ih =>
      have hsplit : s :: rest = [s] ++ rest := rfl
      rcases hsteps with ⟨hsound, hmentions, hoffers⟩
      rw [hsplit, List.filterMap_append, List.append_subset] at hmentions hoffers
      rw [List.mem_cons, not_or] at hsound
      have hfirst : policy.Covered [s] mentions offers :=
        ⟨fun hmem => hsound.1 (List.mem_singleton.mp hmem), hmentions.1, hoffers.1⟩
      rcases h.step hfirst with ⟨next, hnext, hnodes, hlinks⟩
      rcases ih (h.congr hnodes hlinks) ⟨hsound.2, hmentions.2, hoffers.2⟩ with
        ⟨hrunNodes, hrunLinks⟩
      rw [Build.run, hnext]
      exact ⟨hrunNodes.trans hnodes, hrunLinks.trans hlinks⟩

theorem Holds.foldl_addPolicy {policies : List Policy} {b : Build} (h : b.Holds mentions offers)
    (hpolicies : ∀ p ∈ policies, p.Covered p.steps mentions offers) :
    (policies.foldl addPolicy b).nodes = b.nodes ∧
      (policies.foldl addPolicy b).links = b.links := by
  induction policies generalizing b with
  | nil => exact ⟨rfl, rfl⟩
  | cons policy rest ih =>
      rcases addPolicy_eq_run b policy with ⟨hnodes, hlinks⟩
      rcases h.run (hpolicies policy List.mem_cons_self) with ⟨hrunNodes, hrunLinks⟩
      have hpolicyNodes := hnodes.trans hrunNodes
      have hpolicyLinks := hlinks.trans hrunLinks
      rcases ih (h.congr hpolicyNodes hpolicyLinks)
        (fun p hp => hpolicies p (List.mem_cons_of_mem policy hp)) with ⟨hrestNodes, hrestLinks⟩
      exact ⟨hrestNodes.trans hpolicyNodes, hrestLinks.trans hpolicyLinks⟩

theorem stumble_not_mem_carriedOut (policy : Policy) (steps : List Step) (b : Build) :
    .stumble ∉ carriedOut policy steps b := by
  induction steps generalizing b with
  | nil => exact List.not_mem_nil
  | cons s rest ih =>
      rw [carriedOut]
      cases hstep : b.step policy s with
      | error fault => exact List.not_mem_nil
      | ok next =>
          rw [List.mem_cons, not_or]
          refine ⟨?_, ih next⟩
          rintro rfl
          cases hstep

namespace SkipsNone

theorem stumble_not_mem_steps {deduplicate : Bool} {policies : List Policy}
    (h : (ofPolicies deduplicate policies).SkipsNone) {p : Policy} (hp : p ∈ policies) :
    .stumble ∉ p.steps := by
  have hdeed : ⟨p, p.steps⟩ ∈ passDeeds deduplicate policies := by
    rw [(skipsNone_ofPolicies deduplicate policies).mp h]
    exact List.mem_map_of_mem hp
  rcases (exists_build_of_mem_deeds hdeed).2 with ⟨before, hsteps⟩
  have hcarried : p.steps = carriedOut p p.steps before := hsteps
  rw [hcarried]
  exact stumble_not_mem_carriedOut p p.steps before

variable {policies : List Policy} (h : (ofPolicies true policies).SkipsNone)

include h

theorem holds (hports : ∀ p ∈ policies, p.PortsWellFormed) :
    (ofPolicies true policies).Holds (policies.flatMap Policy.mentions)
      (policies.flatMap fun p => p.contributions true) := by
  constructor
  · exact deduplicate_ofPolicies true policies
  · exact h.gathers
  · rw [h.links_eq]
    exact exists_collects_addOffers _
  · intro o ho
    rcases List.mem_flatMap.mp ho with ⟨p, hp, hmem⟩
    exact (hports p hp).of_mem_contributions hmem

theorem covered {p : Policy} (hp : p ∈ policies) :
    p.Covered p.steps (policies.flatMap Policy.mentions)
      (policies.flatMap fun q => q.contributions true) := by
  constructor
  · exact h.stumble_not_mem_steps hp
  · intro m hm
    exact List.mem_flatMap.mpr ⟨p, hp, hm⟩
  · intro o ho
    have hcontribution : o ∈ p.contributions true := p.offers_steps true ▸ ho
    exact List.mem_flatMap.mpr ⟨p, hp, hcontribution⟩

/-- Repeating policies in a first pass that skips none changes neither nodes nor
links. -/
theorem ofPolicies_append (hports : ∀ p ∈ policies, p.PortsWellFormed) {more : List Policy}
    (hmore : ∀ q ∈ more, q ∈ policies) :
    (ofPolicies true (policies ++ more)).nodes = (ofPolicies true policies).nodes ∧
      (ofPolicies true (policies ++ more)).links = (ofPolicies true policies).links := by
  rw [Build.ofPolicies_append]
  exact (h.holds hports).foldl_addPolicy fun q hq => h.covered (hmore q hq)

end SkipsNone
end Build

/-!
# The second pass

Whatever is registered a second time has its identity taken.
-/

/-- Whether it makes no difference which of two lists is registered. -/
def SameRegistered (entries others : List (String × Link)) : Prop :=
  ∀ known, entries.foldl registerEntry known = others.foldl registerEntry known

namespace SameRegistered

theorem append {entries others more rest : List (String × Link)} (h : SameRegistered entries others)
    (hmore : SameRegistered more rest) : SameRegistered (entries ++ more) (others ++ rest) := by
  intro known
  rw [List.foldl_append, List.foldl_append, h, hmore]

theorem flatMap {α : Type} {xs : List α} {f g : α → List (String × Link)}
    (h : ∀ x ∈ xs, SameRegistered (f x) (g x)) : SameRegistered (xs.flatMap f) (xs.flatMap g) := by
  induction xs with
  | nil => exact fun _ => rfl
  | cons x rest ih =>
      rw [List.flatMap_cons, List.flatMap_cons]
      exact (h x List.mem_cons_self).append (ih fun y hy => h y (List.mem_cons_of_mem x hy))

theorem append_of_subset {entries more : List (String × Link)} (h : more ⊆ entries) :
    SameRegistered (entries ++ more) entries := by
  intro known
  rw [List.foldl_append]
  apply foldl_registerEntry_of_keys_subset
  exact List.Subset.trans (List.map_subset Prod.fst h)
    (keys_subset_foldl_registerEntry entries known).1

theorem registerAll_eq {entries others known : List (String × Link)}
    (h : SameRegistered entries others) {book : LinkBook} (hlists : book.Lists known) :
    book.registerAll entries = book.registerAll others := by
  have hothers := hlists.registerAll others
  rw [← h known] at hothers
  exact (hlists.registerAll entries).unique hothers

end SameRegistered

theorem sameRegistered_crossEntries_append (owner : Policy) {policies more : List Policy}
    (h : more ⊆ policies) :
    SameRegistered (owner.crossEntries (policies ++ more)) (owner.crossEntries policies) := by
  apply SameRegistered.flatMap
  intro d _
  apply SameRegistered.flatMap
  intro peer _
  rw [List.filterMap_append]
  exact SameRegistered.append_of_subset (List.filterMap_subset _ h)

theorem sameRegistered_heardEntries_append {policies more : List Policy} (h : more ⊆ policies) :
    SameRegistered (heardEntries (policies ++ more)) (heardEntries policies) := by
  have htargets : SameRegistered
      (policies.flatMap fun owner => (owner.heard (policies ++ more)).crossEntries (policies ++ more))
      (heardEntries policies) := by
    apply SameRegistered.flatMap
    intro owner _
    rw [owner.heard_congr fun p => List.mem_append.trans (or_iff_left_of_imp fun hp => h hp)]
    exact sameRegistered_crossEntries_append (owner.heard policies) h
  -- the repeated policies as owners give rise to nothing but what they gave rise to before
  intro known
  rw [← htargets known, heardEntries, List.flatMap_append]
  apply SameRegistered.append_of_subset
  intro entry hentry
  rcases List.mem_flatMap.mp hentry with ⟨owner, howner, hmem⟩
  exact List.mem_flatMap.mpr ⟨owner, h howner, hmem⟩

/-!
# Both passes
-/

/-- A graph of policies none of which is skipped stays what it is if some of them are
repeated behind them. -/
theorem Graph.compile_append_of_subset (policies more : List Policy)
    (hskip : (Build.ofPolicies true policies).SkipsNone)
    (hports : ∀ p ∈ policies, p.PortsWellFormed) (hmore : ∀ q ∈ more, q ∈ policies) :
    Graph.compile true (policies ++ more) = Graph.compile true policies := by
  rcases hskip.ofPolicies_append hports hmore with ⟨hnodes, hlinks⟩
  rcases (hskip.holds hports).collects with ⟨entries, hlists, _⟩
  rw [Graph.compile_true_eq, Graph.compile_true_eq, hnodes, hlinks,
    (sameRegistered_heardEntries_append hmore).registerAll_eq hlists]

/-- Both policies come up again, the second one first. -/
theorem compile_shopPolicies_append_reverse :
    (Build.ofPolicies true shopPolicies).SkipsNone ∧
      (∀ p ∈ shopPolicies, p.PortsWellFormed) ∧
      (∀ q ∈ shopPolicies.reverse, q ∈ shopPolicies) ∧
      Graph.compile true (shopPolicies ++ shopPolicies.reverse) =
        Graph.compile true shopPolicies := by
  have hskip := Build.skipsNone_of_wellFormed wellFormed_shopPolicies true
  have hmore : ∀ q ∈ shopPolicies.reverse, q ∈ shopPolicies := fun _ hq => List.mem_reverse.mp hq
  exact ⟨hskip, portsWellFormed_shopPolicies, hmore,
    Graph.compile_append_of_subset shopPolicies shopPolicies.reverse hskip
      portsWellFormed_shopPolicies hmore⟩

end TrafficGraph
