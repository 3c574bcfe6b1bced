import Mathlib.Data.List.Pairwise
import Mathlib.Data.List.Perm.Subperm
import TrafficGraph.Proofs.Graph.Batches

/-!
# Empty entries among rules

The first pass goes past an empty entry of a list of rules, so without such entries it builds
the same nodes and the same links; only the places of the rules are others.  The second pass
stops at an empty entry as it does at an entry that is no rule.  So the rules behind it infer
nothing, and links that the policies have without their empty entries are missing, unless
rules in front of it reach the same policies.
-/

namespace TrafficGraph

def RuleEntry.isAbsent : RuleEntry → Bool
  | .absent => true
  | .rule _ => false
  | .malformed => false

def presentEntries (entries : List RuleEntry) : List RuleEntry :=
  entries.filter fun entry => !entry.isAbsent

/-- A policy without the empty entries of its lists of rules. -/
def Policy.withoutAbsent (policy : Policy) : Policy :=
  { policy with
    ingress := policy.ingress.map presentEntries
    egress := policy.egress.map presentEntries }

/-!
# Whatever the places of rules
-/

/-- A link, whatever the place of the rule that allowed it first. -/
def Link.placeless (link : Link) : Link :=
  { link with ruleIndex := link.ruleIndex.map fun _ => 0 }

def Step.placeless : Step → Step
  | .connect peer d ports _ => .connect peer d ports 0
  | s => s

def LinkBook.placeless (book : LinkBook) : LinkBook :=
  { book with pool := book.pool.map Link.placeless }

def Build.placeless (b : Build) : Build := { b with links := b.links.placeless }

def Graph.placeless (graph : Graph) : Graph :=
  { graph with links := graph.links.map Link.placeless }

theorem Link.placeless_merge (link : Link) (policy : String) (ports : Ports) :
    (link.merge policy ports).placeless = link.placeless.merge policy ports := by
  have hports : link.placeless.ports = link.ports := rfl
  unfold merge
  rw [hports]
  cases link.ports.same ports <;> rfl

namespace LinkBook

theorem links_placeless (book : LinkBook) :
    book.placeless.links = book.links.map Link.placeless := by
  unfold links Registry.links
  rw [List.map_filterMap]
  apply List.filterMap_congr
  intro slot _
  exact List.getElem?_map

theorem placeless_append (book : LinkBook) (id : String) (link : Link) :
    (book.append id link).placeless = book.placeless.append id link.placeless := by
  simp [placeless, append]

theorem mergeSlot?_placeless (book : LinkBook) (id : String) :
    book.placeless.mergeSlot? id = book.mergeSlot? id := rfl

theorem idOf_placeless (book : LinkBook) (link : Link) (policy : String) :
    book.placeless.idOf link.placeless.source link.placeless.target link.placeless.direction
      policy = book.idOf link.source link.target link.direction policy := rfl

theorem placeless_add (book : LinkBook) (link : Link) (policy : String) :
    (book.add link policy).2.placeless = (book.placeless.add link.placeless policy).2 := by
  unfold add
  simp only [mergeSlot?_placeless, idOf_placeless]
  cases book.mergeSlot? (book.idOf link.source link.target link.direction policy) with
  | none => exact book.placeless_append _ link
  | some slot =>
      have hpool : (book.pool.modify slot fun old => old.merge policy link.ports).map
          Link.placeless =
            (book.pool.map Link.placeless).modify slot fun old => old.merge policy link.ports := by
        apply List.ext_getElem?
        intro i
        rw [List.getElem?_map, List.getElem?_modify, List.getElem?_modify, List.getElem?_map]
        cases book.pool[i]? with
        | none => rfl
        | some old =>
            by_cases hi : slot = i
            · simpa [hi] using old.placeless_merge policy link.ports
            · simp [hi]
      exact congrArg (LinkBook.mk · book.registry) hpool

theorem addEvents_placeless (book : LinkBook) (link : Link) (policy : String) :
    book.placeless.addEvents link.placeless policy = book.addEvents link policy := by
  unfold addEvents
  have hpool : ∀ slot : Nat, book.placeless.pool[slot]? = book.pool[slot]?.map Link.placeless :=
    fun slot => List.getElem?_map
  simp only [mergeSlot?_placeless, idOf_placeless]
  cases book.mergeSlot? (book.idOf link.source link.target link.direction policy) with
  | none => rfl
  | some slot =>
      simp only [Option.bind_some, hpool]
      cases book.pool[slot]? <;> rfl

end LinkBook

/-!
# The first pass
-/

namespace Build

theorem linkOf_placeless (b : Build) (policy : Policy) (peer : Reference) (d : Direction)
    (ports : Ports) (ruleIndex : Nat) :
    b.placeless.linkOf policy peer d ports 0 =
      (b.linkOf policy peer d ports ruleIndex).placeless := by
  cases d <;> rfl

theorem step_placeless (b : Build) (policy : Policy) (s : Step) :
    b.placeless.step policy s.placeless = (b.step policy s).map placeless := by
  cases s with
  | refer r d =>
      have hnodes : b.placeless.nodes = b.nodes := rfl
      simp only [Step.placeless, step, hnodes]
      cases b.nodes.ensure r policy.name d <;> rfl
  | passOver => rfl
  | connect peer d ports ruleIndex =>
      have hlinks : b.placeless.links = b.links.placeless := rfl
      rw [Step.placeless, step, step, linkOf_placeless b policy peer d ports ruleIndex, hlinks,
        LinkBook.addEvents_placeless, ← LinkBook.placeless_add]
      rfl
  | stumble => rfl

theorem run_placeless (policy : Policy) (steps : List Step) (b : Build) :
    run policy (steps.map Step.placeless) b.placeless =
      ((run policy steps b).1.placeless, (run policy steps b).2) := by
  induction steps generalizing b with
  | nil => rfl
  | cons s rest ih =>
      rw [List.map_cons, run, run, step_placeless]
      cases b.step policy s with
      | error fault => rfl
      | ok next => exact ih next

/-- Carrying out a step for a policy without its empty entries is carrying it out for the
policy: it needs only its name and its pods. -/
theorem run_withoutAbsent (policy : Policy) (steps : List Step) (b : Build) :
    run policy.withoutAbsent steps b = run policy steps b := by
  induction steps generalizing b with
  | nil => rfl
  | cons s rest ih =>
      have hstep : b.step policy.withoutAbsent s = b.step policy s := by cases s <;> rfl
      rw [run, run, hstep]
      cases b.step policy s with
      | error fault => rfl
      | ok next => exact ih next

end Build

namespace Policy

theorem connectStep?_placeless (policy : Policy) (d : Direction) (ports : Ports) (ruleIndex : Nat)
    (entry : PeerEntry) :
    (policy.connectStep? d ports ruleIndex entry).map Step.placeless =
      policy.connectStep? d ports 0 entry := by
  rw [connectStep?, connectStep?, Option.map_map]
  rfl

theorem ruleSteps_placeless (policy : Policy) (d : Direction) (i j : Nat) (entry : RuleEntry) :
    (policy.withoutAbsent.ruleSteps d i entry).map Step.placeless =
      (policy.ruleSteps d j entry).map Step.placeless := by
  have hsame : policy.withoutAbsent.ruleSteps d i entry = policy.ruleSteps d i entry := by
    cases entry <;> rfl
  rw [hsame]
  cases entry with
  | absent => rfl
  | malformed => rfl
  | rule rule =>
      rw [ruleSteps, ruleSteps]
      split
      · rfl
      · simp only [List.map_append, List.map_filterMap, connectStep?_placeless]

theorem rulesSteps_withoutAbsent (policy : Policy) (d : Direction) (i j : Nat)
    (entries : List RuleEntry) :
    (policy.withoutAbsent.rulesSteps d i (presentEntries entries)).map
        Step.placeless =
      (policy.rulesSteps d j entries).map Step.placeless := by
  induction entries generalizing i j with
  | nil => rfl
  | cons entry rest ih =>
      unfold presentEntries at ih ⊢
      rw [rulesSteps, List.map_append]
      cases entry with
      | absent => exact ih i (j + 1)
      | malformed =>
          rw [List.filter_cons_of_pos rfl, rulesSteps, List.map_append, ih (i + 1) (j + 1)]
          rfl
      | rule rule =>
          rw [List.filter_cons_of_pos rfl, rulesSteps, List.map_append, ih (i + 1) (j + 1),
            policy.ruleSteps_placeless d i j]

theorem getD_rules_withoutAbsent (policy : Policy) (d : Direction) :
    (policy.withoutAbsent.rules d).getD [] =
      presentEntries ((policy.rules d).getD []) := by
  have hmap : policy.withoutAbsent.rules d =
      (policy.rules d).map presentEntries := by
    cases d <;> rfl
  rw [hmap]
  cases policy.rules d <;> rfl

theorem steps_withoutAbsent (policy : Policy) :
    policy.withoutAbsent.steps.map Step.placeless = policy.steps.map Step.placeless := by
  rw [steps, steps, List.map_cons, List.map_cons, List.map_flatMap, List.map_flatMap]
  congr 1
  apply List.flatMap_congr
  intro d _
  rw [getD_rules_withoutAbsent]
  exact policy.rulesSteps_withoutAbsent d 0 0 _

end Policy

namespace Build

theorem addPolicy_withoutAbsent (policy : Policy) {b c : Build} (h : b.placeless = c.placeless) :
    (b.addPolicy policy.withoutAbsent).placeless = (c.addPolicy policy).placeless := by
  have hrun : ((run policy policy.withoutAbsent.steps b).1.placeless,
      (run policy policy.withoutAbsent.steps b).2) =
        ((run policy policy.steps c).1.placeless, (run policy policy.steps c).2) := by
    rw [← run_placeless, ← run_placeless, h, policy.steps_withoutAbsent]
  unfold addPolicy
  rw [run_withoutAbsent]
  rcases hb : run policy policy.withoutAbsent.steps b with ⟨b', fault⟩
  rcases hc : run policy policy.steps c with ⟨c', fault'⟩
  rw [hb, hc] at hrun
  -- both runs end in a fault or neither does, so both note a skipped policy or neither does
  injection hrun with hbuild hfault
  subst hfault
  cases fault with
  | none => exact hbuild
  | some fault =>
      exact congrArg (fun built : Build =>
        { built with journal := built.journal ++ [Event.policySkipped policy.name] }) hbuild

theorem foldl_addPolicy_withoutAbsent (policies : List Policy) {b c : Build}
    (h : b.placeless = c.placeless) :
    ((policies.map Policy.withoutAbsent).foldl addPolicy b).placeless =
      (policies.foldl addPolicy c).placeless := by
  induction policies generalizing b c with
  | nil => exact h
  | cons policy rest ih => exact ih (addPolicy_withoutAbsent policy h)

/-- Without the empty entries of policies a first pass builds the same, and notes the same. -/
theorem ofPolicies_withoutAbsent (deduplicate : Bool) (policies : List Policy) :
    (ofPolicies deduplicate (policies.map Policy.withoutAbsent)).placeless =
      (ofPolicies deduplicate policies).placeless :=
  foldl_addPolicy_withoutAbsent policies rfl

theorem graph_placeless (b : Build) : b.placeless.graph = b.graph.placeless := by
  unfold graph Graph.placeless
  rw [← b.links.links_placeless]
  rfl

theorem placeless_graph_withoutAbsent (deduplicate : Bool) (policies : List Policy) :
    (ofPolicies deduplicate (policies.map Policy.withoutAbsent)).graph.placeless =
      (ofPolicies deduplicate policies).graph.placeless := by
  rw [← graph_placeless, ofPolicies_withoutAbsent, graph_placeless]

theorem length_links_withoutAbsent (deduplicate : Bool) (policies : List Policy) :
    (ofPolicies deduplicate (policies.map Policy.withoutAbsent)).graph.links.length =
      (ofPolicies deduplicate policies).graph.links.length := by
  have hlinks := congrArg Graph.links (placeless_graph_withoutAbsent deduplicate policies)
  simpa [Graph.placeless] using congrArg List.length hlinks

end Build

/-!
# The second pass

What an owner gives rise to as far as it is heard is the front of what it gives rise to as far
as it is heard without its empty entries.  The rest is missing, unless its identities are
taken.
-/

namespace Policy

/-- Whether the empty entries of a policy hide nothing: what is inferred from it without them
is inferred from it as far as it is heard. -/
def HidesNothing (owner : Policy) (policies : List Policy) : Prop :=
  ∀ target ∈ policies, ∀ d,
    (owner.withoutAbsent.heard policies).Infers target d -> (owner.heard policies).Infers target d

theorem plain_map_withoutAbsent {policies : List Policy} (h : ∀ p ∈ policies, p.Plain) :
    ∀ p ∈ policies.map withoutAbsent, p.Plain := by
  intro p hp
  rcases List.mem_map.mp hp with ⟨q, hq, rfl⟩
  exact ⟨(h q hq).namespaceName, (h q hq).name⟩

theorem heard_map_withoutAbsent (owner : Policy) (policies : List Policy) :
    owner.heard (policies.map withoutAbsent) = owner.heard policies := by
  have hears_eq : owner.hears (policies.map withoutAbsent) = owner.hears policies := by
    funext entry
    rw [hears, List.all_map]
    rfl
  rw [heard, heard, hears_eq]

theorem crossEntries_map_withoutAbsent (owner : Policy) (policies : List Policy) :
    owner.crossEntries (policies.map withoutAbsent) = owner.crossEntries policies := by
  unfold crossEntries
  simp only [List.filterMap_map]
  rfl

theorem presentEntries_of_heardOut {heeds : PeerEntry → Bool} {entries : List RuleEntry}
    (h : heardOut heeds entries = true) : presentEntries entries = entries := by
  apply List.filter_eq_self.mpr
  intro entry hentry
  rcases heardOut_iff.mp h entry hentry with ⟨rule, rfl, _⟩
  rfl

theorem heardRules_prefix_presentEntries (heeds : PeerEntry → Bool) (entries : List RuleEntry) :
    heardRules heeds entries <+: heardRules heeds (presentEntries entries) := by
  induction entries with
  | nil => exact List.prefix_refl _
  | cons entry rest ih =>
      cases entry with
      | absent => exact List.nil_prefix
      | malformed => exact List.nil_prefix
      | rule rule =>
          have hkept : presentEntries (.rule rule :: rest) = .rule rule :: presentEntries rest :=
            rfl
          rw [hkept, heardRules, heardRules, List.prefix_cons_inj]
          split
          · exact ih
          · exact List.prefix_refl _

theorem rulesEntries_prefix_mono (owner : Policy) (policies : List Policy) (d : Direction)
    {front rules : List RuleEntry} (h : front <+: rules) :
    owner.rulesEntries policies d front <+: owner.rulesEntries policies d rules := by
  rcases h with ⟨rest, rfl⟩
  unfold rulesEntries
  rw [List.flatMap_append, List.flatMap_append]
  exact List.prefix_append _ _

theorem crossEntries_heard_prefix_withoutAbsent (owner : Policy) (policies : List Policy) :
    (owner.heard policies).crossEntries policies <+:
      (owner.withoutAbsent.heard policies).crossEntries policies := by
  have hhears : owner.withoutAbsent.hears policies = owner.hears policies := rfl
  have hrules : ∀ d, owner.withoutAbsent.rulesEntries policies d = owner.rulesEntries policies d :=
    fun _ => rfl
  have hingress : owner.withoutAbsent.ingress.getD [] =
      presentEntries (owner.ingress.getD []) := owner.getD_rules_withoutAbsent .ingress
  have hegress : owner.withoutAbsent.egress.getD [] =
      presentEntries (owner.egress.getD []) := owner.getD_rules_withoutAbsent .egress
  rw [crossEntries_heard, crossEntries_heard, hingress, hegress, hrules, hrules,
    hhears]
  -- egress rules are heard only behind ingress rules that are heard to their end
  cases hout : heardOut (owner.hears policies) (owner.ingress.getD []) with
  | true =>
      rw [presentEntries_of_heardOut hout, hout, if_pos rfl, List.prefix_append_right_inj]
      exact owner.rulesEntries_prefix_mono policies .egress
        (heardRules_prefix_presentEntries _ _)
  | false =>
      rw [if_neg Bool.false_ne_true, List.append_nil]
      have hfront := owner.rulesEntries_prefix_mono policies .ingress
        (heardRules_prefix_presentEntries (owner.hears policies) (owner.ingress.getD []))
      exact hfront.trans (List.prefix_append _ _)

end Policy

theorem heardEntries_map_withoutAbsent (policies : List Policy) :
    heardEntries (policies.map Policy.withoutAbsent) =
      policies.flatMap fun owner => (owner.withoutAbsent.heard policies).crossEntries policies := by
  unfold heardEntries
  rw [List.flatMap_map]
  apply List.flatMap_congr
  intro owner _
  rw [Policy.heard_map_withoutAbsent, Policy.crossEntries_map_withoutAbsent]

theorem heardEntries_subset_withoutAbsent (policies : List Policy) :
    heardEntries policies ⊆ heardEntries (policies.map Policy.withoutAbsent) := by
  rw [heardEntries_map_withoutAbsent]
  intro entry hentry
  rcases List.mem_flatMap.mp hentry with ⟨owner, howner, hmem⟩
  exact List.mem_flatMap.mpr
    ⟨owner, howner, (owner.crossEntries_heard_prefix_withoutAbsent policies).subset hmem⟩

theorem keys_subset_of_length_registered_eq {fewer more : List (String × Link)}
    (h : fewer.map Prod.fst ⊆ more.map Prod.fst)
    (hlength : (fewer.foldl registerEntry []).length = (more.foldl registerEntry []).length) :
    more.map Prod.fst ⊆ fewer.map Prod.fst := by
  have hnodup : ((fewer.foldl registerEntry []).map Prod.fst).Nodup :=
    (LinkBook.Lists.empty.registerAll fewer).nodup
  have hfrom : ∀ entries : List (String × Link),
      (entries.foldl registerEntry []).map Prod.fst ⊆ entries.map Prod.fst := by
    intro entries id hid
    rcases List.mem_map.mp hid with ⟨entry, hentry, rfl⟩
    exact List.mem_map_of_mem (mem_of_mem_foldl_registerEntry hentry)
  have hsub : (fewer.foldl registerEntry []).map Prod.fst ⊆
      (more.foldl registerEntry []).map Prod.fst := fun id hid =>
    (keys_subset_foldl_registerEntry more []).1 (h (hfrom fewer hid))
  have hperm : ((fewer.foldl registerEntry []).map Prod.fst).Perm
      ((more.foldl registerEntry []).map Prod.fst) := by
    apply (hnodup.subperm hsub).perm_of_length_le
    rw [List.length_map, List.length_map, hlength]
  intro id hid
  exact hfrom fewer (hperm.symm.subset ((keys_subset_foldl_registerEntry more []).1 hid))

namespace LinkBook

theorem placeless_registerAll (book : LinkBook) {entries : List (String × Link)}
    (h : ∀ entry ∈ entries, entry.2.placeless = entry.2) :
    (book.registerAll entries).placeless = book.placeless.registerAll entries := by
  induction entries generalizing book with
  | nil => rfl
  | cons entry rest ih =>
      have hregister : (book.register entry.1 entry.2).2.placeless =
          (book.placeless.register entry.1 entry.2).2 := by
        have hcontains : book.placeless.registry = book.registry := rfl
        unfold register
        rw [hcontains]
        cases book.registry.contains entry.1 with
        | true => rfl
        | false =>
          have happend := book.placeless_append entry.1 entry.2
          rw [h entry List.mem_cons_self] at happend
          exact happend
      have hrest := ih (book.register entry.1 entry.2).2
        fun other hother => h other (List.mem_cons_of_mem entry hother)
      rw [hregister] at hrest
      exact hrest

/-- Nothing more is registered for owners that have more to give, as long as its identities are
those of what they give anyway. -/
theorem registerAll_flatMap_of_prefix {policies : List Policy}
    {less more : Policy → List (String × Link)}
    (h : ∀ owner ∈ policies, less owner <+: more owner ∧
      (more owner).map Prod.fst ⊆ (less owner).map Prod.fst) (book : LinkBook) :
    book.registerAll (policies.flatMap more) = book.registerAll (policies.flatMap less) := by
  induction policies generalizing book with
  | nil => rfl
  | cons owner rest ih =>
      rcases h owner List.mem_cons_self with ⟨⟨rest', hmore⟩, hkeys⟩
      have hsame : book.registerAll (more owner) = book.registerAll (less owner) := by
        rw [← hmore, registerAll_append]
        apply registerAll_of_contains
        intro entry hentry
        rw [contains_registerAll]
        apply Or.inl
        apply hkeys
        rw [← hmore]
        exact List.mem_map_of_mem (List.mem_append_right _ hentry)
      rw [List.flatMap_cons, List.flatMap_cons, registerAll_append, registerAll_append, hsame]
      exact ih (fun other hother => h other (List.mem_cons_of_mem owner hother)) _

end LinkBook

theorem placeless_of_mem_heardEntries {policies : List Policy} {entry : String × Link}
    (h : entry ∈ heardEntries policies) : entry.2.placeless = entry.2 := by
  rcases exists_of_mem_heardEntries h with ⟨owner, _, target, _, d, _, _, _, rfl⟩
  cases d <;> rfl

namespace Graph

/-- A graph of both passes is the links of the first one and what is registered behind them. -/
theorem placeless_compile_true (policies : List Policy) :
    (compile true policies).placeless =
      ⟨(Build.ofPolicies true policies).nodes.nodes,
        ((Build.ofPolicies true policies).placeless.links.registerAll
          (heardEntries policies)).links⟩ := by
  have hregistered := (Build.ofPolicies true policies).links.placeless_registerAll
    fun entry (hentry : entry ∈ heardEntries policies) => placeless_of_mem_heardEntries hentry
  rw [compile_true_eq, placeless, ← LinkBook.links_placeless, hregistered]
  rfl

theorem placeless_compile_true_of_hidesNothing {policies : List Policy}
    (h : ∀ owner ∈ policies, owner.HidesNothing policies) :
    (compile true (policies.map Policy.withoutAbsent)).placeless =
      (compile true policies).placeless := by
  have hbuild := Build.ofPolicies_withoutAbsent true policies
  have hnodes : (Build.ofPolicies true (policies.map Policy.withoutAbsent)).nodes =
      (Build.ofPolicies true policies).nodes := (Build.mk.inj hbuild).1
  rw [placeless_compile_true, placeless_compile_true, hbuild, hnodes,
    heardEntries_map_withoutAbsent]
  congr 2
  apply LinkBook.registerAll_flatMap_of_prefix
  intro owner howner
  refine ⟨owner.crossEntries_heard_prefix_withoutAbsent policies, ?_⟩
  intro id hid
  rcases (Policy.mem_keys_crossEntries _ policies id).mp hid with
    ⟨target, htarget, d, hinfers, hcross⟩
  exact (Policy.mem_keys_crossEntries _ policies id).mpr
    ⟨target, htarget, d, h owner howner target htarget d hinfers, hcross⟩

theorem hidesNothing_of_placeless_compile_true {policies : List Policy}
    (hdistinct : policies.Pairwise fun p q => p.sameAs q = false)
    (hplain : ∀ p ∈ policies, p.Plain)
    (h : (compile true (policies.map Policy.withoutAbsent)).placeless =
      (compile true policies).placeless) :
    ∀ owner ∈ policies, owner.HidesNothing policies := by
  have hcleaned := Policy.plain_map_withoutAbsent hplain
  have hlength : ((heardEntries policies).foldl registerEntry []).length =
      ((heardEntries (policies.map Policy.withoutAbsent)).foldl registerEntry []).length := by
    have hlinks := congrArg (fun graph => graph.links.length) h
    simp only [placeless, List.length_map, (links_compile hplain).2, (links_compile hcleaned).2,
      List.length_append, Build.length_links_withoutAbsent] at hlinks
    exact (Nat.add_left_cancel hlinks).symm
  have hkeys : (heardEntries policies).map Prod.fst ⊆
      (heardEntries (policies.map Policy.withoutAbsent)).map Prod.fst :=
    List.map_subset Prod.fst (heardEntries_subset_withoutAbsent policies)
  intro owner howner target htarget d hinfers
  have hmem : owner.crossId target d ∈
      (heardEntries (policies.map Policy.withoutAbsent)).map Prod.fst := by
    rw [heardEntries_map_withoutAbsent, List.map_flatMap, List.mem_flatMap]
    exact ⟨owner, howner,
      (Policy.mem_keys_crossEntries _ policies _).mpr ⟨target, htarget, d, hinfers, rfl⟩⟩
  -- the identity is registered with the empty entries, too, and it tells who infers it
  rcases mem_keys_heardEntries.mp (keys_subset_of_length_registered_eq hkeys hlength hmem) with
    ⟨owner', howner', target', htarget', d', hheard, hid⟩
  rcases Policy.crossId_inj (hplain owner howner) (hplain target htarget) (hplain owner' howner')
    (hplain target' htarget') hid with ⟨hsame, hsame', rfl⟩
  cases Policy.eq_of_sameAs hdistinct howner howner' hsame
  cases Policy.eq_of_sameAs hdistinct htarget htarget' hsame'
  exact hheard

/-- Without the empty entries of their lists of rules, policies have the same nodes and, but for
the places of rules, the same links of the first pass, whether or not they share nodes, and
where they share none the graph has no others.  Where they share nodes the links of both
passes are the same as well if no empty entry hides anything, and if namespaces hold no colons,
names hold no arrows and no two policies are the same one, only then. -/
theorem compile_withoutAbsent (policies : List Policy) :
    let cleaned := policies.map Policy.withoutAbsent
    (∀ deduplicate,
        (compile deduplicate cleaned).nodes = (compile deduplicate policies).nodes ∧
          (Build.ofPolicies deduplicate cleaned).graph.placeless =
            (Build.ofPolicies deduplicate policies).graph.placeless) ∧
      (compile false cleaned).placeless = (compile false policies).placeless ∧
      ((∀ owner ∈ policies, owner.HidesNothing policies) ->
        (compile true cleaned).placeless = (compile true policies).placeless) ∧
      ((policies.Pairwise fun p q => p.sameAs q = false) -> (∀ p ∈ policies, p.Plain) ->
        (compile true cleaned).placeless = (compile true policies).placeless ->
          ∀ owner ∈ policies, owner.HidesNothing policies) := by
  intro cleaned
  refine ⟨?_, ?_, placeless_compile_true_of_hidesNothing, ?_⟩
  · intro deduplicate
    refine ⟨?_, Build.placeless_graph_withoutAbsent deduplicate policies⟩
    rw [nodes_compile, nodes_compile]
    exact congrArg Graph.nodes (Build.placeless_graph_withoutAbsent deduplicate policies)
  · rw [compile_false_eq, compile_false_eq]
    exact Build.placeless_graph_withoutAbsent false policies
  · exact fun hdistinct hplain => hidesNothing_of_placeless_compile_true hdistinct hplain

/-- Behind the last rule an empty entry hides nothing. -/
theorem compile_absent_behind :
    let policies := tillPolicies [clerkRule, .absent]
    let cleaned := policies.map Policy.withoutAbsent
    (∀ owner ∈ policies, owner.HidesNothing policies) ∧
      (policies.Pairwise fun p q => p.sameAs q = false) ∧ (∀ p ∈ policies, p.Plain) ∧
      (compile true cleaned).placeless = (compile true policies).placeless ∧
      ((compile true policies).inferred.map fun link => (link.direction, link.policyText)) =
        [(.ingress, "clerk → till"), (.egress, "clerk → till")] := by
  intro policies cleaned
  have hpeers : ∀ owner ∈ policies, ∀ d,
      (owner.withoutAbsent.heard policies).rulePeers d =
        (owner.heard policies).rulePeers d := by
    intro owner howner d
    rcases List.mem_cons.mp howner with rfl | hclerk
    · cases d <;> rfl
    · cases List.mem_singleton.mp hclerk
      cases d <;> rfl
  have hhides : ∀ owner ∈ policies, owner.HidesNothing policies := by
    rintro owner howner target _ d ⟨hapart, peer, hpeer, hreaches⟩
    rw [hpeers owner howner d] at hpeer
    exact ⟨hapart, peer, hpeer, hreaches⟩
  have htexts : ∀ p ∈ policies,
      ':' ∉ p.namespaceName.toList ∧ ¬ ['-', '>'] <:+: p.name.toList := by
    decide +kernel
  refine ⟨hhides, by decide, fun p hp => ⟨(htexts p hp).1, (htexts p hp).2⟩, ?_,
    by decide +kernel⟩
  exact (compile_withoutAbsent policies).2.2.1 hhides

/-- In front of a rule it hides the rule from the second pass: clerks are let in, but no link
says so. -/
theorem compile_absent_in_front :
    let policies := tillPolicies [.absent, clerkRule]
    let cleaned := policies.map Policy.withoutAbsent
    ((compile true policies).inferred.map fun link => (link.direction, link.policyText)) =
        [(.egress, "clerk → till")] ∧
      ((compile true cleaned).inferred.map fun link => (link.direction, link.policyText)) =
        [(.ingress, "clerk → till"), (.egress, "clerk → till")] ∧
      (compile true cleaned).placeless ≠ (compile true policies).placeless := by
  intro policies cleaned
  have hlengths : (compile true cleaned).links.length = 4 ∧
      (compile true policies).links.length = 3 := by
    decide +kernel
  refine ⟨by decide +kernel, by decide +kernel, ?_⟩
  intro heq
  have hcount := congrArg (fun graph => graph.links.length) heq
  simp only [placeless, List.length_map] at hcount
  rw [hlengths.1, hlengths.2] at hcount
  cases hcount

end Graph

end TrafficGraph
