import TrafficGraph.Proofs.Graph.Mirror

/-!
# Both directions alike

A link is inferred with the identity of two policies in a direction from the rules of that
direction alone.  But an owner that stumbles over its rules for one direction is not heard for
the other one if that comes later.  So the links inferred between policies follow the exchange
of the two lists of rules exactly if this hides no link in one order that the other order shows.
-/

namespace TrafficGraph

/-!
# Inferred links

An inferred link is registered under an identity that its ends, its direction and its
policies tell.
-/

def Link.pairId (link : Link) : String :=
  linkId link.source link.target link.direction false ("->".intercalate link.policies)

def mirrorEntry (entry : String × Link) : String × Link :=
  (entry.2.mirror.pairId, entry.2.mirror)

theorem pairId_crossLink (owner target : Policy) (d : Direction) (ports : Ports)
    (combined : Bool) :
    (crossLink owner target d ports combined).pairId = owner.crossId target d := by
  cases d <;> rfl

theorem mirror_crossLink (owner target : Policy) (d : Direction) (ports : Ports)
    (combined : Bool) :
    (crossLink owner target d ports combined).mirror =
      crossLink owner.mirror target.mirror d.flip ports combined := by
  cases d <;> rfl

theorem mirrorEntry_crossLink (owner target : Policy) (d : Direction) (ports : Ports)
    (combined : Bool) :
    mirrorEntry (owner.crossId target d, crossLink owner target d ports combined) =
      (owner.mirror.crossId target.mirror d.flip,
        crossLink owner.mirror target.mirror d.flip ports combined) := by
  unfold mirrorEntry
  rw [mirror_crossLink, pairId_crossLink]

namespace Policy

theorem inferred?_mirror (owner target : Policy) (d : Direction) (peer : Rule × Peer) :
    owner.mirror.inferred? target.mirror d.flip peer =
      (owner.inferred? target d peer).map mirrorEntry := by
  have hreaches : peer.2.Reaches owner.mirror target.mirror ↔ peer.2.Reaches owner target :=
    Iff.rfl
  unfold inferred?
  rw [show owner.mirror.sameAs target.mirror = owner.sameAs target from rfl]
  by_cases hsame : owner.sameAs target = true
  · rw [if_pos hsame, if_pos hsame]
    rfl
  · rw [if_neg hsame, if_neg hsame]
    by_cases hpeer : peer.2.Reaches owner target
    · rw [if_pos hpeer, if_pos (hreaches.mpr hpeer), Option.map_some, mirrorEntry_crossLink]
    · rw [if_neg hpeer, if_neg (mt hreaches.mp hpeer)]
      rfl

theorem rulesEntries_mirror (owner : Policy) (policies : List Policy) (d : Direction)
    (rules : List RuleEntry) :
    owner.mirror.rulesEntries (policies.map Policy.mirror) d.flip rules =
      (owner.rulesEntries policies d rules).map mirrorEntry := by
  unfold rulesEntries
  rw [List.map_flatMap]
  apply List.flatMap_congr
  intro peer _
  rw [List.filterMap_map, List.map_filterMap]
  apply List.filterMap_congr
  intro target _
  exact owner.inferred?_mirror target d peer

theorem crossId_mirror_of_eq {owner target owner' target' : Policy} {d d' : Direction}
    (howner : owner.Plain) (htarget : target.Plain) (howner' : owner'.Plain)
    (htarget' : target'.Plain) (h : owner.crossId target d = owner'.crossId target' d') :
    owner.mirror.crossId target.mirror d.flip = owner'.mirror.crossId target'.mirror d'.flip := by
  have hd : d = d' := (crossId_inj howner htarget howner' htarget' h).2.2
  subst hd
  cases d with
  | ingress =>
      rcases pairId_parts htarget howner htarget' howner' h with
        ⟨⟨hfirst, hsecond⟩, ⟨hname, hname'⟩, _⟩
      simp only [crossId, pairId, Direction.flip, podId_mirror, name_mirror, hfirst, hsecond,
        hname, hname']
  | egress =>
      rcases pairId_parts howner htarget howner' htarget' h with
        ⟨⟨hfirst, hsecond⟩, ⟨hname, hname'⟩, _⟩
      simp only [crossId, pairId, Direction.flip, podId_mirror, name_mirror, hfirst, hsecond,
        hname, hname']

theorem exists_of_mem_rulesEntries {owner : Policy} {policies : List Policy}
    {d : Direction} {rules : List RuleEntry} {entry : String × Link}
    (h : entry ∈ owner.rulesEntries policies d rules) :
    ∃ target ∈ policies, ∃ ports combined,
      entry = (owner.crossId target d, crossLink owner target d ports combined) := by
  rcases List.mem_flatMap.mp h with ⟨peer, _, hpeer⟩
  rcases List.mem_filterMap.mp hpeer with ⟨target, htarget, hentry⟩
  exact ⟨target, htarget, peer.1.ports.orAll, peer.2.isCombined,
    (inferred?_eq_some_iff.mp hentry).2⟩

section Entries

variable {policies : List Policy} (hplain : ∀ p ∈ policies, p.Plain) {owner target : Policy}
  (howner : owner ∈ policies) (htarget : target ∈ policies) {other : Policy}
  (hother : other ∈ policies)

include hplain howner htarget hother

theorem filter_crossId_crossEntries_heard (d : Direction) :
    (((other.heard policies).crossEntries policies).filter
        fun entry => entry.1 == owner.crossId target d) =
      (other.rulesEntries policies d (((other.heard policies).rules d).getD [])).filter
        fun entry => entry.1 == owner.crossId target d := by
  have hnone : ∀ e, e ≠ d -> ((other.rulesEntries policies e
      (((other.heard policies).rules e).getD [])).filter
        fun entry => entry.1 == owner.crossId target d) = [] := by
    intro e he
    rw [List.filter_eq_nil_iff]
    intro entry hentry heq
    rcases exists_of_mem_rulesEntries hentry with ⟨third, hthird, _, _, rfl⟩
    exact he (crossId_inj (hplain other hother) (hplain third hthird) (hplain owner howner)
      (hplain target htarget) (eq_of_beq heq)).2.2
  have hrules : ∀ e rules, (other.heard policies).rulesEntries policies e rules =
      other.rulesEntries policies e rules := fun _ _ => rfl
  rw [crossEntries_eq, List.filter_append, hrules, hrules]
  cases d with
  | ingress => rw [hnone .egress (by simp), List.append_nil]
  | egress => rw [hnone .ingress (by simp), List.nil_append]

/-- The entries with the identity of a link are mirrored where the rules of its direction give
rise to the same in both orders. -/
theorem filter_crossId_crossEntries_mirror {d : Direction}
    (halike : other.rulesEntries policies d
        (((other.mirror.heard (policies.map Policy.mirror)).rules d.flip).getD []) =
      other.rulesEntries policies d (((other.heard policies).rules d).getD [])) :
    (((other.mirror.heard (policies.map Policy.mirror)).crossEntries
        (policies.map Policy.mirror)).filter
          fun entry => entry.1 == owner.mirror.crossId target.mirror d.flip) =
      (((other.heard policies).crossEntries policies).filter
        fun entry => entry.1 == owner.crossId target d).map mirrorEntry := by
  have hmirror : ∀ {p : Policy}, p ∈ policies -> p.mirror ∈ policies.map Policy.mirror :=
    fun hp => List.mem_map_of_mem hp
  rw [filter_crossId_crossEntries_heard (plain_map_mirror hplain) (hmirror howner)
    (hmirror htarget) (hmirror hother), rulesEntries_mirror, halike, List.filter_map,
    filter_crossId_crossEntries_heard hplain howner htarget hother]
  congr 1
  apply List.filter_congr
  intro entry hentry
  rcases exists_of_mem_rulesEntries hentry with ⟨third, hthird, ports, combined, rfl⟩
  have hplainOther := hplain other hother
  have hplainThird := hplain third hthird
  have hplainOwner := hplain owner howner
  have hplainTarget := hplain target htarget
  rw [Function.comp_apply, mirrorEntry_crossLink, Bool.eq_iff_iff, beq_iff_eq, beq_iff_eq]
  constructor
  · intro heq
    have hback := crossId_mirror_of_eq hplainOther.mirror hplainThird.mirror hplainOwner.mirror
      hplainTarget.mirror heq
    rwa [Direction.flip_flip] at hback
  · exact crossId_mirror_of_eq hplainOther hplainThird hplainOwner hplainTarget

end Entries

/-!
# What is heard in both orders

The rules for a direction are heard as far in one order as in the other, unless the owner
has stumbled before it comes to them.
-/

theorem hears_mirror (owner : Policy) (policies : List Policy) :
    owner.mirror.hears (policies.map Policy.mirror) = owner.hears policies := by
  funext entry
  rw [hears, List.all_map]
  cases entry <;> rfl

theorem rules_heard (owner : Policy) (policies : List Policy) (d : Direction) :
    ((owner.heard policies).rules d).getD [] =
        heardRules (owner.hears policies) ((owner.rules d).getD []) ∨
      ((owner.heard policies).rules d).getD [] = [] := by
  cases d with
  | ingress => exact Or.inl rfl
  | egress =>
      rw [rules_egress_heard]
      split
      · exact Or.inl rfl
      · exact Or.inr rfl

theorem rules_heard_mirror (owner : Policy) (policies : List Policy) (d : Direction) :
    ((owner.mirror.heard (policies.map Policy.mirror)).rules d.flip).getD [] =
        heardRules (owner.hears policies) ((owner.rules d).getD []) ∨
      ((owner.mirror.heard (policies.map Policy.mirror)).rules d.flip).getD [] = [] := by
  have hmirror := owner.mirror.rules_heard (policies.map Policy.mirror) d.flip
  rwa [hears_mirror, rules_mirror] at hmirror

theorem rulesEntries_eq_nil_iff {owner : Policy} {policies : List Policy} {d : Direction} :
    owner.rulesEntries policies d ((owner.rules d).getD []) = [] ↔
      ∀ target ∈ policies, ¬ owner.Infers target d := by
  unfold rulesEntries
  rw [List.flatMap_eq_nil_iff]
  simp only [List.filterMap_eq_nil_iff]
  constructor
  · rintro hnone target htarget ⟨hapart, peer, hpeer, hreaches⟩
    have hempty := hnone peer hpeer target htarget
    rw [inferred?, if_neg (by simp [hapart]), if_pos hreaches] at hempty
    cases hempty
  · intro hnone peer hpeer target htarget
    rw [Option.eq_none_iff_forall_ne_some]
    intro entry hentry
    rcases inferred?_eq_some_iff.mp hentry with ⟨⟨hapart, hreaches⟩, _⟩
    exact hnone target htarget ⟨hapart, peer, hpeer, hreaches⟩

end Policy

/-- Whether the same links are inferred from policies in both orders of their directions, but
for the exchange. -/
def HeardAlike (policies : List Policy) : Prop :=
  ∀ owner ∈ policies, ∀ target ∈ policies, ∀ d,
    (owner.heard policies).Infers target d ↔
      (owner.mirror.heard (policies.map Policy.mirror)).Infers target.mirror d.flip

namespace HeardAlike

variable {policies : List Policy}

theorem mirror (h : HeardAlike policies) : HeardAlike (policies.map Policy.mirror) := by
  intro p hp q hq d
  rcases List.mem_map.mp hp with ⟨owner, howner, rfl⟩
  rcases List.mem_map.mp hq with ⟨target, htarget, rfl⟩
  have hback := h owner howner target htarget d.flip
  rw [Direction.flip_flip] at hback
  rw [Policy.map_mirror_map_mirror]
  exact hback.symm

theorem rulesEntries_eq (h : HeardAlike policies) {owner : Policy} (howner : owner ∈ policies)
    (d : Direction) :
    owner.rulesEntries policies d
        (((owner.mirror.heard (policies.map Policy.mirror)).rules d.flip).getD []) =
      owner.rulesEntries policies d (((owner.heard policies).rules d).getD []) := by
  have hnone : ∀ target ∈ policies, ¬ (owner.heard policies).Infers target d ↔
      ¬ (owner.mirror.heard (policies.map Policy.mirror)).Infers target.mirror d.flip :=
    fun target htarget => not_congr (h owner howner target htarget d)
  -- the rules are heard alike, or in one of the two orders not at all
  have hempty : owner.rulesEntries policies d (((owner.heard policies).rules d).getD []) = [] ↔
      owner.rulesEntries policies d
        (((owner.mirror.heard (policies.map Policy.mirror)).rules d.flip).getD []) = [] := by
    have hhere := @Policy.rulesEntries_eq_nil_iff (owner.heard policies) policies d
    have hthere := @Policy.rulesEntries_eq_nil_iff
      (owner.mirror.heard (policies.map Policy.mirror)) (policies.map Policy.mirror) d.flip
    have hmirrored := owner.rulesEntries_mirror policies d
      (((owner.mirror.heard (policies.map Policy.mirror)).rules d.flip).getD [])
    rw [List.forall_mem_map] at hthere
    have hmirror : (owner.rulesEntries policies d
        (((owner.mirror.heard (policies.map Policy.mirror)).rules d.flip).getD [])) = [] ↔
          ∀ target ∈ policies,
            ¬ (owner.mirror.heard (policies.map Policy.mirror)).Infers target.mirror d.flip := by
      rw [← hthere, ← List.map_eq_nil_iff (f := mirrorEntry), ← hmirrored]
      rfl
    exact hhere.trans ((forall₂_congr hnone).trans hmirror.symm)
  rcases owner.rules_heard policies d with hhere | hhere
  · rcases owner.rules_heard_mirror policies d with hthere | hthere
    · rw [hhere, hthere]
    · rw [hempty.mpr (by rw [hthere]; rfl), hthere]
      rfl
  · rw [hempty.mp (by rw [hhere]; rfl), hhere]
    rfl

end HeardAlike

theorem Policy.Typed.mirror {owner : Policy} (h : owner.Typed) : owner.mirror.Typed := by
  intro d
  have hrules := owner.rules_mirror d.flip
  rw [Direction.flip_flip] at hrules
  rw [hrules]
  exact h d.flip

theorem heardAlike_of_typed {policies : List Policy} (h : ∀ p ∈ policies, p.Typed) :
    HeardAlike policies := by
  intro owner howner target _ d
  have htyped := h owner howner
  unfold Policy.Infers Policy.rulePeers
  rw [htyped.rules_heard, htyped.mirror.rules_heard, Policy.rules_mirror]
  rfl

theorem nodup_keys_registered (entries : List (String × Link)) :
    ((entries.foldl registerEntry []).map Prod.fst).Nodup :=
  (LinkBook.Lists.empty.registerAll entries).nodup

namespace Graph

section Plain

variable {policies : List Policy} (hplain : ∀ p ∈ policies, p.Plain)

include hplain

theorem exists_of_mem_inferred {link : Link} (hlink : link ∈ (compile true policies).inferred) :
    ∃ owner target d ports combined, link = crossLink owner target d ports combined := by
  rw [inferred_compile hplain] at hlink
  rcases List.mem_map.mp hlink with ⟨entry, hentry, rfl⟩
  rcases exists_of_mem_heardEntries (mem_of_mem_foldl_registerEntry hentry) with
    ⟨owner, _, target, _, d, ports, combined, _, rfl⟩
  exact ⟨owner, target, d, ports, combined, rfl⟩

theorem nodup_inferred : (compile true policies).inferred.Nodup := by
  rw [inferred_compile hplain]
  apply List.Nodup.of_map Link.pairId
  have hkeys : (((heardEntries policies).foldl registerEntry []).map Prod.snd).map Link.pairId =
      ((heardEntries policies).foldl registerEntry []).map Prod.fst := by
    rw [List.map_map]
    apply List.map_congr_left
    intro entry hentry
    rcases exists_of_mem_heardEntries (mem_of_mem_foldl_registerEntry hentry) with
      ⟨owner, _, target, _, d, ports, combined, _, rfl⟩
    exact pairId_crossLink owner target d ports combined
  rw [hkeys]
  exact nodup_keys_registered _

theorem mirror_mirror_of_mem_inferred {link : Link}
    (hlink : link ∈ (compile true policies).inferred) : link.mirror.mirror = link := by
  rcases exists_of_mem_inferred hplain hlink with ⟨owner, target, d, ports, combined, rfl⟩
  rw [mirror_crossLink, mirror_crossLink, Direction.flip_flip, Policy.mirror_mirror,
    Policy.mirror_mirror]

theorem mirror_mem_inferred (halike : HeardAlike policies) {link : Link}
    (hlink : link ∈ (compile true policies).inferred) :
    link.mirror ∈ (compile true (policies.map Policy.mirror)).inferred := by
  rw [inferred_compile hplain] at hlink
  rw [inferred_compile (Policy.plain_map_mirror hplain)]
  rcases List.mem_map.mp hlink with ⟨entry, hentry, rfl⟩
  rcases exists_of_mem_heardEntries (mem_of_mem_foldl_registerEntry hentry) with
    ⟨owner, howner, target, htarget, d, ports, combined, _, rfl⟩
  refine List.mem_map.mpr ⟨_, ?_, congrArg Prod.snd
    (mirrorEntry_crossLink owner target d ports combined).symm⟩
  -- the entries of one identity are mirrored in order, so the first one is the image
  have hentries : ((heardEntries (policies.map Policy.mirror)).filter
      fun entry => entry.1 == owner.mirror.crossId target.mirror d.flip) =
        ((heardEntries policies).filter fun entry => entry.1 == owner.crossId target d).map
          mirrorEntry := by
    unfold heardEntries
    rw [List.flatMap_map, List.filter_flatMap, List.filter_flatMap, List.map_flatMap]
    apply List.flatMap_congr
    intro other hother
    exact Policy.filter_crossId_crossEntries_mirror hplain howner htarget hother
      (halike.rulesEntries_eq hother d)
  rw [mem_foldl_registerEntry] at hentry ⊢
  rcases hentry with hnil | ⟨_, hfind⟩
  · cases hnil
  · refine Or.inr ⟨List.not_mem_nil, ?_⟩
    rw [← List.head?_filter] at hfind
    rw [← List.head?_filter, hentries, List.head?_map, hfind, Option.map_some,
      mirrorEntry_crossLink]

theorem inferred_mirror_perm (halike : HeardAlike policies) :
    (compile true (policies.map Policy.mirror)).inferred.Perm
      ((compile true policies).inferred.map Link.mirror) := by
  have hplainMirror := Policy.plain_map_mirror hplain
  have hback := Policy.map_mirror_map_mirror policies
  apply perm_map_of_forall_mem (nodup_inferred hplain) (nodup_inferred hplainMirror)
  · exact fun link hlink => mirror_mirror_of_mem_inferred hplain hlink
  · exact fun link hlink => mirror_mirror_of_mem_inferred hplainMirror hlink
  · exact fun link hlink => mirror_mem_inferred hplain halike hlink
  · intro link hlink
    have himage := mirror_mem_inferred hplainMirror halike.mirror hlink
    rwa [hback] at himage

section Converse

variable (hdistinct : policies.Pairwise fun p q => p.sameAs q = false)

include hdistinct

/-- If the images of the inferred links are inferred from the exchanged policies, so is what
an owner infers. -/
theorem infers_mirror
    (himages : ∀ link ∈ (compile true policies).inferred,
      link.mirror ∈ (compile true (policies.map Policy.mirror)).inferred)
    {owner target : Policy} (howner : owner ∈ policies) (htarget : target ∈ policies)
    {d : Direction} (h : (owner.heard policies).Infers target d) :
    (owner.mirror.heard (policies.map Policy.mirror)).Infers target.mirror d.flip := by
  have hmirror : ∀ {p : Policy}, p ∈ policies -> p.mirror ∈ policies.map Policy.mirror :=
    fun hp => List.mem_map_of_mem hp
  have hplainMirror := Policy.plain_map_mirror hplain
  have hdistinctMirror : (policies.map Policy.mirror).Pairwise fun p q => p.sameAs q = false :=
    List.pairwise_map.mpr hdistinct
  -- some link is registered under the identity of the two, and its image is the one of the others
  have hid : owner.crossId target d ∈
      ((heardEntries policies).foldl registerEntry []).map Prod.fst :=
    (keys_subset_foldl_registerEntry (heardEntries policies) []).1
      (mem_keys_heardEntries.mpr ⟨owner, howner, target, htarget, d, h, rfl⟩)
  rcases List.mem_map.mp hid with ⟨entry, hentry, hsame⟩
  have hlink : entry.2 ∈ (compile true policies).inferred := by
    rw [inferred_compile hplain]
    exact List.mem_map_of_mem hentry
  rcases exists_of_mem_heardEntries (mem_of_mem_foldl_registerEntry hentry) with
    ⟨first, hfirst, second, hsecond, e, ports, combined, _, rfl⟩
  have himage := himages _ hlink
  rw [mirror_crossLink, inferred_compile hplainMirror] at himage
  rcases List.mem_map.mp himage with ⟨image, himage, heq⟩
  rcases exists_of_mem_heardEntries (mem_of_mem_foldl_registerEntry himage) with
    ⟨third, hthird, fourth, hfourth, e', ports', combined', hinfers, rfl⟩
  have hids : owner.mirror.crossId target.mirror d.flip = third.crossId fourth e' := by
    have hpairs := congrArg Link.pairId heq
    rw [pairId_crossLink, pairId_crossLink] at hpairs
    rw [hpairs]
    exact (Policy.crossId_mirror_of_eq (hplain first hfirst) (hplain second hsecond)
      (hplain owner howner) (hplain target htarget) hsame).symm
  rcases Policy.crossId_inj (hplainMirror _ (hmirror howner)) (hplainMirror _ (hmirror htarget))
    (hplainMirror third hthird) (hplainMirror fourth hfourth) hids with ⟨hthirdEq, hfourthEq, rfl⟩
  rw [Policy.eq_of_sameAs hdistinctMirror (hmirror howner) hthird hthirdEq,
    Policy.eq_of_sameAs hdistinctMirror (hmirror htarget) hfourth hfourthEq]
  exact hinfers

theorem heardAlike_of_inferred_perm
    (hperm : (compile true (policies.map Policy.mirror)).inferred.Perm
      ((compile true policies).inferred.map Link.mirror)) : HeardAlike policies := by
  have hplainMirror := Policy.plain_map_mirror hplain
  have hdistinctMirror : (policies.map Policy.mirror).Pairwise fun p q => p.sameAs q = false :=
    List.pairwise_map.mpr hdistinct
  have hback := Policy.map_mirror_map_mirror policies
  intro owner howner target htarget d
  constructor
  · apply infers_mirror hplain hdistinct _ howner htarget
    exact fun link hlink => hperm.symm.subset (List.mem_map_of_mem hlink)
  · intro h
    have himages : ∀ link ∈ (compile true (policies.map Policy.mirror)).inferred,
        link.mirror ∈ (compile true ((policies.map Policy.mirror).map Policy.mirror)).inferred := by
      intro link hlink
      rcases List.mem_map.mp (hperm.subset hlink) with ⟨original, horiginal, rfl⟩
      rw [hback, mirror_mirror_of_mem_inferred hplain horiginal]
      exact horiginal
    have hinfers := infers_mirror hplainMirror hdistinctMirror himages
      (List.mem_map_of_mem howner) (List.mem_map_of_mem htarget) h
    rwa [hback, Direction.flip_flip] at hinfers

end Converse

end Plain

/-!
# All links
-/

theorem inferred_append_direct_perm (graph : Graph) :
    (graph.inferred ++ graph.direct).Perm graph.links := by
  unfold inferred direct
  exact List.filter_append_perm _ graph.links

theorem crossPolicy_mirror (link : Link) : link.mirror.crossPolicy = link.crossPolicy := by
  unfold Link.mirror
  split <;> rfl

theorem inferred_perm_of_links_perm {graph image : Graph}
    (h : image.links.Perm (graph.links.map Link.mirror)) :
    image.inferred.Perm (graph.inferred.map Link.mirror) := by
  have hkinds : (fun link : Link => link.crossPolicy) ∘ Link.mirror = fun link => link.crossPolicy :=
    funext crossPolicy_mirror
  have hfiltered := h.filter fun link => link.crossPolicy
  rwa [List.filter_map, hkinds] at hfiltered

/-- If the rules of policies for the two directions are exchanged, the links that policies
allow on their own are mirrored: their ends, their direction and the directions of everybody
are exchanged.  So are all links if the policies are heard alike in both orders, and only then if
no two of them are the same one; in the inferred ones the two policies and the two names in the
label are exchanged as well. -/
theorem links_compile_mirror (deduplicate : Bool) (policies : List Policy)
    (hplain : ∀ p ∈ policies, p.Plain)
    (h : (Build.ofPolicies deduplicate policies).SkipsNone)
    (hmirror : (Build.ofPolicies deduplicate (policies.map Policy.mirror)).SkipsNone) :
    (Build.ofPolicies deduplicate (policies.map Policy.mirror)).graph.links.Perm
        ((Build.ofPolicies deduplicate policies).graph.links.map Link.mirror) ∧
      (deduplicate = false ∨ HeardAlike policies ->
        (compile deduplicate (policies.map Policy.mirror)).links.Perm
          ((compile deduplicate policies).links.map Link.mirror)) ∧
      (deduplicate = true -> (policies.Pairwise fun p q => p.sameAs q = false) ->
        (compile deduplicate (policies.map Policy.mirror)).links.Perm
          ((compile deduplicate policies).links.map Link.mirror) -> HeardAlike policies) ∧
      ∀ link ∈ (compile deduplicate policies).links, link.crossPolicy = true ->
        ∃ first second, link.policies = [first, second] ∧
          link.label = some (first ++ " → " ++ second) := by
  cases deduplicate with
  | false =>
      have hown := Build.links_mirror_perm_own h hmirror
      refine ⟨hown, ?_, nofun, ?_⟩
      · intro _
        rw [compile_false_eq, compile_false_eq]
        exact hown
      · intro link hlink hcross
        rw [compile_false_eq, h.links_own_eq] at hlink
        rcases List.mem_map.mp hlink with ⟨o, _, rfl⟩
        cases hcross
  | true =>
      have hdirect := Build.links_mirror_perm_shared hplain h hmirror
      refine ⟨hdirect, ?_, ?_, ?_⟩
      · rintro (hmode | halike)
        · cases hmode
        · rw [← direct_compile hplain, ← direct_compile (Policy.plain_map_mirror hplain)] at hdirect
          have hinferred := inferred_mirror_perm hplain halike
          refine (inferred_append_direct_perm _).symm.trans ((hinferred.append hdirect).trans ?_)
          rw [← List.map_append]
          exact (inferred_append_direct_perm _).map Link.mirror
      · intro _ hdistinct hperm
        exact heardAlike_of_inferred_perm hplain hdistinct (inferred_perm_of_links_perm hperm)
      · intro link hlink hcross
        rcases exists_of_mem_inferred hplain (List.mem_filter.mpr ⟨hlink, hcross⟩) with
          ⟨owner, target, d, ports, combined, rfl⟩
        cases d with
        | ingress => exact ⟨target.name, owner.name, rfl, rfl⟩
        | egress => exact ⟨owner.name, target.name, rfl, rfl⟩

theorem plain_tradePolicies : ∀ p ∈ tradePolicies, p.Plain := by
  have htexts : ∀ p ∈ tradePolicies,
      ':' ∉ p.namespaceName.toList ∧ ¬ ['-', '>'] <:+: p.name.toList := by
    decide +kernel
  exact fun p hp => ⟨(htexts p hp).1, (htexts p hp).2⟩

/-- The shop that lets clients in becomes one that may go to them. -/
theorem links_compile_mirror_tradePolicies :
    (∀ p ∈ tradePolicies, p.Plain) ∧ (Build.ofPolicies true tradePolicies).SkipsNone ∧
      (Build.ofPolicies true (tradePolicies.map Policy.mirror)).SkipsNone ∧
      HeardAlike tradePolicies ∧
      ((compile true (tradePolicies.map Policy.mirror)).links.map
        fun link => (link.direction, link.policies, link.label)).Perm
        [(.egress, ["shop"], none), (.egress, ["shop"], none), (.ingress, ["clients"], none),
          (.egress, ["shop", "clients"], some "shop → clients"),
          (.ingress, ["shop", "clients"], some "shop → clients")] := by
  have hskip : (Build.ofPolicies true tradePolicies).SkipsNone := by
    apply Build.skipsNone_of_level
    decide +kernel
  have hmirror : (Build.ofPolicies true (tradePolicies.map Policy.mirror)).SkipsNone := by
    apply Build.skipsNone_of_level
    decide +kernel
  have halike : HeardAlike tradePolicies := heardAlike_of_typed (by decide)
  have hperm := (links_compile_mirror true tradePolicies plain_tradePolicies hskip hmirror).2.1
    (Or.inr halike)
  refine ⟨plain_tradePolicies, hskip, hmirror, halike, (hperm.map _).trans (List.Perm.of_eq ?_)⟩
  decide +kernel

def errandPolicies : List Policy :=
  let till := some ⟨some (Labels.ofList [("app", "till")]), none⟩
  let clerk := some ⟨some (Labels.ofList [("app", "clerk")]), none⟩
  [⟨"till", "store", till, some [.absent], some [.rule ⟨[.peer ⟨clerk, none, none⟩], .unset⟩], []⟩,
    ⟨"clerk", "store", clerk, none, none, []⟩]

/-- The till is not heard behind its empty entry, but with its directions exchanged its peer
comes first, and a link is inferred from it. -/
theorem not_links_mirror_errandPolicies :
    (∀ p ∈ errandPolicies, p.Plain) ∧ (Build.ofPolicies true errandPolicies).SkipsNone ∧
      (Build.ofPolicies true (errandPolicies.map Policy.mirror)).SkipsNone ∧
      ¬ (compile true (errandPolicies.map Policy.mirror)).links.Perm
        ((compile true errandPolicies).links.map Link.mirror) := by
  have htexts : ∀ p ∈ errandPolicies,
      ':' ∉ p.namespaceName.toList ∧ ¬ ['-', '>'] <:+: p.name.toList := by
    decide +kernel
  refine ⟨fun p hp => ⟨(htexts p hp).1, (htexts p hp).2⟩, ?_, ?_, ?_⟩
  · apply Build.skipsNone_of_level
    decide +kernel
  · apply Build.skipsNone_of_level
    decide +kernel
  · intro hperm
    have hlengths : (compile true (errandPolicies.map Policy.mirror)).links.length = 2 ∧
        ((compile true errandPolicies).links.map Link.mirror).length = 1 := by
      decide +kernel
    have hcount := hperm.length_eq
    rw [hlengths.1, hlengths.2] at hcount
    cases hcount

end Graph
end TrafficGraph
