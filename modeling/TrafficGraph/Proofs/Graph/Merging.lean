import Mathlib.Data.List.Induction
import TrafficGraph.Proofs.Graph.Breakdown

/-!
# Merging calls into a link

A caller contributes to a link on behalf of one policy after another.  The breakdown of the
link is built as the calls come in: it starts with the first call that names other ports
than the first one did, and grows in place.  It comes out as the first call and those of
other ports, grouped by their policies, so no list of ports is lost.
-/

namespace TrafficGraph

/-!
# Distinct ports
-/

def Ports.distinct (lists : List Ports) : List Ports :=
  lists.eraseDupsBy fun later earlier => earlier.same later

theorem eraseDupsBy_loop_concat {α : Type} (r : α → α → Bool) (xs kept : List α) (x : α) :
    List.eraseDupsBy.loop r (xs ++ [x]) kept =
      if (List.eraseDupsBy.loop r xs kept).any (r x) then List.eraseDupsBy.loop r xs kept
      else List.eraseDupsBy.loop r xs kept ++ [x] := by
  induction xs generalizing kept with
  | nil =>
      simp only [List.nil_append, List.eraseDupsBy.loop, List.any_reverse]
      cases kept.any (r x) <;> simp
  | cons y rest ih =>
      rw [List.cons_append, List.eraseDupsBy.loop, List.eraseDupsBy.loop]
      by_cases hy : kept.any (r y) = true
      · simp only [hy]
        exact ih kept
      · simp only [Bool.eq_false_iff.mpr hy]
        exact ih (y :: kept)

namespace Ports

theorem distinct_concat (lists : List Ports) (ports : Ports) :
    distinct (lists ++ [ports]) =
      if (distinct lists).any (·.same ports) then distinct lists
      else distinct lists ++ [ports] :=
  eraseDupsBy_loop_concat _ lists [] ports

theorem distinct_cons_of_differ {ports : Ports} {lists : List Ports}
    (h : ∀ other ∈ lists, ports.same other = false) :
    distinct (ports :: lists) = ports :: distinct lists := by
  unfold distinct
  rw [List.eraseDupsBy_cons, List.filter_eq_self.mpr]
  intro other hother
  exact decide_eq_true (h other hother)

theorem mem_of_mem_distinct {lists : List Ports} {ports : Ports} (h : ports ∈ distinct lists) :
    ports ∈ lists := by
  induction lists using List.reverseRecOn with
  | nil => cases h
  | append_singleton lists last ih =>
      rw [distinct_concat] at h
      rw [List.mem_append]
      split at h
      · exact Or.inl (ih h)
      · rcases List.mem_append.mp h with h | h
        · exact Or.inl (ih h)
        · exact Or.inr h

theorem exists_mem_distinct {lists : List Ports} {ports : Ports} (h : ports ∈ lists)
    (hrefl : ports.same ports = true) : ∃ shown ∈ distinct lists, shown.same ports = true := by
  induction lists using List.reverseRecOn with
  | nil => cases h
  | append_singleton lists last ih =>
      rw [distinct_concat]
      rcases List.mem_append.mp h with h | h
      · rcases ih h with ⟨shown, hshown, hsame⟩
        split
        · exact ⟨shown, hshown, hsame⟩
        · exact ⟨shown, List.mem_append_left _ hshown, hsame⟩
      · rw [List.mem_singleton.mp h] at hrefl ⊢
        split
        · rename_i hany
          exact List.any_eq_true.mp hany
        · exact ⟨last, List.mem_append_right _ List.mem_cons_self, hrefl⟩

end Ports

/-!
# Contributions by policy
-/

/-- What a caller contributes to a book: traffic between two nodes that a policy allows. -/
structure LinkCall where
  source : String
  target : String
  direction : Direction
  ports : Ports
  policy : String
  ruleIndex : Option Int

namespace LinkCall

def link (c : LinkCall) : Link :=
  .ofRule c.source c.target c.ports c.direction c.policy c.ruleIndex

def id (c : LinkCall) : String := linkId c.source c.target c.direction true c.policy

def portsOf (calls : List LinkCall) (name : String) : List Ports :=
  Ports.distinct ((calls.filter fun c => c.policy == name).map ports)

def grouped (calls : List LinkCall) : List Contribution :=
  (calls.map policy).eraseDups.map fun name => ⟨name, portsOf calls name⟩

def differing (first : LinkCall) (rest : List LinkCall) : List LinkCall :=
  rest.filter fun c => !first.ports.same c.ports

def otherPorts (first : LinkCall) (rest : List LinkCall) (name : String) : List Ports :=
  portsOf (differing first rest) name

def otherPolicies (first : LinkCall) (rest : List LinkCall) : List String :=
  ((differing first rest).map policy).eraseDups.filter fun name => name != first.policy

end LinkCall

theorem addContribution_append_of_not_mem {policy : String} {front : List Contribution}
    (h : policy ∉ front.map Contribution.policy) (ports : Ports) (back : List Contribution) :
    addContribution policy ports (front ++ back) =
      front ++ addContribution policy ports back := by
  induction front with
  | nil => rfl
  | cons c rest ih =>
      rw [List.map_cons, List.mem_cons, not_or] at h
      rw [List.cons_append, addContribution, if_neg fun hc => h.1 hc.symm, ih h.2]
      rfl

theorem addContribution_of_not_mem {policy : String} {contributions : List Contribution}
    (h : policy ∉ contributions.map Contribution.policy) (ports : Ports) :
    addContribution policy ports contributions = contributions ++ [⟨policy, [ports]⟩] := by
  have hend := addContribution_append_of_not_mem h ports []
  rwa [List.append_nil] at hend

theorem addContribution_map {names : List String} (hnodup : names.Nodup) {policy : String}
    {f g : String → List Ports} {ports : Ports} (hnone : policy ∉ names -> f policy = [])
    (hpolicy : g policy = if (f policy).any (·.same ports) then f policy else f policy ++ [ports])
    (hother : ∀ name, name ≠ policy -> g name = f name) :
    addContribution policy ports (names.map fun name => ⟨name, f name⟩) =
      (addName policy names).map fun name => ⟨name, g name⟩ := by
  have hkept : ∀ part : List String, policy ∉ part ->
      (part.map fun name => (⟨name, f name⟩ : Contribution)) =
        part.map fun name => ⟨name, g name⟩ := by
    intro part hpart
    apply List.map_congr_left
    intro name hname
    rw [hother name fun heq => hpart (heq ▸ hname)]
  have hnames : ∀ part : List String,
      (part.map fun name => (⟨name, f name⟩ : Contribution)).map Contribution.policy = part := by
    intro part
    rw [List.map_map]
    exact List.map_id part
  unfold addName
  -- the one place of the name is where the function changes
  by_cases hmem : policy ∈ names
  · rcases List.append_of_mem hmem with ⟨front, back, rfl⟩
    have hfront : policy ∉ front := fun h =>
      (List.nodup_append.mp hnodup).2.2 policy h policy List.mem_cons_self rfl
    have hback : policy ∉ back := (List.nodup_cons.mp (List.nodup_append.mp hnodup).2.1).1
    rw [if_pos (List.contains_iff_mem.mpr hmem), List.map_append, List.map_cons,
      addContribution_append_of_not_mem (by rwa [hnames]), addContribution, if_pos rfl,
      List.map_append, List.map_cons, hkept front hfront, hkept back hback, hpolicy]
  · rw [if_neg (mt List.contains_iff_mem.mp hmem), List.map_append,
      addContribution_of_not_mem (by rwa [hnames]), hkept names hmem, List.map_singleton, hpolicy,
      hnone hmem]
    rfl

theorem LinkCall.differing_concat (first : LinkCall) (rest : List LinkCall) (c : LinkCall) :
    differing first (rest ++ [c]) =
      if first.ports.same c.ports then differing first rest else differing first rest ++ [c] := by
  unfold differing
  rw [List.filter_append]
  cases hsame : first.ports.same c.ports <;> simp [hsame]

theorem LinkCall.grouped_concat (calls : List LinkCall) (c : LinkCall) :
    grouped (calls ++ [c]) = addContribution c.policy c.ports (grouped calls) := by
  unfold grouped
  rw [List.map_append, List.map_singleton, eraseDups_concat]
  symm
  apply addContribution_map (nodup_eraseDups _)
  · intro hnone
    have hfilter : (calls.filter fun other => other.policy == c.policy) = [] := by
      rw [List.filter_eq_nil_iff]
      intro other hother heq
      exact hnone (List.mem_eraseDups.mpr (eq_of_beq heq ▸ List.mem_map_of_mem hother))
    rw [portsOf, hfilter]
    rfl
  · simp only [portsOf, List.filter_append, List.map_append, List.filter_cons, beq_self_eq_true,
      List.filter_nil, if_true, List.map_cons, List.map_nil]
    exact Ports.distinct_concat _ _
  · intro name hname
    simp [portsOf, List.filter_append, hname.symm]

namespace LinkCall

variable {first : LinkCall} {rest : List LinkCall}

theorem mem_differing {c : LinkCall} :
    c ∈ differing first rest ↔ c ∈ rest ∧ first.ports.same c.ports = false := by
  rw [differing, List.mem_filter, Bool.not_eq_true']

theorem exists_call_of_mem_portsOf {calls : List LinkCall} {name : String} {ports : Ports}
    (h : ports ∈ portsOf calls name) : ∃ c ∈ calls, c.ports = ports := by
  rcases List.mem_map.mp (Ports.mem_of_mem_distinct h) with ⟨c, hc, hports⟩
  exact ⟨c, List.mem_of_mem_filter hc, hports⟩

theorem exists_call_of_mem_grouped {calls : List LinkCall} {contribution : Contribution}
    {ports : Ports} (h : contribution ∈ grouped calls) (hports : ports ∈ contribution.ports) :
    ∃ c ∈ calls, c.ports = ports := by
  rcases List.mem_map.mp h with ⟨name, _, rfl⟩
  exact exists_call_of_mem_portsOf hports

theorem exists_same_of_mem {calls : List LinkCall} {c : LinkCall} (hc : c ∈ calls)
    (hrefl : c.ports.same c.ports = true) :
    ∃ contribution ∈ grouped calls, ∃ ports ∈ contribution.ports, ports.same c.ports = true := by
  have hname : c.policy ∈ (calls.map policy).eraseDups :=
    List.mem_eraseDups.mpr (List.mem_map_of_mem hc)
  have hports : c.ports ∈ (calls.filter fun other => other.policy == c.policy).map ports :=
    List.mem_map_of_mem (List.mem_filter.mpr ⟨hc, beq_self_eq_true _⟩)
  exact ⟨_, List.mem_map_of_mem hname, Ports.exists_mem_distinct hports hrefl⟩

theorem same_of_mem_otherPorts {name : String} {ports : Ports}
    (h : ports ∈ otherPorts first rest name) : first.ports.same ports = false := by
  rcases exists_call_of_mem_portsOf h with ⟨c, hc, rfl⟩
  exact (mem_differing.mp hc).2

theorem grouped_eq (first : LinkCall) (rest : List LinkCall) :
    grouped (first :: differing first rest) =
      ⟨first.policy, first.ports :: otherPorts first rest first.policy⟩ ::
        (otherPolicies first rest).map fun name => ⟨name, otherPorts first rest name⟩ := by
  have hfirst : portsOf (first :: differing first rest) first.policy =
      first.ports :: otherPorts first rest first.policy := by
    rw [portsOf, List.filter_cons_of_pos (by simp), List.map_cons]
    apply Ports.distinct_cons_of_differ
    intro ports hports
    rcases List.mem_map.mp hports with ⟨c, hc, rfl⟩
    exact (mem_differing.mp (List.mem_of_mem_filter hc)).2
  rw [grouped, List.map_cons, List.eraseDups_cons, List.map_cons, hfirst, otherPolicies,
    filter_eraseDups]
  congr 1
  apply List.map_congr_left
  intro name hname
  have hne : name ≠ first.policy := by
    simpa using (List.mem_filter.mp (List.mem_eraseDups.mp hname)).2
  rw [portsOf, List.filter_cons_of_neg (by simpa using hne.symm)]
  rfl

end LinkCall

/-!
# Merging calls into a link
-/

open LinkCall

def Link.mergeCalls (link : Link) (calls : List LinkCall) : Link :=
  calls.foldl (fun merged c => merged.merge c.policy c.ports) link

namespace Link

theorem mergeCalls_concat (link : Link) (calls : List LinkCall) (c : LinkCall) :
    link.mergeCalls (calls ++ [c]) = (link.mergeCalls calls).merge c.policy c.ports :=
  List.foldl_concat ..

theorem ports_mergeCalls (link : Link) (calls : List LinkCall) :
    (link.mergeCalls calls).ports = link.ports := by
  induction calls using List.reverseRecOn with
  | nil => rfl
  | append_singleton calls c ih => rw [mergeCalls_concat, ports_merge, ih]

theorem policies_mergeCalls (first : LinkCall) (rest : List LinkCall) :
    (first.link.mergeCalls rest).policies = ((first :: rest).map LinkCall.policy).eraseDups := by
  induction rest using List.reverseRecOn with
  | nil => simp [mergeCalls, LinkCall.link, ofRule, List.eraseDups_cons]
  | append_singleton rest c ih =>
      rw [mergeCalls_concat, policies_merge, ih, ← eraseDups_concat]
      simp

theorem breakdownOrFirst_merge {link : Link} (h : link.policies ≠ []) (policy : String)
    (ports : Ports) :
    (link.merge policy ports).breakdownOrFirst =
      if link.ports.same ports then link.breakdownOrFirst
      else addContribution policy ports link.breakdownOrFirst := by
  have hfirst : { link with policies := addName policy link.policies }.breakdownOrFirst =
      link.breakdownOrFirst := by
    unfold breakdownOrFirst addName
    split
    · rfl
    · rcases List.exists_cons_of_ne_nil h with ⟨name, names, hnames⟩
      simp [hnames]
  unfold merge
  simp only
  split
  · exact hfirst
  · rw [hfirst]
    rfl

theorem marksBreakdown_mergeCalls (first : LinkCall) (rest : List LinkCall) :
    (first.link.mergeCalls rest).MarksBreakdown := by
  induction rest using List.reverseRecOn with
  | nil => rfl
  | append_singleton rest c ih =>
      rw [mergeCalls_concat]
      exact ih.merge c.policy c.ports

/-- The breakdown of merged calls groups the first one and those of other ports by policy. -/
theorem breakdown_mergeCalls (first : LinkCall) (rest : List LinkCall) :
    (first.link.mergeCalls rest).breakdownOrFirst = grouped (first :: differing first rest) ∧
      ((first.link.mergeCalls rest).breakdown.isSome = true ↔ differing first rest ≠ []) := by
  induction rest using List.reverseRecOn with
  | nil =>
      have hgrouped : grouped [first] = [⟨first.policy, [first.ports]⟩] := by
        simp [grouped, portsOf, Ports.distinct, List.eraseDups_cons, List.eraseDupsBy_cons]
      rw [show differing first [] = [] from rfl, hgrouped]
      exact ⟨rfl, by simp [mergeCalls, LinkCall.link, ofRule]⟩
  | append_singleton rest c ih =>
      have hnames : (first.link.mergeCalls rest).policies ≠ [] := by
        rw [policies_mergeCalls, List.map_cons, List.eraseDups_cons]
        exact List.cons_ne_nil _ _
      have hports : (first.link.mergeCalls rest).ports = first.ports := ports_mergeCalls _ _
      rw [mergeCalls_concat, breakdownOrFirst_merge hnames, breakdown_merge, hports,
        differing_concat, ih.1]
      -- a call of the first ports leaves the breakdown and its calls alone
      by_cases hsame : first.ports.same c.ports = true
      · rw [if_pos hsame, if_pos hsame, if_pos hsame]
        exact ⟨rfl, ih.2⟩
      · rw [if_neg hsame, if_neg hsame, if_neg hsame, ← List.cons_append, grouped_concat]
        exact ⟨rfl, by simp⟩

end Link

/-!
# What a link retains of its calls
-/

def Contribution.text (c : Contribution) : String :=
  c.policy ++ ": " ++ "; ".intercalate (c.ports.map fun ports => ports.text?.getD "")

/-- What a link tells of the calls that were made for it, the first one and the rest. -/
structure Link.Retains (link : Link) (first : LinkCall) (rest : List LinkCall) : Prop where
  ports : link.ports = first.ports
  policies : link.policies = ((first :: rest).map LinkCall.policy).eraseDups
  /-- The link has a breakdown exactly if some call names other ports than the first one. -/
  isSome_breakdown : link.breakdown.isSome = true ↔
    ∃ c ∈ rest, first.ports.same c.ports = false
  marksBreakdown : link.MarksBreakdown
  /-- The first policy comes first with the first ports in front, and behind it come the
  policies that named other ports, in the order in which they did. -/
  breakdown : ∀ contributions, link.breakdown = some contributions ->
    contributions =
      ⟨first.policy, first.ports :: otherPorts first rest first.policy⟩ ::
        (otherPolicies first rest).map fun name => ⟨name, otherPorts first rest name⟩
  /-- None but the first policy has the first ports in the breakdown. -/
  differ : ∀ contributions, link.breakdown = some contributions ->
    ∀ c ∈ contributions.tail, ∀ ports ∈ c.ports, first.ports.same ports = false
  /-- Whatever ports were named are in the breakdown. -/
  shown : ∀ contributions, link.breakdown = some contributions -> ∀ c ∈ first :: rest,
    ∃ contribution ∈ contributions, ∃ ports ∈ contribution.ports, ports.same c.ports = true
  /-- The text of the breakdown has a line for each policy in it. -/
  text : ∀ contributions, link.breakdown = some contributions ->
    (∀ c ∈ first :: rest, c.ports.text?.isSome = true) ->
    link.breakdownText? = .ok (some ("\n".intercalate (contributions.map Contribution.text)))

theorem mapM_eq_some_map {α β : Type} {f : α → Option β} {g : α → β} {xs : List α}
    (h : ∀ x ∈ xs, f x = some (g x)) : xs.mapM f = some (xs.map g) := by
  induction xs with
  | nil => rfl
  | cons x rest ih =>
      rw [List.mapM_cons, h x List.mem_cons_self,
        ih fun y hy => h y (List.mem_cons_of_mem x hy)]
      rfl

theorem Contribution.contributionText?_eq {c : Contribution}
    (h : ∀ ports ∈ c.ports, ports.text?.isSome = true) :
    Link.contributionText? c = some c.text := by
  have hports : c.ports.mapM Ports.text? = some (c.ports.map fun ports => ports.text?.getD "") := by
    apply mapM_eq_some_map
    intro ports hmem
    rcases Option.isSome_iff_exists.mp (h ports hmem) with ⟨text, htext⟩
    rw [htext, Option.getD_some]
  rw [Link.contributionText?, hports]
  rfl

namespace Link

theorem retains_mergeCalls (first : LinkCall) (rest : List LinkCall)
    (hports : ∀ c ∈ first :: rest, c.ports.WellFormed) :
    (first.link.mergeCalls rest).Retains first rest := by
  rcases breakdown_mergeCalls first rest with ⟨hgrouped, hsome⟩
  have hbreakdown : ∀ contributions, (first.link.mergeCalls rest).breakdown = some contributions ->
      contributions = grouped (first :: differing first rest) := by
    intro contributions h
    rw [breakdownOrFirst, h, Option.getD_some] at hgrouped
    exact hgrouped
  refine
    { ports := ports_mergeCalls first.link rest
      policies := policies_mergeCalls first rest
      isSome_breakdown := ?_
      marksBreakdown := marksBreakdown_mergeCalls first rest
      breakdown := ?_
      differ := ?_
      shown := ?_
      text := ?_ }
  · rw [hsome]
    constructor
    · intro hne
      rcases List.exists_mem_of_ne_nil _ hne with ⟨c, hc⟩
      exact ⟨c, mem_differing.mp hc⟩
    · rintro ⟨c, hc⟩
      exact List.ne_nil_of_mem (mem_differing.mpr hc)
  · intro contributions h
    rw [hbreakdown contributions h, grouped_eq]
  · intro contributions h c hc ports hmem
    rw [hbreakdown contributions h, grouped_eq, List.tail_cons] at hc
    rcases List.mem_map.mp hc with ⟨name, _, rfl⟩
    exact same_of_mem_otherPorts hmem
  · intro contributions h c hc
    rw [hbreakdown contributions h]
    have hrefl : c.ports.same c.ports = true := Ports.same_refl (hports c hc)
    by_cases hsame : first.ports.same c.ports = true
    · rw [grouped_eq]
      exact ⟨_, List.mem_cons_self, first.ports, List.mem_cons_self, hsame⟩
    · apply exists_same_of_mem _ hrefl
      rcases List.mem_cons.mp hc with rfl | hrest
      · exact List.mem_cons_self
      · exact List.mem_cons_of_mem _ (mem_differing.mpr ⟨hrest, Bool.eq_false_iff.mpr hsame⟩)
  · intro contributions h htext
    have hlines : contributions.mapM contributionText? =
        some (contributions.map Contribution.text) := by
      apply mapM_eq_some_map
      intro c hc
      rw [hbreakdown contributions h] at hc
      apply Contribution.contributionText?_eq
      intro ports hmem
      rcases exists_call_of_mem_grouped hc hmem with ⟨call, hcall, rfl⟩
      apply htext
      rcases List.mem_cons.mp hcall with rfl | hcall
      · exact List.mem_cons_self
      · exact List.mem_cons_of_mem _ (mem_differing.mp hcall).1
    have hshown : (first.link.mergeCalls rest).shownContributions = contributions := by
      rw [shownContributions, marksBreakdown_mergeCalls, h]
      rfl
    have hne : contributions ≠ [] := by
      rw [hbreakdown contributions h, grouped_eq]
      exact List.cons_ne_nil _ _
    rw [breakdownText?, hshown]
    cases contributions with
    | nil => exact absurd rfl hne
    | cons c more => simp only [hlines]

end Link

end TrafficGraph
